import VehicleRelay.Json.Value

/-!
# Reading JSON

The readers take the characters that belong to one item from the front of a
text and give what is left.  A text is JSON when one value is all that it holds
between blanks.
-/

namespace VehicleRelay

namespace JsonText

def isBlank (character : Char) : Bool :=
  character == ' ' || character == '\t' || character == '\n' || character == '\r'

def skipBlanks (text : List Char) : List Char :=
  text.dropWhile isBlank

/-- One digit or more. -/
def readDigits (text : List Char) : Option (List Char × List Char) :=
  match text.takeWhile Char.isDigit with
  | [] => none
  | digits => some (digits, text.dropWhile Char.isDigit)

/-- Digits without a leading zero. -/
def readWhole (text : List Char) : Option (List Char × List Char) := do
  let (digits, rest) ← readDigits text
  match digits with
  | '0' :: _ :: _ => none
  | _ => some (digits, rest)

def readFraction (text : List Char) : Option (List Char × List Char) :=
  match text with
  | '.' :: rest => readDigits rest
  | _ => some ([], text)

def readExponent (text : List Char) : Option (Option (Bool × List Char) × List Char) :=
  match text with
  | 'e' :: rest | 'E' :: rest => do
      let (negative, rest) :=
        match rest with
        | '-' :: rest => (true, rest)
        | '+' :: rest => (false, rest)
        | _ => (false, rest)
      let (digits, rest) ← readDigits rest
      some (some (negative, digits), rest)
  | _ => some (none, text)

def readNumber (text : List Char) : Option (NumberLiteral × List Char) := do
  let (negative, text) :=
    match text with
    | '-' :: rest => (true, rest)
    | _ => (false, text)
  let (whole, text) ← readWhole text
  let (fraction, text) ← readFraction text
  let (exponent, text) ← readExponent text
  some (⟨negative, whole, fraction, exponent⟩, text)

/-- One piece of a string: a character, or the number of a code unit. -/
inductive Piece
  | plain (character : Char)
  | unit (number : Nat)
deriving DecidableEq, Repr

def hexValue? (character : Char) : Option Nat :=
  if '0' ≤ character ∧ character ≤ '9' then some (character.toNat - '0'.toNat)
  else if 'a' ≤ character ∧ character ≤ 'f' then some (character.toNat - 'a'.toNat + 10)
  else if 'A' ≤ character ∧ character ≤ 'F' then some (character.toNat - 'A'.toNat + 10)
  else none

def unitValue? (first second third fourth : Char) : Option Nat := do
  let first ← hexValue? first
  let second ← hexValue? second
  let third ← hexValue? third
  let fourth ← hexValue? fourth
  some (((first * 16 + second) * 16 + third) * 16 + fourth)

def shortEscape? (character : Char) : Option Char :=
  match character with
  | '"' => some '"'
  | '\\' => some '\\'
  | '/' => some '/'
  | 'b' => some '\x08'
  | 'f' => some '\x0c'
  | 'n' => some '\n'
  | 'r' => some '\r'
  | 't' => some '\t'
  | _ => none

/-- The pieces of a string up to its closing quote. -/
def readPieces : List Char → Option (List Piece × List Char)
  | [] => none
  | '"' :: rest => some ([], rest)
  | '\\' :: 'u' :: first :: second :: third :: fourth :: rest => do
      let number ← unitValue? first second third fourth
      let (pieces, rest) ← readPieces rest
      some (.unit number :: pieces, rest)
  | '\\' :: letter :: rest => do
      let character ← shortEscape? letter
      let (pieces, rest) ← readPieces rest
      some (.plain character :: pieces, rest)
  | character :: rest =>
      if character.toNat < 0x20 ∨ character = '\\' then none
      else do
        let (pieces, rest) ← readPieces rest
        some (.plain character :: pieces, rest)

def isHighSurrogate (number : Nat) : Bool :=
  0xd800 ≤ number && number < 0xdc00

def isLowSurrogate (number : Nat) : Bool :=
  0xdc00 ≤ number && number < 0xe000

/-- The characters of pieces; a code unit of a surrogate pair needs the other
one. -/
def joinPieces : List Piece → Option (List Char)
  | [] => some []
  | .plain character :: pieces => (joinPieces pieces).map (character :: ·)
  | .unit number :: pieces =>
      if isLowSurrogate number then none
      else if isHighSurrogate number then
        match pieces with
        | .unit second :: pieces =>
            if isLowSurrogate second then
              let character :=
                Char.ofNat (0x10000 + (number - 0xd800) * 0x400 + (second - 0xdc00))
              (joinPieces pieces).map (character :: ·)
            else none
        | _ => none
      else (joinPieces pieces).map (Char.ofNat number :: ·)

/-- The contents of a string after its opening quote. -/
def readString (text : List Char) : Option (Option String × List Char) := do
  let (pieces, rest) ← readPieces text
  some ((joinPieces pieces).map String.ofList, rest)

mutual

/-- One value, for as many nested steps as given. -/
def readValue : Nat → List Char → Option (JsonValue × List Char)
  | 0, _ => none
  | steps + 1, text =>
      match skipBlanks text with
      | 'n' :: 'u' :: 'l' :: 'l' :: rest => some (.null, rest)
      | 't' :: 'r' :: 'u' :: 'e' :: rest => some (.bool true, rest)
      | 'f' :: 'a' :: 'l' :: 's' :: 'e' :: rest => some (.bool false, rest)
      | '"' :: rest => do
          let (contents, rest) ← readString rest
          some (.text contents, rest)
      | '[' :: rest =>
          match skipBlanks rest with
          | ']' :: rest => some (.array [], rest)
          | rest => do
              let (items, rest) ← readItems steps rest
              some (.array items, rest)
      | '\x7b' :: rest =>
          match skipBlanks rest with
          | '\x7d' :: rest => some (.object [], rest)
          | rest => do
              let (members, rest) ← readMembers steps rest
              some (.object members, rest)
      | rest => do
          let (literal, rest) ← readNumber rest
          some (.number literal, rest)

/-- The items of an array up to its end. -/
def readItems : Nat → List Char → Option (List JsonValue × List Char)
  | 0, _ => none
  | steps + 1, text => do
      let (item, rest) ← readValue steps text
      match skipBlanks rest with
      | ']' :: rest => some ([item], rest)
      | ',' :: rest => do
          let (items, rest) ← readItems steps rest
          some (item :: items, rest)
      | _ => none

/-- The members of an object up to its end. -/
def readMembers : Nat → List Char → Option (List (Option String × JsonValue) × List Char)
  | 0, _ => none
  | steps + 1, text =>
      match skipBlanks text with
      | '"' :: rest => do
          let (name, rest) ← readString rest
          match skipBlanks rest with
          | ':' :: rest => do
              let (value, rest) ← readValue steps rest
              match skipBlanks rest with
              | '\x7d' :: rest => some ([(name, value)], rest)
              | ',' :: rest => do
                  let (members, rest) ← readMembers steps rest
                  some ((name, value) :: members, rest)
              | _ => none
          | _ => none
      | _ => none

end

end JsonText

/-- A whole text; each character of it allows two nested steps, which is more
than any text can use. -/
def JsonValue.ofText? (text : String) : Option JsonValue := do
  let characters := text.toList
  let (value, rest) ← JsonText.readValue (2 * characters.length + 2) characters
  if JsonText.skipBlanks rest = [] then some value else none

end VehicleRelay
