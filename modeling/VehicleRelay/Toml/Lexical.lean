/-!
# Lexical rules of TOML

Blanks, comments, line ends and strings.  A reader takes what it reads from the
front of a text and gives what is left.
-/

namespace VehicleRelay.Toml

abbrev Reader (α : Type) := List Char → Option (α × List Char)

def isBlank (character : Char) : Bool :=
  character == ' ' || character == '\t'

def skipBlanks (text : List Char) : List Char :=
  text.dropWhile isBlank

/-- A tab or a character that is neither a control character nor a delete. -/
def isPrintable (character : Char) : Bool :=
  character == '\t' || (0x20 ≤ character.toNat && character.toNat != 0x7f)

/-- What is left after a line end. -/
def afterNewline? : List Char → Option (List Char)
  | '\n' :: rest => some rest
  | '\r' :: '\n' :: rest => some rest
  | _ => none

def skipComment : List Char → List Char
  | '#' :: rest => rest.dropWhile isPrintable
  | text => text

/-- What is left after the end of a line, which a comment may precede. -/
def afterLine? (text : List Char) : Option (List Char) :=
  match skipComment (skipBlanks text) with
  | [] => some []
  | rest => afterNewline? rest

/-- Skips blanks, line ends and comments. -/
def skipGaps (comment : Bool) : List Char → List Char
  | [] => []
  | '\r' :: '\n' :: rest => skipGaps false rest
  | character :: rest =>
      if character = '\n' then skipGaps false rest
      else if comment then
        if isPrintable character then skipGaps true rest else character :: rest
      else if isBlank character then skipGaps false rest
      else if character = '#' then skipGaps true rest
      else character :: rest

def hexValue? (character : Char) : Option Nat :=
  if '0' ≤ character ∧ character ≤ '9' then some (character.toNat - '0'.toNat)
  else if 'a' ≤ character ∧ character ≤ 'f' then some (character.toNat - 'a'.toNat + 10)
  else if 'A' ≤ character ∧ character ≤ 'F' then some (character.toNat - 'A'.toNat + 10)
  else none

/-- The character whose number is written with the given hexadecimal digits. -/
def scalar? (digits : List Char) : Option Char := do
  let values ← digits.mapM hexValue?
  let number := values.foldl (fun sum value => sum * 16 + value) 0
  if number.isValidChar then some (Char.ofNat number) else none

/-- The character of an escape without its backslash. -/
def readEscape : Reader Char
  | 'b' :: rest => some ('\x08', rest)
  | 't' :: rest => some ('\t', rest)
  | 'n' :: rest => some ('\n', rest)
  | 'f' :: rest => some ('\x0c', rest)
  | 'r' :: rest => some ('\r', rest)
  | '"' :: rest => some ('"', rest)
  | '\\' :: rest => some ('\\', rest)
  | 'u' :: rest => hexadecimal 4 rest
  | 'U' :: rest => hexadecimal 8 rest
  | _ => none
where
  hexadecimal (count : Nat) (text : List Char) : Option (Char × List Char) := do
    let digits := text.take count
    if digits.length = count then
      let character ← scalar? digits
      some (character, text.drop count)
    else none

/-- The rest of a basic string, with at most as many characters as steps. -/
def readBasic : Nat → Reader (List Char)
  | 0, _ => none
  | steps + 1, text =>
      match text with
      | '"' :: rest => some ([], rest)
      | '\\' :: rest => do
          let (character, rest) ← readEscape rest
          let (characters, rest) ← readBasic steps rest
          some (character :: characters, rest)
      | character :: rest =>
          if isPrintable character then do
            let (characters, rest) ← readBasic steps rest
            some (character :: characters, rest)
          else none
      | [] => none

/-- The rest of a basic string of several lines.  A backslash at the end of a
line drops the line end and the blanks and line ends after it; up to two quotes
may stand before the closing ones. -/
def readBasicLines : Nat → Reader (List Char)
  | 0, _ => none
  | steps + 1, text =>
      match text with
      | '"' :: '"' :: '"' :: '"' :: '"' :: rest => some (['"', '"'], rest)
      | '"' :: '"' :: '"' :: '"' :: rest => some (['"'], rest)
      | '"' :: '"' :: '"' :: rest => some ([], rest)
      | '\\' :: rest =>
          match afterNewline? (skipBlanks rest) with
          | some rest => readBasicLines steps (skipLines rest)
          | none => do
              let (character, rest) ← readEscape rest
              let (characters, rest) ← readBasicLines steps rest
              some (character :: characters, rest)
      | character :: rest =>
          match afterNewline? text with
          | some rest => do
              let (characters, rest) ← readBasicLines steps rest
              some ('\n' :: characters, rest)
          | none =>
              if isPrintable character then do
                let (characters, rest) ← readBasicLines steps rest
                some (character :: characters, rest)
              else none
      | [] => none
where
  skipLines : List Char → List Char
    | '\r' :: '\n' :: rest => skipLines rest
    | character :: rest =>
        if character = '\n' ∨ isBlank character then skipLines rest else character :: rest
    | [] => []

/-- The rest of a literal string. -/
def readLiteral : Reader (List Char)
  | '\'' :: rest => some ([], rest)
  | character :: rest =>
      if isPrintable character then do
        let (characters, rest) ← readLiteral rest
        some (character :: characters, rest)
      else none
  | [] => none

/-- The rest of a literal string of several lines. -/
def readLiteralLines : Reader (List Char)
  | '\'' :: '\'' :: '\'' :: '\'' :: '\'' :: rest => some (['\'', '\''], rest)
  | '\'' :: '\'' :: '\'' :: '\'' :: rest => some (['\''], rest)
  | '\'' :: '\'' :: '\'' :: rest => some ([], rest)
  | '\r' :: '\n' :: rest => do
      let (characters, rest) ← readLiteralLines rest
      some ('\n' :: characters, rest)
  | character :: rest =>
      if character = '\n' ∨ isPrintable character then do
        let (characters, rest) ← readLiteralLines rest
        some (character :: characters, rest)
      else none
  | [] => none

/-- A line end right after the opening quotes belongs to no string. -/
def skipFirstNewline (text : List Char) : List Char :=
  (afterNewline? text).getD text

/-- A string on one line, which may also be a part of a key. -/
def readQuoted : Reader String
  | '"' :: rest => do
      let (characters, rest) ← readBasic (rest.length + 1) rest
      some (String.ofList characters, rest)
  | '\'' :: rest => do
      let (characters, rest) ← readLiteral rest
      some (String.ofList characters, rest)
  | _ => none

def readString : Reader String
  | '"' :: '"' :: '"' :: rest => do
      let body := skipFirstNewline rest
      let (characters, rest) ← readBasicLines (body.length + 1) body
      some (String.ofList characters, rest)
  | '\'' :: '\'' :: '\'' :: rest => do
      let (characters, rest) ← readLiteralLines (skipFirstNewline rest)
      some (String.ofList characters, rest)
  | text => readQuoted text

end VehicleRelay.Toml
