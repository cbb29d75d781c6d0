import VehicleRelay.Binary.Rounding
import VehicleRelay.Toml.Lexical
import VehicleRelay.Toml.Value

/-!
# Numbers and times of TOML

Integers have 64 bits.  A floating point number may be infinite only when it is
written so, or when it is negative.
-/

namespace VehicleRelay.Toml

/-- Digits with single underscores between them, which are dropped. -/
def readRun (isDigit : Char → Bool) : Reader (List Char)
  | character :: rest =>
      if isDigit character then
        let (digits, rest) := more rest
        some (character :: digits, rest)
      else none
  | [] => none
where
  more : List Char → List Char × List Char
    | '_' :: character :: rest =>
        if isDigit character then
          let (digits, rest) := more rest
          (character :: digits, rest)
        else ([], '_' :: character :: rest)
    | character :: rest =>
        if isDigit character then
          let (digits, rest) := more rest
          (character :: digits, rest)
        else ([], character :: rest)
    | [] => ([], [])

/-- A sign, true for minus. -/
def readSign : List Char → Bool × List Char
  | '-' :: rest => (true, rest)
  | '+' :: rest => (false, rest)
  | text => (false, text)

/-- Decimal digits without a leading zero. -/
def readWhole : Reader (List Char)
  | '0' :: rest => some (['0'], rest)
  | text => readRun Char.isDigit text

def digitsValue (base : Nat) (digits : List Char) : Nat :=
  digits.foldl (fun sum digit => sum * base + (hexValue? digit).getD 0) 0

/-- Whether a positive decimal is read as a finite double precision number. -/
def isFiniteDecimal (digits : List Char) (exponent : Int) : Bool :=
  let significand := digitsValue 10 digits
  if significand = 0 ∨ exponent + digits.length < -400 then true
  else if 400 < exponent + ((Nat.toDigits 10 significand).length : Int) then false
  else
    Binary.double.round (Binary.Ratio.scale ⟨significand, 1⟩ 10 exponent)
      < Binary.double.infinity

def readExponent (text : List Char) : Option (Int × List Char) :=
  match text with
  | 'e' :: rest | 'E' :: rest => do
      let (negative, rest) := readSign rest
      let (digits, rest) ← readRun Char.isDigit rest
      let magnitude : Int := digitsValue 10 digits
      some (if negative then -magnitude else magnitude, rest)
  | _ => none

/-- The characters by which a text is longer than its end. -/
def consumed (text rest : List Char) : String :=
  String.ofList (text.take (text.length - rest.length))

def readFloat (text : List Char) : Option (TomlValue × List Char) := do
  let (negative, unsigned) := readSign text
  match unsigned with
  | 'i' :: 'n' :: 'f' :: rest | 'n' :: 'a' :: 'n' :: rest =>
      some (.float (consumed text rest), rest)
  | _ =>
      let (whole, rest) ← readWhole unsigned
      let (fraction, exponent, rest) ←
        match rest with
        | '.' :: rest => do
            let (fraction, rest) ← readRun Char.isDigit rest
            match readExponent rest with
            | some (exponent, rest) => some (fraction, exponent, rest)
            | none => some (fraction, 0, rest)
        | _ => do
            let (exponent, rest) ← readExponent rest
            some ([], exponent, rest)
      if negative || isFiniteDecimal (whole ++ fraction) (exponent - fraction.length) then
        some (.float (consumed text rest), rest)
      else none

def integer? (number : Int) : Option TomlValue :=
  if Int64.minValue.toInt ≤ number ∧ number ≤ Int64.maxValue.toInt then some (.integer number)
  else none

def readInteger (text : List Char) : Option (TomlValue × List Char) :=
  match text with
  | '0' :: 'x' :: rest => based 16 rest
  | '0' :: 'o' :: rest => based 8 rest
  | '0' :: 'b' :: rest => based 2 rest
  | _ => do
      let (negative, rest) := readSign text
      let (digits, rest) ← readWhole rest
      let magnitude : Int := digitsValue 10 digits
      let value ← integer? (if negative then -magnitude else magnitude)
      some (value, rest)
where
  based (base : Nat) (text : List Char) : Option (TomlValue × List Char) := do
    let isDigit (character : Char) : Bool :=
      match hexValue? character with
      | some value => value < base
      | none => false
    let (digits, rest) ← readRun isDigit text
    let value ← integer? (digitsValue base digits)
    some (value, rest)

/-- A number of exactly the given count of digits, within bounds. -/
def readField (count least greatest : Nat) (text : List Char) : Option (Nat × List Char) :=
  let digits := text.take count
  let value := digitsValue 10 digits
  if digits.length = count ∧ digits.all Char.isDigit ∧ least ≤ value ∧ value ≤ greatest then
    some (value, text.drop count)
  else none

def daysInMonth (year month : Nat) : Nat :=
  if month = 2 then
    if year % 4 = 0 ∧ (year % 100 ≠ 0 ∨ year % 400 = 0) then 29 else 28
  else if month = 4 ∨ month = 6 ∨ month = 9 ∨ month = 11 then 30
  else 31

def expect (character : Char) : List Char → Option (List Char)
  | first :: rest => if first = character then some rest else none
  | [] => none

/-- What is left after a date. -/
def afterDate? (text : List Char) : Option (List Char) := do
  let (year, rest) ← readField 4 0 9999 text
  let rest ← expect '-' rest
  let (month, rest) ← readField 2 1 12 rest
  let rest ← expect '-' rest
  let (_, rest) ← readField 2 1 (daysInMonth year month) rest
  some rest

def afterFraction (text : List Char) : List Char :=
  match text with
  | '.' :: digit :: rest => if digit.isDigit then rest.dropWhile Char.isDigit else text
  | _ => text

/-- What is left after a time of day, whose seconds may be sixty. -/
def afterTimeOfDay? (text : List Char) : Option (List Char) := do
  let (_, rest) ← readField 2 0 23 text
  let rest ← expect ':' rest
  let (_, rest) ← readField 2 0 59 rest
  let rest ← expect ':' rest
  let (_, rest) ← readField 2 0 60 rest
  some (afterFraction rest)

def afterOffset? (text : List Char) : Option (List Char) :=
  match text with
  | 'Z' :: rest | 'z' :: rest => some rest
  | '+' :: rest | '-' :: rest => do
      let (_, rest) ← readField 2 0 23 rest
      let rest ← expect ':' rest
      let (_, rest) ← readField 2 0 59 rest
      some rest
  | _ => none

/-- What is left after the time of day that may follow a date. -/
def afterDatedTime (text : List Char) : List Char :=
  match text with
  | separator :: rest =>
      if separator = 'T' ∨ separator = 't' ∨ separator = ' ' then
        match afterTimeOfDay? rest with
        | some rest => (afterOffset? rest).getD rest
        | none => text
      else text
  | [] => []

def readTime (text : List Char) : Option (TomlValue × List Char) :=
  match (afterDate? text).map afterDatedTime <|> afterTimeOfDay? text with
  | some rest => some (.time (consumed text rest), rest)
  | none => none

def readNumber (text : List Char) : Option (TomlValue × List Char) :=
  readTime text <|> readFloat text <|> readInteger text

end VehicleRelay.Toml
