import VehicleRelay.Binary.Single
import VehicleRelay.Decimal.Integer
import VehicleRelay.Decimal.Shortest

/-!
# Number literals

A number literal keeps the digits that a number is written with.  It is read as
an integer only when it is written as one, and as a floating point number in
any case.
-/

namespace VehicleRelay

structure NumberLiteral where
  negative : Bool
  whole : List Char
  fraction : List Char := []
  /-- Whether the exponent is negative, and its digits. -/
  exponent : Option (Bool × List Char) := none
deriving DecidableEq, Repr, Inhabited

namespace NumberLiteral

def digitsValue (digits : List Char) : Nat :=
  Nat.ofDigitChars 10 digits 0

def ofInt (number : Int) : NumberLiteral where
  negative := number < 0
  whole := Decimal.digits number.natAbs

/-- The integer that is written; a negative zero is no integer. -/
def toInt? (literal : NumberLiteral) : Option Int :=
  match literal.fraction, literal.exponent with
  | [], none =>
      let magnitude := digitsValue literal.whole
      if literal.negative then
        if magnitude = 0 then none else some (-magnitude)
      else some magnitude
  | _, _ => none

/-- The value of the exponent, zero where none is written. -/
def exponentValue (literal : NumberLiteral) : Int :=
  match literal.exponent with
  | none => 0
  | some (true, digits) => -(digitsValue digits : Int)
  | some (false, digits) => digitsValue digits

/-- Takes digits into a significand while it fits 64 bits, and gives the digits
that are left. -/
def absorb (significand : Nat) : List Char → Nat × List Char
  | [] => (significand, [])
  | digit :: digits =>
      let next := significand * 10 + (digit.toNat - '0'.toNat)
      if next < UInt64.size then absorb next digits else (significand, digit :: digits)

/-- The leading digits that fit 64 bits, and the power of ten of the last of
them.  Digits after those are dropped. -/
def leading (literal : NumberLiteral) : Nat × Int :=
  let (start, dropped) := absorb 0 literal.whole
  let (significand, unread) := absorb start literal.fraction
  (significand, (dropped.length : Int) - (literal.fraction.length - unread.length : Nat)
    + literal.exponentValue)

/-- Scales a double precision magnitude by a power of ten: one rounded product,
or rounded quotients by steps of at most `10 ^ 308`.  There is no result above
the finite magnitudes. -/
def scaleDouble (magnitude : Nat) (exponent : Int) : Option Nat :=
  let power (steps : Nat) : Nat := Binary.double.round ⟨Nat.pow 10 steps, 1⟩
  let quotient (magnitude steps : Nat) : Nat :=
    Binary.double.round ((Binary.double.value magnitude).div (Binary.double.value (power steps)))
  if magnitude = 0 then some 0
  else if 308 < exponent then none
  else if 0 ≤ exponent then
    let product := Binary.double.round
      ((Binary.double.value magnitude).mul (Binary.double.value (power exponent.toNat)))
    if product < Binary.double.infinity then some product else none
  else
    let steps := (-exponent).toNat
    if steps ≤ 308 then some (quotient magnitude steps)
    else if steps ≤ 616 then some (quotient (quotient magnitude 308) (steps - 308))
    else if steps ≤ 924 then
      some (quotient (quotient (quotient magnitude 308) 308) (steps - 616))
    else some 0

/-- An integer of 64 bits is rounded once; any other number is read in double
precision first. -/
def toSingle? (literal : NumberLiteral) : Option Single :=
  match literal.toInt? with
  | some number =>
      if Int64.minValue.toInt ≤ number ∧ number < UInt64.size then some (Single.ofInt number)
      else throughDouble
  | none => throughDouble
where
  throughDouble : Option Single := do
    let (significand, exponent) := literal.leading
    let magnitude ← scaleDouble (Binary.double.round ⟨significand, 1⟩) exponent
    some (Single.ofMagnitude literal.negative
      (Binary.single.round (Binary.double.value magnitude)))

def zeros (count : Nat) : List Char :=
  List.replicate count '0'

/-- Writes `digits * 10 ^ exponent` in places when its first digit stands from
the sixth place after the point to the thirteenth before it, and with an
exponent otherwise. -/
def ofScientific (negative : Bool) (digits : List Char) (exponent : Int) : NumberLiteral :=
  let place := exponent + digits.length - 1
  if -6 ≤ place ∧ place < 13 then
    if 0 ≤ exponent then ⟨negative, digits ++ zeros exponent.toNat, ['0'], none⟩
    else if 0 ≤ place then
      ⟨negative, digits.take (place.toNat + 1), digits.drop (place.toNat + 1), none⟩
    else ⟨negative, ['0'], zeros ((-place).toNat - 1) ++ digits, none⟩
  else
    ⟨negative, digits.take 1, digits.drop 1, some (place < 0, Decimal.digits place.natAbs)⟩

/-- The shortest literal of a finite number. -/
def ofSingle (number : Single) : NumberLiteral :=
  if number.isZero then ⟨number.negative, ['0'], ['0'], none⟩
  else
    let decimal := Decimal.shortest Binary.single number.magnitude
    ofScientific number.negative (Decimal.digits decimal.significand) decimal.exponent

def text (literal : NumberLiteral) : List Char :=
  let sign := if literal.negative then ['-'] else []
  let fraction := if literal.fraction.isEmpty then [] else '.' :: literal.fraction
  let exponent :=
    match literal.exponent with
    | none => []
    | some (true, digits) => 'e' :: '-' :: digits
    | some (false, digits) => 'e' :: '+' :: digits
  sign ++ literal.whole ++ fraction ++ exponent

end NumberLiteral

end VehicleRelay
