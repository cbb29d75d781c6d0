import VehicleRelay.Binary.Rounding

/-!
# Shortest decimals

A positive binary magnitude is written with the fewest decimal digits that are
read back as the same magnitude.  Of two such decimals the nearer one is taken,
and of two equally near ones the one with the even last digit.
-/

namespace VehicleRelay.Decimal

/-- The decimal `significand * 10 ^ exponent`. -/
structure Scientific where
  significand : Nat
  exponent : Int
deriving DecidableEq, Repr

namespace Scientific

def value (decimal : Scientific) : Binary.Ratio :=
  Binary.Ratio.scale ⟨decimal.significand, 1⟩ 10 decimal.exponent

def reads (format : Binary.Format) (magnitude : Nat) (decimal : Scientific) : Bool :=
  format.round decimal.value == magnitude

/-- Drops trailing zeros of the significand. -/
def trim (decimal : Scientific) : Scientific :=
  if positive : 0 < decimal.significand then
    if decimal.significand % 10 = 0 then
      trim ⟨decimal.significand / 10, decimal.exponent + 1⟩
    else decimal
  else decimal
termination_by decimal.significand
decreasing_by exact Nat.div_lt_self positive (by decide)

end Scientific

/-- The greatest exponent whose power of ten is not above a positive ratio. -/
def floorLog10 (ratio : Binary.Ratio) : Int :=
  let estimate : Int :=
    if ratio.denominator ≤ ratio.numerator then
      ((Nat.toDigits 10 (ratio.numerator / ratio.denominator)).length : Int) - 1
    else -((Nat.toDigits 10 (ratio.denominator / ratio.numerator)).length : Int)
  if ratio.lessThan (Binary.Ratio.scale ⟨1, 1⟩ 10 (estimate + 1)) then estimate
  else estimate + 1

/-- The decimal of a step below or above a ratio that reads back, if any does. -/
def onGrid (format : Binary.Format) (magnitude : Nat) (ratio : Binary.Ratio)
    (exponent : Int) : Option Scientific :=
  let scaled := ratio.scale 10 (-exponent)
  let below : Scientific := ⟨scaled.numerator / scaled.denominator, exponent⟩
  let above : Scientific := { below with significand := below.significand + 1 }
  match below.reads format magnitude, above.reads format magnitude with
  | true, true =>
      some { below with significand := Binary.roundHalfEven scaled.numerator scaled.denominator }
  | true, false => some below
  | false, true => some above
  | false, false => none

/-- Tries grids of one more digit each, up to a number of digits. -/
def firstGrid (format : Binary.Format) (magnitude : Nat) (ratio : Binary.Ratio)
    (exponent : Int) : Nat → Scientific
  | 0 => ⟨ratio.numerator / ratio.denominator, 0⟩
  | grids + 1 =>
      match onGrid format magnitude ratio exponent with
      | some decimal => decimal
      | none => firstGrid format magnitude ratio (exponent - 1) grids

/-- The shortest decimal of a positive finite magnitude; seventeen digits are
enough for both formats. -/
def shortest (format : Binary.Format) (magnitude : Nat) : Scientific :=
  let ratio := format.value magnitude
  (firstGrid format magnitude ratio (floorLog10 ratio) 17).trim

end VehicleRelay.Decimal
