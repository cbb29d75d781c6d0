/-!
# Rounding to binary floating point

A binary format keeps a fixed number of significant bits above a least
exponent.  A magnitude is its pattern of exponent and fraction bits read as one
number, so magnitudes are ordered as the values that they stand for.  A ratio
is rounded to the nearest magnitude, and to the even one of two that are
equally near.
-/

namespace VehicleRelay.Binary

/-- The quotient rounded to the nearest integer, a half to the even neighbour. -/
def roundHalfEven (numerator denominator : Nat) : Nat :=
  let quotient := numerator / denominator
  let twice := 2 * (numerator % denominator)
  if twice < denominator then quotient
  else if denominator < twice then quotient + 1
  else quotient + quotient % 2

/-- A ratio of natural numbers. -/
structure Ratio where
  numerator : Nat
  denominator : Nat
deriving DecidableEq, Repr

namespace Ratio

/-- The product with a power of a base, which may have a negative exponent. -/
def scale (ratio : Ratio) (base : Nat) (exponent : Int) : Ratio :=
  if 0 ≤ exponent then
    { ratio with numerator := ratio.numerator * Nat.pow base exponent.toNat }
  else
    { ratio with denominator := ratio.denominator * Nat.pow base (-exponent).toNat }

def mul (left right : Ratio) : Ratio :=
  ⟨left.numerator * right.numerator, left.denominator * right.denominator⟩

def div (left right : Ratio) : Ratio :=
  ⟨left.numerator * right.denominator, left.denominator * right.numerator⟩

def lessThan (left right : Ratio) : Bool :=
  left.numerator * right.denominator < right.numerator * left.denominator

/-- The greatest exponent whose power of two is not above a positive ratio. -/
def floorLog2 (ratio : Ratio) : Int :=
  let estimate : Int := (ratio.numerator.log2 : Int) - ratio.denominator.log2
  if lessThan ratio (scale ⟨1, 1⟩ 2 estimate) then estimate - 1 else estimate

end Ratio

/-- Significant bits, the exponent of the last bit of the least magnitudes, and
the number of exponent bits. -/
structure Format where
  precision : Nat
  leastExponent : Int
  exponentBits : Nat
deriving DecidableEq, Repr

def single : Format := ⟨24, -149, 8⟩

def double : Format := ⟨53, -1074, 11⟩

namespace Format

/-- The weight of the leading significant bit, which patterns leave out. -/
def leadingBit (format : Format) : Nat :=
  Nat.pow 2 (format.precision - 1)

/-- The pattern of the infinite magnitude, above all finite ones. -/
def infinity (format : Format) : Nat :=
  (Nat.pow 2 format.exponentBits - 1) * format.leadingBit

/-- The nearest magnitude to a ratio, infinite from the midpoint above the
greatest finite one. -/
def round (format : Format) (ratio : Ratio) : Nat :=
  if ratio.numerator = 0 then 0
  else
    let last := max format.leastExponent (ratio.floorLog2 - (format.precision - 1 : Nat))
    let scaled := ratio.scale 2 (-last)
    let significand := roundHalfEven scaled.numerator scaled.denominator
    let pattern := (last - format.leastExponent).toNat * format.leadingBit + significand
    min pattern format.infinity

/-- The value of a finite magnitude. -/
def value (format : Format) (magnitude : Nat) : Ratio :=
  let exponent := magnitude / format.leadingBit
  let fraction := magnitude % format.leadingBit
  if exponent = 0 then Ratio.scale ⟨fraction, 1⟩ 2 format.leastExponent
  else Ratio.scale ⟨format.leadingBit + fraction, 1⟩ 2 (format.leastExponent + exponent - 1)

end Format

end VehicleRelay.Binary
