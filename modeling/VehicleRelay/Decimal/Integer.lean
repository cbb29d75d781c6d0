/-!
# Integers in decimal

An integer is written with the fewest decimal digits, after a minus sign when
it is negative.
-/

namespace VehicleRelay.Decimal

def digits (number : Nat) : List Char :=
  Nat.toDigits 10 number

def ofInt (number : Int) : List Char :=
  if number < 0 then '-' :: digits number.natAbs else digits number.natAbs

def text (number : Int) : String :=
  String.ofList (ofInt number)

end VehicleRelay.Decimal
