import VehicleRelay.Binary.Rounding

/-!
# Single precision numbers

A single precision number is kept as its 32 bits, so that signed zeros and the
payloads of quiet and signalling not-a-numbers are never lost.
-/

namespace VehicleRelay

structure Single where
  bits : UInt32
deriving DecidableEq, Repr, Inhabited

namespace Single

def zero : Single := ⟨0⟩

/-- The weight of the highest bit, which is set in negative numbers. -/
def signBit : Nat := 0x80000000

def negative (number : Single) : Bool :=
  signBit ≤ number.bits.toNat

def magnitude (number : Single) : Nat :=
  number.bits.toNat % signBit

def isFinite (number : Single) : Bool :=
  number.magnitude < Binary.single.infinity

/-- Positive and negative zero alike. -/
def isZero (number : Single) : Bool :=
  number.magnitude == 0

def ofMagnitude (negative : Bool) (magnitude : Nat) : Single :=
  ⟨UInt32.ofNat (magnitude + if negative then signBit else 0)⟩

/-- The nearest number to an integer. -/
def ofInt (number : Int) : Single :=
  ofMagnitude (number < 0) (Binary.single.round ⟨number.natAbs, 1⟩)

end Single

end VehicleRelay
