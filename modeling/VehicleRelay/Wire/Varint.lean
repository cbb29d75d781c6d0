/-!
# Variable length integers

A natural number is written in groups of seven bits, the lowest first; every
byte but the last has its high bit set.  A reader takes at most ten bytes and no
number above 64 bits.
-/

namespace VehicleRelay.Wire.Varint

def write (number : Nat) : List UInt8 :=
  if number < 128 then [UInt8.ofNat number]
  else UInt8.ofNat (number % 128 + 128) :: write (number / 128)

/-- The number of bytes that a number is written in. -/
def size (number : Nat) : Nat :=
  if number < 128 then 1 else 1 + size (number / 128)

/-- Reads a number of at most the given count of bytes. -/
def readGroups : Nat → List UInt8 → Option (Nat × List UInt8)
  | 0, _ => none
  | _ + 1, [] => none
  | count + 1, byte :: rest =>
      if byte.toNat < 128 then some (byte.toNat, rest)
      else do
        let (high, rest) ← readGroups count rest
        some (byte.toNat % 128 + 128 * high, rest)

def read (bytes : List UInt8) : Option (Nat × List UInt8) := do
  let (number, rest) ← readGroups 10 bytes
  if number < UInt64.size then some (number, rest) else none

theorem length_write (number : Nat) : (write number).length = size number := by
  fun_induction write number with
  | case1 number small => simp [size, small]
  | case2 number large ih =>
      rw [size, if_neg large, List.length_cons, ih, Nat.add_comm]

theorem size_le_ten {number : Nat} (fits : number < UInt64.size) : size number ≤ 10 := by
  have step (bound count : Nat) (fewer : ∀ number, number < bound → size number ≤ count) :
      ∀ number, number < 128 * bound → size number ≤ count + 1 := by
    intro number below
    rw [size]
    split
    · omega
    · have := fewer (number / 128) (by omega)
      omega
  have one : ∀ number, number < 128 → size number ≤ 1 := by
    intro number small
    exact Nat.le_of_eq (by rw [size, if_pos small])
  exact step _ 9 (step _ 8 (step _ 7 (step _ 6 (step _ 5 (step _ 4 (step _ 3 (step _ 2
    (step _ 1 one)))))))) number (Nat.lt_of_lt_of_le fits (by decide))

end VehicleRelay.Wire.Varint
