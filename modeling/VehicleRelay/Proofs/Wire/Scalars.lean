import VehicleRelay.Proofs.Wire.Spelling
import VehicleRelay.Wire.FieldKind

/-!
# Scalars on the wire

Every scalar has one wire value, from which it is read back, bit for bit.  A scalar that
is left out is read as the initial value, and that is another value for negative zero
only.
-/

namespace VehicleRelay

namespace Single

def negativeZero : Single := ⟨0x80000000⟩

/-- The number, with positive zero for negative zero. -/
def withoutNegativeZero (number : Single) : Single :=
  if number = negativeZero then zero else number

theorem isZero_iff {number : Single} : number.isZero ↔ number = zero ∨ number = negativeZero := by
  obtain ⟨bits⟩ := number
  have bound := bits.toNat_lt
  simp only [isZero, magnitude, signBit, zero, negativeZero, mk.injEq, beq_iff_eq,
    ← UInt32.toNat_inj]
  simp only [UInt32.reduceToNat]
  omega

theorem withoutNegativeZero_eq (number : Single) :
    number.withoutNegativeZero = if number.isZero then zero else number := by
  by_cases none : number.isZero
  · rw [if_pos none, withoutNegativeZero]
    rcases isZero_iff.mp none with rfl | rfl
    · rfl
    · rfl
  · rw [if_neg none, withoutNegativeZero, if_neg]
    exact fun same => none (isZero_iff.mpr (.inr same))

end Single

namespace Wire

theorem WireValue.length_write (value : WireValue) : value.write.length = value.size := by
  cases value with
  | varint number => exact Varint.length_write number
  | delimited bytes => rw [write, List.length_append, Varint.length_write, size]
  | fixed64 | fixed32 | group => rfl

theorem length_writeKey (number : Nat) (wireType : WireType) :
    (writeKey number wireType).length = keySize number wireType :=
  Varint.length_write _

theorem fromUTF8?_toUTF8 (text : String) : String.fromUTF8? text.toUTF8 = some text :=
  dif_pos text.isValidUTF8

namespace Scalar

variable {α : Type}

/-- The wire value of a scalar is written in the scalar's way and read back. -/
structure Lawful (scalar : Scalar α) : Prop where
  spells : ∀ value, (scalar.toWire value).write.length < UInt64.size →
    (scalar.toWire value).Spells scalar.wireType (scalar.toWire value).write
  ofWire?_toWire : ∀ value, scalar.ofWire? (scalar.toWire value) = some value

/-- What is read after a value was written, or left out as a default. -/
def settled (scalar : Scalar α) (value : α) : α :=
  if scalar.isDefault value then scalar.initial else value

theorem spells_varintOfInt (number : Int) :
    (varintOfInt number).Spells .varint (varintOfInt number).write := by
  apply WireValue.Spells.varint
  apply Varint.spells_write
  rw [UInt64.size]
  omega

theorem int32_lawful : int32.Lawful where
  spells value _ := spells_varintOfInt value.toInt
  ofWire?_toWire value := by
    have lower := Int32.le_toInt value
    have upper := Int32.toInt_lt value
    have same : Int32.ofNat (value.toInt % UInt64.size).toNat = value := by
      apply Int32.toInt_inj.mp
      rw [Int32.toInt_ofNat', Int32.size, UInt64.size, Int.bmod_def]
      omega
    exact congrArg some same

theorem int64_lawful : int64.Lawful where
  spells value _ := spells_varintOfInt value.toInt
  ofWire?_toWire value := by
    have lower := Int64.le_toInt value
    have upper := Int64.toInt_lt value
    have same : Int64.ofNat (value.toInt % UInt64.size).toNat = value := by
      apply Int64.toInt_inj.mp
      rw [Int64.toInt_ofNat', Int64.size, UInt64.size, Int.bmod_def]
      omega
    exact congrArg some same

theorem bool_lawful : bool.Lawful where
  spells value _ := by
    apply WireValue.Spells.varint
    apply Varint.spells_write
    exact Nat.lt_of_le_of_lt (Bool.toNat_le value) (by decide)
  ofWire?_toWire value := by cases value <;> rfl

/-- The four bytes of a word give each of its bits back. -/
theorem wordOfBytes?_bytesOfWord (word : UInt32) : wordOfBytes? (bytesOfWord word) = some word := by
  have shift8 : (8 : UInt32).toBitVec % 32 = 8#32 := rfl
  have shift16 : (16 : UInt32).toBitVec % 32 = 16#32 := rfl
  have shift24 : (24 : UInt32).toBitVec % 32 = 24#32 := rfl
  rw [bytesOfWord, wordOfBytes?]
  congr 1
  apply UInt32.toBitVec_inj.mp
  ext index inRange
  simp only [UInt32.toBitVec_or, UInt32.toBitVec_shiftLeft, UInt8.toBitVec_toUInt32,
    UInt32.toBitVec_toUInt8, UInt32.toBitVec_shiftRight, BitVec.getElem_or, shift8, shift16,
    shift24, BitVec.shiftLeft_eq', BitVec.ushiftRight_eq', BitVec.toNat_ofNat,
    BitVec.getElem_shiftLeft, BitVec.getElem_setWidth, BitVec.getLsbD_setWidth,
    BitVec.getLsbD_ushiftRight, Nat.reducePow, Nat.reduceMod]
  grind

theorem single_lawful : single.Lawful where
  spells value _ := .fixed32 rfl
  ofWire?_toWire value := by
    have word := wordOfBytes?_bytesOfWord value.bits
    simp [single, word]

theorem spells_of_write_delimited {bytes : List UInt8}
    (fits : (WireValue.delimited bytes).write.length < UInt64.size) :
    (WireValue.delimited bytes).Spells .delimited (WireValue.delimited bytes).write := by
  apply WireValue.spells_delimited
  rw [WireValue.write, List.length_append] at fits
  exact Nat.lt_of_le_of_lt (Nat.le_add_left _ _) fits

theorem bytes_lawful : Scalar.bytes.Lawful where
  spells _ fits := spells_of_write_delimited fits
  ofWire?_toWire _ := rfl

theorem text_lawful : Scalar.text.Lawful where
  spells _ fits := spells_of_write_delimited fits
  ofWire?_toWire value := by
    have bytes : (⟨value.toUTF8.data.toList.toArray⟩ : ByteArray) = value.toUTF8 := by
      rw [Array.toArray_toList]
    exact (congrArg String.fromUTF8? bytes).trans (fromUTF8?_toUTF8 value)

/-! ## Scalars that are left out -/

theorem settled_of_exact {scalar : Scalar α} {value : α}
    (exact : scalar.isDefault value → value = scalar.initial) : scalar.settled value = value := by
  rw [settled]
  split
  · next default => exact (exact default).symm
  · rfl

@[simp] theorem settled_int32 (value : Int32) : int32.settled value = value :=
  settled_of_exact (by simp [int32])

@[simp] theorem settled_int64 (value : Int64) : int64.settled value = value :=
  settled_of_exact (by simp [int64])

@[simp] theorem settled_bool (value : Bool) : bool.settled value = value :=
  settled_of_exact (by simp [bool])

@[simp] theorem settled_bytes (value : List UInt8) : Scalar.bytes.settled value = value :=
  settled_of_exact (by simp [Scalar.bytes])

@[simp] theorem settled_text (value : String) : Scalar.text.settled value = value :=
  settled_of_exact (by simp [Scalar.text])

@[simp] theorem settled_single (value : Single) :
    single.settled value = value.withoutNegativeZero :=
  (Single.withoutNegativeZero_eq value).symm

end Scalar

end Wire

end VehicleRelay
