import VehicleRelay.Binary.Single
import VehicleRelay.Total
import VehicleRelay.Wire.RawField

/-!
# Kinds of fields

A kind says how the contents of a field are written and how one more raw value
of the field changes what was read before.  Of a singular field the last value
counts, and the default value is not written.  Repeated scalars are written as
one packed value and read packed or one by one.
-/

namespace VehicleRelay.Wire

/-- A value that has one wire value. -/
structure Scalar (α : Type) where
  wireType : WireType
  initial : α
  isDefault : α → Bool
  toWire : α → WireValue
  ofWire? : WireValue → Option α

/-- How a field with contents of one type is written, measured and read.  The
number given to `merge?` limits how deep messages and groups nest in it. -/
structure FieldKind (α : Type) where
  initial : α
  write : Nat → α → List UInt8
  size : Nat → α → Nat
  merge? : Nat → WireValue → α → Option α

namespace Scalar

/-- Negative numbers are written with 64 bits. -/
def varintOfInt (number : Int) : WireValue :=
  .varint (number % UInt64.size).toNat

def int32 : Scalar Int32 where
  wireType := .varint
  initial := 0
  isDefault value := value == 0
  toWire value := varintOfInt value.toInt
  ofWire?
    | .varint number => some (Int32.ofNat number)
    | _ => none

def int64 : Scalar Int64 where
  wireType := .varint
  initial := 0
  isDefault value := value == 0
  toWire value := varintOfInt value.toInt
  ofWire?
    | .varint number => some (Int64.ofNat number)
    | _ => none

def bool : Scalar Bool where
  wireType := .varint
  initial := false
  isDefault value := !value
  toWire value := .varint value.toNat
  ofWire?
    | .varint number => some (number != 0)
    | _ => none

/-- The four bytes of a word, the lowest first. -/
def bytesOfWord (word : UInt32) : List UInt8 :=
  [word.toUInt8, (word >>> 8).toUInt8, (word >>> 16).toUInt8, (word >>> 24).toUInt8]

def wordOfBytes? : List UInt8 → Option UInt32
  | [first, second, third, fourth] =>
      some (first.toUInt32 ||| second.toUInt32 <<< 8 ||| third.toUInt32 <<< 16
        ||| fourth.toUInt32 <<< 24)
  | _ => none

/-- Both zeros are the default. -/
def single : Scalar Single where
  wireType := .fixed32
  initial := .zero
  isDefault value := value.isZero
  toWire value := .fixed32 (bytesOfWord value.bits)
  ofWire?
    | .fixed32 bytes => (wordOfBytes? bytes).map Single.mk
    | _ => none

def bytes : Scalar (List UInt8) where
  wireType := .delimited
  initial := []
  isDefault value := value.isEmpty
  toWire value := .delimited value
  ofWire?
    | .delimited bytes => some bytes
    | _ => none

/-- A text is written in UTF-8, and other bytes are no text. -/
def text : Scalar String where
  wireType := .delimited
  initial := ""
  isDefault value := value.isEmpty
  toWire value := .delimited value.toUTF8.data.toList
  ofWire?
    | .delimited bytes => String.fromUTF8? ⟨bytes.toArray⟩
    | _ => none

variable {α : Type} (scalar : Scalar α)

def writeField (number : Nat) (value : α) : List UInt8 :=
  writeKey number scalar.wireType ++ (scalar.toWire value).write

def fieldSize (number : Nat) (value : α) : Nat :=
  keySize number scalar.wireType + (scalar.toWire value).size

/-- The values of a packed field, up to a number of them. -/
def unpack? : Nat → List UInt8 → Option (List α)
  | _, [] => some []
  | 0, _ :: _ => none
  | count + 1, bytes => do
      let (wire, rest) ← WireValue.read scalar.wireType bytes
      let value ← scalar.ofWire? wire
      let values ← unpack? count rest
      some (value :: values)

def singular : FieldKind α where
  initial := scalar.initial
  write number value :=
    if scalar.isDefault value then [] else scalar.writeField number value
  size number value :=
    if scalar.isDefault value then 0 else scalar.fieldSize number value
  merge? _ wire _ := scalar.ofWire? wire

/-- A repeated field of one value each. -/
def repeated : FieldKind (List α) where
  initial := []
  write number values := values.flatMap (scalar.writeField number)
  size number values := total (scalar.fieldSize number) values
  merge? _ wire values := (scalar.ofWire? wire).map fun value => values ++ [value]

/-- A repeated field in one packed value. -/
def packed : FieldKind (List α) where
  initial := []
  write number values :=
    if values.isEmpty then []
    else
      writeKey number .delimited
        ++ (WireValue.delimited (values.flatMap fun value => (scalar.toWire value).write)).write
  size number values :=
    if values.isEmpty then 0
    else
      let length := total (fun value => (scalar.toWire value).size) values
      keySize number .delimited + Varint.size length + length
  merge? _ wire values :=
    match wire with
    | .delimited bytes => (scalar.unpack? bytes.length bytes).map (values ++ ·)
    | wire => (scalar.ofWire? wire).map fun value => values ++ [value]

end Scalar

end VehicleRelay.Wire
