import VehicleRelay.Wire.Varint

/-!
# Raw fields

A message is a list of fields.  A raw field is a field number with a value that
is known only by the way it is written.  Groups are read past: their end has to
match their start, and the number of open groups is limited.
-/

namespace VehicleRelay.Wire

/-- The ways in which a value is written, groups apart. -/
inductive WireType
  | varint
  | fixed64
  | delimited
  | fixed32
deriving DecidableEq, Repr

namespace WireType

def code : WireType → Nat
  | .varint => 0
  | .fixed64 => 1
  | .delimited => 2
  | .fixed32 => 5

end WireType

inductive WireValue
  | varint (number : Nat)
  | fixed64 (bytes : List UInt8)
  | delimited (bytes : List UInt8)
  | fixed32 (bytes : List UInt8)
  | group
deriving DecidableEq, Repr

structure RawField where
  number : Nat
  value : WireValue
deriving DecidableEq, Repr

/-- Cuts off a number of bytes, which have to be there. -/
def cut (count : Nat) (bytes : List UInt8) : Option (List UInt8 × List UInt8) :=
  if count ≤ bytes.length then some (bytes.take count, bytes.drop count) else none

/-- Cuts off as many bytes as the length before them says. -/
def cutDelimited (bytes : List UInt8) : Option (List UInt8 × List UInt8) := do
  let (length, rest) ← Varint.read bytes
  cut length rest

namespace WireValue

def write : WireValue → List UInt8
  | .varint number => Varint.write number
  | .fixed64 bytes => bytes
  | .delimited bytes => Varint.write bytes.length ++ bytes
  | .fixed32 bytes => bytes
  | .group => []

def size : WireValue → Nat
  | .varint number => Varint.size number
  | .fixed64 bytes => bytes.length
  | .delimited bytes => Varint.size bytes.length + bytes.length
  | .fixed32 bytes => bytes.length
  | .group => 0

def read (wireType : WireType) (bytes : List UInt8) : Option (WireValue × List UInt8) :=
  match wireType with
  | .varint => (Varint.read bytes).map fun (number, rest) => (.varint number, rest)
  | .fixed64 => (cut 8 bytes).map fun (value, rest) => (.fixed64 value, rest)
  | .delimited => (cutDelimited bytes).map fun (value, rest) => (.delimited value, rest)
  | .fixed32 => (cut 4 bytes).map fun (value, rest) => (.fixed32 value, rest)

end WireValue

/-- What a key announces. -/
inductive Announced
  | value (wireType : WireType)
  | groupStart
  | groupEnd
deriving DecidableEq, Repr

def Announced.ofCode? : Nat → Option Announced
  | 0 => some (.value .varint)
  | 1 => some (.value .fixed64)
  | 2 => some (.value .delimited)
  | 3 => some .groupStart
  | 4 => some .groupEnd
  | 5 => some (.value .fixed32)
  | _ => none

def writeKey (number : Nat) (wireType : WireType) : List UInt8 :=
  Varint.write (number * 8 + wireType.code)

def keySize (number : Nat) (wireType : WireType) : Nat :=
  Varint.size (number * 8 + wireType.code)

/-- A key of 32 bits: a field number, which is not zero, and what follows. -/
def readKey (bytes : List UInt8) : Option (Nat × Announced × List UInt8) := do
  let (key, rest) ← Varint.read bytes
  if key < UInt32.size ∧ 8 ≤ key then
    let announced ← Announced.ofCode? (key % 8)
    some (key / 8, announced, rest)
  else none

/-- Reads up to the end of the outermost of the open groups.  A field inside
needs fewer open groups around it than the limit. -/
def skipGroups (limit : Nat) : Nat → List Nat → List UInt8 → Option (List UInt8)
  | _, [], bytes => some bytes
  | 0, _ :: _, _ => none
  | steps + 1, innermost :: outer, bytes => do
      let (number, announced, rest) ← readKey bytes
      match announced with
      | .groupEnd => if number = innermost then skipGroups limit steps outer rest else none
      | .groupStart =>
          if (innermost :: outer).length < limit then
            skipGroups limit steps (number :: innermost :: outer) rest
          else none
      | .value wireType =>
          if (innermost :: outer).length < limit then do
            let (_, rest) ← WireValue.read wireType rest
            skipGroups limit steps (innermost :: outer) rest
          else none

namespace RawField

def read (limit : Nat) (bytes : List UInt8) : Option (RawField × List UInt8) := do
  let (number, announced, rest) ← readKey bytes
  match announced with
  | .value wireType =>
      let (value, rest) ← WireValue.read wireType rest
      some (⟨number, value⟩, rest)
  | .groupStart =>
      let rest ← skipGroups limit (rest.length + 1) [number] rest
      some (⟨number, .group⟩, rest)
  | .groupEnd => none

/-- The fields of a whole message, up to a number of them. -/
def readUpTo (limit : Nat) : Nat → List UInt8 → Option (List RawField)
  | _, [] => some []
  | 0, _ :: _ => none
  | count + 1, bytes => do
      let (field, rest) ← read limit bytes
      let fields ← readUpTo limit count rest
      some (field :: fields)

/-- The fields of a whole message.  Every field has at least one byte. -/
def readAll (limit : Nat) (bytes : List UInt8) : Option (List RawField) :=
  readUpTo limit bytes.length bytes

end RawField

end VehicleRelay.Wire
