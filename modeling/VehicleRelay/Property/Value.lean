import VehicleRelay.Binary.Single
import VehicleRelay.Coded
import VehicleRelay.Decimal.Integer

/-!
# Property values

A property value carries the state of one property in one area at the time that
its source gives.  The key of a value is its property and area.
-/

namespace VehicleRelay

inductive Availability
  | available
  | unavailable
  | error
deriving DecidableEq, Repr, Inhabited

instance : Coded Availability where
  cases := [.available, .unavailable, .error]
  name
    | .available => "available"
    | .unavailable => "unavailable"
    | .error => "error"
  code
    | .available => 0
    | .unavailable => 1
    | .error => 2
  fallback := .error

@[simp] theorem Availability.ofCode_code (availability : Availability) :
    Coded.ofCode (Coded.code availability) = availability := by
  cases availability <;> rfl

structure PropertyKey where
  property : Int32
  area : Int32
deriving DecidableEq, Repr, Inhabited

def PropertyKey.text (key : PropertyKey) : String :=
  Decimal.text key.property.toInt ++ "/" ++ Decimal.text key.area.toInt

/-- The contents of a value; only the field of the property's type is in use. -/
structure Payload where
  int32s : List Int32 := []
  singles : List Single := []
  int64s : List Int64 := []
  bytes : List UInt8 := []
  text : String := ""
deriving DecidableEq, Repr, Inhabited

structure PropertyValue where
  /-- Nanoseconds in the time of whoever made the value. -/
  timestamp : Int64 := 0
  area : Int32
  property : Int32
  availability : Availability := .available
  payload : Payload := {}
deriving DecidableEq, Repr, Inhabited

namespace PropertyValue

def key (value : PropertyValue) : PropertyKey :=
  ⟨value.property, value.area⟩

/-- The value without contents that selects a key. -/
def selecting (key : PropertyKey) : PropertyValue where
  area := key.area
  property := key.property

def withTimestamp (value : PropertyValue) (timestamp : Int64) : PropertyValue :=
  { value with timestamp }

def withInt32s (value : PropertyValue) (int32s : List Int32) : PropertyValue :=
  { value with payload := { value.payload with int32s } }

def withSingles (value : PropertyValue) (singles : List Single) : PropertyValue :=
  { value with payload := { value.payload with singles } }

def withText (value : PropertyValue) (text : String) : PropertyValue :=
  { value with payload := { value.payload with text } }

@[simp] theorem key_selecting (key : PropertyKey) : (selecting key).key = key := rfl

@[simp] theorem key_withTimestamp (value : PropertyValue) (timestamp : Int64) :
    (value.withTimestamp timestamp).key = value.key := rfl

end PropertyValue

end VehicleRelay
