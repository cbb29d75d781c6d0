import VehicleRelay.Coded
import VehicleRelay.Json.Printer
import VehicleRelay.Json.Reader

/-!
# JSON forms

A type with a JSON form is written as one JSON value and read from any value
that its readers allow.  A record is read from an object with its field names,
or from an array of its fields in order.
-/

namespace VehicleRelay

class JsonForm (α : Type) where
  toJson : α → JsonValue
  ofJson? : JsonValue → Option α

namespace JsonForm

def toText {α : Type} [JsonForm α] (value : α) : String :=
  (toJson value).toText

def ofText? {α : Type} [JsonForm α] (text : String) : Option α := do
  ofJson? (← JsonValue.ofText? text)

end JsonForm

namespace JsonValue

/-- The integer that a number is written as, within bounds. -/
def intWithin? (least greatest : Int) : JsonValue → Option Int
  | .number literal => do
      let number ← literal.toInt?
      if least ≤ number ∧ number ≤ greatest then some number else none
  | _ => none

end JsonValue

instance : JsonForm Bool where
  toJson := .bool
  ofJson?
    | .bool value => some value
    | _ => none

instance : JsonForm String where
  toJson value := .text (some value)
  ofJson?
    | .text contents => contents
    | _ => none

instance : JsonForm Int32 where
  toJson value := .number (.ofInt value.toInt)
  ofJson? json := (json.intWithin? Int32.minValue.toInt Int32.maxValue.toInt).map Int32.ofInt

instance : JsonForm Int64 where
  toJson value := .number (.ofInt value.toInt)
  ofJson? json := (json.intWithin? Int64.minValue.toInt Int64.maxValue.toInt).map Int64.ofInt

instance : JsonForm UInt64 where
  toJson value := .number (.ofInt value.toNat)
  ofJson? json :=
    (json.intWithin? 0 (UInt64.size - 1)).map fun number => UInt64.ofNat number.toNat

instance : JsonForm UInt8 where
  toJson value := .number (.ofInt value.toNat)
  ofJson? json := (json.intWithin? 0 255).map fun number => UInt8.ofNat number.toNat

/-- A number that is not finite has no literal and is written as null. -/
instance : JsonForm Single where
  toJson value := if value.isFinite then .number (.ofSingle value) else .null
  ofJson?
    | .number literal => literal.toSingle?
    | _ => none

instance {α : Type} [JsonForm α] : JsonForm (List α) where
  toJson values := .array (values.map JsonForm.toJson)
  ofJson?
    | .array items => items.mapM JsonForm.ofJson?
    | _ => none

/-- A case is written as its name; it is read also from an object that maps its
name to null. -/
@[reducible] def caseForm (Case : Type) [Coded Case] : JsonForm Case where
  toJson value := .text (some (Coded.name value))
  ofJson?
    | .text (some name) => Coded.ofName? name
    | .object [(some name, .null)] => Coded.ofName? name
    | _ => none

/-- The fields of a record that are present, by name. -/
structure JsonRecord where
  /-- Whether the record is an object and not an array. -/
  named : Bool
  fields : List (String × JsonValue)

namespace JsonRecord

/-- The members of an object that belong to a record.  Every name has to be
readable, and no known name may occur twice. -/
def ofMembers? (names : List String) :
    List (Option String × JsonValue) → Option (List (String × JsonValue))
  | [] => some []
  | (none, _) :: _ => none
  | (some name, value) :: members => do
      let fields ← ofMembers? names members
      if name ∈ names then
        if name ∈ fields.map Prod.fst then none else some ((name, value) :: fields)
      else some fields

def ofJson? (names : List String) : JsonValue → Option JsonRecord
  | .object members => do
      let fields ← ofMembers? names members
      some ⟨true, fields⟩
  | .array items =>
      if items.length ≤ names.length then some ⟨false, names.zip items⟩ else none
  | _ => none

def field? (record : JsonRecord) (name : String) : Option JsonValue :=
  record.fields.lookup name

def required {α : Type} [JsonForm α] (record : JsonRecord) (name : String) : Option α := do
  JsonForm.ofJson? (← record.field? name)

/-- A field that may be absent. -/
def withDefault {α : Type} [JsonForm α] (record : JsonRecord) (name : String) (absent : α) :
    Option α :=
  match record.field? name with
  | some value => JsonForm.ofJson? value
  | none => some absent

/-- A field that may be null, or absent from an object. -/
def nullable {α : Type} [JsonForm α] (record : JsonRecord) (name : String) :
    Option (Option α) :=
  match record.field? name with
  | some .null => some none
  | some value => (JsonForm.ofJson? value).map some
  | none => if record.named then some none else none

end JsonRecord

/-- An object of fields, each of which has a name. -/
def JsonValue.ofFields (fields : List (String × JsonValue)) : JsonValue :=
  .object (fields.map fun (name, value) => (some name, value))

end VehicleRelay
