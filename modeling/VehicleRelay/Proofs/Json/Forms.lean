import VehicleRelay.Json.Form
import VehicleRelay.Proofs.Json.Texts

/-!
# Lawful JSON forms

A value of a type with a lawful JSON form is read back from what is written for it exactly
if all single precision numbers in it are finite.  A number that is not finite is written
as null, which no reader takes for a number.  That the literal of a finite number is read
as the same number is a premise, for each number in the value.
-/

namespace VehicleRelay

open JsonForm (toJson ofJson? toText ofText?)

/-- The single precision numbers that stand in a value. -/
class HasSingles (α : Type) where
  singles : α → List Single

open HasSingles (singles)

/-- The decimal text of the number, if it is finite, is read as the same number. -/
def Single.ReadsBack (number : Single) : Prop :=
  number.isFinite = true → ofText? (toText number) = some number

instance (number : Single) : Decidable number.ReadsBack :=
  inferInstanceAs (Decidable (_ → _))

/-- A value that is there if all numbers in it are finite. -/
def ifFinite {α : Type} (numbers : List Single) (value : α) : Option α :=
  if numbers.all Single.isFinite then some value else none

@[simp] theorem ifFinite_nil {α : Type} (value : α) : ifFinite [] value = some value := rfl

@[simp] theorem map_ifFinite {α β : Type} (numbers : List Single) (value : α)
    (build : α → β) :
    (ifFinite numbers value).map build = ifFinite numbers (build value) := by
  simp only [ifFinite]
  split <;> rfl

@[simp] theorem bind_ifFinite_some {α β : Type} (numbers : List Single) (value : α)
    (build : α → β) :
    (ifFinite numbers value).bind (fun value => some (build value)) =
      ifFinite numbers (build value) := by
  simp only [ifFinite]
  split <;> rfl

@[simp] theorem bind_ifFinite_ifFinite {α β : Type} (first second : List Single) (value : α)
    (build : α → β) :
    (ifFinite first value).bind (fun value => ifFinite second (build value)) =
      ifFinite (first ++ second) (build value) := by
  simp only [ifFinite, List.all_append, Bool.and_eq_true]
  by_cases finite : first.all Single.isFinite = true
  · simp only [finite, true_and, if_true, Option.bind_some]
  · rw [if_neg finite, if_neg fun both => finite both.1, Option.bind_none]

/-- What is written for a value is JSON, and is read as the value if its numbers are
finite. -/
class LawfulJsonForm (α : Type) [JsonForm α] [HasSingles α] : Prop where
  printable (value : α) : (toJson value).Printable
  ofJson?_toJson (value : α) (given : ∀ number ∈ singles value, number.ReadsBack) :
    ofJson? (toJson value) = ifFinite (singles value) value

namespace LawfulJsonForm

variable {α : Type} [JsonForm α] [HasSingles α] [LawfulJsonForm α]

theorem ofText?_toText_eq (value : α) (given : ∀ number ∈ singles value, number.ReadsBack) :
    ofText? (toText value) = ifFinite (singles value) value := by
  rw [ofText?, toText, JsonValue.ofText?_toText (printable value)]
  exact ofJson?_toJson value given

end LawfulJsonForm

open LawfulJsonForm (printable ofJson?_toJson)

attribute [simp] LawfulJsonForm.printable

@[simp] theorem LawfulJsonForm.ofJson?_toJson_of_nil {α : Type} [JsonForm α] [HasSingles α]
    [LawfulJsonForm α] {value : α} (none : singles value = []) :
    ofJson? (toJson value) = some value := by
  rw [ofJson?_toJson value (by simp [none]), none, ifFinite_nil]

/-! ## Scalars -/

/-- The numbers of a type that holds none. -/
@[reducible] def noSingles (α : Type) : HasSingles α where
  singles _ := []

instance : HasSingles Bool := noSingles Bool
instance : HasSingles String := noSingles String
instance : HasSingles Int32 := noSingles Int32
instance : HasSingles Int64 := noSingles Int64
instance : HasSingles UInt64 := noSingles UInt64
instance : HasSingles UInt8 := noSingles UInt8

instance : HasSingles Single where
  singles number := [number]

instance {α : Type} [HasSingles α] : HasSingles (List α) where
  singles values := values.flatMap singles

theorem JsonValue.map_intWithin?_ofInt {α : Type} {least greatest number : Int}
    {convert : Int → α} {value : α} (within : least ≤ number ∧ number ≤ greatest)
    (converted : convert number = value) :
    ((JsonValue.number (.ofInt number)).intWithin? least greatest).map convert =
      some value := by
  simp only [intWithin?, NumberLiteral.toInt?_ofInt, Option.bind_eq_bind, Option.bind_some,
    if_pos within, Option.map_some, converted]

instance : LawfulJsonForm Bool where
  printable := .bool
  ofJson?_toJson _ _ := rfl

instance : LawfulJsonForm String where
  printable _ := .text _
  ofJson?_toJson _ _ := rfl

instance : LawfulJsonForm Int32 where
  printable number := .number (NumberLiteral.wellFormed_ofInt number.toInt)
  ofJson?_toJson number _ := JsonValue.map_intWithin?_ofInt
    ⟨number.minValue_le_toInt, number.toInt_le⟩ number.ofInt_toInt

instance : LawfulJsonForm Int64 where
  printable number := .number (NumberLiteral.wellFormed_ofInt number.toInt)
  ofJson?_toJson number _ := JsonValue.map_intWithin?_ofInt
    ⟨number.minValue_le_toInt, number.toInt_le⟩ number.ofInt_toInt

instance : LawfulJsonForm UInt64 where
  printable number := .number (NumberLiteral.wellFormed_ofInt number.toNat)
  ofJson?_toJson number _ := by
    have below := number.toNat_lt_size
    exact JsonValue.map_intWithin?_ofInt (by omega) number.ofNat_toNat

instance : LawfulJsonForm UInt8 where
  printable number := .number (NumberLiteral.wellFormed_ofInt number.toNat)
  ofJson?_toJson number _ := by
    have below := number.toNat_lt
    exact JsonValue.map_intWithin?_ofInt (by omega) number.ofNat_toNat

theorem Single.printable (number : Single) : (toJson number).Printable := by
  change JsonValue.Printable (if _ then _ else _)
  split
  · exact .number (NumberLiteral.wellFormed_ofSingle number)
  · exact .null

theorem Single.ReadsBack.ofJson?_toJson {number : Single} (readsBack : number.ReadsBack) :
    ofJson? (toJson number) = ifFinite [number] number := by
  by_cases finite : number.isFinite = true
  · have read : ofText? (toText number) = (ofJson? (toJson number) : Option Single) := by
      rw [ofText?, toText, JsonValue.ofText?_toText number.printable]
      rfl
    rw [← read, readsBack finite]
    simp [ifFinite, finite]
  · have written : toJson number = .null := if_neg finite
    rw [written]
    simp [ifFinite, finite]
    rfl

instance : LawfulJsonForm Single where
  printable := Single.printable
  ofJson?_toJson number given := (given number (List.mem_singleton_self number)).ofJson?_toJson

instance {α : Type} [JsonForm α] [HasSingles α] [LawfulJsonForm α] :
    LawfulJsonForm (List α) where
  printable values := .array (by
    intro item member
    obtain ⟨value, _, rfl⟩ := List.mem_map.mp member
    exact printable value)
  ofJson?_toJson values given := by
    change (values.map toJson).mapM ofJson? = _
    induction values with
    | nil => rfl
    | cons value values induction =>
        obtain ⟨first, others⟩ := List.forall_mem_append.mp given
        rw [List.map_cons, List.mapM_cons, ofJson?_toJson value first, induction others]
        simp only [Option.bind_eq_bind, Option.pure_def, bind_ifFinite_some,
          bind_ifFinite_ifFinite]
        rfl

/-- Each case is the one that its name is found for. -/
theorem Coded.lawful_caseForm {Case : Type} [Coded Case]
    (ofName?_name : ∀ value : Case, Coded.ofName? (Coded.name value) = some value) :
    @LawfulJsonForm Case (caseForm Case) (noSingles Case) :=
  @LawfulJsonForm.mk Case (caseForm Case) (noSingles Case)
    (fun _ => .text _) (fun value _ => ofName?_name value)

/-! ## Records -/

namespace JsonRecord

/-- An object whose names are some of a record's names, in their order, is read as its
fields. -/
theorem ofJson?_ofFields {names : List String} {fields : List (String × JsonValue)}
    (distinct : names.Nodup) (known : (fields.map Prod.fst).Sublist names) :
    ofJson? names (.ofFields fields) = some ⟨true, fields⟩ := by
  have members : ofMembers? names (fields.map fun field => (some field.1, field.2)) =
      some fields := by
    have once := distinct.sublist known
    replace known := known.subset
    induction fields with
    | nil => rfl
    | cons field fields induction =>
        obtain ⟨name, value⟩ := field
        obtain ⟨new, once⟩ := List.nodup_cons.mp once
        obtain ⟨belongs, known⟩ := List.cons_subset.mp known
        simp only [List.map_cons, ofMembers?, induction once known, Option.bind_eq_bind,
          Option.bind_some, if_pos belongs, if_neg new]
  simp only [ofJson?, JsonValue.ofFields, members, Option.bind_eq_bind, Option.bind_some]

theorem bind_ofFields {α : Type} {names : List String} {fields : List (String × JsonValue)}
    {read : JsonRecord → Option α} {value : Option α} (distinct : names.Nodup)
    (known : (fields.map Prod.fst).Sublist names) (reads : read ⟨true, fields⟩ = value) :
    (ofJson? names (.ofFields fields)).bind read = value := by
  rw [ofJson?_ofFields distinct known, Option.bind_some, reads]

theorem printable_ofFields {fields : List (String × JsonValue)}
    (printable : ∀ field ∈ fields, field.2.Printable) :
    (JsonValue.ofFields fields).Printable := by
  refine .object fun member belongs => ?_
  obtain ⟨⟨name, value⟩, fieldBelongs, rfl⟩ := List.mem_map.mp belongs
  exact printable (name, value) fieldBelongs

/-- A field that is left out if there is nothing in it. -/
def optional (isEmpty : Bool) (name : String) (json : JsonValue) : List (String × JsonValue) :=
  if isEmpty then [] else [(name, json)]

theorem lookup_optional (isEmpty : Bool) (name : String) (json : JsonValue) (wanted : String) :
    (optional isEmpty name json).lookup wanted =
      if wanted == name then (if isEmpty then none else some json) else none := by
  cases isEmpty with
  | false =>
      rw [optional, if_neg Bool.false_ne_true, List.lookup_cons]
      cases wanted == name <;> rfl
  | true => simp [optional]

theorem names_optional (isEmpty : Bool) (name : String) (json : JsonValue) :
    ((optional isEmpty name json).map Prod.fst).Sublist [name] := by
  cases isEmpty with
  | false => exact .refl _
  | true => exact List.nil_sublist _

theorem printable_optional {json : JsonValue} (printable : json.Printable) (isEmpty : Bool)
    (name : String) : ∀ field ∈ optional isEmpty name json, field.2.Printable := by
  cases isEmpty with
  | false => simpa [optional] using printable
  | true => simp [optional]

/-- A field that is left out reads as what was in it, if its absence means that. -/
theorem withDefault_optional {α : Type} [JsonForm α] {fields : List (String × JsonValue)}
    {name : String} {value absent : α} {isEmpty : Bool}
    (found : fields.lookup name = if isEmpty then none else some (toJson value))
    (meant : isEmpty = true → JsonForm.ofJson? (toJson value) = some absent) :
    (⟨true, fields⟩ : JsonRecord).withDefault name absent =
      JsonForm.ofJson? (toJson value) := by
  cases isEmpty with
  | false => simp [withDefault, field?, found]
  | true => simp [withDefault, field?, found, meant rfl]

/-- A field that may be null is read as its value where that is no null. -/
theorem nullable_of_ne_null {α : Type} [JsonForm α] {record : JsonRecord} {name : String}
    {json : JsonValue} (found : record.field? name = some json) (notNull : json ≠ .null) :
    record.nullable name = (JsonForm.ofJson? json).map (some : α → Option α) := by
  unfold nullable
  rw [found]
  cases json with
  | null => exact absurd rfl notNull
  | _ => rfl

end JsonRecord

end VehicleRelay
