import VehicleRelay.Property.Json
import VehicleRelay.Settings.Json
import VehicleRelay.Proofs.Json.Forms

/-!
# Records in JSON

The JSON forms of the vehicle contract and of settings are lawful.  For each record, what
is read for a name is what was written under it, and a name that was left out means what
was in its field.
-/

namespace VehicleRelay

open JsonForm (toJson ofJson?)
open HasSingles (singles)
open LawfulJsonForm (printable ofJson?_toJson)

instance : HasSingles CallStatus := noSingles CallStatus
instance : HasSingles Availability := noSingles Availability
instance : HasSingles Access := noSingles Access
instance : HasSingles ChangeMode := noSingles ChangeMode

instance : LawfulJsonForm CallStatus := Coded.lawful_caseForm (by rintro (_ | _) <;> rfl)
instance : LawfulJsonForm Availability := Coded.lawful_caseForm (by rintro (_ | _) <;> rfl)
instance : LawfulJsonForm Access := Coded.lawful_caseForm (by rintro (_ | _) <;> rfl)
instance : LawfulJsonForm ChangeMode := Coded.lawful_caseForm (by rintro (_ | _) <;> rfl)

/-! ## The vehicle contract -/

attribute [local simp] JsonRecord.required JsonRecord.withDefault JsonRecord.nullable
  JsonRecord.field? List.lookup_cons singles

instance : HasSingles PropertyKey := noSingles PropertyKey

instance : LawfulJsonForm PropertyKey where
  printable key := JsonRecord.printable_ofFields (by simp)
  ofJson?_toJson key _ := JsonRecord.bind_ofFields (by decide) (.refl _) (by simp)

theorem ofJson?_toJson_of_isEmpty {α : Type} [JsonForm α] {values : List α}
    (empty : values.isEmpty = true) : ofJson? (toJson values) = some ([] : List α) := by
  rw [List.isEmpty_iff.mp empty]
  rfl

/-- The fields of a payload, without those that are empty. -/
def Payload.jsonFields (payload : Payload) : List (String × JsonValue) :=
  JsonRecord.optional payload.int32s.isEmpty "int32_values" (toJson payload.int32s)
    ++ JsonRecord.optional payload.singles.isEmpty "float_values" (toJson payload.singles)
    ++ JsonRecord.optional payload.int64s.isEmpty "int64_values" (toJson payload.int64s)
    ++ JsonRecord.optional payload.bytes.isEmpty "byte_values" (toJson payload.bytes)
    ++ JsonRecord.optional payload.text.isEmpty "string_value" (toJson payload.text)

theorem Payload.names_jsonFields (payload : Payload) :
    (payload.jsonFields.map Prod.fst).Sublist
      ["int32_values", "float_values", "int64_values", "byte_values", "string_value"] := by
  have part := JsonRecord.names_optional
  simp only [jsonFields, List.map_append]
  exact ((((part _ _ _).append (part _ _ _)).append (part _ _ _)).append (part _ _ _)).append
    (part _ _ _)

theorem Payload.lookup_jsonFields (payload : Payload) :
    (payload.jsonFields.lookup "int32_values" =
        if payload.int32s.isEmpty then none else some (toJson payload.int32s)) ∧
      (payload.jsonFields.lookup "float_values" =
        if payload.singles.isEmpty then none else some (toJson payload.singles)) ∧
      (payload.jsonFields.lookup "int64_values" =
        if payload.int64s.isEmpty then none else some (toJson payload.int64s)) ∧
      (payload.jsonFields.lookup "byte_values" =
        if payload.bytes.isEmpty then none else some (toJson payload.bytes)) ∧
      (payload.jsonFields.lookup "string_value" =
        if payload.text.isEmpty then none else some (toJson payload.text)) := by
  simp [jsonFields, List.lookup_append, JsonRecord.lookup_optional]

instance : HasSingles Payload where
  singles payload := singles payload.singles

instance : LawfulJsonForm Payload where
  printable payload := by
    change (JsonValue.ofFields payload.jsonFields).Printable
    apply JsonRecord.printable_ofFields
    simp only [Payload.jsonFields, List.forall_mem_append]
    and_intros <;> exact JsonRecord.printable_optional (printable _) _ _
  ofJson?_toJson payload given := by
    have read := ofJson?_toJson payload.singles given
    have noText (empty : payload.text.isEmpty = true) :
        ofJson? (toJson payload.text) = some "" := by
      rw [String.isEmpty_iff.mp empty]
      rfl
    obtain ⟨int32s, singles, int64s, bytes, text⟩ := payload.lookup_jsonFields
    change (JsonRecord.ofJson? _ (.ofFields payload.jsonFields)).bind _ = _
    refine JsonRecord.bind_ofFields (by decide) payload.names_jsonFields ?_
    rw [JsonRecord.withDefault_optional int32s ofJson?_toJson_of_isEmpty,
      JsonRecord.withDefault_optional singles ofJson?_toJson_of_isEmpty,
      JsonRecord.withDefault_optional int64s ofJson?_toJson_of_isEmpty,
      JsonRecord.withDefault_optional bytes ofJson?_toJson_of_isEmpty,
      JsonRecord.withDefault_optional text noText]
    simp [read]

instance : HasSingles PropertyValue where
  singles value := singles value.payload

instance : LawfulJsonForm PropertyValue where
  printable value := JsonRecord.printable_ofFields (by simp)
  ofJson?_toJson value given := by
    have payload := ofJson?_toJson value.payload given
    refine JsonRecord.bind_ofFields (by decide) (.refl _) ?_
    simp [payload]

instance : HasSingles AreaConfig where
  singles config := [config.minSingle, config.maxSingle]

instance : LawfulJsonForm AreaConfig where
  printable config := JsonRecord.printable_ofFields (by simp)
  ofJson?_toJson config given := by
    have least := (given config.minSingle (by simp)).ofJson?_toJson
    have greatest := (given config.maxSingle (by simp)).ofJson?_toJson
    refine JsonRecord.bind_ofFields (by decide) (.refl _) ?_
    simp [least, greatest]

instance : HasSingles PropertyConfig where
  singles config := singles config.areas ++ [config.minSampleRate, config.maxSampleRate]

instance : LawfulJsonForm PropertyConfig where
  printable config := JsonRecord.printable_ofFields (by simp)
  ofJson?_toJson config given := by
    obtain ⟨inAreas, own⟩ := List.forall_mem_append.mp given
    have areas := ofJson?_toJson config.areas inAreas
    have least := (own config.minSampleRate (by simp)).ofJson?_toJson
    have greatest := (own config.maxSampleRate (by simp)).ofJson?_toJson
    refine JsonRecord.bind_ofFields (by decide) (.refl _) ?_
    simp [areas, least, greatest]

instance : HasSingles GetRequest where
  singles request := singles request.target

instance : LawfulJsonForm GetRequest where
  printable request := JsonRecord.printable_ofFields (by simp)
  ofJson?_toJson request given := by
    have target := ofJson?_toJson request.target given
    refine JsonRecord.bind_ofFields (by decide) (.refl _) ?_
    simp [target]

instance : HasSingles GetResult where
  singles result := singles result.value.toList

instance : LawfulJsonForm GetResult where
  printable result := JsonRecord.printable_ofFields (by cases result.value <;> simp)
  ofJson?_toJson result given := by
    obtain ⟨id, status, value⟩ := result
    cases value with
    | none =>
        have known : ["request_id", "status"].Sublist ["request_id", "status", "prop"] := by decide
        refine JsonRecord.bind_ofFields (by decide) known ?_
        simp
    | some value =>
        have prop := ofJson?_toJson value (by simpa using given)
        refine JsonRecord.bind_ofFields (by decide) (.refl _) ?_
        have notNull : toJson value ≠ .null := nofun
        rw [JsonRecord.nullable_of_ne_null rfl notNull]
        simp [prop]

instance : HasSingles SetRequest where
  singles request := singles request.value

instance : LawfulJsonForm SetRequest where
  printable request := JsonRecord.printable_ofFields (by simp)
  ofJson?_toJson request given := by
    have value := ofJson?_toJson request.value given
    refine JsonRecord.bind_ofFields (by decide) (.refl _) ?_
    simp [value]

instance : HasSingles SetResult := noSingles SetResult

instance : LawfulJsonForm SetResult where
  printable result := JsonRecord.printable_ofFields (by simp)
  ofJson?_toJson result _ := JsonRecord.bind_ofFields (by decide) (.refl _) (by simp)

instance : HasSingles SetFailure := noSingles SetFailure

instance : LawfulJsonForm SetFailure where
  printable failure := JsonRecord.printable_ofFields (by simp)
  ofJson?_toJson failure _ := JsonRecord.bind_ofFields (by decide) (.refl _) (by simp)

instance : HasSingles Subscription where
  singles subscription := [subscription.sampleRate, subscription.resolution]

instance : LawfulJsonForm Subscription where
  printable subscription := JsonRecord.printable_ofFields (by simp)
  ofJson?_toJson subscription given := by
    have sampleRate := (given subscription.sampleRate (by simp)).ofJson?_toJson
    have resolution := (given subscription.resolution (by simp)).ofJson?_toJson
    refine JsonRecord.bind_ofFields (by decide) (.refl _) ?_
    simp [sampleRate, resolution]

instance : HasSingles DumpReport := noSingles DumpReport

instance : LawfulJsonForm DumpReport where
  printable report := JsonRecord.printable_ofFields (by simp)
  ofJson?_toJson report _ := JsonRecord.bind_ofFields (by decide) (.refl _) (by simp)

/-! ## Settings -/

instance : HasSingles ServerSettings := noSingles ServerSettings
instance : HasSingles StreamSettings := noSingles StreamSettings
instance : HasSingles GetSettings := noSingles GetSettings
instance : HasSingles Settings := noSingles Settings

instance : LawfulJsonForm ServerSettings where
  printable settings := JsonRecord.printable_ofFields (by simp)
  ofJson?_toJson settings _ := JsonRecord.bind_ofFields (by decide) (.refl _) (by simp)

instance : LawfulJsonForm StreamSettings where
  printable settings := JsonRecord.printable_ofFields (by simp)
  ofJson?_toJson settings _ := JsonRecord.bind_ofFields (by decide) (.refl _) (by simp)

instance : LawfulJsonForm GetSettings where
  printable settings := JsonRecord.printable_ofFields (by simp)
  ofJson?_toJson settings _ := JsonRecord.bind_ofFields (by decide) (.refl _) (by simp)

instance : LawfulJsonForm Settings where
  printable settings := JsonRecord.printable_ofFields (by simp)
  ofJson?_toJson settings _ := JsonRecord.bind_ofFields (by decide) (.refl _) (by simp)

end VehicleRelay
