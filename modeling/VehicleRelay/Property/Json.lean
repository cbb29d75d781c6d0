import VehicleRelay.Json.Form
import VehicleRelay.Property.Config
import VehicleRelay.Property.Request

/-!
# JSON forms of the vehicle contract

Contents that a value does not carry, and a value that a result does not carry,
are left out of what is written.  A field may be absent from what is read when
its absence has a meaning.
-/

namespace VehicleRelay

open JsonForm (toJson)

instance : JsonForm CallStatus := caseForm CallStatus
instance : JsonForm Availability := caseForm Availability
instance : JsonForm Access := caseForm Access
instance : JsonForm ChangeMode := caseForm ChangeMode

instance : JsonForm PropertyKey where
  toJson key := .ofFields [("prop_id", toJson key.property), ("area_id", toJson key.area)]
  ofJson? json := do
    let record ← JsonRecord.ofJson? ["prop_id", "area_id"] json
    some {
      property := ← record.required "prop_id"
      area := ← record.required "area_id" }

instance : JsonForm Payload where
  toJson payload := .ofFields <|
    (if payload.int32s.isEmpty then [] else [("int32_values", toJson payload.int32s)])
      ++ (if payload.singles.isEmpty then [] else [("float_values", toJson payload.singles)])
      ++ (if payload.int64s.isEmpty then [] else [("int64_values", toJson payload.int64s)])
      ++ (if payload.bytes.isEmpty then [] else [("byte_values", toJson payload.bytes)])
      ++ (if payload.text.isEmpty then [] else [("string_value", toJson payload.text)])
  ofJson? json := do
    let record ← JsonRecord.ofJson?
      ["int32_values", "float_values", "int64_values", "byte_values", "string_value"] json
    some {
      int32s := ← record.withDefault "int32_values" []
      singles := ← record.withDefault "float_values" []
      int64s := ← record.withDefault "int64_values" []
      bytes := ← record.withDefault "byte_values" []
      text := ← record.withDefault "string_value" "" }

instance : JsonForm PropertyValue where
  toJson value := .ofFields [
    ("timestamp", toJson value.timestamp),
    ("area_id", toJson value.area),
    ("prop", toJson value.property),
    ("status", toJson value.availability),
    ("value", toJson value.payload)]
  ofJson? json := do
    let record ← JsonRecord.ofJson? ["timestamp", "area_id", "prop", "status", "value"] json
    some {
      timestamp := ← record.required "timestamp"
      area := ← record.required "area_id"
      property := ← record.required "prop"
      availability := ← record.withDefault "status" .available
      payload := ← record.withDefault "value" {} }

instance : JsonForm AreaConfig where
  toJson config := .ofFields [
    ("area_id", toJson config.area),
    ("access", toJson config.access),
    ("min_int32_value", toJson config.minInt32),
    ("max_int32_value", toJson config.maxInt32),
    ("min_int64_value", toJson config.minInt64),
    ("max_int64_value", toJson config.maxInt64),
    ("min_float_value", toJson config.minSingle),
    ("max_float_value", toJson config.maxSingle),
    ("supported_enum_values", toJson config.supportedEnumValues),
    ("support_variable_update_rate", toJson config.variableUpdateRate)]
  ofJson? json := do
    let record ← JsonRecord.ofJson?
      ["area_id", "access", "min_int32_value", "max_int32_value", "min_int64_value",
        "max_int64_value", "min_float_value", "max_float_value", "supported_enum_values",
        "support_variable_update_rate"] json
    some {
      area := ← record.withDefault "area_id" 0
      access := ← record.withDefault "access" .none
      minInt32 := ← record.withDefault "min_int32_value" 0
      maxInt32 := ← record.withDefault "max_int32_value" 0
      minInt64 := ← record.withDefault "min_int64_value" 0
      maxInt64 := ← record.withDefault "max_int64_value" 0
      minSingle := ← record.withDefault "min_float_value" .zero
      maxSingle := ← record.withDefault "max_float_value" .zero
      supportedEnumValues := ← record.withDefault "supported_enum_values" []
      variableUpdateRate := ← record.withDefault "support_variable_update_rate" false }

instance : JsonForm PropertyConfig where
  toJson config := .ofFields [
    ("prop", toJson config.property),
    ("access", toJson config.access),
    ("change_mode", toJson config.changeMode),
    ("area_configs", toJson config.areas),
    ("config_array", toJson config.numbers),
    ("config_string", toJson config.text),
    ("min_sample_rate", toJson config.minSampleRate),
    ("max_sample_rate", toJson config.maxSampleRate)]
  ofJson? json := do
    let record ← JsonRecord.ofJson?
      ["prop", "access", "change_mode", "area_configs", "config_array", "config_string",
        "min_sample_rate", "max_sample_rate"] json
    some {
      property := ← record.withDefault "prop" 0
      access := ← record.withDefault "access" .none
      changeMode := ← record.withDefault "change_mode" .static
      areas := ← record.withDefault "area_configs" []
      numbers := ← record.withDefault "config_array" []
      text := ← record.withDefault "config_string" ""
      minSampleRate := ← record.withDefault "min_sample_rate" .zero
      maxSampleRate := ← record.withDefault "max_sample_rate" .zero }

instance : JsonForm GetRequest where
  toJson request := .ofFields [("request_id", toJson request.id), ("prop", toJson request.target)]
  ofJson? json := do
    let record ← JsonRecord.ofJson? ["request_id", "prop"] json
    some {
      id := ← record.required "request_id"
      target := ← record.required "prop" }

instance : JsonForm GetResult where
  toJson result := .ofFields <|
    [("request_id", toJson result.id), ("status", toJson result.status)]
      ++ match result.value with
        | some value => [("prop", toJson value)]
        | none => []
  ofJson? json := do
    let record ← JsonRecord.ofJson? ["request_id", "status", "prop"] json
    some {
      id := ← record.required "request_id"
      status := ← record.required "status"
      value := ← record.nullable "prop" }

instance : JsonForm SetRequest where
  toJson request := .ofFields [("request_id", toJson request.id), ("value", toJson request.value)]
  ofJson? json := do
    let record ← JsonRecord.ofJson? ["request_id", "value"] json
    some {
      id := ← record.required "request_id"
      value := ← record.required "value" }

instance : JsonForm SetResult where
  toJson result := .ofFields [("request_id", toJson result.id), ("status", toJson result.status)]
  ofJson? json := do
    let record ← JsonRecord.ofJson? ["request_id", "status"] json
    some {
      id := ← record.required "request_id"
      status := ← record.required "status" }

instance : JsonForm SetFailure where
  toJson failure := .ofFields [
    ("error_code", toJson failure.status),
    ("prop_id", toJson failure.property),
    ("area_id", toJson failure.area)]
  ofJson? json := do
    let record ← JsonRecord.ofJson? ["error_code", "prop_id", "area_id"] json
    some {
      status := ← record.required "error_code"
      property := ← record.required "prop_id"
      area := ← record.required "area_id" }

instance : JsonForm Subscription where
  toJson subscription := .ofFields [
    ("prop_id", toJson subscription.property),
    ("area_ids", toJson subscription.areas),
    ("sample_rate", toJson subscription.sampleRate),
    ("resolution", toJson subscription.resolution),
    ("enable_variable_update_rate", toJson subscription.variableUpdateRate)]
  ofJson? json := do
    let record ← JsonRecord.ofJson?
      ["prop_id", "area_ids", "sample_rate", "resolution", "enable_variable_update_rate"] json
    some {
      property := ← record.required "prop_id"
      areas := ← record.withDefault "area_ids" []
      sampleRate := ← record.withDefault "sample_rate" .zero
      resolution := ← record.withDefault "resolution" .zero
      variableUpdateRate := ← record.withDefault "enable_variable_update_rate" false }

instance : JsonForm DumpReport where
  toJson report := .ofFields [
    ("caller_should_dump_state", toJson report.callerShouldDump),
    ("buffer", toJson report.text),
    ("refresh_property_configs", toJson report.refreshConfigs)]
  ofJson? json := do
    let record ← JsonRecord.ofJson?
      ["caller_should_dump_state", "buffer", "refresh_property_configs"] json
    some {
      callerShouldDump := ← record.required "caller_should_dump_state"
      text := ← record.required "buffer"
      refreshConfigs := ← record.required "refresh_property_configs" }

end VehicleRelay
