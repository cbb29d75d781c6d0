import VehicleRelay.Proofs.Json.Records

/-!
# The contract in JSON

What is written for a value of the vehicle contract, or for settings, is read back as the
same value, unless a number in it is not finite: then nothing is read.
-/

namespace VehicleRelay

/-- The types that are written as JSON texts. -/
inductive JsonType
  | value
  | payload
  | key
  | areaConfig
  | config
  | getRequest
  | getResult
  | setRequest
  | setResult
  | setFailure
  | subscription
  | dumpReport
  | settings
deriving DecidableEq, Repr

namespace JsonType

@[reducible]
def Value : JsonType → Type
  | .value => PropertyValue
  | .payload => Payload
  | .key => PropertyKey
  | .areaConfig => AreaConfig
  | .config => PropertyConfig
  | .getRequest => GetRequest
  | .getResult => GetResult
  | .setRequest => SetRequest
  | .setResult => SetResult
  | .setFailure => SetFailure
  | .subscription => Subscription
  | .dumpReport => DumpReport
  | .settings => Settings

instance jsonForm : (type : JsonType) → JsonForm type.Value
  | .value => inferInstanceAs (JsonForm PropertyValue)
  | .payload => inferInstanceAs (JsonForm Payload)
  | .key => inferInstanceAs (JsonForm PropertyKey)
  | .areaConfig => inferInstanceAs (JsonForm AreaConfig)
  | .config => inferInstanceAs (JsonForm PropertyConfig)
  | .getRequest => inferInstanceAs (JsonForm GetRequest)
  | .getResult => inferInstanceAs (JsonForm GetResult)
  | .setRequest => inferInstanceAs (JsonForm SetRequest)
  | .setResult => inferInstanceAs (JsonForm SetResult)
  | .setFailure => inferInstanceAs (JsonForm SetFailure)
  | .subscription => inferInstanceAs (JsonForm Subscription)
  | .dumpReport => inferInstanceAs (JsonForm DumpReport)
  | .settings => inferInstanceAs (JsonForm Settings)

instance hasSingles : (type : JsonType) → HasSingles type.Value
  | .value => inferInstanceAs (HasSingles PropertyValue)
  | .payload => inferInstanceAs (HasSingles Payload)
  | .key => inferInstanceAs (HasSingles PropertyKey)
  | .areaConfig => inferInstanceAs (HasSingles AreaConfig)
  | .config => inferInstanceAs (HasSingles PropertyConfig)
  | .getRequest => inferInstanceAs (HasSingles GetRequest)
  | .getResult => inferInstanceAs (HasSingles GetResult)
  | .setRequest => inferInstanceAs (HasSingles SetRequest)
  | .setResult => inferInstanceAs (HasSingles SetResult)
  | .setFailure => inferInstanceAs (HasSingles SetFailure)
  | .subscription => inferInstanceAs (HasSingles Subscription)
  | .dumpReport => inferInstanceAs (HasSingles DumpReport)
  | .settings => inferInstanceAs (HasSingles Settings)

/-- The single precision numbers that stand in a value of the type. -/
def singles (type : JsonType) (value : type.Value) : List Single :=
  HasSingles.singles value

instance lawful (type : JsonType) : LawfulJsonForm type.Value := by
  cases type
  case value => exact inferInstanceAs (LawfulJsonForm PropertyValue)
  case payload => exact inferInstanceAs (LawfulJsonForm Payload)
  case key => exact inferInstanceAs (LawfulJsonForm PropertyKey)
  case areaConfig => exact inferInstanceAs (LawfulJsonForm AreaConfig)
  case config => exact inferInstanceAs (LawfulJsonForm PropertyConfig)
  case getRequest => exact inferInstanceAs (LawfulJsonForm GetRequest)
  case getResult => exact inferInstanceAs (LawfulJsonForm GetResult)
  case setRequest => exact inferInstanceAs (LawfulJsonForm SetRequest)
  case setResult => exact inferInstanceAs (LawfulJsonForm SetResult)
  case setFailure => exact inferInstanceAs (LawfulJsonForm SetFailure)
  case subscription => exact inferInstanceAs (LawfulJsonForm Subscription)
  case dumpReport => exact inferInstanceAs (LawfulJsonForm DumpReport)
  case settings => exact inferInstanceAs (LawfulJsonForm Settings)

/-- A value is read back from its text exactly if all numbers in it are finite. -/
theorem ofText?_toText_contract (type : JsonType) (value : type.Value)
    (given : ∀ number ∈ type.singles value, number.ReadsBack) :
    JsonForm.ofText? (JsonForm.toText value) =
      if ∀ number ∈ type.singles value, number.isFinite = true then some value else none := by
  rw [LawfulJsonForm.ofText?_toText_eq value given]
  simp only [ifFinite, List.all_eq_true]
  rfl

/-- One tenth, negative zero and the least number come back, with a text that needs
escapes; a result with a number that is none does not, and one without a value does. -/
theorem ofText?_toText_contract_of_escapes :
    let speed : PropertyValue := {
      timestamp := Int64.minValue
      area := -1
      property := Int32.maxValue
      availability := .error
      payload := {
        singles := [⟨0x3dcccccd⟩, ⟨0x80000000⟩, ⟨0x00000001⟩]
        text := "\"\\\u0001\n\u00e9\x7f" } }
    let unknown : GetResult := {
      id := 7
      status := .ok
      value := some { area := 0, property := 1, payload := { singles := [⟨0x7fc00000⟩] } } }
    let refused : GetResult := ⟨7, .notAvailableSafety, none⟩
    let subscription : Subscription := { property := 1, sampleRate := ⟨0x41200000⟩ }
    JsonForm.ofText? (JsonForm.toText speed) = some speed ∧
    JsonForm.ofText? (JsonForm.toText unknown) = (none : Option GetResult) ∧
    JsonForm.ofText? (JsonForm.toText refused) = some refused ∧
    JsonForm.ofText? (JsonForm.toText subscription) = some subscription := by
  dsimp only
  refine ⟨?_, ?_, ?_, ?_⟩
  · exact (ofText?_toText_contract .value _ (by decide +kernel)).trans
      (if_pos (by decide))
  · exact (ofText?_toText_contract .getResult _ (by decide +kernel)).trans
      (if_neg (by decide))
  · exact (ofText?_toText_contract .getResult _ (by decide +kernel)).trans (if_pos (by decide))
  · exact (ofText?_toText_contract .subscription _ (by decide +kernel)).trans
      (if_pos (by decide))

end JsonType

end VehicleRelay
