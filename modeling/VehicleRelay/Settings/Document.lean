import VehicleRelay.Settings.Basic
import VehicleRelay.Toml.Document

/-!
# Settings documents

Settings are read from a TOML document.  Each section and each field of it may
be absent and then has its default; what is not known is ignored.  A section may
also be an array of its fields in order.
-/

namespace VehicleRelay

namespace TomlValue

def text? : TomlValue → Option String
  | .text contents => some contents
  | _ => none

def boolean? : TomlValue → Option Bool
  | .boolean value => some value
  | _ => none

/-- An integer that is not negative. -/
def count? : TomlValue → Option UInt64
  | .integer number => if 0 ≤ number then some (UInt64.ofNat number.toNat) else none
  | _ => none

/-- The fields of a section; a time has none that a section could know. -/
def fields? (names : List String) : TomlValue → Option (List (String × TomlValue))
  | .table members => some members
  | .array items => some (names.zip items)
  | .time _ => some []
  | _ => none

end TomlValue

/-- Reads one member if it is there. -/
def readMember {α : Type} (members : List (String × TomlValue)) (name : String)
    (read? : TomlValue → Option α) (absent : α) : Option α :=
  match members.lookup name with
  | some value => read? value
  | none => some absent

def ServerSettings.ofToml? (value : TomlValue) : Option ServerSettings := do
  let fields ← value.fields? ["address", "connect_timeout_ms"]
  let absent : ServerSettings := {}
  some {
    address := ← readMember fields "address" TomlValue.text? absent.address
    connectTimeout :=
      ← readMember fields "connect_timeout_ms" TomlValue.count? absent.connectTimeout }

def StreamSettings.ofToml? (value : TomlValue) : Option StreamSettings := do
  let fields ← value.fields? ["reconnect", "initial_backoff_ms", "max_backoff_ms"]
  let absent : StreamSettings := {}
  some {
    reconnect := ← readMember fields "reconnect" TomlValue.boolean? absent.reconnect
    initialBackoff :=
      ← readMember fields "initial_backoff_ms" TomlValue.count? absent.initialBackoff
    maxBackoff := ← readMember fields "max_backoff_ms" TomlValue.count? absent.maxBackoff }

def GetSettings.ofToml? (value : TomlValue) : Option GetSettings := do
  let fields ← value.fields? ["max_attempts"]
  let absent : GetSettings := {}
  some {
    maxAttempts := ← readMember fields "max_attempts" TomlValue.count? absent.maxAttempts }

namespace Settings

def ofMembers? (members : List (String × TomlValue)) : Option Settings := do
  some {
    server := ← readMember members "server" ServerSettings.ofToml? {}
    stream := ← readMember members "stream" StreamSettings.ofToml? {}
    getValues := ← readMember members "get_values" GetSettings.ofToml? {} }

/-- The valid settings that a document stands for. -/
def ofText (text : String) : Except SetupError Settings :=
  match Toml.ofText? text with
  | none => .error .malformed
  | some members =>
      match ofMembers? members with
      | none => .error .malformed
      | some settings => settings.validate

/-- The valid settings of a file with the given contents, if there is one. -/
def ofFile (contents : Option ByteArray) : Except SetupError Settings :=
  match contents.bind String.fromUTF8? with
  | none => .error .unreadable
  | some text => ofText text

end Settings

end VehicleRelay
