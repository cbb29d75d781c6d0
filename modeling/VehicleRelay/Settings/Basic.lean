import VehicleRelay.Decimal.Integer
import VehicleRelay.Text.Blank

/-!
# Settings

The settings of a relay in three sections, each field with a default of its
own.  All durations are in milliseconds.
-/

namespace VehicleRelay

structure ServerSettings where
  address : String := "http://127.0.0.1:50051"
  /-- The limit on each attempt to connect. -/
  connectTimeout : UInt64 := 5000
deriving DecidableEq, Repr, Inhabited

/-- When the stream of values is opened again after it ends. -/
structure StreamSettings where
  reconnect : Bool := true
  initialBackoff : UInt64 := 100
  maxBackoff : UInt64 := 10000
deriving DecidableEq, Repr, Inhabited

structure GetSettings where
  maxAttempts : UInt64 := 5
deriving DecidableEq, Repr, Inhabited

structure Settings where
  server : ServerSettings := {}
  stream : StreamSettings := {}
  getValues : GetSettings := {}
deriving DecidableEq, Repr, Inhabited

/-- The part of the settings that a relay needs once it has a server. -/
structure RelayOptions where
  stream : StreamSettings := {}
  maxAttempts : UInt64 := 5
deriving DecidableEq, Repr, Inhabited

namespace StreamSettings

/-- The first wait, never none at all, so that doubling it makes progress. -/
def firstWait (settings : StreamSettings) : Nat :=
  max 1 settings.initialBackoff.toNat

def longestWait (settings : StreamSettings) : Nat :=
  settings.maxBackoff.toNat

end StreamSettings

inductive SettingsFault
  | blankAddress
  | noAttempts
  | noBackoff
  | backoffAboveMaximum (initial maximum : UInt64)
deriving DecidableEq, Repr

def SettingsFault.message : SettingsFault → String
  | .blankAddress => "server.address must not be empty"
  | .noAttempts => "get_values.max_attempts must be at least 1"
  | .noBackoff => "stream.initial_backoff_ms must be at least 1"
  | .backoffAboveMaximum initial maximum =>
      "stream.initial_backoff_ms (" ++ Decimal.text initial.toNat
        ++ ") exceeds stream.max_backoff_ms (" ++ Decimal.text maximum.toNat ++ ")"

/-- What keeps a relay from being set up. -/
inductive SetupError
  | unreadable
  | malformed
  | invalid (fault : SettingsFault)
  | invalidAddress (address : String)
deriving DecidableEq, Repr

def SetupError.message : SetupError → String
  | .unreadable => "Failed to read config"
  | .malformed => "Invalid configuration: TOML parse error"
  | .invalid fault => "Invalid configuration: " ++ fault.message
  | .invalidAddress _ => "Invalid server address"

namespace Settings

def options (settings : Settings) : RelayOptions where
  stream := settings.stream
  maxAttempts := settings.getValues.maxAttempts

/-- The first fault, in a fixed order. -/
def fault? (settings : Settings) : Option SettingsFault :=
  if Text.allBlank settings.server.address then some .blankAddress
  else if settings.getValues.maxAttempts = 0 then some .noAttempts
  else if settings.stream.initialBackoff = 0 then some .noBackoff
  else if settings.stream.maxBackoff < settings.stream.initialBackoff then
    some (.backoffAboveMaximum settings.stream.initialBackoff settings.stream.maxBackoff)
  else none

def validate (settings : Settings) : Except SetupError Settings :=
  match settings.fault? with
  | some fault => .error (.invalid fault)
  | none => .ok settings

end Settings

end VehicleRelay
