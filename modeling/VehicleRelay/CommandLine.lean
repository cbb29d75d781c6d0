/-!
# Command line

The daemon takes options and the path of a settings file.  What it does not
understand is remembered and reported later; a request for help ends the reading
of arguments at once.
-/

namespace VehicleRelay

structure Arguments where
  settingsPath : Option String := none
  jsonLogs : Bool := false
  /-- Serve from a server in memory instead of connecting to one. -/
  demo : Bool := false
  /-- How long to wait for the server, in milliseconds. -/
  waitMillis : UInt64 := 5000
  /-- The arguments that were not understood, in order. -/
  unknown : List String := []
deriving DecidableEq, Repr, Inhabited

inductive Invocation
  | help
  | run (arguments : Arguments)
deriving DecidableEq, Repr

namespace CommandLine

/-- A number of 64 bits in decimal digits, perhaps after a plus sign. -/
def readCount? (text : String) : Option UInt64 :=
  let digits :=
    match text.toList with
    | '+' :: rest => rest
    | characters => characters
  let number := Nat.ofDigitChars 10 digits 0
  if digits ≠ [] ∧ digits.all Char.isDigit ∧ number < UInt64.size then some (UInt64.ofNat number)
  else none

def isOption (argument : String) : Bool :=
  argument.toList.head? == some '-'

/-- Reads arguments from left to right, after what earlier ones have given. -/
def readFrom (arguments : Arguments) : List String → Invocation
  | [] => .run arguments
  | argument :: rest =>
      if argument = "--json-logs" then readFrom { arguments with jsonLogs := true } rest
      else if argument = "--mock" then readFrom { arguments with demo := true } rest
      else if argument = "--wait-ms" then
        match rest with
        | count :: others =>
            match readCount? count with
            | some waitMillis => readFrom { arguments with waitMillis } others
            | none =>
                readFrom { arguments with unknown := arguments.unknown ++ [argument] }
                  (count :: others)
        | [] => .run { arguments with unknown := arguments.unknown ++ [argument] }
      else if argument = "--help" ∨ argument = "-h" then .help
      else if isOption argument then
        readFrom { arguments with unknown := arguments.unknown ++ [argument] } rest
      else readFrom { arguments with settingsPath := some argument } rest

def read (arguments : List String) : Invocation :=
  readFrom {} arguments

def helpLines : List String := [
  "vhal-bridged - Vehicle Hardware Bridge Daemon",
  "",
  "Usage: vhal-bridged [OPTIONS] [config.toml]",
  "",
  "Options:",
  "  --json-logs      Emit logs as JSON lines",
  "  --mock           Serve from an in-process mock vehicle server",
  "  --wait-ms <ms>   Wait this long for the server before starting (default 5000)",
  "  -h, --help       Print this help message",
  "",
  "Examples:",
  "  # Connect to the default server address",
  "  vhal-bridged",
  "",
  "  # Run with config file",
  "  vhal-bridged bridge.toml",
  "",
  "  # Demo without a vehicle server",
  "  vhal-bridged --mock",
  ""]

def help : String :=
  String.join (helpLines.map fun line => line ++ "\n")

end CommandLine

end VehicleRelay
