import VehicleRelay.Daemon

/-!
# Transcripts

What the program prints, and how it ends.  A run that fails ends at once; any
other one goes on until it is interrupted.
-/

namespace VehicleRelay

def LogLine.toText (jsonLogs : Bool) (line : LogLine) : String :=
  let message := line.message jsonLogs
  if jsonLogs then
    (JsonValue.ofFields [
      ("level", JsonForm.toJson line.level.name),
      ("message", JsonForm.toJson message)]).toText
  else line.level.name ++ " " ++ message

/-- What the program prints, and how it ends. -/
structure Transcript where
  /-- The lines on the standard output. -/
  output : List String := []
  /-- The text on the standard error output. -/
  errors : String := ""
  /-- The lines that are printed after an interruption, if the program waits for one. -/
  lastOutput : Option (List String) := none
  exitCode : UInt32 := 0
deriving DecidableEq, Repr

namespace Transcript

def help : Transcript where
  errors := CommandLine.help
  exitCode := 0

def ofReport (jsonLogs : Bool) (report : Daemon.Report) : Transcript :=
  let output := report.log.map (LogLine.toText jsonLogs)
  match report.failure with
  | some failure =>
      { output, errors := "Error: " ++ failure.message ++ "\n", exitCode := 1 }
  | none => { output, lastOutput := some (report.lastLog.map (LogLine.toText jsonLogs)) }

/-- What is printed for an invocation, in an environment. -/
def ofInvocation (environment : Daemon.Environment) : Invocation → Transcript
  | .help => help
  | .run arguments => ofReport arguments.jsonLogs (Daemon.run arguments environment 0)

end Transcript

end VehicleRelay
