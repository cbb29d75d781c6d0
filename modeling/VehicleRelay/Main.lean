import VehicleRelay.Transcript

/-!
# The program

The program prints its transcript.  It cannot dial a server, so every address is
out of reach, and the end of its standard input interrupts it.
-/

namespace VehicleRelay

/-- Prints everything and gives the exit code. -/
def Transcript.print (transcript : Transcript) : IO UInt32 := do
  for line in transcript.output do
    IO.println line
  IO.eprint transcript.errors
  if let some lines := transcript.lastOutput then
    let _ ← (← IO.getStdin).readToEnd
    for line in lines do
      IO.println line
  return transcript.exitCode

/-- The contents of the settings file of an invocation, if there is one. -/
def Invocation.contents : Invocation → IO (Option ByteArray)
  | .run { settingsPath := some path, .. } =>
      try
        return some (← IO.FS.readBinFile path)
      catch _ =>
        return none
  | _ => return none

end VehicleRelay

def main (arguments : List String) : IO UInt32 := do
  let invocation := VehicleRelay.CommandLine.read arguments
  let contents ← invocation.contents
  (VehicleRelay.Transcript.ofInvocation ⟨fun _ => contents, fun _ => .down⟩ invocation).print
