import VehicleRelay.Settings.Basic

/-!
# The reader of the value stream

The reader opens the stream of values, reads it until it ends, waits and opens
it again.  Each wait is twice as long as the one before, up to a longest wait,
and the first wait again after a stream that gave a batch.
-/

namespace VehicleRelay

inductive ReaderPhase
  | opening
  | reading (batches : Nat)
  | waiting (duration : Nat)
  | finished
deriving DecidableEq, Repr

structure Reader where
  phase : ReaderPhase
  /-- The next wait, unless the stream gives a batch. -/
  backoff : Nat
deriving DecidableEq, Repr

namespace Reader

def start (settings : StreamSettings) : Reader :=
  ⟨.opening, settings.firstWait⟩

/-- A stream, or an attempt to open one, has ended after some batches. -/
def streamEnded (settings : StreamSettings) (batches : Nat) (reader : Reader) : Reader :=
  if settings.reconnect then
    let wait := if 0 < batches then settings.firstWait else reader.backoff
    ⟨.waiting wait, wait⟩
  else { reader with phase := .finished }

/-- A wait is over. -/
def waitEnded (settings : StreamSettings) (duration : Nat) : Reader :=
  ⟨.opening, min (duration * 2) settings.longestWait⟩

def finish (reader : Reader) : Reader :=
  { reader with phase := .finished }

def isFinished (reader : Reader) : Bool :=
  reader.phase == .finished

end Reader

end VehicleRelay
