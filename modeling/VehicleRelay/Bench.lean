import VehicleRelay.Relay.Basic
import VehicleRelay.Relay.Passthrough
import VehicleRelay.Server.Scripted
import VehicleRelay.Total

/-!
# Test bench

A test bench runs at most one relay on a scripted server, in simulated time.
Time stands still while the relay has turns to take; a wait is over exactly when
its duration has passed.
-/

namespace VehicleRelay

structure Bench where
  server : ScriptedServer
  relay : Option Relay := none
  /-- The stream that the relay reads. -/
  stream : Option StreamId := none
  /-- In milliseconds. -/
  now : Nat := 0
  /-- When the wait of the relay is over. -/
  wakeAt : Nat := 0
  /-- The number of handlers that were ever registered. -/
  handlers : Nat := 0
  /-- The events that nobody has looked at yet. -/
  events : List ChangeEvent := []
  /-- Both ends of streams that the bench itself holds, by number; `none` for a
  sender that was closed. -/
  senders : List (Option StreamId) := []
  receivers : List StreamId := []

namespace Bench

/-- The local clock counts nanoseconds. -/
def readings (bench : Bench) : ClockReadings :=
  .still (Int64.ofNat (bench.now * 1000000))

def shownEvents (shown : List RelayOutput) : List ChangeEvent :=
  shown.filterMap fun
    | .changed event => some event
    | .got _ _ => none

def phase? (bench : Bench) : Option ReaderPhase :=
  bench.relay.map fun relay => relay.reader.phase

/-- The end of a wait that begins between two phases, or that goes on. -/
def wakeAfter (bench : Bench) : Option ReaderPhase → ReaderPhase → Nat
  | some (.waiting _), _ => bench.wakeAt
  | _, .waiting duration => bench.now + duration
  | _, _ => bench.wakeAt

/-- Makes the relay take a turn, if it can. -/
def turn (bench : Bench) (turn : RelayTurn) : Bench :=
  match bench.relay.bind fun relay => relay.turn? bench.readings turn with
  | some (shown, relay) =>
      { bench with
        relay := some relay
        wakeAt := bench.wakeAfter bench.phase? relay.reader.phase
        events := bench.events ++ shownEvents shown }
  | none => bench

/-- Leaves the stream that the relay reads. -/
def leaveStream (bench : Bench) : Bench :=
  match bench.stream with
  | some id => { bench with server := bench.server.closeReceiver id, stream := none }
  | none => bench

/-- One step of the reader, or nothing when the reader has to wait. -/
def readerStep? (bench : Bench) : Option Bench :=
  match bench.phase? with
  | some .opening =>
      match bench.server.startStream with
      | (.ok id, server) => some ({ bench with server, stream := some id }.turn .streamOpened)
      | (.error _, server) => some ({ bench with server }.turn .streamRefused)
  | some (.reading _) =>
      match bench.server.takeItem (bench.stream.getD bench.server.streams.length) with
      | (.item (.ok batch), server) =>
          some ({ bench with server }.turn (.batchReceived batch))
      | (.item (.error _), server) =>
          some (({ bench with server }.turn .streamFailed).leaveStream)
      | (.ended, server) => some (({ bench with server }.turn .streamClosed).leaveStream)
      | (.nothingYet, _) => none
  | some (.waiting _) => if bench.wakeAt ≤ bench.now then some (bench.turn .waitElapsed) else none
  | some .finished => none
  | none => none

def settleUpTo : Nat → Bench → Bench
  | 0, bench => bench
  | steps + 1, bench =>
      match bench.readerStep? with
      | some next => settleUpTo steps next
      | none => bench

/-- More steps than the reader can take while time stands still: every stream
that it opens is scripted, but for the last one, and is opened, ended and waited
for once; every batch is read once. -/
def stepBound (bench : Bench) : Nat :=
  3 * (bench.server.streamScript.length + 2)
    + total (fun stream => stream.waiting.length) bench.server.streams

/-- Lets the reader take all steps that it can take now. -/
def settle (bench : Bench) : Bench :=
  settleUpTo bench.stepBound bench

/-- The time at which the reader goes on, if it waits. -/
def wakeTime? (bench : Bench) : Option Nat :=
  match bench.phase? with
  | some (.waiting _) => some bench.wakeAt
  | _ => none

def advanceUpTo (target : Nat) : Nat → Bench → Bench
  | 0, bench => { bench with now := target }
  | waits + 1, bench =>
      match bench.wakeTime? with
      | some time =>
          if time ≤ target then advanceUpTo target waits { bench with now := time }.settle
          else { bench with now := target }
      | none => { bench with now := target }

/-- Lets time pass.  After every wait one more of the scripted streams is
opened, or a last one that is not scripted. -/
def advance (bench : Bench) (duration : Nat) : Bench :=
  (advanceUpTo (bench.now + duration) (bench.server.streamScript.length + 2) bench.settle).settle

/-- Takes the events that nobody has looked at yet. -/
def takeEvents (bench : Bench) : List ChangeEvent × Bench :=
  (bench.events, { bench with events := [] })

def dropRelay (bench : Bench) : Bench :=
  { (bench.turn .dropped).leaveStream with relay := none }

/-- Starts a relay, after the one before is dropped. -/
def startRelay (bench : Bench) (options : RelayOptions) : Bench :=
  { bench.dropRelay with relay := some (.start options) }.settle

def shutdown (bench : Bench) : Bench :=
  (((bench.turn .shutdownCalled).turn .stopNoticed).turn .shutdownReturned).leaveStream

/-- Registers a new handler and gives its number. -/
def registerChange (bench : Bench) : Handler × Bench :=
  let handler := bench.handlers + 1
  (handler, { bench with handlers := handler }.turn (.registerChange handler))

/-- Makes an operation of the relay. -/
def operate {Outcome : Type} (bench : Bench) (relay : Relay)
    (operation : Relay → ScriptedServer → Outcome × Relay × ScriptedServer) : Outcome × Bench :=
  let (outcome, relay, server) := operation relay bench.server
  (outcome, { bench with relay := some relay, server }.settle)

/-- Makes a get call that nothing interrupts. -/
def getValues (bench : Bench) (relay : Relay) (requests : List GetRequest) :
    GetOutcome × Bench :=
  bench.operate relay fun relay server =>
    relay.getValues (fun _ => bench.readings) requests server

/-- Makes a call of the server, on behalf of nobody. -/
def call (bench : Bench) (call : ServerCall) : RpcResult call.Answer × Bench :=
  let (result, server) := VehicleServer.answer call bench.server
  (result, { bench with server }.settle)

/-- Changes the server without calling it. -/
def changeServer (bench : Bench) (change : ScriptedServer → ScriptedServer) : Bench :=
  { bench with server := change bench.server }.settle

/-! ## Streams that the bench holds an end of -/

inductive SendOutcome
  | sent
  | closed
  /-- The sender itself was closed before. -/
  | dropped
deriving DecidableEq, Repr

/-- Scripts a stream and keeps its sender, which gets a number. -/
def openSender (bench : Bench) : Nat × Bench :=
  let (id, server) := bench.server.scriptStream {}
  (bench.senders.length, { bench with server, senders := bench.senders ++ [some id] }.settle)

def sender? (bench : Bench) (number : Nat) : Option StreamId :=
  (bench.senders[number]?).join

def send (bench : Bench) (number : Nat) (batch : RpcResult Batch) : SendOutcome × Bench :=
  match bench.sender? number with
  | none => (.dropped, bench)
  | some id =>
      let (sent, server) := bench.server.send id batch
      (if sent then .sent else .closed, { bench with server }.settle)

/-- Whether nobody receives what a sender sends; `none` for a closed sender. -/
def isStreamClosed (bench : Bench) (number : Nat) : Option Bool :=
  (bench.sender? number).map fun id => !bench.server.isReceiving id

def closeSender (bench : Bench) (number : Nat) : Bench :=
  match bench.sender? number with
  | none => bench
  | some id =>
      { bench with
        server := bench.server.closeSender id
        senders := bench.senders.set number none }.settle

/-- Starts a stream without the relay and keeps its receiver, which gets a
number. -/
def openReceiver (bench : Bench) : RpcResult Nat × Bench :=
  match bench.server.startStream with
  | (.ok id, server) =>
      (.ok bench.receivers.length,
        { bench with server, receivers := bench.receivers ++ [id] }.settle)
  | (.error error, server) => (.error error, { bench with server }.settle)

/-- Looks for the next batch of a stream that the bench receives. -/
def receive (bench : Bench) (number : Nat) : StreamItem × Bench :=
  match bench.receivers[number]? with
  | none => (.ended, bench)
  | some id =>
      let (item, server) := bench.server.takeItem id
      (item, { bench with server }.settle)

end Bench

end VehicleRelay
