import VehicleRelay.Relay.Callbacks
import VehicleRelay.Relay.GetCall
import VehicleRelay.Relay.Reader

/-!
# The relay

A relay passes calls on to a vehicle server and gives the values that the server
pushes to the handler of changes.  Values of both ways are reconciled by one
timestamp table.

What happens to a relay is a sequence of turns.  A turn is one uninterrupted
piece of work: a registration, the answer to one remote call, one batch of the
stream, or a step of the reader between two of its waits.  A turn is possible
only in some states; which of the possible turns comes next is not decided here.
-/

namespace VehicleRelay

structure Relay where
  settings : StreamSettings
  /-- The number of remote calls that a get call may make. -/
  maxAttempts : Nat
  attempts_pos : 0 < maxAttempts
  table : TimestampTable
  callbacks : Callbacks
  reader : Reader
  /-- Whether the reader has been asked to stop. -/
  stopping : Bool
  /-- Whether nobody waits for the end of the reader yet. -/
  unawaited : Bool
  /-- The get calls, in the order in which they were made. -/
  calls : List GetProgress

inductive RelayTurn
  | registerChange (handler : Handler)
  | registerSetFailure (handler : Handler)
  /-- The server has opened the stream. -/
  | streamOpened
  /-- The server has not opened the stream. -/
  | streamRefused
  | batchReceived (values : List PropertyValue)
  | streamFailed
  | streamClosed
  | waitElapsed
  /-- The reader notices that it has to stop. -/
  | stopNoticed
  | getCalled (requests : List GetRequest)
  | getAnswered (call : Nat) (answer : RpcResult (List GetResult))
  | shutdownCalled
  /-- The shutdown that waits for the reader returns. -/
  | shutdownReturned
  | dropped

/-- What a turn shows to the outside. -/
inductive RelayOutput
  | changed (event : ChangeEvent)
  | got (call : Nat) (outcome : GetOutcome)
deriving DecidableEq, Repr

namespace Relay

def start (options : RelayOptions) : Relay where
  settings := options.stream
  maxAttempts := max 1 options.maxAttempts.toNat
  attempts_pos := Nat.le_max_left 1 _
  table := .empty
  callbacks := {}
  reader := .start options.stream
  stopping := false
  unawaited := true
  calls := []

/-- Reconciles a batch of pushed values and dispatches the ones that are not
stale at once. -/
def deliver (relay : Relay) (readings : ClockReadings) (values : List PropertyValue) :
    List ChangeEvent × Relay :=
  let (admitted, table) := relay.table.restampAll readings values
  (relay.callbacks.dispatch admitted, { relay with table })

/-- Records how far a get call has come. -/
def record (relay : Relay) (call : Nat) (progress : GetProgress) : List RelayOutput × Relay :=
  let relay := { relay with calls := relay.calls.set call progress }
  match progress with
  | .waiting _ => ([], relay)
  | .finished outcome => ([.got call outcome], relay)

/-- The stream that is being read has ended. -/
def endStream? (relay : Relay) : Option (List RelayOutput × Relay) :=
  match relay.reader.phase with
  | .reading batches =>
      some ([], { relay with reader := relay.reader.streamEnded relay.settings batches })
  | _ => none

/-- Takes a turn if it is possible, and gives what it shows. -/
def turn? (relay : Relay) (readings : ClockReadings) :
    RelayTurn → Option (List RelayOutput × Relay)
  | .registerChange handler =>
      some ([], { relay with callbacks := relay.callbacks.registerChange handler })
  | .registerSetFailure handler =>
      some ([], { relay with callbacks := relay.callbacks.registerSetFailure handler })
  | .streamOpened =>
      match relay.reader.phase with
      | .opening => some ([], { relay with reader.phase := .reading 0 })
      | _ => none
  | .streamRefused =>
      match relay.reader.phase with
      | .opening => some ([], { relay with reader := relay.reader.streamEnded relay.settings 0 })
      | _ => none
  | .batchReceived values =>
      match relay.reader.phase with
      | .reading batches =>
          let (events, relay) := relay.deliver readings values
          some (events.map .changed, { relay with reader.phase := .reading (batches + 1) })
      | _ => none
  | .streamFailed => relay.endStream?
  | .streamClosed => relay.endStream?
  | .waitElapsed =>
      match relay.reader.phase with
      | .waiting duration =>
          some ([], { relay with reader := .waitEnded relay.settings duration })
      | _ => none
  | .stopNoticed =>
      if relay.stopping ∧ ¬relay.reader.isFinished then
        some ([], { relay with reader := relay.reader.finish })
      else none
  | .getCalled requests =>
      let progress := GetCall.start relay.maxAttempts requests
      some ({ relay with calls := relay.calls ++ [progress] }.record relay.calls.length progress)
  | .getAnswered call answer =>
      match relay.calls[call]? with
      | some (.waiting getCall) =>
          let (progress, table) := getCall.resume relay.table readings answer
          some ({ relay with table }.record call progress)
      | _ => none
  | .shutdownCalled =>
      if relay.unawaited then some ([], { relay with stopping := true, unawaited := false })
      else some ([], { relay with stopping := true, callbacks := relay.callbacks.close })
  | .shutdownReturned =>
      if relay.stopping ∧ ¬relay.unawaited ∧ relay.reader.isFinished then
        some ([], { relay with callbacks := relay.callbacks.close })
      else none
  | .dropped =>
      let reader := if relay.unawaited then relay.reader.finish else relay.reader
      some ([], { relay with
        reader, stopping := true, unawaited := false, callbacks := relay.callbacks.close })

/-- Takes turns one after the other, each with clock readings of its own. -/
def run? (relay : Relay) : List (RelayTurn × ClockReadings) → Option (List RelayOutput × Relay)
  | [] => some ([], relay)
  | (turn, readings) :: turns => do
      let (shown, relay) ← relay.turn? readings turn
      let (later, relay) ← relay.run? turns
      some (shown ++ later, relay)

/-- Makes a get call that nothing interrupts. -/
def getValues {Server : Type} [VehicleServer Server] (relay : Relay)
    (readings : Nat → ClockReadings) (requests : List GetRequest) (server : Server) :
    GetOutcome × Relay × Server :=
  let (outcome, table, server) :=
    GetCall.drive relay.maxAttempts (GetCall.start relay.maxAttempts requests) relay.table
      readings server
  (outcome, { relay with table }, server)

end Relay

end VehicleRelay
