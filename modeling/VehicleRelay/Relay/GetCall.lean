import VehicleRelay.Server.Call
import VehicleRelay.TimestampTable

/-!
# Get calls

A get call asks the server for values and keeps the results that are not stale.
The requests of stale results are sent again, until none is left or the number
of attempts is used up.  Between two remote calls a get call waits, and the
timestamp table may change.
-/

namespace VehicleRelay

/-- The request that an id stands for in a batch, the last one that has it. -/
def requestOf? (requests : List GetRequest) (id : Int64) : Option GetRequest :=
  requests.reverse.find? fun request => request.id == id

/-- What becomes of the results of one remote call. -/
structure Sifted where
  kept : List GetResult
  retries : List GetRequest
  table : TimestampTable

/-- Presents the values of results to the table in order.  Results with an id
that was not asked for are dropped; results without a value are kept. -/
def TimestampTable.sift (table : TimestampTable) (readings : ClockReadings)
    (requests : List GetRequest) : List GetResult → Sifted
  | [] => ⟨[], [], table⟩
  | result :: results =>
      match requestOf? requests result.id with
      | none => table.sift readings requests results
      | some request =>
          match result.value with
          | none =>
              let others := table.sift readings requests results
              { others with kept := result :: others.kept }
          | some value =>
              match table.restamp readings.first value with
              | (some admitted, next) =>
                  let others := next.sift readings.rest requests results
                  { others with kept := { result with value := some admitted } :: others.kept }
              | (none, next) =>
                  let others := next.sift readings.rest requests results
                  { others with retries := request :: others.retries }

/-- A get call that waits for the answer to its latest remote call. -/
structure GetCall where
  /-- The requests of the latest remote call. -/
  pending : List GetRequest
  kept : List GetResult
  /-- The number of remote calls that may still be made. -/
  attemptsLeft : Nat
deriving DecidableEq, Repr

/-- How a get call ended, with the results that its callback was given. -/
structure GetOutcome where
  status : CallStatus
  delivered : Option (List GetResult)
deriving DecidableEq, Repr

inductive GetProgress
  | waiting (call : GetCall)
  | finished (outcome : GetOutcome)
deriving DecidableEq, Repr

namespace GetCall

/-- Goes on with what is kept so far and with the requests to send again. -/
def next (attemptsLeft : Nat) (kept : List GetResult) (retries : List GetRequest) :
    GetProgress :=
  if retries.isEmpty then .finished ⟨.ok, if kept.isEmpty then none else some kept⟩
  else
    match attemptsLeft with
    | 0 => .finished ⟨.tryAgain, none⟩
    | attemptsLeft + 1 => .waiting ⟨retries, kept, attemptsLeft⟩

/-- The first remote call is made like the later ones. -/
def start (maxAttempts : Nat) (requests : List GetRequest) : GetProgress :=
  next maxAttempts [] requests

/-- Takes the answer to the latest remote call. -/
def resume (call : GetCall) (table : TimestampTable) (readings : ClockReadings)
    (answer : RpcResult (List GetResult)) : GetProgress × TimestampTable :=
  match answer with
  | .error _ => (.finished ⟨.internalError, none⟩, table)
  | .ok results =>
      let sifted := table.sift readings call.pending results
      (next call.attemptsLeft (call.kept ++ sifted.kept) sifted.retries, sifted.table)

variable {Server : Type} [VehicleServer Server]

/-- Makes remote calls up to a number of rounds, each with clock readings of its
own, while nothing else changes the table. -/
def drive : Nat → GetProgress → TimestampTable → (Nat → ClockReadings) → Server →
    GetOutcome × TimestampTable × Server
  | _, .finished outcome, table, _, server => (outcome, table, server)
  | 0, .waiting _, table, _, server => (⟨.tryAgain, none⟩, table, server)
  | rounds + 1, .waiting call, table, readings, server =>
      let (answer, server) := VehicleServer.answer (.getValues call.pending) server
      let (progress, table) := call.resume table (readings 0) answer
      drive rounds progress table (fun round => readings (round + 1)) server

end GetCall

end VehicleRelay
