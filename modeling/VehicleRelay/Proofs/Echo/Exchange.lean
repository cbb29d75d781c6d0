import VehicleRelay.Bench
import VehicleRelay.Proofs.GetCall.Stored
import VehicleRelay.Proofs.Relay.Changes

/-!
# Exchanges of a relay with its server

A relay that is attached to a server reads one stream of it.  Set calls and get
calls are made, and the batches of the stream are delivered, one after the other.
A get call is made when the stream has nothing that waits.
-/

namespace VehicleRelay

/-- A relay that reads a stream of a server. -/
structure Attachment where
  relay : Relay
  server : ScriptedServer
  stream : StreamId

/-- What happens next: a call of the relay, or the delivery of a batch. -/
inductive Move
  | set (requests : List SetRequest)
  | deliver (readings : ClockReadings)
  | get (requests : List GetRequest) (readings : Nat → ClockReadings)

/-- What a move was about, and what came of it. -/
inductive Exchange
  | set (requests : List SetRequest)
  | delivered (events : List ChangeEvent)
  /-- The server's answer, the remote calls that were made, and the outcome. -/
  | got (requests : List GetRequest) (answer : RpcResult (List GetResult))
      (calls : List ServerCall) (outcome : GetOutcome)

namespace Exchange

/-- The values that were set at once. -/
def batch? : Exchange → Option Batch
  | .set requests => some (requests.map SetRequest.value)
  | _ => none

def events : Exchange → List ChangeEvent
  | .delivered events => events
  | _ => []

/-- The values that were sent to the server or came in the answer to a get call, at the
times of their sources. -/
def seen : Exchange → List PropertyValue
  | .set requests => requests.map SetRequest.value
  | .delivered _ => []
  | .got _ (.ok results) _ _ => results.filterMap GetResult.value
  | .got _ (.error _) _ _ => []

/-- A set call has values, and none of them is older than another value of its key that
was seen before it. -/
def InOrderAfter (earlier : List PropertyValue) : Exchange → Prop
  | .set requests => requests ≠ [] ∧ InSequence earlier (requests.map SetRequest.value)
  | _ => True

/-- Every set call is in order after what was seen before it. -/
def InOrder (earlier : List PropertyValue) : List Exchange → Prop
  | [] => True
  | exchange :: log => exchange.InOrderAfter earlier ∧ InOrder (earlier ++ exchange.seen) log

theorem InOrder.of_append {earlier : List PropertyValue} {first later : List Exchange}
    (ordered : InOrder earlier (first ++ later)) : InOrder earlier first := by
  induction first generalizing earlier with
  | nil => trivial
  | cons exchange first induction =>
      obtain ⟨now, ordered⟩ := ordered
      exact ⟨now, induction ordered⟩

instance decidableInOrderAfter (earlier : List PropertyValue) :
    (exchange : Exchange) → Decidable (exchange.InOrderAfter earlier)
  | .set requests => inferInstanceAs (Decidable (requests ≠ [] ∧ _))
  | .delivered _ => .isTrue trivial
  | .got _ _ _ _ => .isTrue trivial

instance decidableInOrder (earlier : List PropertyValue) :
    (log : List Exchange) → Decidable (InOrder earlier log)
  | [] => .isTrue trivial
  | exchange :: log =>
      have := decidableInOrder (earlier ++ exchange.seen) log
      inferInstanceAs (Decidable (_ ∧ _))

end Exchange

/-- A get call ends well.  It makes one remote call and reports every request, or it makes
none because it has no request. -/
inductive AnsweredOnce (Reports : GetRequest → GetResult → Prop) :
    List GetRequest → List ServerCall → GetOutcome → Prop
  | nothing : AnsweredOnce Reports [] [] ⟨.ok, none⟩
  | reported {requests : List GetRequest} {results : List GetResult} : requests ≠ [] →
      List.Forall₂ Reports requests results →
        AnsweredOnce Reports requests [.getValues requests] ⟨.ok, some results⟩

theorem AnsweredOnce.imp {Reports Others : GetRequest → GetResult → Prop}
    {requests : List GetRequest} {calls : List ServerCall} {outcome : GetOutcome}
    (answered : AnsweredOnce Reports requests calls outcome)
    (implies : ∀ request result, Reports request result → Others request result) :
    AnsweredOnce Others requests calls outcome := by
  cases answered with
  | nothing => exact .nothing
  | reported asked reports => exact .reported asked (reports.imp implies)

namespace Attachment

/-- A relay that has just started, with a handler of changes, and that has opened a stream
of a server. -/
def start? (options : RelayOptions) (handler : Handler) (server : ScriptedServer) :
    Option Attachment :=
  let turns : List (RelayTurn × ClockReadings) :=
    [(.registerChange handler, .still 0), (.streamOpened, .still 0)]
  match (Relay.start options).run? turns, server.startStream with
  | some (_, relay), (.ok stream, server) => some ⟨relay, server, stream⟩
  | _, _ => none

/-- The batches that the relay has not read yet. -/
def waiting (attachment : Attachment) : List (RpcResult Batch) :=
  match attachment.server.streams[attachment.stream]? with
  | some stream => stream.waiting
  | none => []

/-- Makes a move if it is possible, and gives what came of it. -/
def move? (attachment : Attachment) : Move → Option (Exchange × Attachment)
  | .set requests =>
      let (_, relay, server) := attachment.relay.setValues requests attachment.server
      some (.set requests, { attachment with relay, server })
  | .deliver readings =>
      match attachment.server.takeItem attachment.stream with
      | (.item (.ok batch), server) =>
          (attachment.relay.turn? readings (.batchReceived batch)).map fun (shown, relay) =>
            (.delivered (shown.filterMap RelayOutput.change?), { attachment with relay, server })
      | _ => none
  | .get requests readings =>
      if attachment.waiting.isEmpty then
        let (answer, _) := VehicleServer.answer (.getValues requests) attachment.server
        let (outcome, relay, server) :=
          attachment.relay.getValues readings requests attachment.server
        let calls := server.calls.drop attachment.server.calls.length
        some (.got requests answer calls outcome, { attachment with relay, server })
      else none

/-- Makes moves one after the other. -/
def run? (attachment : Attachment) : List Move → Option (List Exchange × Attachment)
  | [] => some ([], attachment)
  | move :: moves => do
    let (exchange, attachment) ← attachment.move? move
    let (later, attachment) ← attachment.run? moves
    some (exchange :: later, attachment)

variable {attachment final : Attachment} {moves : List Move}

theorem run?_cons_eq_some {move : Move} {log : List Exchange} :
    attachment.run? (move :: moves) = some (log, final) ↔
      ∃ exchange next later, attachment.move? move = some (exchange, next) ∧
        next.run? moves = some (later, final) ∧ log = exchange :: later := by
  simp only [run?, Option.bind_eq_bind, Option.bind_eq_some_iff, Prod.exists, Option.some.injEq,
    Prod.mk.injEq]
  constructor
  · rintro ⟨exchange, next, moved, later, last, run, rfl, rfl⟩
    exact ⟨exchange, next, later, moved, run, rfl⟩
  · rintro ⟨exchange, next, later, moved, run, rfl⟩
    exact ⟨exchange, next, moved, later, final, run, rfl, rfl⟩

/-- Each exchange of a run was made by one move, between two runs. -/
theorem run?_split {before after : List Exchange} {exchange : Exchange}
    (run : attachment.run? moves = some (before ++ exchange :: after, final)) :
    ∃ earlier move later middle next, moves = earlier ++ move :: later ∧
      attachment.run? earlier = some (before, middle) ∧
        middle.move? move = some (exchange, next) ∧ next.run? later = some (after, final) := by
  induction before generalizing attachment moves with
  | nil =>
      cases moves with
      | nil => simp [run?] at run
      | cons move moves =>
          obtain ⟨made, next, later, moved, rest, same⟩ := run?_cons_eq_some.mp run
          obtain ⟨rfl, rfl⟩ := List.cons.inj same
          exact ⟨[], move, moves, attachment, next, rfl, rfl, moved, rest⟩
  | cons first before induction =>
      cases moves with
      | nil => simp [run?] at run
      | cons move moves =>
          obtain ⟨made, next, later, moved, rest, same⟩ := run?_cons_eq_some.mp run
          obtain ⟨rfl, rfl⟩ := List.cons.inj same
          obtain ⟨earlier, other, others, middle, following, split, run, moves⟩ :=
            induction rest
          refine ⟨move :: earlier, other, others, middle, following, ?_, ?_, moves⟩
          · rw [split, List.cons_append]
          · exact run?_cons_eq_some.mpr ⟨first, next, before, moved, run, rfl⟩

/-! ## Relays that are linked to an unscripted server -/

/-- A relay with a handler of changes reads a stream that an unscripted server feeds, and
some batches wait in the stream. -/
structure Linked (handler : Handler) (pending : List Batch) (attachment : Attachment) :
    Prop where
  registered : attachment.relay.callbacks.change = some handler
  opened : attachment.relay.callbacks.closed = false
  reads : ∃ batches, attachment.relay.reader.phase = .reading batches
  unscripted : attachment.server.Unscripted
  keyed : attachment.server.Keyed
  fed : ∃ stream, attachment.server.Feeds attachment.stream stream ∧
    stream.waiting = pending.map .ok

/-- A relay that starts on an unscripted server is linked to it, and its table is empty. -/
theorem linked_of_start? {options : RelayOptions} {handler : Handler} {server : ScriptedServer}
    (unscripted : server.Unscripted) (keyed : server.Keyed) (unplanned : server.streamScript = [])
    (unlisted : server.streams.length ∉ server.live)
    (started : start? options handler server = some attachment) :
    attachment.Linked handler [] ∧ attachment.relay.table = .empty := by
  simp only [start?, ScriptedServer.startStream, unplanned, ScriptedServer.addStream] at started
  obtain rfl := Option.some.inj started
  refine ⟨⟨rfl, rfl, ⟨0, rfl⟩, ?_, keyed, {}, ⟨?_, rfl, ?_⟩, rfl⟩, rfl⟩
  · exact ⟨unscripted.sets, unscripted.gets, unscripted.noResponder⟩
  · exact List.getElem?_concat_length
  · rw [List.count_append, List.count_eq_zero.mpr unlisted]
    simp

namespace Linked

variable {handler : Handler} {pending : List Batch}

theorem waiting_eq (linked : attachment.Linked handler pending) :
    attachment.waiting = pending.map .ok := by
  obtain ⟨stream, feeds, waits⟩ := linked.fed
  rw [waiting, feeds.found]
  exact waits

/-- A set call stores its values, the last one of each key, and its batch waits last. -/
theorem set (linked : attachment.Linked handler pending) {requests : List SetRequest}
    (given : requests ≠ []) :
    let values := requests.map SetRequest.value
    ∃ next, attachment.move? (.set requests) = some (.set requests, next) ∧
      next.Linked handler (pending ++ [values]) ∧ next.relay = attachment.relay ∧
        ∀ key, next.server.store.get? key =
          (lastOf? key values).or (attachment.server.store.get? key) := by
  intro values
  obtain ⟨stream, feeds, waits⟩ := linked.fed
  let called : ScriptedServer :=
    { attachment.server with calls := attachment.server.calls ++ [.setValues requests] }
  have answered := linked.unscripted.answer_setValues requests given
  have fed : called.Feeds attachment.stream stream :=
    ⟨feeds.found, feeds.receiving, feeds.listedOnce⟩
  have stored := ScriptedServer.get?_inject called values
  refine ⟨{ attachment with server := called.inject values }, ?_, ?_, rfl, stored⟩
  · simp only [move?, Relay.setValues, answered]
    rfl
  · have keyed : called.Keyed := linked.keyed
    refine ⟨linked.registered, linked.opened, linked.reads, ?_,
      keyed.inject values, ?_⟩
    · rw [ScriptedServer.inject_eq]
      exact ⟨linked.unscripted.sets, linked.unscripted.gets, linked.unscripted.noResponder⟩
    · refine ⟨stream.push (.ok values), fed.inject values, ?_⟩
      rw [List.map_append, List.map_singleton, ← waits]
      rfl

/-- The batch that waits first is delivered. -/
theorem deliver {batch : Batch} (linked : attachment.Linked handler (batch :: pending))
    (readings : ClockReadings) :
    let restamped := attachment.relay.table.restampAll readings batch
    ∃ next, attachment.move? (.deliver readings) =
        some (.delivered (attachment.relay.callbacks.dispatch restamped.1), next) ∧
      next.Linked handler pending ∧ next.relay.table = restamped.2 ∧
        next.server.store = attachment.server.store := by
  intro restamped
  obtain ⟨stream, feeds, waits⟩ := linked.fed
  obtain ⟨batches, reads⟩ := linked.reads
  rw [List.map_cons] at waits
  obtain ⟨server, taken, fed, store, scripts, responder⟩ := feeds.takeItem waits
  let relay : Relay :=
    { attachment.relay with
      table := restamped.2, reader.phase := .reading (batches + 1) }
  refine ⟨{ attachment with relay, server }, ?_, ?_, rfl, store⟩
  · simp only [move?, taken, Relay.turn?, reads, Relay.deliver, Option.map_some,
      change?_changed]
    rfl
  · refine ⟨linked.registered, linked.opened, ⟨batches + 1, rfl⟩, ?_, ?_,
      ⟨_, fed, rfl⟩⟩
    · refine ⟨?_, ?_, responder.trans linked.unscripted.noResponder⟩
      · rw [scripts]
        exact linked.unscripted.sets
      · rw [scripts]
        exact linked.unscripted.gets
    · intro key value found
      rw [store] at found
      exact linked.keyed key value found

theorem move?_deliver_nil (linked : attachment.Linked handler []) (readings : ClockReadings) :
    attachment.move? (.deliver readings) = none := by
  obtain ⟨stream, feeds, waits⟩ := linked.fed
  rw [List.map_nil] at waits
  cases sending : stream.sending with
  | true => simp [move?, ScriptedServer.takeItem, feeds.found, ValueStream.take, waits, sending]
  | false => simp [move?, ScriptedServer.takeItem, feeds.found, ValueStream.take, waits, sending]

/-- Calls that are counted and times that are recorded leave the link as it is. -/
theorem recorded (linked : attachment.Linked handler pending) (table : TimestampTable)
    (calls : List ServerCall) :
    Linked handler pending { attachment with
      relay := { attachment.relay with table }, server := { attachment.server with calls } } := by
  obtain ⟨stream, feeds, waits⟩ := linked.fed
  refine ⟨linked.registered, linked.opened, linked.reads, ?_, linked.keyed,
    stream, ?_, waits⟩
  · exact ⟨linked.unscripted.sets, linked.unscripted.gets, linked.unscripted.noResponder⟩
  · exact ⟨feeds.found, feeds.receiving, feeds.listedOnce⟩

theorem move?_get_of_waits {batch : Batch}
    (linked : attachment.Linked handler (batch :: pending)) (requests : List GetRequest)
    (readings : Nat → ClockReadings) : attachment.move? (.get requests readings) = none := by
  simp [move?, linked.waiting_eq]

/-- When nothing waits, a get call presents the stored values and reports them. -/
theorem get (linked : attachment.Linked handler [])
    (agrees : attachment.relay.table.Agrees attachment.server.store)
    (requests : List GetRequest) (readings : Nat → ClockReadings) :
    let values := attachment.server.storedValues requests
    ∃ answer calls outcome next,
      attachment.move? (.get requests readings) = some (.got requests answer calls outcome, next) ∧
      (Exchange.got requests answer calls outcome).seen = values ∧
      AnsweredOnce (attachment.server.Reports attachment.relay.table) requests calls outcome ∧
      next.Linked handler [] ∧ next.server.store = attachment.server.store ∧
      next.relay.table = (attachment.relay.table.restampAll (readings 0) values).2 ∧
      next.relay.table.Extends attachment.relay.table := by
  intro values
  have empty : attachment.waiting.isEmpty = true := by
    rw [linked.waiting_eq]
    rfl
  have answered := linked.unscripted.answer_getValues requests
  rcases eq_or_ne requests [] with rfl | asked
  · refine ⟨.ok [], [], ⟨.ok, none⟩, attachment, ?_, rfl, .nothing, linked, rfl, rfl, .refl _⟩
    simp only [move?, empty, answered, Relay.getValues_nil, List.drop_length, if_true]
    rfl
  · obtain ⟨extend, results, reports, got⟩ := Relay.getValues_stored linked.unscripted
      linked.keyed agrees readings asked
    let table := (attachment.relay.table.restampAll (readings 0) values).2
    let calls := attachment.server.calls ++ [.getValues requests]
    refine ⟨.ok (requests.map attachment.server.storedResult), [.getValues requests],
      ⟨.ok, some results⟩, _, ?_, rfl, .reported asked reports, linked.recorded table calls, rfl,
      rfl, extend⟩
    simp only [move?, empty, answered, got, List.drop_left, if_true]
    rfl

end Linked

end Attachment

/-! ## Moves on a test bench -/

namespace Bench

/-- The relay of a bench reads the stream of an attachment. -/
structure Holds (bench : Bench) (attachment : Attachment) : Prop where
  relay : bench.relay = some attachment.relay
  server : bench.server = attachment.server
  stream : bench.stream = some attachment.stream

variable {bench : Bench} {attachment next : Attachment} {exchange : Exchange}

/-- The delivery of a batch is a step of the reader. -/
theorem Holds.deliver (holds : bench.Holds attachment)
    (moved : attachment.move? (.deliver bench.readings) = some (exchange, next)) :
    ∃ after, bench.readerStep? = some after ∧ after.Holds next ∧
      after.events = bench.events ++ exchange.events := by
  rw [Attachment.move?] at moved
  split at moved
  · next batch server taken =>
      obtain ⟨⟨shown, relay⟩, turned, same⟩ := Option.map_eq_some_iff.mp moved
      obtain ⟨rfl, rfl⟩ := Prod.mk.inj same
      have reads : ∃ batches, attachment.relay.reader.phase = .reading batches := by
        simp only [Relay.turn?] at turned
        split at turned
        · next batches reads => exact ⟨batches, reads⟩
        · cases turned
      obtain ⟨batches, reads⟩ := reads
      let received : Bench :=
        { bench with server, relay := some attachment.relay, stream := some attachment.stream }
      have stepped : bench.readerStep? = some (received.turn (.batchReceived batch)) := by
        simp only [readerStep?, phase?, holds.relay, holds.server, holds.stream, reads, taken,
          Option.map_some, Option.getD_some]
        rfl
      have possible : (received.relay.bind fun relay =>
          relay.turn? received.readings (.batchReceived batch)) = some (shown, relay) := turned
      refine ⟨_, stepped, ?_⟩
      rw [turn, possible]
      exact ⟨⟨rfl, rfl, rfl⟩, rfl⟩
  · cases moved

/-- A set call is a move, after which the bench settles. -/
theorem Holds.set (holds : bench.Holds attachment) {requests : List SetRequest}
    (moved : attachment.move? (.set requests) = some (exchange, next)) :
    ∃ after : Bench, after.Holds next ∧ after.events = bench.events ∧
      (bench.operate attachment.relay (Relay.setValues requests)).2 = after.settle := by
  obtain ⟨rfl, rfl⟩ := Prod.mk.inj (Option.some.inj moved)
  rw [operate, holds.server]
  exact ⟨{ bench with relay := _, server := _ }, ⟨rfl, rfl, holds.stream⟩, rfl, rfl⟩

/-- A get call is a move, after which the bench settles. -/
theorem Holds.get (holds : bench.Holds attachment) {requests : List GetRequest}
    {answer : RpcResult (List GetResult)} {calls : List ServerCall} {outcome : GetOutcome}
    (moved : attachment.move? (.get requests fun _ => bench.readings) =
      some (.got requests answer calls outcome, next)) :
    ∃ after : Bench, after.Holds next ∧ after.events = bench.events ∧
      bench.getValues attachment.relay requests = (outcome, after.settle) := by
  rw [Attachment.move?] at moved
  split at moved
  · obtain ⟨same, rfl⟩ := Prod.mk.inj (Option.some.inj moved)
    obtain ⟨_, _, _, rfl⟩ := Exchange.got.inj same
    rw [getValues, operate, holds.server]
    refine ⟨{ bench with relay := _, server := _ }, ⟨rfl, rfl, holds.stream⟩, rfl, ?_⟩
    rfl
  · cases moved

end Bench

end VehicleRelay
