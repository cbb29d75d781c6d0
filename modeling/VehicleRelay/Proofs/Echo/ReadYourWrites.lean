import VehicleRelay.Proofs.Echo.Exchange

/-!
# Reading back what was set

A relay that is linked to an unscripted server sets values, gets them pushed back and
asks for them.  While no value that is set is older than what was seen of its key, both
ways agree: every set call comes back as one change, and a get call reports the last
value of a key at the local time of the last change of it.
-/

namespace VehicleRelay

/-- A handler is given the values of a batch, in order, at local times. -/
def ChangeEvent.Announces (handler : Handler) (batch : Batch) (event : ChangeEvent) : Prop :=
  event.handler = handler ∧ List.Forall₂ PropertyValue.RestampedTo batch event.values

namespace Exchange

/-- All values that were set, in order. -/
def written (log : List Exchange) : List PropertyValue :=
  (log.filterMap batch?).flatten

/-- All values that were given to handlers, in order. -/
def announced (log : List Exchange) : List PropertyValue :=
  (log.flatMap events).flatMap ChangeEvent.values

theorem written_append (log later : List Exchange) :
    written (log ++ later) = written log ++ written later := by
  rw [written, List.filterMap_append, List.flatten_append]
  rfl

theorem announced_append (log later : List Exchange) :
    announced (log ++ later) = announced log ++ announced later := by
  rw [announced, List.flatMap_append, List.flatMap_append]
  rfl

/-- A result of a get call has the id of its request.  If values were set for the key of
the request, it reports the last of them at the local time of the key's last change. -/
def ReadsBack (log : List Exchange) (request : GetRequest) (result : GetResult) : Prop :=
  result.id = request.id ∧
    ∀ value, lastOf? request.target.key (written log) = some value →
      result.status = .ok ∧ ∃ shown, lastOf? request.target.key (announced log) = some shown ∧
        result.value = some (value.withTimestamp shown.timestamp)

end Exchange

/-- A stored value is as new as anything that was seen of its key, and was seen itself. -/
def NewestStored (store : FiniteMap PropertyKey PropertyValue) (seen : List PropertyValue) :
    Prop :=
  ∀ key value, store.get? key = some value → ∀ earlier ∈ seen, earlier.key = key →
    earlier.timestamp ≤ value.timestamp ∧
      value.presentation ∈ seen.map PropertyValue.presentation

/-- A table that remembers what was seen agrees with a store of the newest values. -/
theorem TimestampTable.Remembers.agrees_iff {table : TimestampTable} {server : ScriptedServer}
    {seen : List PropertyValue}
    (remembers : table.Remembers (seen.map PropertyValue.presentation)) (keyed : server.Keyed) :
    table.Agrees server.store ↔ NewestStored server.store seen := by
  constructor
  · intro agrees key value stored earlier member same
    have presented : (key, earlier.timestamp) ∈ seen.map PropertyValue.presentation :=
      List.mem_map.mpr ⟨earlier, member, Prod.ext same rfl⟩
    cases found : table.stamp? key with
    | none => exact absurd presented (remembers.unseen key found earlier.timestamp)
    | some stamp =>
        have latest := remembers.latest key stamp found _ presented
        have recorded := remembers.member key stamp found
        rw [agrees key value stamp stored found] at latest recorded
        refine ⟨latest, ?_⟩
        rw [PropertyValue.presentation, keyed key value stored]
        exact recorded
  · intro newest key value stamp stored found
    obtain ⟨earlier, member, same⟩ := List.mem_map.mp (remembers.member key stamp found)
    obtain ⟨sameKey, sameTime⟩ := Prod.mk.inj same
    obtain ⟨notNewer, seenItself⟩ := newest key value stored earlier member sameKey
    rw [PropertyValue.presentation, keyed key value stored] at seenItself
    have notOlder := remembers.latest key stamp found value.timestamp seenItself
    rw [sameTime] at notNewer
    exact Std.le_antisymm notNewer notOlder

namespace NewestStored

variable {store next : FiniteMap PropertyKey PropertyValue} {seen values : List PropertyValue}

/-- A stored value that was as new as what was seen still is, whatever is seen after it. -/
theorem seen_before (newest : NewestStored store seen) {key : PropertyKey}
    {value earlier : PropertyValue} (stored : store.get? key = some value)
    (member : earlier ∈ seen) (same : earlier.key = key) :
    earlier.timestamp ≤ value.timestamp ∧
      value.presentation ∈ (seen ++ values).map PropertyValue.presentation := by
  obtain ⟨notNewer, presented⟩ := newest key value stored earlier member same
  refine ⟨notNewer, ?_⟩
  rw [List.map_append]
  exact List.mem_append_left _ presented

/-- Values that are in sequence after what was seen are the newest ones when they are
stored. -/
theorem set (newest : NewestStored store seen)
    (stores : ∀ key, next.get? key = (lastOf? key values).or (store.get? key))
    (sequence : InSequence seen values) : NewestStored next (seen ++ values) := by
  intro key value stored earlier member same
  rw [stores, Option.or_eq_some_iff] at stored
  rcases stored with last | ⟨absent, before⟩
  · obtain ⟨sameKey, first, later, split, others⟩ := lastOf?_eq_some last
    have set : value ∈ values := by simp [split]
    refine ⟨?_, List.mem_map_of_mem (List.mem_append_right seen set)⟩
    rcases List.mem_append.mp member with seenBefore | setToo
    · exact sequence.1 value set earlier seenBefore (same.trans sameKey.symm)
    · rw [split] at setToo sequence
      rcases List.mem_append.mp setToo with inFirst | inLater
      · obtain ⟨_, _, follows⟩ := List.pairwise_append.mp sequence.2
        exact follows earlier inFirst value List.mem_cons_self (same.trans sameKey.symm)
      · rcases List.mem_cons.mp inLater with rfl | inLater
        · exact Std.le_refl _
        · exact absurd same (others earlier inLater)
  · rcases List.mem_append.mp member with seenBefore | setToo
    · exact newest.seen_before before seenBefore same
    · exact absurd same (lastOf?_eq_none absent earlier setToo)

/-- The store has the newest values also after its values were seen. -/
theorem get (newest : NewestStored store seen)
    (reported : ∀ value ∈ values, store.get? value.key = some value) :
    NewestStored store (seen ++ values) := by
  intro key value stored earlier member same
  rcases List.mem_append.mp member with seenBefore | seenNow
  · exact newest.seen_before stored seenBefore same
  · have found := reported earlier seenNow
    rw [same, stored] at found
    obtain rfl := Option.some.inj found
    exact ⟨Std.le_refl _, List.mem_map_of_mem member⟩

end NewestStored

namespace Attachment

/-- What holds between a relay and its server after a log of exchanges.  Some batches were
delivered and some are pending, and the table was presented some values. -/
structure Echoes (handler : Handler) (earlier : List PropertyValue) (log : List Exchange)
    (delivered pending : List Batch) (presented : List PropertyValue)
    (attachment : Attachment) : Prop where
  linked : attachment.Linked handler pending
  given : [] ∉ pending
  batches : log.filterMap Exchange.batch? = delivered ++ pending
  events : List.Forall₂ (ChangeEvent.Announces handler) delivered (log.flatMap Exchange.events)
  seen : earlier ++ log.flatMap Exchange.seen = presented ++ pending.flatten
  remembers : attachment.relay.table.Remembers (presented.map PropertyValue.presentation)
  sequence : InSequence presented pending.flatten
  newest : NewestStored attachment.server.store (presented ++ pending.flatten)
  stored : ∀ key value, lastOf? key (Exchange.written log) = some value →
    attachment.server.store.get? key = some value
  stamped : ∀ key shown, lastOf? key (Exchange.announced log) = some shown →
    (attachment.relay.table.stamp? key).map Stamp.localTime = some shown.timestamp

namespace Echoes

variable {handler : Handler} {earlier presented : List PropertyValue} {log : List Exchange}
  {delivered pending : List Batch} {attachment : Attachment}

theorem start (linked : attachment.Linked handler [])
    (remembers : attachment.relay.table.Remembers (earlier.map PropertyValue.presentation))
    (agrees : attachment.relay.table.Agrees attachment.server.store) :
    Echoes handler earlier [] [] [] earlier attachment where
  linked := linked
  given := List.not_mem_nil
  batches := rfl
  events := .nil
  seen := rfl
  remembers := remembers
  sequence := inSequence_nil earlier
  newest := by
    rw [List.flatten_nil, List.append_nil]
    exact (remembers.agrees_iff linked.keyed).mp agrees
  stored _ _ last := by simp [Exchange.written, lastOf?] at last
  stamped _ _ last := by simp [Exchange.announced, lastOf?] at last

theorem set (echoes : Echoes handler earlier log delivered pending presented attachment)
    {requests : List SetRequest}
    (ordered : (Exchange.set requests).InOrderAfter (earlier ++ log.flatMap Exchange.seen)) :
    let values := requests.map SetRequest.value
    ∃ next, attachment.move? (.set requests) = some (.set requests, next) ∧
      Echoes handler earlier (log ++ [.set requests]) delivered (pending ++ [values]) presented
        next := by
  intro values
  obtain ⟨given, sequence⟩ := ordered
  rw [echoes.seen] at sequence
  obtain ⟨next, moved, linked, relay, stores⟩ := echoes.linked.set given
  have flat : (pending ++ [values]).flatten = pending.flatten ++ values := by simp
  refine ⟨next, moved, ?_⟩
  constructor
  case linked =>
    exact linked
  case given =>
    rw [List.mem_append, List.mem_singleton, not_or]
    exact ⟨echoes.given, fun empty => given (List.map_eq_nil_iff.mp empty.symm)⟩
  case batches =>
    rw [List.filterMap_append, echoes.batches, List.append_assoc]
    rfl
  case events =>
    rw [List.flatMap_append]
    exact (List.append_nil _).symm ▸ echoes.events
  case seen =>
    rw [List.flatMap_append, ← List.append_assoc, echoes.seen, flat, List.append_assoc]
    simp [Exchange.seen, values]
  case remembers =>
    rw [relay]
    exact echoes.remembers
  case sequence =>
    rw [flat]
    exact inSequence_append.mpr ⟨echoes.sequence, sequence⟩
  case newest =>
    rw [flat, ← List.append_assoc]
    exact echoes.newest.set stores sequence
  case stored =>
    intro key value last
    have written : Exchange.written [.set requests] = values := by
      simp [Exchange.written, Exchange.batch?, values]
    rw [Exchange.written_append, written, lastOf?_append, Option.or_eq_some_iff] at last
    rw [stores, Option.or_eq_some_iff]
    rcases last with now | ⟨absent, before⟩
    · exact .inl now
    · exact .inr ⟨absent, echoes.stored key value before⟩
  case stamped =>
    intro key shown last
    rw [Exchange.announced_append, show Exchange.announced [.set requests] = [] from rfl,
      List.append_nil] at last
    rw [relay]
    exact echoes.stamped key shown last

theorem deliver {batch : Batch}
    (echoes : Echoes handler earlier log delivered (batch :: pending) presented attachment)
    (readings : ClockReadings) :
    ∃ events next, attachment.move? (.deliver readings) = some (.delivered events, next) ∧
      Echoes handler earlier (log ++ [.delivered events]) (delivered ++ [batch]) pending
        (presented ++ batch) next := by
  obtain ⟨next, moved, linked, table, store⟩ := echoes.linked.deliver readings
  obtain ⟨admits, remembers⟩ := echoes.remembers.restampAll readings batch
  obtain ⟨sequence, sequenceLater⟩ := inSequence_append.mp echoes.sequence
  rw [currentValues_eq_self sequence] at admits
  let event : ChangeEvent :=
    ⟨handler, (attachment.relay.table.restampAll readings batch).1⟩
  have notEmpty : event.values ≠ [] := by
    intro empty
    rw [show (attachment.relay.table.restampAll readings batch).1 = [] from empty] at admits
    cases admits
    exact echoes.given List.mem_cons_self
  have dispatched : attachment.relay.callbacks.dispatch event.values = [event] :=
    Callbacks.dispatch_eq_singleton (Callbacks.mem_dispatch_iff.mpr
      ⟨echoes.linked.opened, notEmpty, echoes.linked.registered, rfl⟩)
  refine ⟨[event], next, moved.trans (by rw [dispatched]), ?_⟩
  have flat : presented ++ (batch :: pending).flatten = presented ++ batch ++ pending.flatten := by
    rw [List.flatten_cons, List.append_assoc]
  constructor
  case linked =>
    exact linked
  case given =>
    exact fun member => echoes.given (List.mem_cons_of_mem batch member)
  case batches =>
    rw [List.filterMap_append, echoes.batches]
    simp [Exchange.batch?]
  case events =>
    rw [List.flatMap_append]
    exact List.rel_append echoes.events (.cons ⟨rfl, admits⟩ .nil)
  case seen =>
    rw [List.flatMap_append, ← flat, ← echoes.seen]
    simp [Exchange.seen]
  case remembers =>
    rw [table]
    exact remembers
  case sequence =>
    exact sequenceLater
  case newest =>
    rw [store, ← flat]
    exact echoes.newest
  case stored =>
    intro key value last
    rw [Exchange.written_append, show Exchange.written [.delivered [event]] = [] from rfl,
      List.append_nil] at last
    rw [store]
    exact echoes.stored key value last
  case stamped =>
    intro key shown last
    have announced : Exchange.announced [.delivered [event]] = event.values := by
      simp [Exchange.announced, Exchange.events]
    rw [Exchange.announced_append, announced, lastOf?_append, Option.or_eq_some_iff] at last
    rw [table, TimestampTable.localTime_restampAll, Option.or_eq_some_iff]
    rcases last with now | ⟨absent, before⟩
    · exact .inl (Option.map_eq_some_iff.mpr ⟨shown, now, rfl⟩)
    · exact .inr ⟨Option.map_eq_none_iff.mpr absent, echoes.stamped key shown before⟩

/-- When nothing is pending, what was announced is what was written. -/
theorem written_restamped
    (echoes : Echoes handler earlier log delivered [] presented attachment) :
    List.Forall₂ PropertyValue.RestampedTo (Exchange.written log) (Exchange.announced log) := by
  have restamped : ∀ {batches : List Batch} {events : List ChangeEvent},
      List.Forall₂ (ChangeEvent.Announces handler) batches events →
        List.Forall₂ PropertyValue.RestampedTo batches.flatten
          (events.flatMap ChangeEvent.values) := by
    intro batches events announces
    induction announces with
    | nil => exact .nil
    | cons first _ induction => exact List.rel_append first.2 induction
  rw [Exchange.written, echoes.batches, List.append_nil]
  exact restamped echoes.events

theorem readsBack (echoes : Echoes handler earlier log delivered [] presented attachment)
    (request : GetRequest) (result : GetResult)
    (reports : attachment.server.Reports attachment.relay.table request result) :
    Exchange.ReadsBack log request result := by
  obtain ⟨sameId, reported⟩ := reports
  refine ⟨sameId, ?_⟩
  intro value last
  have restamped := lastOf?_restamped echoes.written_restamped request.target.key
  simp only [echoes.stored _ value last] at reported
  obtain ⟨status, localTime, carried, recorded⟩ := reported
  rw [last] at restamped
  cases found : lastOf? request.target.key (Exchange.announced log) with
  | none => rw [found] at restamped; cases restamped
  | some shown =>
      obtain ⟨stamp, stands, sameTime⟩ :=
        Option.map_eq_some_iff.mp (echoes.stamped _ shown found)
      refine ⟨status, shown, rfl, ?_⟩
      rw [carried, ← recorded stamp stands, sameTime]

/-- When nothing is pending, a get call reads back what was set. -/
theorem get (echoes : Echoes handler earlier log delivered [] presented attachment)
    (requests : List GetRequest) (readings : Nat → ClockReadings) :
    ∃ answer calls outcome next,
      attachment.move? (.get requests readings) =
          some (.got requests answer calls outcome, next) ∧
        AnsweredOnce (Exchange.ReadsBack log) requests calls outcome ∧
          ∃ presented, Echoes handler earlier (log ++ [.got requests answer calls outcome])
            delivered [] presented next := by
  have newest : NewestStored attachment.server.store presented := by
    simpa using echoes.newest
  have agrees := (echoes.remembers.agrees_iff echoes.linked.keyed).mpr newest
  obtain ⟨answer, calls, outcome, next, moved, seen, answered, linked, store, table, extend⟩ :=
    echoes.linked.get agrees requests readings
  let values := attachment.server.storedValues requests
  obtain ⟨_, remembers⟩ := echoes.remembers.restampAll (readings 0) values
  refine ⟨answer, calls, outcome, next, moved, answered.imp echoes.readsBack,
    presented ++ values, ?_⟩
  constructor
  case linked =>
    exact linked
  case given =>
    exact echoes.given
  case batches =>
    rw [List.filterMap_append, echoes.batches]
    simp [Exchange.batch?]
  case events =>
    rw [List.flatMap_append]
    exact (List.append_nil _).symm ▸ echoes.events
  case seen =>
    rw [List.flatMap_append, ← List.append_assoc, echoes.seen, List.flatMap_singleton, seen]
    simp [values]
  case remembers =>
    rw [table]
    exact remembers
  case sequence =>
    exact inSequence_nil _
  case newest =>
    rw [store, List.flatten_nil, List.append_nil]
    apply newest.get
    intro value member
    exact ScriptedServer.get?_of_mem_storedValues echoes.linked.keyed member
  case stored =>
    intro key value last
    rw [Exchange.written_append, show Exchange.written [_] = [] from rfl, List.append_nil] at last
    rw [store]
    exact echoes.stored key value last
  case stamped =>
    intro key shown last
    rw [Exchange.announced_append, show Exchange.announced [_] = [] from rfl,
      List.append_nil] at last
    obtain ⟨stamp, found, sameTime⟩ :=
      Option.map_eq_some_iff.mp (echoes.stamped key shown last)
    exact Option.map_eq_some_iff.mpr ⟨stamp, extend key stamp found, sameTime⟩

/-- Every move that is possible keeps the relation, and get calls read back. -/
theorem move (echoes : Echoes handler earlier log delivered pending presented attachment)
    {move : Move} {exchange : Exchange} {next : Attachment}
    (moved : attachment.move? move = some (exchange, next))
    (ordered : exchange.InOrderAfter (earlier ++ log.flatMap Exchange.seen)) :
    (∃ delivered pending presented,
      Echoes handler earlier (log ++ [exchange]) delivered pending presented next) ∧
    ∀ requests answer calls outcome, exchange = .got requests answer calls outcome →
      AnsweredOnce (Exchange.ReadsBack log) requests calls outcome := by
  cases move with
  | set requests =>
      have sets : exchange = .set requests := by
        simp only [move?, Option.some.injEq, Prod.mk.injEq] at moved
        exact moved.1.symm
      rw [sets] at ordered
      obtain ⟨reached, made, echoes⟩ := echoes.set ordered
      obtain ⟨rfl, rfl⟩ := Prod.mk.inj (Option.some.inj (moved.symm.trans made))
      exact ⟨⟨_, _, _, echoes⟩, by simp⟩
  | deliver readings =>
      cases pending with
      | nil =>
          rw [echoes.linked.move?_deliver_nil] at moved
          cases moved
      | cons batch pending =>
          obtain ⟨events, reached, made, echoes⟩ := echoes.deliver readings
          obtain ⟨rfl, rfl⟩ := Prod.mk.inj (Option.some.inj (moved.symm.trans made))
          exact ⟨⟨_, _, _, echoes⟩, by simp⟩
  | get requests readings =>
      cases pending with
      | cons batch pending =>
          rw [echoes.linked.move?_get_of_waits] at moved
          cases moved
      | nil =>
          obtain ⟨answer, calls, outcome, reached, made, answered, presented, echoes⟩ :=
            echoes.get requests readings
          obtain ⟨rfl, rfl⟩ := Prod.mk.inj (Option.some.inj (moved.symm.trans made))
          refine ⟨⟨_, _, _, echoes⟩, ?_⟩
          intro asked given made ended same
          obtain ⟨rfl, rfl, rfl, rfl⟩ := Exchange.got.inj same
          exact answered

theorem run (echoes : Echoes handler earlier log delivered pending presented attachment)
    {moves : List Move} {later : List Exchange} {final : Attachment}
    (run : attachment.run? moves = some (later, final))
    (ordered : Exchange.InOrder (earlier ++ log.flatMap Exchange.seen) later) :
    ∃ delivered pending presented,
      Echoes handler earlier (log ++ later) delivered pending presented final := by
  induction moves generalizing attachment log delivered pending presented later with
  | nil =>
      obtain ⟨rfl, rfl⟩ := Prod.mk.inj (Option.some.inj run)
      rw [List.append_nil]
      exact ⟨delivered, pending, presented, echoes⟩
  | cons move moves induction =>
      obtain ⟨exchange, next, rest, moved, others, rfl⟩ := run?_cons_eq_some.mp run
      obtain ⟨now, ordered⟩ := ordered
      obtain ⟨⟨_, _, _, echoes⟩, _⟩ := echoes.move moved now
      rw [List.append_assoc, ← List.flatMap_singleton Exchange.seen exchange,
        ← List.flatMap_append] at ordered
      have reached := induction echoes others ordered
      rwa [List.append_assoc] at reached

end Echoes

variable {handler : Handler} {earlier : List PropertyValue} {attachment final : Attachment}
  {moves : List Move} {log : List Exchange}

/-- Set calls through a linked relay come back as one change each, with all values of the
call in order.  While changes are pending they can be delivered; when none is, a get call
can be made.  It ends well after one remote call and reads back what was set before it;
without requests it makes no remote call.  The table may remember earlier values, as long
as it agrees with the store. -/
theorem read_your_writes (linked : attachment.Linked handler [])
    (remembers : attachment.relay.table.Remembers (earlier.map PropertyValue.presentation))
    (agrees : attachment.relay.table.Agrees attachment.server.store)
    (run : attachment.run? moves = some (log, final))
    (ordered : Exchange.InOrder earlier log) :
    (∃ delivered pending, log.filterMap Exchange.batch? = delivered ++ pending ∧
      final.waiting = pending.map .ok ∧
      List.Forall₂ (ChangeEvent.Announces handler) delivered (log.flatMap Exchange.events) ∧
      (∀ readings, (final.move? (.deliver readings)).isSome ↔ pending ≠ []) ∧
      ∀ requests readings, (final.move? (.get requests readings)).isSome ↔ pending = []) ∧
    ∀ before requests answer calls outcome after,
      log = before ++ .got requests answer calls outcome :: after →
        AnsweredOnce (Exchange.ReadsBack before) requests calls outcome := by
  have start := Echoes.start linked remembers agrees
  constructor
  · obtain ⟨delivered, pending, presented, echoes⟩ := start.run run (by simpa using ordered)
    refine ⟨delivered, pending, echoes.batches, echoes.linked.waiting_eq, echoes.events, ?_⟩
    cases pending with
    | nil =>
        refine ⟨fun readings => by simp [echoes.linked.move?_deliver_nil], ?_⟩
        intro requests readings
        obtain ⟨_, _, _, _, moved, _⟩ := echoes.get requests readings
        simp [moved]
    | cons batch pending =>
        refine ⟨?_, fun requests readings => by simp [echoes.linked.move?_get_of_waits]⟩
        intro readings
        obtain ⟨_, _, moved, _⟩ := echoes.deliver readings
        simp [moved]
  · rintro before requests answer calls outcome after rfl
    obtain ⟨_, move, _, middle, next, _, first, moved, _⟩ := run?_split run
    have orderedBefore := ordered.of_append
    obtain ⟨_, _, _, echoes⟩ := start.run first (by simpa using orderedBefore)
    exact (echoes.move moved trivial).2 requests answer calls outcome rfl

/-- A key is seen by a get call before it is set.  Then it is set with another key, which
is set twice at one time and again in a second call, before anything is delivered. -/
theorem read_your_writes_of_repeated_keys :
    let speed (time : Int64) (level : Int32) : PropertyValue :=
      ⟨time, 0, 1, .available, { int32s := [level] }⟩
    let gear (time : Int64) (level : Int32) : PropertyValue :=
      ⟨time, 0, 2, .unavailable, { int32s := [level] }⟩
    let unset := PropertyValue.selecting ⟨2, 0⟩
    let set : List SetRequest := [⟨2, speed 10 1⟩, ⟨3, speed 10 2⟩, ⟨4, gear 0 3⟩]
    let setAgain : List SetRequest := [⟨5, speed 20 4⟩]
    let requests : List GetRequest := [⟨6, speed 0 0⟩, ⟨7, gear 0 0⟩, ⟨8, ⟨0, 0, 3, .error, {}⟩⟩]
    let clock (_ : Nat) := ClockReadings.still 500
    let moves : List Move :=
      [.get [⟨1, unset⟩] clock, .set set, .set setAgain, .deliver (.still 100),
        .deliver (.still 100), .get requests clock]
    let before : List Exchange :=
      [.got [⟨1, unset⟩] (.ok [⟨1, .ok, some unset⟩]) [.getValues [⟨1, unset⟩]]
          ⟨.ok, some [⟨1, .ok, some (unset.withTimestamp 500)⟩]⟩,
        .set set, .set setAgain, .delivered [⟨1, [speed 100 1, speed 100 2, gear 500 3]⟩],
        .delivered [⟨1, [speed 101 4]⟩]]
    let answer : List GetResult :=
      [⟨6, .ok, some (speed 20 4)⟩, ⟨7, .ok, some (gear 0 3)⟩, ⟨8, .notAvailable, none⟩]
    let outcome : GetOutcome := ⟨.ok, some [⟨6, .ok, some (speed 101 4)⟩,
      ⟨7, .ok, some (gear 500 3)⟩, ⟨8, .notAvailable, none⟩]⟩
    let log := before ++ [.got requests (.ok answer) [.getValues requests] outcome]
    ∃ attachment final, start? {} 1 (.ofConfigs [{ property := 2 }]) = some attachment ∧
      attachment.run? moves = some (log, final) ∧
        AnsweredOnce (Exchange.ReadsBack before) requests [.getValues requests] outcome := by
  intro speed gear unset set setAgain requests clock moves before answer outcome log
  have outputs : ((start? {} 1 (.ofConfigs [{ property := 2 }])).bind
      fun attachment => attachment.run? moves).map Prod.fst = some log := by rfl
  obtain ⟨⟨made, final⟩, moved, rfl⟩ := Option.map_eq_some_iff.mp outputs
  obtain ⟨attachment, started, run⟩ := Option.bind_eq_some_iff.mp moved
  obtain ⟨linked, empty⟩ := linked_of_start? ⟨rfl, rfl, rfl⟩
    (ScriptedServer.keyed_ofConfigs _) rfl List.not_mem_nil started
  have remembers : attachment.relay.table.Remembers
      (([] : List PropertyValue).map PropertyValue.presentation) := by
    rw [empty]
    exact TimestampTable.remembers_empty
  have agrees : attachment.relay.table.Agrees attachment.server.store := by
    rw [empty]
    exact TimestampTable.agrees_empty _
  have ordered : Exchange.InOrder [] log := by decide
  exact ⟨attachment, final, started, run,
    (read_your_writes linked remembers agrees run ordered).2 before _ _ _ _ [] rfl⟩

/-- A get call without requests is made after everything is delivered.  It ends well, but
there is no remote call. -/
theorem no_call_without_requests :
    let speed (time : Int64) : PropertyValue := ⟨time, 0, 1, .available, {}⟩
    let moves : List Move :=
      [.set [⟨7, speed 10⟩], .deliver (.still 100), .get [] fun _ => .still 500]
    let log : List Exchange :=
      [.set [⟨7, speed 10⟩], .delivered [⟨1, [speed 100]⟩], .got [] (.ok []) [] ⟨.ok, none⟩]
    ∃ attachment final, start? {} 1 {} = some attachment ∧ attachment.Linked 1 [] ∧
      attachment.relay.table = .empty ∧ attachment.run? moves = some (log, final) ∧
        Exchange.InOrder [] log ∧
          ¬ ∀ before requests answer calls outcome after,
            log = before ++ .got requests answer calls outcome :: after → calls.length = 1 := by
  intro speed moves log
  have outputs : ((start? {} 1 {}).bind fun attachment => attachment.run? moves).map Prod.fst =
      some log := by rfl
  obtain ⟨⟨made, final⟩, moved, rfl⟩ := Option.map_eq_some_iff.mp outputs
  obtain ⟨attachment, started, run⟩ := Option.bind_eq_some_iff.mp moved
  obtain ⟨linked, empty⟩ := linked_of_start? ⟨rfl, rfl, rfl⟩
    (fun _ _ stored => by simp at stored) rfl List.not_mem_nil started
  have ordered : Exchange.InOrder [] log := by decide
  refine ⟨attachment, final, started, linked, empty, run, ordered, ?_⟩
  intro oneCall
  cases oneCall [_, _] [] _ [] _ [] rfl

end Attachment

end VehicleRelay
