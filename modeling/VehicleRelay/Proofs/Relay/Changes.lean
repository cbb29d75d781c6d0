import VehicleRelay.Proofs.Relay.Admissions
import VehicleRelay.Proofs.Relay.Registry
import VehicleRelay.Proofs.TimestampTable.Current

/-!
# Changes that a run shows

A change comes from one batch of the stream.  The batch is dispatched when a
handler is registered, the callbacks are not closed and one of its values is
current.  Which values a run surfaces depends on what it admits, and not on how
the stream is cut into batches and sessions.  A batch that comes again surfaces
what is still current, and changes nothing.
-/

namespace VehicleRelay

/-- The change that an output shows. -/
def RelayOutput.change? : RelayOutput → Option ChangeEvent
  | .changed event => some event
  | .got _ _ => none

theorem change?_changed (events : List ChangeEvent) :
    (events.map RelayOutput.changed).filterMap RelayOutput.change? = events := by
  simp [List.filterMap_map, Function.comp_def, RelayOutput.change?]

theorem change?_got (call : Nat) (outcomes : List GetOutcome) :
    (outcomes.map (RelayOutput.got call)).filterMap RelayOutput.change? = [] := by
  simp [List.filterMap_map, Function.comp_def, RelayOutput.change?]

namespace RelayStep

/-- The changes that a step shows. -/
def changes (step : RelayStep) : List ChangeEvent :=
  step.shown.filterMap RelayOutput.change?

/-- Whether a step presents values that the server has pushed. -/
def isPush (step : RelayStep) : Bool :=
  match step.turn with
  | .batchReceived _ => true
  | _ => false

variable {step : RelayStep}

theorem Effect.changes_of_batch (effect : step.Effect) {values : List PropertyValue}
    (received : step.turn = .batchReceived values) :
    step.changes =
      step.before.callbacks.dispatch (step.before.table.restampAll step.readings values).1 := by
  cases effect with
  | called turn | answered turn => simp [turn] at received
  | received turn restamped shown =>
      obtain rfl := RelayTurn.batchReceived.inj (turn.symm.trans received)
      rw [changes, shown, change?_changed, restamped]
  | quiet notCalled notAnswered notReceived => exact absurd received (notReceived values)

theorem Effect.changes_eq_nil (effect : step.Effect)
    (notReceived : ∀ values, step.turn ≠ .batchReceived values) : step.changes = [] := by
  cases effect with
  | called turn start shown | answered turn waiting resumed shown =>
      rw [changes, shown, change?_got]
  | received turn => exact absurd turn (notReceived _)
  | quiet _ _ _ shown => rw [changes, shown]; rfl

/-- A batch presents its values, and admits the ones that are not stale. -/
theorem restampAll_of_batch {values : List PropertyValue}
    (received : step.turn = .batchReceived values) :
    step.before.table.restampAll step.readings values =
      (step.admitted.map AdmittedValue.value, step.before.table.afterAll step.calls) := by
  have presents : step.presented = values := by rw [presented, received]
  rw [TimestampTable.restampAll_eq, admitted, RelayStep.calls, presents]

/-- The table of a relay remembers what the steps up to now have presented. -/
def Recorded (steps : List RelayStep) (relay : Relay) : Prop :=
  relay.table.Remembers ((steps.flatMap presented).map PropertyValue.presentation)

/-- After a step the table remembers what the step has presented, too. -/
theorem Possible.remembers {presented : List PropertyValue} (possible : step.Possible)
    (remembers : step.before.table.Remembers (presented.map PropertyValue.presentation)) :
    step.after.table.Remembers
      ((presented ++ step.presented).map PropertyValue.presentation) := by
  have remembered := (remembers.restampAll step.readings step.presented).2
  rw [TimestampTable.restampAll_eq] at remembered
  rw [possible.effect.table_eq]
  exact remembered

theorem Possible.recorded {history : List RelayStep} (possible : step.Possible)
    (recorded : Recorded history step.before) : Recorded (history ++ [step]) step.after := by
  rw [Recorded, List.flatMap_append, List.flatMap_singleton]
  exact possible.remembers recorded

end RelayStep

namespace Relay

variable {options : RelayOptions} {turns : List (RelayTurn × ClockReadings)}
  {before after : List RelayStep} {step : RelayStep}

/-- Before each step of a run, the callbacks and the table are as the steps before it
have made them. -/
theorem history_before (split : (start options).steps turns = before ++ step :: after) :
    step.before.Follows (before.map RelayStep.turn) ∧
      RelayStep.Recorded before step.before := by
  let Invariant (history : List RelayStep) (relay : Relay) : Prop :=
    relay.Follows (history.map RelayStep.turn) ∧ RelayStep.Recorded history relay
  have kept : ∀ (history : List RelayStep) (step : RelayStep), step.Possible →
      Invariant history step.before → Invariant (history ++ [step]) step.after := by
    intro history step possible ⟨follows, recorded⟩
    refine ⟨?_, possible.recorded recorded⟩
    rw [List.map_append, List.map_singleton]
    exact follows.step possible
  have started : Invariant [] (start options) :=
    ⟨follows_start options, TimestampTable.remembers_empty⟩
  exact holds_before kept started split

/-- A step shows a change when it receives a batch with a current value while a
handler is registered and the callbacks are open. -/
theorem changes_ne_nil_iff (split : (start options).steps turns = before ++ step :: after) :
    step.changes ≠ [] ↔ ∃ values, step.turn = .batchReceived values ∧
      (RelayTurn.firstHandler? (before.map RelayStep.turn)).isSome ∧
        ¬RelayTurn.ClosedBy (before.map RelayStep.turn) ∧
          currentValues (before.flatMap RelayStep.presented) values ≠ [] := by
  obtain ⟨follows, recorded⟩ := history_before split
  have member : step ∈ (start options).steps turns := by simp [split]
  have effect := (possible_of_mem_steps member).effect
  have dispatches {values : List PropertyValue} (received : step.turn = .batchReceived values) :
      step.changes ≠ [] ↔ (RelayTurn.firstHandler? (before.map RelayStep.turn)).isSome ∧
        ¬RelayTurn.ClosedBy (before.map RelayStep.turn) ∧
          currentValues (before.flatMap RelayStep.presented) values ≠ [] := by
    have admits := (TimestampTable.Remembers.restampAll recorded step.readings values).1
    rw [effect.changes_of_batch received, Callbacks.dispatch_ne_nil_iff, follows.registered,
      ← follows.closed_iff, Bool.not_eq_true, ← List.length_pos_iff, ← List.length_pos_iff,
      admits.length_eq]
  constructor
  · intro shows
    by_cases received : ∃ values, step.turn = .batchReceived values
    · obtain ⟨values, received⟩ := received
      exact ⟨values, received, (dispatches received).mp shows⟩
    · exact absurd (effect.changes_eq_nil (not_exists.mp received)) shows
  · intro current
    obtain ⟨values, received, ready⟩ := current
    exact (dispatches received).mpr ready

/-- A change is the only one of its step.  It goes to the first handler and carries
all current values of the batch. -/
theorem change_of_mem_changes (split : (start options).steps turns = before ++ step :: after)
    {event : ChangeEvent} (shows : event ∈ step.changes) :
    step.changes = [event] ∧ ∃ values, step.turn = .batchReceived values ∧
      RelayTurn.firstHandler? (before.map RelayStep.turn) = some event.handler ∧
        List.Forall₂ PropertyValue.RestampedTo
          (currentValues (before.flatMap RelayStep.presented) values) event.values := by
  obtain ⟨follows, recorded⟩ := history_before split
  have member : step ∈ (start options).steps turns := by simp [split]
  have effect := (possible_of_mem_steps member).effect
  have shown := List.ne_nil_of_mem shows
  obtain ⟨values, received, _⟩ := (changes_ne_nil_iff split).mp shown
  have admits := (TimestampTable.Remembers.restampAll recorded step.readings values).1
  rw [effect.changes_of_batch received] at shows ⊢
  obtain ⟨_, _, registered, carried⟩ := Callbacks.mem_dispatch_iff.mp shows
  refine ⟨Callbacks.dispatch_eq_singleton shows, values, received, ?_, ?_⟩
  · rw [← follows.registered, registered]
  · rw [carried]
    exact admits

/-- The changes of a run are those of its steps. -/
theorem changes_eq_flatMap {relay final : Relay} {shown : List RelayOutput}
    (run : relay.run? turns = some (shown, final)) :
    shown.filterMap RelayOutput.change? = (relay.steps turns).flatMap RelayStep.changes := by
  rw [shown_of_run? run, List.filterMap_flatMap]
  rfl

end Relay

/-! ## Streams that are cut differently -/

namespace TimestampTable

/-- The calls of a history that are not stale. -/
def accepted (table : TimestampTable) (calls : List TableCall) : List TableCall :=
  ((table.history calls).filter fun step => step.answer.admission ≠ .stale).map TableStep.call

/-- The values that a table admits of the calls that are marked. -/
def markedValues (table : TimestampTable) : List (Bool × TableCall) → List PropertyValue
  | [] => []
  | (marked, call) :: calls =>
      (if marked then (table.admissions [call]).map AdmittedValue.value else []) ++
        (table.answer call).2.markedValues calls

theorem answer_of_stale {table : TimestampTable} {call : TableCall}
    (stale : (table.answer call).1.admission = .stale) :
    (table.answer call).2 = table ∧ table.admissions [call] = [] := by
  have admits : table.admissions [call] = [] := by
    rcases answered : table.answer call with ⟨⟨admission, value⟩, next⟩
    rw [answered] at stale
    obtain rfl : admission = .stale := stale
    simp [admissions, history, answered, TableStep.admitted?]
  rw [answer_eq] at stale
  refine ⟨?_, admits⟩
  rw [answer_eq, present_of_stale (present_eq_stale_iff.mp stale)]

theorem admissions_cons (table : TimestampTable) (call : TableCall) (calls : List TableCall) :
    table.admissions (call :: calls) =
      table.admissions [call] ++ (table.answer call).2.admissions calls :=
  table.admissions_append [call] calls

/-- Stale calls make no difference to what is admitted. -/
theorem markedValues_accepted (table : TimestampTable) (marked : Bool)
    (calls : List TableCall) (others : List (Bool × TableCall)) :
    table.markedValues ((table.accepted calls).map (Prod.mk marked) ++ others) =
      (if marked then (table.admissions calls).map AdmittedValue.value else []) ++
        (table.afterAll calls).markedValues others := by
  induction calls generalizing table with
  | nil =>
      cases marked with
      | false => rfl
      | true => rfl
  | cons call calls induction =>
      have rest := induction (table.answer call).2
      rw [admissions_cons, afterAll]
      by_cases stale : (table.answer call).1.admission = .stale
      · obtain ⟨unchanged, nothing⟩ := answer_of_stale stale
        have same : table.accepted (call :: calls) = table.accepted calls := by
          simp only [accepted, history, unchanged]
          rw [List.filter_cons_of_neg (by simpa using stale)]
        rw [unchanged] at rest ⊢
        rw [same, rest, nothing, List.nil_append]
      · have first : table.accepted (call :: calls) =
            call :: (table.answer call).2.accepted calls := by
          simp only [accepted, history]
          rw [List.filter_cons_of_pos (by simpa using stale), List.map_cons]
        rw [first, List.map_cons, List.cons_append, markedValues, rest]
        cases marked with
        | false => rfl
        | true => simp

end TimestampTable

namespace RelayStep

/-- What a step presents and is not stale, marked when it was pushed. -/
def accepted (step : RelayStep) : List (Bool × TableCall) :=
  (step.before.table.accepted step.calls).map (Prod.mk step.isPush)

/-- The values of a batch that a step admits. -/
def pushed (step : RelayStep) : List PropertyValue :=
  if step.isPush then step.admitted.map AdmittedValue.value else []

end RelayStep

/-- A handler is registered first of all, and the callbacks are never closed. -/
def RelayTurn.Listening (turns : List RelayTurn) : Prop :=
  (∃ handler later, turns = .registerChange handler :: later) ∧ ¬ClosedBy turns

namespace Relay

/-- What a run presents and is not stale, marked when it was pushed. -/
def accepted (relay : Relay) (turns : List (RelayTurn × ClockReadings)) :
    List (Bool × TableCall) :=
  (relay.steps turns).flatMap RelayStep.accepted

/-- The pushed values that the steps of a run admit depend on its accepted calls only. -/
theorem pushed_steps (relay : Relay) (turns : List (RelayTurn × ClockReadings)) :
    (relay.steps turns).flatMap RelayStep.pushed =
      relay.table.markedValues (relay.accepted turns) := by
  apply steps_induction (motive := fun relay steps =>
    steps.flatMap RelayStep.pushed =
      relay.table.markedValues (steps.flatMap RelayStep.accepted))
  · intro _
    rfl
  · intro step steps possible induction
    rw [List.flatMap_cons, List.flatMap_cons, induction, RelayStep.accepted,
      TimestampTable.markedValues_accepted, ← possible.effect.table_eq]
    rfl

variable {options : RelayOptions} {turns : List (RelayTurn × ClockReadings)}
  {shown : List RelayOutput} {final : Relay}

/-- While a run listens, a batch meets open callbacks with a handler. -/
theorem open_of_listening (run : (start options).run? turns = some (shown, final))
    (listening : RelayTurn.Listening (turns.map Prod.fst)) {before after : List RelayStep}
    {step : RelayStep} (split : (start options).steps turns = before ++ step :: after)
    {values : List PropertyValue} (received : step.turn = .batchReceived values) :
    step.before.callbacks.closed = false ∧
      ∃ handler, step.before.callbacks.change = some handler := by
  obtain ⟨follows, _⟩ := history_before split
  obtain ⟨⟨handler, later, first⟩, neverClosed⟩ := listening
  have taken : turns.map Prod.fst =
      before.map RelayStep.turn ++ step.turn :: after.map RelayStep.turn := by
    rw [← map_turn_steps run, split, List.map_append, List.map_cons]
  constructor
  · rw [← Bool.not_eq_true, follows.closed_iff]
    intro closed
    exact neverClosed (taken ▸ closed.append _)
  · refine ⟨handler, ?_⟩
    rw [follows.registered]
    cases before with
    | nil =>
        rw [taken, received] at first
        simp at first
    | cons head before =>
        rw [taken, List.map_cons, List.cons_append, List.cons.injEq] at first
        rw [List.map_cons, first.1]
        rfl

/-- A run that listens all the time surfaces all pushed values that it admits. -/
theorem surfaced_of_listening (run : (start options).run? turns = some (shown, final))
    (listening : RelayTurn.Listening (turns.map Prod.fst)) :
    (shown.filterMap RelayOutput.change?).flatMap ChangeEvent.values =
      TimestampTable.empty.markedValues ((start options).accepted turns) := by
  have pushed := pushed_steps (start options) turns
  rw [show (start options).table = .empty from rfl] at pushed
  rw [changes_eq_flatMap run, List.flatMap_assoc, ← pushed]
  apply List.flatMap_congr
  intro step member
  have effect := (possible_of_mem_steps member).effect
  by_cases received : ∃ values, step.turn = .batchReceived values
  · obtain ⟨values, received⟩ := received
    obtain ⟨before, after, split⟩ := List.append_of_mem member
    obtain ⟨opened, handler, registered⟩ := open_of_listening run listening split received
    have push : step.isPush := by rw [RelayStep.isPush, received]
    rw [effect.changes_of_batch received, Callbacks.dispatch_values opened registered,
      RelayStep.restampAll_of_batch received, RelayStep.pushed, if_pos push]
  · have silent := effect.changes_eq_nil (not_exists.mp received)
    have notPush : step.isPush = false := by
      rw [RelayStep.isPush]
      split
      · next values same => exact absurd ⟨values, same⟩ received
      · rfl
    rw [silent, RelayStep.pushed, notPush]
    rfl

/-- Changes come from single batches, in order: a batch with a current value makes one
while a handler is registered and the callbacks are open, and the change gives all
current values of the batch to the first handler.  Runs that listen all the time and
accept the same values surface the same, however the stream is cut. -/
theorem changes_of_run (run : (start options).run? turns = some (shown, final)) :
    let steps := (start options).steps turns
    steps.map (fun step => (step.turn, step.readings)) = turns ∧
    shown.filterMap RelayOutput.change? = steps.flatMap RelayStep.changes ∧
    (∀ before step after, steps = before ++ step :: after →
      let earlier := before.map RelayStep.turn
      let presented := before.flatMap RelayStep.presented
      (step.changes ≠ [] ↔ ∃ values, step.turn = .batchReceived values ∧
        (RelayTurn.firstHandler? earlier).isSome ∧ ¬RelayTurn.ClosedBy earlier ∧
          currentValues presented values ≠ []) ∧
      ∀ event ∈ step.changes, step.changes = [event] ∧
        ∃ values, step.turn = .batchReceived values ∧
          RelayTurn.firstHandler? earlier = some event.handler ∧
            List.Forall₂ PropertyValue.RestampedTo (currentValues presented values)
              event.values) ∧
    ∀ {otherOptions : RelayOptions} {otherTurns : List (RelayTurn × ClockReadings)}
      {otherShown : List RelayOutput} {otherFinal : Relay},
      (start otherOptions).run? otherTurns = some (otherShown, otherFinal) →
      RelayTurn.Listening (turns.map Prod.fst) →
      RelayTurn.Listening (otherTurns.map Prod.fst) →
      (start options).accepted turns = (start otherOptions).accepted otherTurns →
        (shown.filterMap RelayOutput.change?).flatMap ChangeEvent.values =
          (otherShown.filterMap RelayOutput.change?).flatMap ChangeEvent.values := by
  refine ⟨turns_of_run? run, changes_eq_flatMap run, ?_, ?_⟩
  · intro before step after split
    refine ⟨changes_ne_nil_iff split, ?_⟩
    intro event shows
    exact change_of_mem_changes split shows
  · intro otherOptions otherTurns otherShown otherFinal otherRun listening otherListening same
    rw [surfaced_of_listening run listening, surfaced_of_listening otherRun otherListening, same]

/-- Two runs get the same values in other batches and sessions, and one of them gets a
stale value more. -/
theorem changes_of_run_of_recut :
    let speed (time : Int64) : PropertyValue := ⟨time, 0, 1, .available, {}⟩
    let gear (time : Int64) : PropertyValue := ⟨time, 0, 2, .available, {}⟩
    let clock := ClockReadings.still 100
    let turns : List (RelayTurn × ClockReadings) :=
      [(.registerChange 1, clock), (.streamOpened, clock),
        (.batchReceived [speed 10, gear 5], clock), (.getCalled [⟨7, speed 0⟩], clock),
        (.getAnswered 0 (.ok [⟨7, .ok, some (speed 15)⟩]), clock), (.streamClosed, clock),
        (.waitElapsed, clock), (.streamOpened, clock), (.batchReceived [speed 7], clock),
        (.batchReceived [gear 5, speed 20], clock)]
    let others : List (RelayTurn × ClockReadings) :=
      [(.registerChange 4, clock), (.registerChange 5, clock), (.streamOpened, clock),
        (.batchReceived [speed 10], clock), (.streamFailed, clock), (.waitElapsed, clock),
        (.streamOpened, clock), (.batchReceived [gear 5], clock),
        (.getCalled [⟨7, speed 0⟩], clock),
        (.getAnswered 0 (.ok [⟨7, .ok, some (speed 15)⟩]), clock),
        (.batchReceived [gear 5, speed 20], clock)]
    ∃ shown final otherShown otherFinal,
      (start {}).run? turns = some (shown, final) ∧
      (start {}).run? others = some (otherShown, otherFinal) ∧
      shown.filterMap RelayOutput.change? =
        [⟨1, [speed 100, gear 100]⟩, ⟨1, [gear 100, speed 102]⟩] ∧
      otherShown.filterMap RelayOutput.change? =
        [⟨4, [speed 100]⟩, ⟨4, [gear 100]⟩, ⟨4, [gear 100, speed 102]⟩] ∧
      (shown.filterMap RelayOutput.change?).flatMap ChangeEvent.values =
        (otherShown.filterMap RelayOutput.change?).flatMap ChangeEvent.values := by
  intro speed gear clock turns others
  have outputs : ((start {}).run? turns).map
      (fun result => result.1.filterMap RelayOutput.change?) =
      some [⟨1, [speed 100, gear 100]⟩, ⟨1, [gear 100, speed 102]⟩] := by rfl
  have otherOutputs : ((start {}).run? others).map
      (fun result => result.1.filterMap RelayOutput.change?) =
      some [⟨4, [speed 100]⟩, ⟨4, [gear 100]⟩, ⟨4, [gear 100, speed 102]⟩] := by rfl
  have accepted : (start {}).accepted turns = (start {}).accepted others := by rfl
  have neverClosed : ¬RelayTurn.ClosedBy (turns.map Prod.fst) := by
    intro closed
    simpa [turns] using closed.stop_mem
  have neverClosedOther : ¬RelayTurn.ClosedBy (others.map Prod.fst) := by
    intro closed
    simpa [others] using closed.stop_mem
  obtain ⟨⟨shown, final⟩, run, surfaced⟩ := Option.map_eq_some_iff.mp outputs
  obtain ⟨⟨otherShown, otherFinal⟩, otherRun, otherSurfaced⟩ :=
    Option.map_eq_some_iff.mp otherOutputs
  obtain ⟨_, _, _, recut⟩ := changes_of_run run
  exact ⟨shown, final, otherShown, otherFinal, run, otherRun, surfaced, otherSurfaced,
    recut otherRun ⟨⟨1, _, rfl⟩, neverClosed⟩ ⟨⟨4, _, rfl⟩, neverClosedOther⟩ accepted⟩

/-! ## Batches that come again -/

/-- A batch of values that were all presented before changes nothing, whatever the clock
says.  It surfaces the values whose time is the recorded one, at the recorded local
time. -/
theorem deliver_of_replayed {relay : Relay} {calls : List TableCall}
    (reached : relay.table = TimestampTable.empty.afterAll calls) {values : List PropertyValue}
    (replayed : ∀ value ∈ values, ∃ call ∈ calls,
      call.key = value.key ∧ call.external = value.timestamp)
    (readings : ClockReadings) :
    let surfaced := values.filterMap relay.table.replay?
    relay.deliver readings values = (relay.callbacks.dispatch surfaced, relay) ∧
      ∀ handler, relay.callbacks.change = some handler → relay.callbacks.closed = false →
        (relay.deliver readings values).1.flatMap ChangeEvent.values = surfaced := by
  intro surfaced
  have remembers : relay.table.Remembers (calls.map fun call => (call.key, call.external)) := by
    rw [reached]
    exact TimestampTable.remembers_empty.afterAll calls
  have presented : ∀ value ∈ values,
      value.presentation ∈ calls.map fun call => (call.key, call.external) := by
    intro value member
    obtain ⟨call, called, sameKey, sameTime⟩ := replayed value member
    exact List.mem_map.mpr ⟨call, called, Prod.ext sameKey sameTime⟩
  have delivered : relay.deliver readings values =
      (relay.callbacks.dispatch surfaced, relay) := by
    rw [deliver, remembers.restampAll_replayed presented]
  refine ⟨delivered, ?_⟩
  intro handler registered opened
  rw [delivered]
  exact Callbacks.dispatch_values opened registered surfaced

/-- A server sends its backlog again, in another order and with repetitions. -/
theorem deliver_of_replayed_backlog :
    let speed (time : Int64) : PropertyValue := ⟨time, 0, 1, .available, {}⟩
    let gear (time : Int64) : PropertyValue := ⟨time, 0, 2, .available, {}⟩
    let turns : List (RelayTurn × ClockReadings) :=
      [(.registerChange 1, .still 0), (.streamOpened, .still 0),
        (.batchReceived [speed 10, gear 5], .still 100), (.batchReceived [speed 20], .still 90),
        (.streamClosed, .still 0), (.waitElapsed, .still 0), (.streamOpened, .still 0)]
    ∃ shown relay, (start {}).run? turns = some (shown, relay) ∧
      relay.deliver (.still 500) [speed 20, speed 10, gear 5, speed 20] =
        ([⟨1, [speed 101, gear 100, speed 101]⟩], relay) := by
  intro speed gear turns
  let calls : List TableCall :=
    [.presentValue (speed 10) 100, .presentValue (gear 5) 100, .presentValue (speed 20) 90]
  have outputs : ((start {}).run? turns).map
      (fun result => (result.2.callbacks, result.2.table)) =
        some ({ change := some 1 }, TimestampTable.empty.afterAll calls) := by rfl
  obtain ⟨⟨shown, relay⟩, run, reached⟩ := Option.map_eq_some_iff.mp outputs
  obtain ⟨callbacks, table⟩ := Prod.mk.inj reached
  have replayed : ∀ value ∈ [speed 20, speed 10, gear 5, speed 20], ∃ call ∈ calls,
      call.key = value.key ∧ call.external = value.timestamp := by
    simp [calls, TableCall.key, TableCall.external, speed, gear]
  refine ⟨shown, relay, run, ?_⟩
  rw [(deliver_of_replayed table replayed (.still 500)).1, callbacks, table]
  rfl

end Relay

end VehicleRelay
