import VehicleRelay.Proofs.Relay.Steps

/-!
# Callbacks in a run

Which handler a relay has for changes, and whether its callbacks are closed,
follows from the turns that it has taken, whatever they have shown.
-/

namespace VehicleRelay

namespace Callbacks

/-- Some values are dispatched to the registered handler, all at once, unless the
callbacks are closed. -/
theorem mem_dispatch_iff {callbacks : Callbacks} {values : List PropertyValue}
    {event : ChangeEvent} :
    event ∈ callbacks.dispatch values ↔
      callbacks.closed = false ∧ values ≠ [] ∧
        callbacks.change = some event.handler ∧ event.values = values := by
  obtain ⟨handler, carried⟩ := event
  rw [dispatch]
  cases callbacks.closed with
  | true => simp
  | false =>
      cases values with
      | nil => simp
      | cons value values =>
          cases callbacks.change with
          | none => simp
          | some registered => simp [eq_comm]

theorem dispatch_ne_nil_iff {callbacks : Callbacks} {values : List PropertyValue} :
    callbacks.dispatch values ≠ [] ↔
      callbacks.change.isSome ∧ callbacks.closed = false ∧ values ≠ [] := by
  constructor
  · intro shows
    obtain ⟨event, member⟩ := List.exists_mem_of_ne_nil _ shows
    obtain ⟨opened, given, registered, _⟩ := mem_dispatch_iff.mp member
    exact ⟨by rw [registered]; rfl, opened, given⟩
  · intro ready
    obtain ⟨registered, opened, given⟩ := ready
    obtain ⟨handler, registered⟩ := Option.isSome_iff_exists.mp registered
    have member : ⟨handler, values⟩ ∈ callbacks.dispatch values :=
      mem_dispatch_iff.mpr ⟨opened, given, registered, rfl⟩
    exact List.ne_nil_of_mem member

/-- There is one change at most. -/
theorem dispatch_eq_singleton {callbacks : Callbacks} {values : List PropertyValue}
    {event : ChangeEvent} (member : event ∈ callbacks.dispatch values) :
    callbacks.dispatch values = [event] := by
  obtain ⟨opened, given, registered, rfl⟩ := mem_dispatch_iff.mp member
  simp [dispatch, opened, given, registered]

/-- A handler that may run is given all values. -/
theorem dispatch_values {callbacks : Callbacks} {handler : Handler}
    (opened : callbacks.closed = false) (registered : callbacks.change = some handler)
    (values : List PropertyValue) :
    (callbacks.dispatch values).flatMap ChangeEvent.values = values := by
  cases values with
  | nil => rw [dispatch_nil]; rfl
  | cons value values => simp [dispatch, opened, registered]

theorem dispatch_of_closed {callbacks : Callbacks} (closed : callbacks.closed = true)
    (values : List PropertyValue) : callbacks.dispatch values = [] := by
  simp [dispatch, closed]

theorem close_of_closed {callbacks : Callbacks} (closed : callbacks.closed = true) :
    callbacks.close = callbacks := by
  obtain ⟨change, setFailure, shut⟩ := callbacks
  obtain rfl : shut = true := closed
  rfl

end Callbacks

namespace RelayTurn

/-- The handler that a turn registers for changes. -/
def registered? : RelayTurn → Option Handler
  | .registerChange handler => some handler
  | _ => none

/-- The handler that some turns register first. -/
def firstHandler? (turns : List RelayTurn) : Option Handler :=
  turns.findSome? registered?

/-- The turns that close the callbacks: the return of the shutdown that waits for the
reader, the drop of the relay, and a shutdown that finds another one waiting. -/
def ClosedBy (turns : List RelayTurn) : Prop :=
  .shutdownReturned ∈ turns ∨ .dropped ∈ turns ∨
    [.shutdownCalled, .shutdownCalled].Sublist turns

theorem ClosedBy.append {earlier : List RelayTurn} (closed : ClosedBy earlier)
    (later : List RelayTurn) : ClosedBy (earlier ++ later) := by
  rcases closed with returned | dropped | twice
  · exact .inl (List.mem_append_left later returned)
  · exact .inr (.inl (List.mem_append_left later dropped))
  · exact .inr (.inr (twice.trans (List.sublist_append_left earlier later)))

/-- Callbacks that nobody stops stay open. -/
theorem ClosedBy.stop_mem {turns : List RelayTurn} (closed : ClosedBy turns) :
    .shutdownReturned ∈ turns ∨ .dropped ∈ turns ∨ .shutdownCalled ∈ turns := by
  rcases closed with returned | dropped | twice
  · exact .inl returned
  · exact .inr (.inl dropped)
  · exact .inr (.inr (twice.subset List.mem_cons_self))

theorem pair_sublist_concat_iff {Element : Type} {first : Element} {earlier : List Element}
    {last : Element} :
    [first, first].Sublist (earlier ++ [last]) ↔
      [first, first].Sublist earlier ∨ last = first ∧ first ∈ earlier := by
  rw [List.sublist_append_iff]
  constructor
  · rintro ⟨before, after, split, inEarlier, inLast⟩
    rcases List.sublist_singleton.mp inLast with rfl | rfl
    · rw [List.append_nil] at split
      exact .inl (split ▸ inEarlier)
    · have halves : [first] ++ [first] = before ++ [last] := split
      obtain ⟨same, sameLast⟩ := List.append_inj' halves rfl
      obtain rfl := List.singleton_inj.mp sameLast
      exact .inr ⟨rfl, List.singleton_sublist.mp (same ▸ inEarlier)⟩
  · rintro (inEarlier | ⟨rfl, member⟩)
    · exact ⟨_, [], (List.append_nil _).symm, inEarlier, List.nil_sublist _⟩
    · exact ⟨[last], [last], rfl, List.singleton_sublist.mpr member, List.Sublist.refl _⟩

theorem closedBy_concat_iff {earlier : List RelayTurn} {turn : RelayTurn} :
    ClosedBy (earlier ++ [turn]) ↔
      ClosedBy earlier ∨ turn = .shutdownReturned ∨ turn = .dropped ∨
        turn = .shutdownCalled ∧ .shutdownCalled ∈ earlier := by
  simp only [ClosedBy, List.mem_append, List.mem_singleton, pair_sublist_concat_iff, eq_comm]
  tauto

end RelayTurn

/-- What a step does to the callbacks, and to whether the reader is awaited. -/
theorem RelayStep.Possible.registry {step : RelayStep} (possible : step.Possible) :
    step.after.callbacks.change = step.before.callbacks.change.or step.turn.registered? ∧
      (step.after.callbacks.closed = true ↔ step.before.callbacks.closed = true ∨
        step.turn = .shutdownReturned ∨ step.turn = .dropped ∨
          step.turn = .shutdownCalled ∧ step.before.unawaited = false) ∧
      (step.after.unawaited = true ↔ step.before.unawaited = true ∧
        step.turn ≠ .shutdownCalled ∧ step.turn ≠ .dropped) := by
  obtain ⟨relay, turn, readings, shown, next⟩ := step
  rw [Possible] at possible
  simp only at possible
  cases turn with
  | getCalled requests =>
      rw [Relay.turn?_getCalled] at possible
      obtain ⟨rfl, rfl⟩ := Prod.mk.inj (Option.some.inj possible)
      simp [RelayTurn.registered?]
  | getAnswered call answer =>
      obtain ⟨getCall, waiting⟩ := Relay.waiting_of_getAnswered possible
      rw [Relay.turn?_getAnswered waiting] at possible
      obtain ⟨rfl, rfl⟩ := Prod.mk.inj (Option.some.inj possible)
      simp [RelayTurn.registered?]
  | registerChange _ | registerSetFailure _ | streamOpened | streamRefused | batchReceived _
  | streamFailed | streamClosed | waitElapsed | stopNoticed | shutdownCalled
  | shutdownReturned | dropped =>
      simp only [Relay.turn?, Relay.endStream?, Relay.deliver] at possible
      repeat' split at possible
      all_goals
        simp only [Option.some.injEq, Prod.mk.injEq, reduceCtorEq] at possible
      all_goals
        obtain ⟨rfl, rfl⟩ := possible
        simp_all [RelayTurn.registered?, Callbacks.registerChange,
          Callbacks.registerSetFailure, Callbacks.close]

/-- The callbacks of a relay are as some turns have made them. -/
structure Relay.Follows (turns : List RelayTurn) (relay : Relay) : Prop where
  registered : relay.callbacks.change = RelayTurn.firstHandler? turns
  closed_iff : relay.callbacks.closed = true ↔ RelayTurn.ClosedBy turns
  unawaited_iff : relay.unawaited = true ↔
    RelayTurn.shutdownCalled ∉ turns ∧ RelayTurn.dropped ∉ turns

namespace Relay

theorem follows_start (options : RelayOptions) : (start options).Follows [] where
  registered := rfl
  closed_iff := by simp [start, RelayTurn.ClosedBy]
  unawaited_iff := by simp [start]

theorem Follows.step {turns : List RelayTurn} {step : RelayStep} (possible : step.Possible)
    (follows : step.before.Follows turns) : step.after.Follows (turns ++ [step.turn]) := by
  obtain ⟨change, closed, unawaited⟩ := possible.registry
  refine ⟨?_, ?_, ?_⟩
  · rw [change, follows.registered, RelayTurn.firstHandler?, RelayTurn.firstHandler?,
      List.findSome?_append, List.findSome?_singleton]
  · have awaited : step.before.unawaited = false ↔
        .shutdownCalled ∈ turns ∨ .dropped ∈ turns := by
      rw [← Bool.not_eq_true, follows.unawaited_iff]
      tauto
    rw [closed, RelayTurn.closedBy_concat_iff, follows.closed_iff, awaited]
    constructor
    · rintro (closed | returned | dropped | ⟨called, shutdown | dropped⟩)
      · exact .inl closed
      · exact .inr (.inl returned)
      · exact .inr (.inr (.inl dropped))
      · exact .inr (.inr (.inr ⟨called, shutdown⟩))
      · exact .inl (.inr (.inl dropped))
    · rintro (closed | returned | dropped | ⟨called, shutdown⟩)
      · exact .inl closed
      · exact .inr (.inl returned)
      · exact .inr (.inr (.inl dropped))
      · exact .inr (.inr (.inr ⟨called, .inl shutdown⟩))
  · rw [unawaited, follows.unawaited_iff]
    simp only [List.mem_append, List.mem_singleton, not_or, ne_eq, eq_comm]
    tauto

end Relay

end VehicleRelay
