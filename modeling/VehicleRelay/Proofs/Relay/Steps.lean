import VehicleRelay.Proofs.GetCall.Rounds
import VehicleRelay.Relay.Basic

/-!
# Steps of a run

A step is a turn that was possible, with the relay before it and after it.
`Effect` says what a step does to get calls and to the table, and what it shows;
a turn that is not about values does none of it.
-/

namespace VehicleRelay

namespace RelayTurn

/-- The turns that stop a relay. -/
def isStop : RelayTurn → Bool
  | .shutdownCalled | .shutdownReturned | .dropped => true
  | _ => false

end RelayTurn

/-- A turn of a run, with the relay before it and after it. -/
structure RelayStep where
  before : Relay
  turn : RelayTurn
  readings : ClockReadings
  shown : List RelayOutput
  after : Relay

namespace RelayStep

def Possible (step : RelayStep) : Prop :=
  step.before.turn? step.readings step.turn = some (step.shown, step.after)

inductive Effect (step : RelayStep) : Prop
  | called {requests : List GetRequest} {progress : GetProgress} :
      step.turn = .getCalled requests →
      progress = GetCall.start step.before.maxAttempts requests →
      step.shown = progress.outcome?.toList.map (.got step.before.calls.length) →
      step.after.calls = step.before.calls ++ [progress] →
      step.after.table = step.before.table → step.Effect
  | answered {call : Nat} {getCall : GetCall} {answer : RpcResult (List GetResult)}
      {progress : GetProgress} :
      step.turn = .getAnswered call answer →
      step.before.calls[call]? = some (.waiting getCall) →
      getCall.resume step.before.table step.readings answer = (progress, step.after.table) →
      step.shown = progress.outcome?.toList.map (.got call) →
      step.after.calls = step.before.calls.set call progress → step.Effect
  | received {values admitted : List PropertyValue} :
      step.turn = .batchReceived values →
      step.before.table.restampAll step.readings values = (admitted, step.after.table) →
      step.shown = (step.before.callbacks.dispatch admitted).map .changed →
      step.after.calls = step.before.calls → step.Effect
  | quiet :
      (∀ requests, step.turn ≠ .getCalled requests) →
      (∀ call answer, step.turn ≠ .getAnswered call answer) →
      (∀ values, step.turn ≠ .batchReceived values) →
      step.shown = [] → step.after.calls = step.before.calls →
      step.after.table = step.before.table → step.Effect

end RelayStep

namespace Relay

theorem record_eq (relay : Relay) (call : Nat) (progress : GetProgress) :
    relay.record call progress =
      (progress.outcome?.toList.map (RelayOutput.got call),
        { relay with calls := relay.calls.set call progress }) := by
  cases progress with
  | waiting getCall => rfl
  | finished outcome => rfl

theorem turn?_getCalled (relay : Relay) (readings : ClockReadings)
    (requests : List GetRequest) :
    relay.turn? readings (.getCalled requests) =
      let progress := GetCall.start relay.maxAttempts requests
      some (progress.outcome?.toList.map (RelayOutput.got relay.calls.length),
        { relay with calls := relay.calls ++ [progress] }) := by
  simp [turn?, record_eq]

theorem turn?_getAnswered {relay : Relay} {call : Nat} {getCall : GetCall}
    (waiting : relay.calls[call]? = some (.waiting getCall)) (readings : ClockReadings)
    (answer : RpcResult (List GetResult)) :
    relay.turn? readings (.getAnswered call answer) =
      let resumed := getCall.resume relay.table readings answer
      some (resumed.1.outcome?.toList.map (RelayOutput.got call),
        { relay with table := resumed.2, calls := relay.calls.set call resumed.1 }) := by
  simp [turn?, waiting, record_eq]

/-- Only a get call that waits can be answered. -/
theorem waiting_of_getAnswered {relay next : Relay} {readings : ClockReadings} {call : Nat}
    {answer : RpcResult (List GetResult)} {shown : List RelayOutput}
    (possible : relay.turn? readings (.getAnswered call answer) = some (shown, next)) :
    ∃ getCall, relay.calls[call]? = some (.waiting getCall) := by
  simp only [turn?] at possible
  split at possible
  · next getCall waiting => exact ⟨getCall, waiting⟩
  · simp at possible

end Relay

/-- Every possible turn has one of four effects. -/
theorem RelayStep.Possible.effect {step : RelayStep} (possible : step.Possible) :
    step.Effect := by
  obtain ⟨relay, turn, readings, shown, next⟩ := step
  rw [Possible] at possible
  simp only at possible
  cases turn with
  | getCalled requests =>
      rw [Relay.turn?_getCalled] at possible
      obtain ⟨rfl, rfl⟩ := Prod.mk.inj (Option.some.inj possible)
      exact .called rfl rfl rfl rfl rfl
  | getAnswered call answer =>
      obtain ⟨getCall, waiting⟩ := Relay.waiting_of_getAnswered possible
      rw [Relay.turn?_getAnswered waiting] at possible
      obtain ⟨rfl, rfl⟩ := Prod.mk.inj (Option.some.inj possible)
      exact .answered rfl waiting rfl rfl rfl
  | batchReceived values =>
      simp only [Relay.turn?] at possible
      split at possible
      · obtain ⟨rfl, rfl⟩ := Prod.mk.inj (Option.some.inj possible)
        exact .received rfl rfl rfl rfl
      · simp at possible
  | registerChange _ | registerSetFailure _ | streamOpened | streamRefused | streamFailed
  | streamClosed | waitElapsed | stopNoticed | shutdownCalled | shutdownReturned | dropped =>
      simp only [Relay.turn?, Relay.endStream?] at possible
      repeat' split at possible
      all_goals
        simp only [Option.some.injEq, Prod.mk.injEq, reduceCtorEq] at possible
      all_goals
        obtain ⟨rfl, rfl⟩ := possible
        exact .quiet (by simp) (by simp) (by simp) rfl rfl rfl

/-- A possible step keeps what the relay was started with, and asks the reader to stop only
if it is a stop. -/
theorem RelayStep.Possible.keeps {step : RelayStep} (possible : step.Possible) :
    step.after.settings = step.before.settings ∧
      step.after.maxAttempts = step.before.maxAttempts ∧
      (step.turn.isStop = false → step.after.stopping = step.before.stopping) := by
  obtain ⟨relay, turn, readings, shown, next⟩ := step
  rw [Possible] at possible
  simp only at possible
  cases turn with
  | getCalled requests =>
      rw [Relay.turn?_getCalled] at possible
      obtain ⟨_, rfl⟩ := Prod.mk.inj (Option.some.inj possible)
      exact ⟨rfl, rfl, fun _ => rfl⟩
  | getAnswered call answer =>
      obtain ⟨getCall, waiting⟩ := Relay.waiting_of_getAnswered possible
      rw [Relay.turn?_getAnswered waiting] at possible
      obtain ⟨_, rfl⟩ := Prod.mk.inj (Option.some.inj possible)
      exact ⟨rfl, rfl, fun _ => rfl⟩
  | registerChange _ | registerSetFailure _ | streamOpened | streamRefused | batchReceived _
  | streamFailed | streamClosed | waitElapsed | stopNoticed | shutdownCalled
  | shutdownReturned | dropped =>
      simp only [Relay.turn?, Relay.endStream?, Relay.deliver] at possible
      repeat' split at possible
      all_goals
        simp only [Option.some.injEq, Prod.mk.injEq, reduceCtorEq] at possible
      all_goals
        obtain ⟨_, rfl⟩ := possible
        simp [RelayTurn.isStop]

namespace Relay

/-- The steps of a run, as far as its turns are possible. -/
def steps (relay : Relay) : List (RelayTurn × ClockReadings) → List RelayStep
  | [] => []
  | (turn, readings) :: turns =>
      match relay.turn? readings turn with
      | some (shown, next) => ⟨relay, turn, readings, shown, next⟩ :: next.steps turns
      | none => []

variable {relay next final : Relay} {turn : RelayTurn} {readings : ClockReadings}
  {turns : List (RelayTurn × ClockReadings)} {first shown : List RelayOutput}

theorem steps_cons (possible : relay.turn? readings turn = some (first, next)) :
    relay.steps ((turn, readings) :: turns) =
      ⟨relay, turn, readings, first, next⟩ :: next.steps turns := by
  simp only [steps, possible]

theorem run?_cons :
    relay.run? ((turn, readings) :: turns) = some (shown, final) ↔
      ∃ first next later, relay.turn? readings turn = some (first, next) ∧
        next.run? turns = some (later, final) ∧ shown = first ++ later := by
  simp only [run?, Option.bind_eq_bind, Option.bind_eq_some_iff, Option.some.injEq,
    Prod.mk.injEq, Prod.exists]
  constructor
  · intro runs
    obtain ⟨first, next, possible, later, last, run, rfl, rfl⟩ := runs
    exact ⟨first, next, later, possible, run, rfl⟩
  · intro runs
    obtain ⟨first, next, later, possible, run, rfl⟩ := runs
    exact ⟨first, next, possible, later, final, run, rfl, rfl⟩

/-- Induction over the steps of a run, from the last one to the first. -/
theorem steps_induction {motive : Relay → List RelayStep → Prop}
    (nil : ∀ relay, motive relay [])
    (cons : ∀ (step : RelayStep) (steps : List RelayStep), step.Possible →
      motive step.after steps → motive step.before (step :: steps))
    (relay : Relay) (turns : List (RelayTurn × ClockReadings)) :
    motive relay (relay.steps turns) := by
  induction turns generalizing relay with
  | nil => exact nil relay
  | cons timed turns induction =>
      obtain ⟨turn, readings⟩ := timed
      cases possible : relay.turn? readings turn with
      | none =>
          simp only [steps, possible]
          exact nil relay
      | some result =>
          obtain ⟨first, next⟩ := result
          rw [steps_cons possible]
          exact cons ⟨relay, turn, readings, first, next⟩ _ possible (induction next)

theorem possible_of_mem_steps {step : RelayStep} (member : step ∈ relay.steps turns) :
    step.Possible := by
  have possible : ∀ step ∈ relay.steps turns, step.Possible := by
    apply steps_induction (motive := fun _ steps => ∀ step ∈ steps, step.Possible)
    · intro _
      exact List.forall_mem_nil _
    · intro step steps possible later
      exact List.forall_mem_cons.mpr ⟨possible, later⟩
  exact possible step member

/-- A run takes all its turns. -/
theorem turns_of_run? (run : relay.run? turns = some (shown, final)) :
    (relay.steps turns).map (fun step => (step.turn, step.readings)) = turns := by
  induction turns generalizing relay shown with
  | nil => rfl
  | cons timed turns induction =>
      obtain ⟨turn, readings⟩ := timed
      obtain ⟨first, next, later, possible, rest, _⟩ := run?_cons.mp run
      rw [steps_cons possible, List.map_cons, induction rest]

theorem map_turn_steps (run : relay.run? turns = some (shown, final)) :
    (relay.steps turns).map RelayStep.turn = turns.map Prod.fst := by
  have taken := congrArg (List.map Prod.fst) (turns_of_run? run)
  rw [List.map_map] at taken
  exact taken

theorem run?_append {earlier later : List (RelayTurn × ClockReadings)} :
    relay.run? (earlier ++ later) = some (shown, final) ↔
      ∃ first middle second, relay.run? earlier = some (first, middle) ∧
        middle.run? later = some (second, final) ∧ shown = first ++ second := by
  induction earlier generalizing relay shown with
  | nil =>
      constructor
      · intro run
        exact ⟨[], relay, shown, rfl, run, rfl⟩
      · intro runs
        obtain ⟨first, middle, second, nothing, run, rfl⟩ := runs
        obtain ⟨rfl, rfl⟩ := Prod.mk.inj (Option.some.inj nothing)
        exact run
  | cons timed earlier induction =>
      obtain ⟨turn, readings⟩ := timed
      rw [List.cons_append, run?_cons]
      constructor
      · intro runs
        obtain ⟨first, next, others, possible, rest, rfl⟩ := runs
        obtain ⟨before, middle, second, run, last, rfl⟩ := induction.mp rest
        refine ⟨first ++ before, middle, second, ?_, last, (List.append_assoc _ _ _).symm⟩
        exact run?_cons.mpr ⟨first, next, before, possible, run, rfl⟩
      · intro runs
        obtain ⟨first, middle, second, run, last, rfl⟩ := runs
        obtain ⟨shown, next, before, possible, rest, rfl⟩ := run?_cons.mp run
        refine ⟨shown, next, before ++ second, possible, ?_, List.append_assoc _ _ _⟩
        exact induction.mpr ⟨before, middle, second, rest, last, rfl⟩

/-- What every step keeps, of the relay and of the steps up to it, holds before each
step of a run. -/
theorem holds_before {Invariant : List RelayStep → Relay → Prop}
    (kept : ∀ (history : List RelayStep) (step : RelayStep), step.Possible →
      Invariant history step.before → Invariant (history ++ [step]) step.after)
    (holds : Invariant [] relay) {before after : List RelayStep} {step : RelayStep}
    (split : relay.steps turns = before ++ step :: after) : Invariant before step.before := by
  induction turns generalizing relay before Invariant with
  | nil => simp [steps] at split
  | cons timed turns induction =>
      obtain ⟨turn, readings⟩ := timed
      cases possible : relay.turn? readings turn with
      | none => simp [steps, possible] at split
      | some result =>
          obtain ⟨shown, next⟩ := result
          rw [steps_cons possible] at split
          cases before with
          | nil =>
              obtain ⟨rfl, _⟩ := List.cons.inj split
              exact holds
          | cons first before =>
              obtain ⟨rfl, rest⟩ := List.cons.inj split
              let first : RelayStep := ⟨relay, turn, readings, shown, next⟩
              have after : Invariant [first] next := kept [] first possible holds
              exact induction (fun history => kept (first :: history)) after rest

/-- What every step keeps holds at the end of a run. -/
theorem holds_after {Invariant : List RelayStep → Relay → Prop}
    (kept : ∀ (history : List RelayStep) (step : RelayStep), step.Possible →
      Invariant history step.before → Invariant (history ++ [step]) step.after)
    (holds : Invariant [] relay) (run : relay.run? turns = some (shown, final)) :
    Invariant (relay.steps turns) final := by
  induction turns generalizing relay shown Invariant with
  | nil =>
      obtain ⟨rfl, rfl⟩ := Prod.mk.inj (Option.some.inj run)
      exact holds
  | cons timed turns induction =>
      obtain ⟨turn, readings⟩ := timed
      obtain ⟨shown, next, later, possible, rest, _⟩ := run?_cons.mp run
      let first : RelayStep := ⟨relay, turn, readings, shown, next⟩
      have after : Invariant [first] next := kept [] first possible holds
      rw [steps_cons possible]
      exact induction (fun history => kept (first :: history)) after rest

/-- A relay that was started with some options, and has taken any turns since. -/
def StartedWith (options : RelayOptions) (relay : Relay) : Prop :=
  ∃ turns shown, (start options).run? turns = some (shown, relay)

/-- The number of attempts is set once and for all, and is never less than one. -/
theorem StartedWith.maxAttempts_eq {options : RelayOptions} (started : StartedWith options relay) :
    relay.maxAttempts = max 1 options.maxAttempts.toNat := by
  obtain ⟨turns, shown, run⟩ := started
  let Kept (_ : List RelayStep) (reached : Relay) : Prop :=
    reached.maxAttempts = max 1 options.maxAttempts.toNat
  have kept (history : List RelayStep) (step : RelayStep) (possible : step.Possible)
      (holds : Kept history step.before) : Kept (history ++ [step]) step.after :=
    possible.keeps.2.1.trans holds
  exact holds_after kept rfl run

/-- A run shows what its steps show. -/
theorem shown_of_run? (run : relay.run? turns = some (shown, final)) :
    shown = (relay.steps turns).flatMap RelayStep.shown := by
  induction turns generalizing relay shown with
  | nil =>
      obtain ⟨rfl, rfl⟩ := Prod.mk.inj (Option.some.inj run)
      rfl
  | cons timed turns induction =>
      obtain ⟨turn, readings⟩ := timed
      obtain ⟨first, next, later, possible, rest, rfl⟩ := run?_cons.mp run
      rw [steps_cons possible, List.flatMap_cons, induction rest]

end Relay

end VehicleRelay
