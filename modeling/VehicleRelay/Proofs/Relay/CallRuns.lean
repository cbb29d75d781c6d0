import VehicleRelay.Proofs.Relay.Steps

/-!
# Get calls in a run of the relay

A run of the relay takes the turns of many get calls, of the reader and of the
callers in any order.  Each get call goes through rounds of its own, with the
table as it is when an answer comes, and it reports one outcome at its end.
-/

namespace VehicleRelay

/-- The outcome that is shown for a get call. -/
def RelayOutput.outcome? (call : Nat) : RelayOutput → Option GetOutcome
  | .changed _ => none
  | .got other outcome => if other = call then some outcome else none

theorem mem_outcomes {shown : List RelayOutput} {call : Nat} {outcome : GetOutcome}
    (shows : .got call outcome ∈ shown) :
    outcome ∈ shown.filterMap (RelayOutput.outcome? call) := by
  refine List.mem_filterMap.mpr ⟨.got call outcome, shows, ?_⟩
  rw [RelayOutput.outcome?, if_pos rfl]

theorem got_outcomes (progress : GetProgress) (recorded call : Nat) :
    (progress.outcome?.toList.map (RelayOutput.got recorded)).filterMap
        (RelayOutput.outcome? call) =
      if call = recorded then progress.outcome?.toList else [] := by
  cases progress with
  | waiting getCall => simp [GetProgress.outcome?]
  | finished outcome =>
      by_cases same : call = recorded
      · simp [RelayOutput.outcome?, GetProgress.outcome?, same]
      · simp [GetProgress.outcome?, RelayOutput.outcome?, same, Ne.symm same]

theorem changed_outcomes (events : List ChangeEvent) (call : Nat) :
    (events.map RelayOutput.changed).filterMap (RelayOutput.outcome? call) = [] := by
  simp [List.filterMap_map, Function.comp_def, RelayOutput.outcome?]

namespace RelayStep

/-- The round that a step ends, if it answers a remote call of the get call. -/
def round? (call : Nat) (step : RelayStep) : Option GetRound :=
  match step.turn, step.before.calls[call]? with
  | .getAnswered answered answer, some (.waiting getCall) =>
      if answered = call then
        some (getCall.roundOf ⟨step.before.table, step.readings, answer⟩)
      else none
  | _, _ => none

variable {step : RelayStep} {call : Nat}

theorem round?_of_waiting {getCall : GetCall} {answer : RpcResult (List GetResult)}
    (answered : step.turn = .getAnswered call answer)
    (waiting : step.before.calls[call]? = some (.waiting getCall)) :
    step.round? call =
      some (getCall.roundOf ⟨step.before.table, step.readings, answer⟩) := by
  simp [round?, answered, waiting]

theorem answered_of_round? {round : GetRound} (found : step.round? call = some round) :
    ∃ getCall answer, step.turn = .getAnswered call answer ∧
      step.before.calls[call]? = some (.waiting getCall) ∧
        round = getCall.roundOf ⟨step.before.table, step.readings, answer⟩ := by
  simp only [round?] at found
  split at found
  · next answered answer getCall turn waiting =>
      split at found
      · next same =>
          exact ⟨getCall, answer, same ▸ turn, waiting, (Option.some.inj found).symm⟩
      · simp at found
  · simp at found

theorem round?_eq_none (other : ∀ answer, step.turn ≠ .getAnswered call answer) :
    step.round? call = none := by
  apply Option.eq_none_iff_forall_ne_some.mpr
  intro round found
  obtain ⟨_, answer, turn, _⟩ := answered_of_round? found
  exact other answer turn

/-- A step that does nothing for a get call leaves it as it is. -/
structure Spares (step : RelayStep) (call : Nat) : Prop where
  round : step.round? call = none
  same : step.after.calls[call]? = step.before.calls[call]?
  silent : step.shown.filterMap (RelayOutput.outcome? call) = []

/-- A step may make a get call, may answer one, or spares it. -/
theorem Effect.call_cases (effect : step.Effect) (call : Nat) :
    step.Spares call ∨
      (∃ requests progress, step.turn = .getCalled requests ∧
        call = step.before.calls.length ∧
        progress = GetCall.start step.before.maxAttempts requests ∧
        step.after.calls[call]? = some progress ∧
        step.shown.filterMap (RelayOutput.outcome? call) = progress.outcome?.toList) ∨
      ∃ getCall arrival progress, step.before.calls[call]? = some (.waiting getCall) ∧
        progress = (getCall.resume arrival.table arrival.readings arrival.answer).1 ∧
        step.round? call = some (getCall.roundOf arrival) ∧
        step.after.calls[call]? = some progress ∧
        step.shown.filterMap (RelayOutput.outcome? call) = progress.outcome?.toList := by
  cases effect with
  | @called requests progress turn start shown calls table =>
      by_cases made : call = step.before.calls.length
      · right
        left
        refine ⟨requests, progress, turn, made, start, ?_, ?_⟩
        · rw [calls, made, List.getElem?_concat_length]
        · rw [shown, got_outcomes, if_pos made]
      · left
        refine ⟨round?_eq_none (by simp [turn]), ?_, ?_⟩
        · rw [calls, List.getElem?_append]
          split
          · rfl
          · next beyond =>
              have past : step.before.calls.length < call := by omega
              rw [List.getElem?_eq_none (by simp only [List.length_singleton]; omega),
                List.getElem?_eq_none (Nat.le_of_lt past)]
        · rw [shown, got_outcomes, if_neg made]
  | @answered recorded getCall answer progress turn waiting resumed shown calls =>
      by_cases same : call = recorded
      · subst same
        right
        right
        have inRange := (List.getElem?_eq_some_iff.mp waiting).1
        refine ⟨getCall, ⟨step.before.table, step.readings, answer⟩, progress, waiting, ?_,
          round?_of_waiting turn waiting, ?_, ?_⟩
        · rw [resumed]
        · rw [calls, List.getElem?_set_self inRange]
        · rw [shown, got_outcomes, if_pos rfl]
      · left
        refine ⟨round?_eq_none (by simp [turn, Ne.symm same]), ?_, ?_⟩
        · rw [calls, List.getElem?_set_ne (Ne.symm same)]
        · rw [shown, got_outcomes, if_neg same]
  | received turn restamped shown calls =>
      left
      refine ⟨round?_eq_none (by simp [turn]), by rw [calls], ?_⟩
      rw [shown, changed_outcomes]
  | quiet notCalled notAnswered notReceived shown calls table =>
      left
      exact ⟨round?_eq_none (notAnswered call), by rw [calls], by rw [shown]; rfl⟩

end RelayStep

namespace Relay

/-- The rounds of a get call in a run. -/
def roundsOf (relay : Relay) (call : Nat) (turns : List (RelayTurn × ClockReadings)) :
    List GetRound :=
  (relay.steps turns).filterMap (RelayStep.round? call)

variable {relay final : Relay} {turns : List (RelayTurn × ClockReadings)}
  {shown : List RelayOutput} {call : Nat}

theorem roundsOf_cons {next : Relay} {turn : RelayTurn} {readings : ClockReadings}
    (possible : relay.turn? readings turn = some (shown, next)) (call : Nat)
    (turns : List (RelayTurn × ClockReadings)) :
    relay.roundsOf call ((turn, readings) :: turns) =
      (RelayStep.round? call ⟨relay, turn, readings, shown, next⟩).toList ++
        next.roundsOf call turns := by
  rw [roundsOf, steps_cons possible]
  cases found : RelayStep.round? call ⟨relay, turn, readings, shown, next⟩ with
  | none => rw [List.filterMap_cons_none found]; rfl
  | some round => rw [List.filterMap_cons_some found]; rfl

/-- A run of the relay takes every get call through rounds of its own, and shows
its outcome when it ends and at no other time. -/
theorem runs_of_run? (run : relay.run? turns = some (shown, final))
    {earlier : GetProgress} (made : relay.calls[call]? = some earlier) :
    ∃ later, final.calls[call]? = some later ∧
      earlier.Runs (relay.roundsOf call turns) later ∧
        earlier.outcome?.toList ++ shown.filterMap (RelayOutput.outcome? call) =
          later.outcome?.toList := by
  induction turns generalizing relay shown earlier with
  | nil =>
      obtain ⟨rfl, rfl⟩ := Prod.mk.inj (Option.some.inj run)
      exact ⟨earlier, made, earlier.runs_refl, by simp⟩
  | cons timed turns induction =>
      obtain ⟨turn, readings⟩ := timed
      obtain ⟨first, next, others, possible, rest, rfl⟩ := run?_cons.mp run
      let step : RelayStep := ⟨relay, turn, readings, first, next⟩
      have effect : step.Effect := RelayStep.Possible.effect possible
      rw [roundsOf_cons possible, List.filterMap_append]
      rcases effect.call_cases call with spares | ⟨_, _, _, fresh, _⟩ |
        ⟨getCall, arrival, progress, waiting, rfl, round, resumed, reported⟩
      · obtain ⟨later, found, runs, outcomes⟩ := induction rest (spares.same.trans made)
        rw [spares.round, spares.silent]
        exact ⟨later, found, runs, outcomes⟩
      · have inRange := (List.getElem?_eq_some_iff.mp made).1
        exact absurd fresh (Nat.ne_of_lt inRange)
      · obtain rfl := Option.some.inj (made.symm.trans waiting)
        obtain ⟨later, found, runs, outcomes⟩ := induction rest resumed
        rw [round, reported]
        exact ⟨later, found, getCall.runs_of_resume arrival runs, outcomes⟩

/-- A get call that is made in a run goes through its rounds from the start. -/
theorem runs_of_getCalled {requests : List GetRequest} {readings : ClockReadings}
    (run : relay.run? ((.getCalled requests, readings) :: turns) = some (shown, final)) :
    let call := relay.calls.length
    ∃ later, final.calls[call]? = some later ∧
      (GetCall.start relay.maxAttempts requests).Runs
        (relay.roundsOf call ((.getCalled requests, readings) :: turns)) later ∧
        shown.filterMap (RelayOutput.outcome? call) = later.outcome?.toList := by
  obtain ⟨first, next, others, possible, rest, rfl⟩ := run?_cons.mp run
  have called := possible
  rw [turn?_getCalled] at called
  obtain ⟨rfl, rfl⟩ := Prod.mk.inj (Option.some.inj called)
  obtain ⟨later, found, runs, reported⟩ := runs_of_run? rest List.getElem?_concat_length
  refine ⟨later, found, ?_, ?_⟩
  · rw [roundsOf_cons possible]
    exact runs
  · rw [List.filterMap_append, got_outcomes, if_pos rfl, reported]

/-- An outcome that is shown for a get call of a run ends its rounds from the start. -/
theorem runs_of_outcome (run : relay.run? turns = some (shown, final))
    (absent : relay.calls[call]? = none) {outcome : GetOutcome}
    (member : outcome ∈ shown.filterMap (RelayOutput.outcome? call)) :
    ∃ attempts requests, 0 < attempts ∧ (GetCall.start attempts requests).Runs
      (relay.roundsOf call turns) (.finished outcome) := by
  induction turns generalizing relay shown with
  | nil =>
      obtain ⟨rfl, rfl⟩ := Prod.mk.inj (Option.some.inj run)
      simp at member
  | cons timed turns induction =>
      obtain ⟨turn, readings⟩ := timed
      obtain ⟨first, next, others, possible, rest, rfl⟩ := run?_cons.mp run
      let step : RelayStep := ⟨relay, turn, readings, first, next⟩
      have effect : step.Effect := RelayStep.Possible.effect possible
      rcases effect.call_cases call with spares | ⟨requests, _, turn, made, _⟩ |
        ⟨_, _, _, waiting, _⟩
      · rw [roundsOf_cons possible, spares.round]
        rw [List.filterMap_append, spares.silent] at member
        exact induction rest (spares.same.trans absent) member
      · obtain rfl : _ = RelayTurn.getCalled requests := turn
        obtain rfl : call = relay.calls.length := made
        obtain ⟨later, _, runs, reported⟩ := runs_of_getCalled run
        rw [reported] at member
        cases later with
        | waiting getCall => simp [GetProgress.outcome?] at member
        | finished ended =>
            obtain rfl : outcome = ended := by simpa [GetProgress.outcome?] using member
            exact ⟨relay.maxAttempts, requests, relay.attempts_pos, runs⟩
      · exact absurd (absent.symm.trans waiting) (by simp)

/-- A step that shows an outcome of a get call has finished it. -/
theorem finished_of_shows {step : RelayStep} (effect : step.Effect)
    (shows : step.shown.filterMap (RelayOutput.outcome? call) ≠ []) :
    ∃ outcome, step.after.calls[call]? = some (.finished outcome) := by
  rcases effect.call_cases call with spares |
    ⟨_, progress, _, _, _, after, reported⟩ | ⟨_, _, progress, _, _, _, after, reported⟩
  · exact absurd spares.silent shows
  all_goals
    cases progress with
    | waiting getCall => exact absurd reported shows
    | finished outcome => exact ⟨outcome, after⟩

/-- Nothing is done any more for a get call that has finished, nor for one once
its outcome is shown. -/
theorem spares_steps (relay : Relay) (turns : List (RelayTurn × ClockReadings)) (call : Nat) :
    (∀ ended, relay.calls[call]? = some (.finished ended) →
      ∀ step ∈ relay.steps turns, step.Spares call) ∧
    (relay.steps turns).Pairwise fun earlier later =>
      earlier.shown.filterMap (RelayOutput.outcome? call) ≠ [] → later.Spares call := by
  apply steps_induction (motive := fun relay steps =>
    (∀ ended, relay.calls[call]? = some (.finished ended) → ∀ step ∈ steps, step.Spares call) ∧
      steps.Pairwise fun earlier later =>
        earlier.shown.filterMap (RelayOutput.outcome? call) ≠ [] → later.Spares call)
  · intro _
    exact ⟨fun _ _ => List.forall_mem_nil _, List.Pairwise.nil⟩
  · intro step steps possible induction
    obtain ⟨sparesFinished, sparesShown⟩ := induction
    constructor
    · intro ended finished
      rcases possible.effect.call_cases call with spares | ⟨_, _, _, made, _⟩ |
        ⟨_, _, _, waiting, _⟩
      · have stays := spares.same.trans finished
        exact List.forall_mem_cons.mpr ⟨spares, sparesFinished ended stays⟩
      · have inRange := (List.getElem?_eq_some_iff.mp finished).1
        exact absurd made (Nat.ne_of_lt inRange)
      · exact absurd (finished.symm.trans waiting) (by simp)
    · refine List.Pairwise.cons ?_ sparesShown
      intro later member shows
      obtain ⟨outcome, finished⟩ := finished_of_shows possible.effect shows
      exact sparesFinished outcome finished later member

end Relay

/-! ## Get calls that nothing interrupts -/

theorem GetCall.attemptsLeft_of_resume {call next : GetCall} {table last : TimestampTable}
    {readings : ClockReadings} {answer : RpcResult (List GetResult)}
    (resumed : call.resume table readings answer = (.waiting next, last)) :
    call.attemptsLeft = next.attemptsLeft + 1 := by
  cases answer with
  | error error => simp [resume] at resumed
  | ok results =>
      simp only [resume, GetCall.next] at resumed
      split at resumed
      · simp at resumed
      · split at resumed
        · simp at resumed
        · next left =>
            obtain ⟨waiting, _⟩ := Prod.mk.inj resumed
            rw [← GetProgress.waiting.inj waiting]
            exact left

theorem GetCall.drive_finished {Server : Type} [VehicleServer Server] (attempts : Nat)
    (outcome : GetOutcome) (table : TimestampTable) (readings : Nat → ClockReadings)
    (server : Server) :
    drive attempts (.finished outcome) table readings server = (outcome, table, server) := by
  cases attempts with
  | zero => rfl
  | succ attempts => rfl

namespace Relay

/-- A get call that nothing interrupts takes the turns that answer its remote
calls, one after the other. -/
theorem run?_of_drive {Server : Type} [VehicleServer Server] {relay : Relay} {call : Nat}
    {getCall : GetCall} (waiting : relay.calls[call]? = some (.waiting getCall))
    {attempts : Nat} (enough : getCall.attemptsLeft < attempts)
    {readings : Nat → ClockReadings} {server later : Server} {outcome : GetOutcome}
    {table : TimestampTable}
    (driven : GetCall.drive attempts (.waiting getCall) relay.table readings server =
      (outcome, table, later)) :
    ∃ turns : List (RelayTurn × ClockReadings),
      (∀ timed ∈ turns, ∃ answer, timed.1 = .getAnswered call answer) ∧
        relay.run? turns = some ([.got call outcome],
          { relay with table, calls := relay.calls.set call (.finished outcome) }) := by
  induction attempts generalizing relay getCall readings server with
  | zero => exact absurd enough (Nat.not_lt_zero _)
  | succ attempts induction =>
      simp only [GetCall.drive] at driven
      generalize VehicleServer.answer (.getValues getCall.pending) server = answered at driven
      have possible := turn?_getAnswered waiting (readings 0) answered.1
      rcases resumed : getCall.resume relay.table (readings 0) answered.1 with ⟨progress, next⟩
      rw [resumed] at possible driven
      cases progress with
      | finished ended =>
          rw [GetCall.drive_finished] at driven
          obtain ⟨rfl, rfl, rfl⟩ := driven
          exact ⟨[(.getAnswered call answered.1, readings 0)], by simp,
            run?_cons.mpr ⟨_, _, [], possible, rfl, rfl⟩⟩
      | waiting again =>
          have left := GetCall.attemptsLeft_of_resume resumed
          have inRange := (List.getElem?_eq_some_iff.mp waiting).1
          let after : Relay :=
            { relay with table := next, calls := relay.calls.set call (.waiting again) }
          have waitsAgain : after.calls[call]? = some (.waiting again) :=
            List.getElem?_set_self inRange
          obtain ⟨turns, answers, run⟩ := induction waitsAgain (by omega) driven
          simp only [after, List.set_set] at run
          refine ⟨(.getAnswered call answered.1, readings 0) :: turns, ?_, ?_⟩
          · simpa using answers
          · exact run?_cons.mpr ⟨[], after, _, possible, run, rfl⟩

/-- A get call that nothing interrupts is a run of the relay like any other. -/
theorem run?_of_getValues {Server : Type} [VehicleServer Server] {relay after : Relay}
    {readings : Nat → ClockReadings} {requests : List GetRequest} {server later : Server}
    {outcome : GetOutcome}
    (called : relay.getValues readings requests server = (outcome, after, later)) :
    ∃ turns : List (RelayTurn × ClockReadings),
      (∀ timed ∈ turns, ∃ answer, timed.1 = .getAnswered relay.calls.length answer) ∧
        relay.run? ((.getCalled requests, readings 0) :: turns) =
          some ([.got relay.calls.length outcome],
            { after with calls := relay.calls ++ [.finished outcome] }) := by
  rcases driven : GetCall.drive relay.maxAttempts (GetCall.start relay.maxAttempts requests)
    relay.table readings server with ⟨reported, table, last⟩
  simp only [getValues, driven, Prod.mk.injEq] at called
  obtain ⟨rfl, rfl, rfl⟩ := called
  have possible := turn?_getCalled relay (readings 0) requests
  by_cases asked : requests = []
  · subst requests
    rw [GetCall.start_nil] at possible driven
    rw [GetCall.drive_finished] at driven
    obtain ⟨rfl, rfl, rfl⟩ := driven
    exact ⟨[], by simp, run?_cons.mpr ⟨_, _, [], possible, rfl, rfl⟩⟩
  · rw [GetCall.start_of_ne_nil asked relay.attempts_pos] at possible driven
    let made : Relay :=
      { relay with
        calls := relay.calls ++ [.waiting ⟨requests, [], relay.maxAttempts - 1⟩] }
    have waiting : made.calls[relay.calls.length]? =
        some (.waiting ⟨requests, [], relay.maxAttempts - 1⟩) :=
      List.getElem?_concat_length
    have enough : relay.maxAttempts - 1 < relay.maxAttempts :=
      Nat.sub_one_lt_of_lt relay.attempts_pos
    obtain ⟨turns, answers, run⟩ := run?_of_drive waiting enough driven
    have ended : made.calls.set relay.calls.length (.finished reported) =
        relay.calls ++ [.finished reported] := by
      simp [made]
    rw [ended] at run
    exact ⟨turns, answers, run?_cons.mpr ⟨[], made, _, possible, run, rfl⟩⟩

end Relay

end VehicleRelay
