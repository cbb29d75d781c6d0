import VehicleRelay.Proofs.GetCall.Conservation
import VehicleRelay.Proofs.GetCall.Outcomes
import VehicleRelay.Proofs.Relay.CallRuns

/-!
# What a get call does in a run

The relay may be in any state when a get call is made, and may do anything else
until the get call is answered.
-/

namespace VehicleRelay

namespace Relay

variable {relay final : Relay} {requests : List GetRequest} {readings : ClockReadings}
  {turns : List (RelayTurn × ClockReadings)} {shown : List RelayOutput}

/-- A get call of distinct requests sends all of them, then only the stale ones
again, and its callback gets one result for each of them. -/
theorem getCalled_conserves_requests (asked : requests ≠ [])
    (distinct : (requests.map GetRequest.id).Nodup)
    (run : relay.run? ((.getCalled requests, readings) :: turns) = some (shown, final))
    (answered : ∀ round ∈ relay.roundsOf relay.calls.length
      ((.getCalled requests, readings) :: turns), round.AnswersEach) :
    let call := relay.calls.length
    let rounds := relay.roundsOf call ((.getCalled requests, readings) :: turns)
    ∃ progress, final.calls[call]? = some progress ∧
      (sentBatches rounds progress).head? = some requests ∧
      (∀ index round batch, rounds[index]? = some round →
        (sentBatches rounds progress)[index + 1]? = some batch →
          (batch.map GetRequest.id).Nodup ∧
            ∀ request, request ∈ batch ↔ request ∈ round.sent ∧
              ∃ result, result.id = request.id ∧ round.FindsStale result) ∧
      shown.filterMap (RelayOutput.outcome? call) = progress.outcome?.toList ∧
      ∀ outcome, progress = .finished outcome → outcome.status = .ok →
        ∃ results, outcome.delivered = some results ∧
          (results.map GetResult.id).Perm (requests.map GetRequest.id) := by
  intro call rounds
  obtain ⟨progress, found, runs, reported⟩ := runs_of_getCalled run
  rw [GetCall.start_of_ne_nil asked relay.attempts_pos] at runs
  refine ⟨progress, found, GetCall.Runs.head_sent runs, ?_, reported, ?_⟩
  · intro index round batch round_at batch_at
    have member : round ∈ rounds := List.mem_of_getElem? round_at
    have distinctSent := GetCall.Runs.distinct_sent runs distinct answered round member
    rw [GetCall.Runs.next_sent runs round_at batch_at]
    exact ⟨(answered round member).distinct_retries distinctSent,
      GetRound.mem_retries_iff_of_distinct distinctSent⟩
  · intro outcome finished ok
    subst progress
    simpa using GetCall.Runs.conserves runs answered asked ok

/-- A batch overtakes one of two requests, which is sent again and answered then. -/
theorem getCalled_conserves_requests_of_overtaken :
    let speed (time : Int64) : PropertyValue := ⟨time, 0, 1, .available, {}⟩
    let gear (time : Int64) : PropertyValue := ⟨time, 0, 2, .available, {}⟩
    let requests : List GetRequest := [⟨7, speed 0⟩, ⟨8, gear 0⟩]
    let clock := ClockReadings.still 100
    let turns : List (RelayTurn × ClockReadings) :=
      [(.streamOpened, clock), (.batchReceived [gear 20], clock),
        (.getAnswered 0 (.ok [⟨8, .ok, some (gear 10)⟩, ⟨7, .ok, some (speed 10)⟩]), clock),
        (.getAnswered 0 (.ok [⟨8, .ok, some (gear 30)⟩]), clock)]
    ∃ shown final results,
      (Relay.start {}).run? ((.getCalled requests, clock) :: turns) = some (shown, final) ∧
        shown.filterMap (RelayOutput.outcome? 0) = [⟨.ok, some results⟩] ∧
          (results.map GetResult.id).Perm (requests.map GetRequest.id) := by
  intro speed gear requests clock turns
  have outputs : ((Relay.start {}).run? ((.getCalled requests, clock) :: turns)).map
      Prod.fst =
      some [.got 0 ⟨.ok, some [⟨7, .ok, some (speed 100)⟩, ⟨8, .ok, some (gear 101)⟩]⟩] := by rfl
  have answers : ((Relay.start {}).roundsOf 0 ((.getCalled requests, clock) :: turns)).map
      (fun round => (round.sent, round.answer)) =
      [(requests, .ok [⟨8, .ok, some (gear 10)⟩, ⟨7, .ok, some (speed 10)⟩]),
        ([⟨8, gear 0⟩], .ok [⟨8, .ok, some (gear 30)⟩])] := by rfl
  have answered : ∀ round ∈ (Relay.start {}).roundsOf 0
      ((.getCalled requests, clock) :: turns), round.AnswersEach := by
    intro round member
    have listed : (round.sent, round.answer) ∈
        List.map (fun round : GetRound => (round.sent, round.answer)) _ :=
      List.mem_map_of_mem member
    rw [answers, List.mem_cons, List.mem_singleton] at listed
    rcases listed with first | second
    · obtain ⟨sent, answer⟩ := Prod.mk.inj first
      refine ⟨_, answer, ?_⟩
      rw [sent]
      decide
    · obtain ⟨sent, answer⟩ := Prod.mk.inj second
      refine ⟨_, answer, ?_⟩
      rw [sent]
      decide
  obtain ⟨⟨shown, final⟩, run, rfl⟩ := Option.map_eq_some_iff.mp outputs
  obtain ⟨progress, _, _, _, reported, delivers⟩ :=
    getCalled_conserves_requests (by decide) (by decide) run answered
  have reportedOnce : [⟨.ok, some [⟨7, .ok, some (speed 100)⟩, ⟨8, .ok, some (gear 101)⟩]⟩] =
      progress.outcome?.toList := reported
  cases progress with
  | waiting getCall => simp [GetProgress.outcome?] at reportedOnce
  | finished outcome =>
      obtain rfl := List.singleton_inj.mp reportedOnce
      obtain ⟨results, delivered, answersAll⟩ := delivers _ rfl rfl
      obtain rfl := Option.some.inj delivered
      exact ⟨_, final, _, run, rfl, answersAll⟩

/-- A get call makes no more remote calls than its limit, none after one that
failed, and its outcome depends on its rounds as stated.  The limit is the number of
attempts that the relay was started with, or one if that is zero. -/
theorem getCalled_decides_outcome
    (run : relay.run? ((.getCalled requests, readings) :: turns) = some (shown, final)) :
    let call := relay.calls.length
    let rounds := relay.roundsOf call ((.getCalled requests, readings) :: turns)
    let limit := relay.maxAttempts
    (∀ options, StartedWith options relay → limit = max 1 options.maxAttempts.toNat) ∧
    ∃ progress, final.calls[call]? = some progress ∧
      (sentBatches rounds progress).length ≤ limit ∧
      (requests = [] → sentBatches rounds progress = []) ∧
      (∀ before round after, rounds = before ++ round :: after → round.Fails →
        after = [] ∧ progress.pending? = none) ∧
      (progress.pending?.isSome → ∀ later answer,
        (final.turn? later (.getAnswered call answer)).isSome) ∧
      shown.filterMap (RelayOutput.outcome? call) = progress.outcome?.toList ∧
      ∀ outcome, progress = .finished outcome → outcome.DecidedBy limit rounds := by
  intro call rounds limit
  obtain ⟨progress, found, runs, reported⟩ := runs_of_getCalled run
  have answerable : progress.pending?.isSome → ∀ later answer,
      (final.turn? later (.getAnswered call answer)).isSome := by
    intro pending later answer
    cases progress with
    | waiting getCall => rw [turn?_getAnswered found]; rfl
    | finished outcome => simp [GetProgress.pending?] at pending
  refine ⟨fun _ started => started.maxAttempts_eq, progress, found,
    GetCall.sent_length_le relay.attempts_pos runs, ?_, ?_, answerable, reported, ?_⟩
  · intro none
    subst requests
    exact GetCall.sent_of_nil runs
  · intro before round after split failed
    have runsSplit : GetProgress.Runs _ rounds progress := runs
    rw [split] at runsSplit
    exact GetCall.last_of_fails relay.attempts_pos runsSplit failed
  · intro outcome finished
    subst progress
    exact GetCall.decidedBy relay.attempts_pos runs

/-- With no attempts set there is still one remote call, and no second one. -/
theorem getCalled_decides_outcome_of_overtaken :
    let gear (time : Int64) : PropertyValue := ⟨time, 0, 2, .available, {}⟩
    let clock := ClockReadings.still 100
    let options : RelayOptions := ⟨{}, 0⟩
    let relay := Relay.start options
    let turns : List (RelayTurn × ClockReadings) :=
      [(.getCalled [⟨8, gear 0⟩], clock), (.streamOpened, clock),
        (.batchReceived [gear 20], clock),
        (.getAnswered 0 (.ok [⟨8, .ok, some (gear 10)⟩]), clock)]
    ∃ shown final, relay.run? turns = some (shown, final) ∧
      shown.filterMap (RelayOutput.outcome? 0) = [⟨.tryAgain, none⟩] ∧
        relay.maxAttempts = 1 ∧
          GetOutcome.DecidedBy ⟨.tryAgain, none⟩ relay.maxAttempts (relay.roundsOf 0 turns) := by
  intro gear clock options relay turns
  have outputs : (relay.run? turns).map Prod.fst = some [.got 0 ⟨.tryAgain, none⟩] := by rfl
  obtain ⟨⟨shown, final⟩, run, rfl⟩ := Option.map_eq_some_iff.mp outputs
  obtain ⟨limited, progress, _, _, _, _, _, reported, decided⟩ := getCalled_decides_outcome run
  have limit : relay.maxAttempts = 1 := limited options ⟨[], [], rfl⟩
  have reportedOnce : [⟨.tryAgain, none⟩] = progress.outcome?.toList := reported
  cases progress with
  | waiting getCall => simp [GetProgress.outcome?] at reportedOnce
  | finished outcome =>
      obtain rfl := List.singleton_inj.mp reportedOnce
      exact ⟨_, final, run, rfl, limit, decided _ rfl⟩

/-- A get call that nothing interrupts ends within its limit of remote calls. -/
theorem getValues_decidedBy {Server : Type} [VehicleServer Server] {after : Relay}
    {clocks : Nat → ClockReadings} {server later : Server} {outcome : GetOutcome}
    (called : relay.getValues clocks requests server = (outcome, after, later)) :
    ∃ rounds, (GetCall.start relay.maxAttempts requests).Runs rounds (.finished outcome) ∧
      rounds.length ≤ relay.maxAttempts ∧ outcome.DecidedBy relay.maxAttempts rounds := by
  obtain ⟨turns, _, run⟩ := run?_of_getValues called
  obtain ⟨progress, found, runs, _⟩ := runs_of_getCalled run
  simp only [List.getElem?_concat_length, Option.some.injEq] at found
  subst progress
  have bounded := GetCall.sent_length_le relay.attempts_pos runs
  rw [sentBatches, List.length_append, List.length_map] at bounded
  exact ⟨_, runs, Nat.le_trans (Nat.le_add_right _ _) bounded,
    GetCall.decidedBy relay.attempts_pos runs⟩

end Relay

end VehicleRelay
