import VehicleRelay.Proofs.GetCall.Outdated
import VehicleRelay.Proofs.Relay.Admissions

/-!
# Get calls while nothing is written

While the store of the server stays as it is and no batch arrives, any number of get
calls may be answered and none of them makes a stored value outdated.  So a get call
either ends well after one remote call or uses up its attempts.
-/

namespace VehicleRelay

open TimestampTable

namespace RelayStep

/-- No batch arrives.  A get call is answered by the server with its store as it is, when
no response is scripted and nobody else responds. -/
structure Undisturbed (step : RelayStep) (server : ScriptedServer) : Prop where
  noBatch : ∀ values, step.turn ≠ .batchReceived values
  answered : ∀ call round, step.round? call = some round →
    ∃ later : ScriptedServer, later.store = server.store ∧ later.scripts .getValues = [] ∧
      later.responder = none ∧
        round.answer = (VehicleServer.answer (.getValues round.sent) later).1

variable {step : RelayStep} {server : ScriptedServer} {call : Nat} {round : GetRound}

theorem Undisturbed.answer_eq (undisturbed : step.Undisturbed server)
    (found : step.round? call = some round) :
    round.answer = .ok (round.sent.map server.storedResult) := by
  obtain ⟨later, store, gets, noResponder, answer⟩ := undisturbed.answered call round found
  rw [answer, ScriptedServer.answer_getValues gets noResponder]
  have sameResult : later.storedResult = server.storedResult := by
    funext request
    rw [ScriptedServer.storedResult, ScriptedServer.storedResult, store]
  rw [sameResult]

/-- A check of one step, for a server without scripts and without a responder. -/
def isUndisturbed (step : RelayStep) (server : ScriptedServer) : Bool :=
  match step.turn with
  | .batchReceived _ => false
  | .getAnswered call answer =>
      match step.before.calls[call]? with
      | some (.waiting getCall) => answer = .ok (getCall.pending.map server.storedResult)
      | _ => true
  | _ => true

theorem undisturbed_of_check (gets : server.scripts .getValues = [])
    (noResponder : server.responder = none) (checked : step.isUndisturbed server) :
    step.Undisturbed server where
  noBatch values received := by simp [isUndisturbed, received] at checked
  answered call round found := by
    obtain ⟨getCall, answer, turn, waiting, rfl⟩ := answered_of_round? found
    simp only [isUndisturbed, turn, waiting, decide_eq_true_eq] at checked
    refine ⟨server, rfl, gets, noResponder, ?_⟩
    rw [ScriptedServer.answer_getValues gets noResponder]
    exact checked

/-- The step that ends a round leaves the table that the round leaves. -/
theorem Possible.table_of_round? (possible : step.Possible)
    (found : step.round? call = some round) :
    round.table = step.before.table ∧ step.after.table = round.sifted.table := by
  obtain ⟨getCall, answer, turn, waiting, rfl⟩ := answered_of_round? found
  refine ⟨rfl, ?_⟩
  have taken : step.before.turn? step.readings step.turn = _ := possible
  rw [turn, Relay.turn?_getAnswered waiting] at taken
  obtain ⟨_, after⟩ := Prod.mk.inj (Option.some.inj taken)
  rw [← after]
  exact getCall.resume_table ⟨step.before.table, step.readings, answer⟩

/-- A step without disturbance leaves the table steady. -/
theorem Undisturbed.steady (undisturbed : step.Undisturbed server) (keyed : server.Keyed)
    (possible : step.Possible) : Steady server.store step.before.table step.after.table := by
  cases possible.effect with
  | called _ _ _ _ table | quiet _ _ _ _ _ table =>
      rw [table]
      exact .refl _
  | received turn => exact absurd turn (undisturbed.noBatch _)
  | answered turn waiting =>
      have found := round?_of_waiting turn waiting
      obtain ⟨before, after⟩ := possible.table_of_round? found
      rw [after, GetRound.sifted, undisturbed.answer_eq found, ← before]
      exact ScriptedServer.steady_sift _ keyed _ _ _

end RelayStep

namespace Relay

variable {relay final : Relay} {requests : List GetRequest} {readings : ClockReadings}
  {turns : List (RelayTurn × ClockReadings)} {shown : List RelayOutput}
  {server : ScriptedServer}

/-- The table is steady up to each step of an undisturbed run, and from each step on. -/
theorem steady_of_run? (keyed : server.Keyed)
    (run : relay.run? turns = some (shown, final))
    (undisturbed : ∀ step ∈ relay.steps turns, step.Undisturbed server) :
    Steady server.store relay.table final.table ∧
      ∀ step ∈ relay.steps turns, Steady server.store relay.table step.before.table ∧
        Steady server.store step.after.table final.table := by
  induction turns generalizing relay shown with
  | nil =>
      obtain ⟨rfl, rfl⟩ := Prod.mk.inj (Option.some.inj run)
      exact ⟨.refl _, List.forall_mem_nil _⟩
  | cons timed turns induction =>
      obtain ⟨turn, readings⟩ := timed
      obtain ⟨first, next, later, possible, rest, _⟩ := run?_cons.mp run
      rw [steps_cons possible] at undisturbed ⊢
      obtain ⟨undisturbedNow, undisturbedLater⟩ := List.forall_mem_cons.mp undisturbed
      have steady : Steady server.store relay.table next.table :=
        undisturbedNow.steady keyed possible
      obtain ⟨toFinal, steps⟩ := induction rest undisturbedLater
      refine ⟨steady.trans toFinal, List.forall_mem_cons.mpr ⟨⟨.refl _, toFinal⟩, ?_⟩⟩
      intro step member
      obtain ⟨before, after⟩ := steps step member
      exact ⟨steady.trans before, after⟩

/-- A get call that waits can be answered. -/
theorem answerable_of_pending {call : Nat} {progress : GetProgress}
    (found : relay.calls[call]? = some progress) (pending : progress.pending?.isSome)
    (readings : ClockReadings) (answer : RpcResult (List GetResult)) :
    (relay.turn? readings (.getAnswered call answer)).isSome := by
  cases progress with
  | waiting getCall => rw [turn?_getAnswered found]; rfl
  | finished outcome => simp [GetProgress.pending?] at pending

/-- While nothing is written, a get call of distinct requests without outdated values makes
one remote call and hands over one result per request.  With outdated values it makes all
its remote calls, each but the first one for the outdated values alone, and gives up.  It may
make as many as the relay was started with, or one if that is zero. -/
theorem getCalled_of_unchanged_store (keyed : server.Keyed) (asked : requests ≠ [])
    (distinct : (requests.map GetRequest.id).Nodup)
    (run : relay.run? ((.getCalled requests, readings) :: turns) = some (shown, final))
    (undisturbed : ∀ step ∈ relay.steps ((.getCalled requests, readings) :: turns),
      step.Undisturbed server) :
    let call := relay.calls.length
    let rounds := relay.roundsOf call ((.getCalled requests, readings) :: turns)
    let outdated := requests.filter fun request =>
      relay.table.outdates server.store request.target.key
    let batches := if outdated = [] then [requests]
      else requests :: List.replicate (relay.maxAttempts - 1) outdated
    (∀ options, StartedWith options relay →
      relay.maxAttempts = max 1 options.maxAttempts.toNat) ∧
    ∃ progress, final.calls[call]? = some progress ∧
      sentBatches rounds progress = batches.take (rounds.length + 1) ∧
      (progress.outcome?.isSome ↔ rounds.length = batches.length) ∧
      (progress.pending?.isSome → ∀ later answer,
        (final.turn? later (.getAnswered call answer)).isSome) ∧
      shown.filterMap (RelayOutput.outcome? call) = progress.outcome?.toList ∧
      (∀ outcome, progress = .finished outcome →
        if outdated = [] then ∃ results, outcome = ⟨.ok, some results⟩ ∧
          List.Forall₂ (server.HandsOver final.table) requests results
        else outcome = ⟨.tryAgain, none⟩) ∧
      ∀ request ∈ outdated,
        final.table.stamp? request.target.key = relay.table.stamp? request.target.key := by
  intro call rounds outdated batches
  obtain ⟨progress, found, runs, reported⟩ := runs_of_getCalled run
  obtain ⟨toFinal, steadySteps⟩ := steady_of_run? keyed run undisturbed
  have stepOf : ∀ round ∈ rounds, round.FromStore server relay.table ∧
      Steady server.store round.sifted.table final.table := by
    intro round member
    obtain ⟨step, taken, ended⟩ := List.mem_filterMap.mp member
    obtain ⟨before, after⟩ := (possible_of_mem_steps taken).table_of_round? ended
    obtain ⟨steadyBefore, steadyAfter⟩ := steadySteps step taken
    rw [← before] at steadyBefore
    rw [after] at steadyAfter
    exact ⟨⟨(undisturbed step taken).answer_eq ended, steadyBefore⟩, steadyAfter⟩
  have fromStore : ∀ round ∈ rounds, round.FromStore server relay.table :=
    fun round member => (stepOf round member).1
  obtain ⟨sent, ended, outcomes⟩ :=
    GetCall.runs_of_fromStore relay.attempts_pos runs keyed asked distinct fromStore
  refine ⟨fun _ started => started.maxAttempts_eq, progress, found, sent, ended,
    answerable_of_pending found, reported, ?_, ?_⟩
  · intro outcome finished
    have ending : if outdated = [] then _ else _ := outcomes outcome finished
    by_cases current : outdated = []
    · rw [if_pos current]
      rw [if_pos current] at ending
      obtain ⟨round, member, results, ok, handed⟩ := ending
      exact ⟨results, ok, handed.imp fun _ _ => .of_steady (stepOf round member).2⟩
    · rw [if_neg current]
      rw [if_neg current] at ending
      exact ending
  · intro request member
    have late := (List.mem_filter.mp member).2
    exact toFinal.stamp?_eq late

/-- Another get call is answered in between; one value is outdated and one is not stored. -/
theorem getCalled_of_unchanged_store_of_outdated :
    let speed (time : Int64) : PropertyValue := ⟨time, 0, 1, .available, {}⟩
    let gear (time : Int64) : PropertyValue := ⟨time, 0, 2, .available, {}⟩
    let door : PropertyValue := .selecting ⟨3, 0⟩
    let requests : List GetRequest := [⟨7, speed 0⟩, ⟨8, gear 0⟩, ⟨9, door⟩]
    let clock := ClockReadings.still 100
    let table := (TimestampTable.empty.present ⟨2, 0⟩ 20 50).2
    let relay := { Relay.start ⟨{}, 2⟩ with table }
    let server := ({} : ScriptedServer).inject [speed 10, gear 10]
    let turns : List (RelayTurn × ClockReadings) :=
      [(.getCalled requests, clock), (.getCalled [⟨7, speed 0⟩], clock),
        (.getAnswered 1 (.ok [⟨7, .ok, some (speed 10)⟩]), clock),
        (.getAnswered 0 (.ok [⟨7, .ok, some (speed 10)⟩, ⟨8, .ok, some (gear 10)⟩,
          ⟨9, .notAvailable, none⟩]), clock),
        (.getAnswered 0 (.ok [⟨8, .ok, some (gear 10)⟩]), clock)]
    (requests.filter fun request => table.outdates server.store request.target.key) =
        [⟨8, gear 0⟩] ∧
      ∃ shown final progress, relay.run? turns = some (shown, final) ∧
        shown.filterMap (RelayOutput.outcome? 0) = [⟨.tryAgain, none⟩] ∧
          sentBatches (relay.roundsOf 0 turns) progress = [requests, [⟨8, gear 0⟩]] ∧
            final.table.stamp? ⟨2, 0⟩ = some ⟨20, 50⟩ := by
  intro speed gear door requests clock table relay server turns
  have outputs : (relay.run? turns).map Prod.fst =
      some [.got 1 ⟨.ok, some [⟨7, .ok, some (speed 100)⟩]⟩, .got 0 ⟨.tryAgain, none⟩] := by rfl
  have checked : ((relay.steps turns).all fun step => step.isUndisturbed server) = true := by rfl
  have keyed : server.Keyed := (ScriptedServer.keyed_ofConfigs []).inject _
  obtain ⟨⟨shown, final⟩, run, same⟩ := Option.map_eq_some_iff.mp outputs
  obtain ⟨_, progress, _, sent, _, _, _, _, records⟩ :=
    getCalled_of_unchanged_store keyed (by decide) (by decide) run
      (fun step member =>
        RelayStep.undisturbed_of_check rfl rfl (List.all_eq_true.mp checked step member))
  obtain rfl : shown = _ := same
  exact ⟨rfl, _, final, progress, run, rfl, sent, records ⟨8, gear 0⟩ (by decide)⟩

end Relay

end VehicleRelay
