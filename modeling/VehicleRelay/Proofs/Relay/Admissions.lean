import VehicleRelay.Proofs.Relay.CallRuns
import VehicleRelay.Proofs.TimestampTable.Admissions

/-!
# Admissions in a run

Batches and answers to get calls present values to the same table, step by step.
So the values of one key are admitted in order, over all the steps of a run.
-/

namespace VehicleRelay

theorem Callbacks.values_of_mem_dispatch {callbacks : Callbacks} {values : List PropertyValue}
    {event : ChangeEvent} (member : event ∈ callbacks.dispatch values) :
    event.values = values := by
  simp only [dispatch] at member
  split at member
  · simp at member
  · simp only [Option.mem_toList, Option.map_eq_some_iff] at member
    obtain ⟨_, _, rfl⟩ := member
    rfl

namespace RelayStep

/-- The values that a step presents to the table. -/
def presented (step : RelayStep) : List PropertyValue :=
  match step.turn with
  | .batchReceived values => values
  | .getAnswered call _ => ((step.round? call).map GetRound.carried).getD []
  | _ => []

def calls (step : RelayStep) : List TableCall :=
  TimestampTable.presentations step.readings step.presented

def admitted (step : RelayStep) : List AdmittedValue :=
  step.before.table.admissions step.calls

variable {step : RelayStep} {call : Nat} {round : GetRound}

/-- The values that a round keeps are the ones that its step admits. -/
theorem admitted_of_round? (found : step.round? call = some round) :
    step.admitted.map AdmittedValue.value = round.sifted.kept.filterMap GetResult.value := by
  obtain ⟨getCall, answer, turn, waiting, same⟩ := answered_of_round? found
  have presents : step.presented = round.carried := by
    simp [presented, turn, found]
  have values := congrArg Prod.fst round.sifted_values
  simp only [TimestampTable.restampAll_eq] at values
  rw [values, admitted, RelayStep.calls, presents, same]
  rfl

theorem Effect.table_eq (effect : step.Effect) :
    step.after.table = step.before.table.afterAll step.calls := by
  cases effect with
  | called turn start shown calls table =>
      rw [table, RelayStep.calls, presented, turn]
      rfl
  | @answered call getCall answer progress turn waiting resumed shown calls =>
      let arrival : Arrival := ⟨step.before.table, step.readings, answer⟩
      let round := getCall.roundOf arrival
      have found : step.round? call = some round := round?_of_waiting turn waiting
      have presents : step.presented = round.carried := by
        simp [presented, turn, found]
      have sifted : round.sifted.table = step.after.table :=
        (getCall.resume_table arrival).symm.trans (congrArg Prod.snd resumed)
      have table := congrArg Prod.snd round.sifted_values
      simp only [TimestampTable.restampAll_eq] at table
      rw [← sifted, table, RelayStep.calls, presents]
      rfl
  | received turn restamped shown calls =>
      rw [TimestampTable.restampAll_eq] at restamped
      rw [← (Prod.mk.inj restamped).2, RelayStep.calls, presented, turn]
  | quiet notCalled notAnswered notReceived shown calls table =>
      have nothing : step.presented = [] := by
        rw [presented]
        split
        · next values received => exact absurd received (notReceived values)
        · next call answer answered => exact absurd answered (notAnswered call answer)
        · rfl
      rw [table, RelayStep.calls, nothing]
      rfl

/-- Only a batch shows a change, and the change has all that the batch admits. -/
theorem Effect.received_of_changed (effect : step.Effect) {event : ChangeEvent}
    (shows : .changed event ∈ step.shown) :
    ∃ values, step.turn = .batchReceived values ∧
      event.values = step.admitted.map AdmittedValue.value := by
  cases effect with
  | called turn start shown | answered turn waiting resumed shown => simp [shown] at shows
  | @received values admitted turn restamped shown =>
      rw [shown, List.mem_map] at shows
      obtain ⟨_, dispatched, same⟩ := shows
      obtain rfl := RelayOutput.changed.inj same
      refine ⟨values, turn, ?_⟩
      rw [TimestampTable.restampAll_eq] at restamped
      rw [Callbacks.values_of_mem_dispatch dispatched, ← (Prod.mk.inj restamped).1,
        RelayStep.admitted, RelayStep.calls, presented, turn]
  | quiet notCalled notAnswered notReceived shown => simp [shown] at shows

end RelayStep

namespace Relay

/-- The values that the steps of a run admit are those of one history. -/
theorem admitted_steps (relay : Relay) (turns : List (RelayTurn × ClockReadings)) :
    (relay.steps turns).flatMap RelayStep.admitted =
      relay.table.admissions ((relay.steps turns).flatMap RelayStep.calls) := by
  apply steps_induction (motive := fun relay steps =>
    steps.flatMap RelayStep.admitted =
      relay.table.admissions (steps.flatMap RelayStep.calls))
  · intro _
    rfl
  · intro step steps possible induction
    rw [List.flatMap_cons, List.flatMap_cons, TimestampTable.admissions_append, induction,
      possible.effect.table_eq]
    rfl

/-- Values of one key are admitted in order, within a step and from step to step. -/
theorem pairwise_admitted (relay : Relay) (turns : List (RelayTurn × ClockReadings)) :
    (∀ step ∈ relay.steps turns, step.admitted.Pairwise AdmittedValue.Precedes) ∧
      (relay.steps turns).Pairwise fun earlier later =>
        ∀ first ∈ earlier.admitted, ∀ second ∈ later.admitted, first.Precedes second := by
  rw [← List.pairwise_flatMap, admitted_steps]
  exact TimestampTable.pairwise_admissions _ _

end Relay

end VehicleRelay
