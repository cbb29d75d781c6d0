import VehicleRelay.Proofs.GetCall.Outcomes
import VehicleRelay.Proofs.Relay.Admissions

/-!
# Handovers

A batch hands its values over in the turn that admits them.  A get call keeps the
values that its rounds admit, and hands all of them over when it ends.
-/

namespace VehicleRelay

/-- An admitted value that was handed to a callback, with the numbers of the
turns of its admission and of the callback. -/
structure Handover extends AdmittedValue where
  /-- The get call that handed the value over; none if it was handed over as a
  change. -/
  call : Option Nat
  admittedAt : Nat
  handedAt : Nat
deriving DecidableEq, Repr

/-- The values that an output hands over. -/
def RelayOutput.values : RelayOutput → List PropertyValue
  | .changed event => event.values
  | .got _ outcome => (outcome.delivered.getD []).filterMap GetResult.value

namespace RelayStep

def handovers (step : RelayStep) (call : Option Nat) (admittedAt handedAt : Nat) :
    List Handover :=
  step.admitted.map fun admitted => { admitted with call, admittedAt, handedAt }

/-- What the steps of a run hand over in an output of one of them: a change hands
over what its step admits, a get call what all its rounds have admitted. -/
def handoversOf (steps : List RelayStep) (step : RelayStep) (number : Nat) :
    RelayOutput → List Handover
  | .changed _ => step.handovers none number number
  | .got call outcome =>
      if outcome.delivered.isSome then
        steps.zipIdx.flatMap fun (earlier, admittedAt) =>
          if (earlier.round? call).isSome then earlier.handovers (some call) admittedAt number
          else []
      else []

/-- A change hands over what its step admits, and an outcome what some round of its
get call has admitted. -/
theorem cases_of_mem_handoversOf {steps : List RelayStep} {step : RelayStep} {number : Nat}
    {output : RelayOutput} {handover : Handover}
    (member : handover ∈ step.handoversOf steps number output) :
    (∃ event admitted, output = .changed event ∧ admitted ∈ step.admitted ∧
        handover = ⟨admitted, none, number, number⟩) ∨
      ∃ call outcome source admittedAt round admitted, output = .got call outcome ∧
        steps[admittedAt]? = some source ∧ source.round? call = some round ∧
          admitted ∈ source.admitted ∧
            handover = ⟨admitted, some call, admittedAt, number⟩ := by
  cases output with
  | changed event =>
      left
      obtain ⟨admitted, admittedMember, rfl⟩ := List.mem_map.mp member
      exact ⟨event, admitted, rfl, admittedMember, rfl⟩
  | got call outcome =>
      right
      rw [handoversOf] at member
      split at member
      · obtain ⟨⟨source, admittedAt⟩, numbered, kept⟩ := List.mem_flatMap.mp member
        simp only at kept
        split at kept
        · next answers =>
            obtain ⟨round, found⟩ := Option.isSome_iff_exists.mp answers
            obtain ⟨admitted, admittedMember, rfl⟩ := List.mem_map.mp kept
            exact ⟨call, outcome, source, admittedAt, round, admitted, rfl,
              List.mem_zipIdx_iff_getElem?.mp numbered, found, admittedMember, rfl⟩
        · simp at kept
      · simp at member

end RelayStep

/-- All values that a run hands over, in order. -/
def Relay.handovers (relay : Relay) (turns : List (RelayTurn × ClockReadings)) :
    List Handover :=
  (relay.steps turns).zipIdx.flatMap fun (step, number) =>
    step.shown.flatMap (step.handoversOf (relay.steps turns) number)

private theorem flatMap_zipIdx {Element Result : Type} (elements : List Element)
    (f : Element → List Result) :
    (elements.zipIdx.flatMap fun (element, _) => f element) = elements.flatMap f := by
  rw [← List.flatMap_map Prod.fst, List.zipIdx_map_fst]

namespace Relay

variable {relay final : Relay} {turns : List (RelayTurn × ClockReadings)}
  {shown : List RelayOutput}

/-- The rounds of a get call keep the values that the steps which end them admit. -/
theorem values_keptIn_roundsOf (relay : Relay) (turns : List (RelayTurn × ClockReadings))
    (call : Nat) :
    (keptIn (relay.roundsOf call turns)).filterMap GetResult.value =
      (relay.steps turns).flatMap fun step =>
        if (step.round? call).isSome then step.admitted.map AdmittedValue.value else [] := by
  rw [keptIn, roundsOf, List.filterMap_flatMap, List.filterMap_eq_flatMap_toList,
    List.flatMap_assoc]
  apply List.flatMap_congr
  intro step _
  cases found : step.round? call with
  | none => simp
  | some round => simp [RelayStep.admitted_of_round? found]

theorem handoversOf_values (run : relay.run? turns = some (shown, final))
    (fresh : relay.calls = []) {step : RelayStep} (member : step ∈ relay.steps turns)
    {output : RelayOutput} (shows : output ∈ step.shown) (number : Nat) :
    (step.handoversOf (relay.steps turns) number output).map (fun handover => handover.value) =
      output.values := by
  cases output with
  | changed event =>
      obtain ⟨values, received, admits⟩ :=
        (possible_of_mem_steps member).effect.received_of_changed shows
      rw [RelayStep.handoversOf, RelayStep.handovers, List.map_map, RelayOutput.values, admits]
      rfl
  | got call outcome =>
      have ended : outcome ∈ shown.filterMap (RelayOutput.outcome? call) := by
        rw [shown_of_run? run]
        exact mem_outcomes (List.mem_flatMap.mpr ⟨step, member, shows⟩)
      have absent : relay.calls[call]? = none := by rw [fresh]; rfl
      obtain ⟨attempts, requests, positive, runs⟩ := runs_of_outcome run absent ended
      cases delivered : outcome.delivered with
      | none => simp [RelayStep.handoversOf, RelayOutput.values, delivered]
      | some results =>
          rw [RelayStep.handoversOf, RelayOutput.values, delivered, Option.isSome_some,
            if_pos rfl, Option.getD_some, GetCall.eq_keptIn_of_delivered positive runs delivered,
            values_keptIn_roundsOf, List.map_flatMap, ← flatMap_zipIdx (relay.steps turns)]
          apply List.flatMap_congr
          rintro ⟨earlier, admittedAt⟩ _
          simp only
          split
          · rw [RelayStep.handovers, List.map_map]
            rfl
          · rfl

/-- The handovers of a run are the values that it shows to its callbacks. -/
theorem handovers_values (run : relay.run? turns = some (shown, final))
    (fresh : relay.calls = []) :
    (relay.handovers turns).map (fun handover => handover.value) =
      shown.flatMap RelayOutput.values := by
  rw [shown_of_run? run, List.flatMap_assoc, handovers, List.map_flatMap,
    ← flatMap_zipIdx (relay.steps turns)]
  apply List.flatMap_congr
  rintro ⟨step, number⟩ numbered
  have member := List.mem_of_getElem? (List.mem_zipIdx_iff_getElem?.mp numbered)
  simp only [List.map_flatMap]
  apply List.flatMap_congr
  intro output shows
  exact handoversOf_values run fresh member shows number

end Relay

end VehicleRelay
