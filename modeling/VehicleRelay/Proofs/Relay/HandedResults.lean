import VehicleRelay.Proofs.GetCall.Outcomes
import VehicleRelay.Proofs.Relay.Changes

/-!
# Results that a get call hands over

A result of an answer is handed over when it was asked for and carries no value, or one
that is current after all that the table was presented before it, by pushes, by other get
calls and by the results in front of it.  It is the result of the server, with the local
time that the table has for its key by then.
-/

namespace VehicleRelay

/-- A result of an answer to a get call. -/
structure ReceivedResult where
  round : GetRound
  /-- The values that the table was presented before the answer came. -/
  presented : List PropertyValue
  /-- The results of the same answer before this one. -/
  earlier : List GetResult
  result : GetResult

namespace ReceivedResult

/-- The result was asked for by the call that it answers, and what it carries is not older
than a value of the same key that the table was presented before. -/
def IsCurrent (received : ReceivedResult) : Prop :=
  received.result.IsCurrentAfter received.round.sent
    (received.presented ++ carriedValues received.round.sent received.earlier)

instance (received : ReceivedResult) : Decidable received.IsCurrent :=
  inferInstanceAs (Decidable (received.result.IsCurrentAfter _ _))

/-- The table right after the result was presented. -/
def tableAfter (received : ReceivedResult) : TimestampTable :=
  (received.round.table.restampAll received.round.readings
    (carriedValues received.round.sent (received.earlier ++ [received.result]))).2

def HandedAs (received : ReceivedResult) (handed : GetResult) : Prop :=
  received.result.HandedAs received.tableAfter handed

end ReceivedResult

namespace GetRound

/-- The results of the round, in the order of the answer. -/
def received (round : GetRound) (presented : List PropertyValue) : List ReceivedResult :=
  (withEarlier round.results).map fun received =>
    ⟨round, presented, received.1, received.2⟩

theorem handed_kept {round : GetRound} {presented : List PropertyValue}
    (remembers : round.table.Remembers (presented.map PropertyValue.presentation)) :
    List.Forall₂ ReceivedResult.HandedAs
      ((round.received presented).filter fun received => received.IsCurrent)
      round.sifted.kept := by
  have current (received : List GetResult × GetResult) :
      received.2.IsCurrentIn round.table round.sent received.1 ↔
        received.2.IsCurrentAfter round.sent
          (presented ++ carriedValues round.sent received.1) := by
    simp only [GetResult.IsCurrentIn, GetResult.IsCurrentAfter, remembers.isStale_iff,
      Classical.not_not, PropertyValue.CurrentAfter, List.forall_mem_append]
  have hands := round.handsOver_kept
  rw [HandsOver, TimestampTable.currentResults] at hands
  simp only [current] at hands
  rw [received, List.filter_map, List.forall₂_map_left_iff]
  exact hands

end GetRound

namespace RelayStep

/-- The results that the steps of a run receive for a get call, after values that the table
was presented before. -/
def received (call : Nat) (presented : List PropertyValue) :
    List RelayStep → List ReceivedResult
  | [] => []
  | step :: steps =>
      (step.round? call).toList.flatMap (fun round => round.received presented)
        ++ received call (presented ++ step.presented) steps

end RelayStep

namespace Relay

variable {options : RelayOptions} {turns : List (RelayTurn × ClockReadings)}
  {shown : List RelayOutput} {final : Relay} {call : Nat}

theorem handed_keptIn (relay : Relay) (turns : List (RelayTurn × ClockReadings)) (call : Nat)
    {presented : List PropertyValue}
    (remembers : relay.table.Remembers (presented.map PropertyValue.presentation)) :
    List.Forall₂ ReceivedResult.HandedAs
      ((RelayStep.received call presented (relay.steps turns)).filter
        fun received => received.IsCurrent)
      (keptIn (relay.roundsOf call turns)) := by
  revert presented
  apply steps_induction (motive := fun relay steps => ∀ {presented : List PropertyValue},
    relay.table.Remembers (presented.map PropertyValue.presentation) →
      List.Forall₂ ReceivedResult.HandedAs
        ((RelayStep.received call presented steps).filter fun received => received.IsCurrent)
        (keptIn (steps.filterMap (RelayStep.round? call))))
  · intro _ _ _
    exact .nil
  · intro step steps possible induction presented remembers
    have later := induction (possible.remembers remembers)
    rw [RelayStep.received, List.filter_append]
    cases found : step.round? call with
    | none =>
        rw [List.filterMap_cons_none found]
        exact later
    | some round =>
        obtain ⟨getCall, answer, _, _, rfl⟩ := RelayStep.answered_of_round? found
        rw [List.filterMap_cons_some found]
        have now : List.Forall₂ ReceivedResult.HandedAs _
            (getCall.roundOf ⟨step.before.table, step.readings, answer⟩).sifted.kept :=
          GetRound.handed_kept remembers
        rw [Option.toList_some, List.flatMap_singleton, keptIn, List.flatMap_cons]
        exact List.rel_append now later

/-- A get call that ends well hands over the current results of all its rounds, in order,
each with the local time of its key right after it was presented.  The callback is not
called for none. -/
theorem got_current_results (run : (start options).run? turns = some (shown, final))
    {outcome : GetOutcome} (shows : .got call outcome ∈ shown) (ok : outcome.status = .ok) :
    ∃ handed, outcome.delivered = GetCall.delivery handed ∧
      List.Forall₂ ReceivedResult.HandedAs
        ((RelayStep.received call [] ((start options).steps turns)).filter
          fun received => received.IsCurrent) handed := by
  obtain ⟨attempts, requests, positive, runs⟩ := runs_of_outcome run rfl (mem_outcomes shows)
  refine ⟨keptIn ((start options).roundsOf call turns), ?_,
    handed_keptIn (start options) turns call TimestampTable.remembers_empty⟩
  rw [GetCall.delivered_of_start positive runs, if_pos ok]

/-- Of two answers with a result that nobody asked for, values that a push or an earlier
result has outdated and a result without a value, three results are handed over. -/
theorem got_current_results_of_outdated :
    let speed (time : Int64) : PropertyValue := ⟨time, 0, 1, .available, {}⟩
    let gear (time : Int64) : PropertyValue := ⟨time, 0, 2, .available, {}⟩
    let clock := ClockReadings.still 100
    let turns : List (RelayTurn × ClockReadings) :=
      [(.getCalled [⟨7, speed 0⟩, ⟨8, gear 0⟩], clock), (.streamOpened, clock),
        (.batchReceived [gear 20], clock),
        (.getAnswered 0 (.ok [⟨9, .ok, some (speed 90)⟩, ⟨7, .ok, some (speed 10)⟩,
          ⟨8, .ok, some (gear 10)⟩, ⟨7, .tryAgain, some (speed 5)⟩]), clock),
        (.getAnswered 0 (.ok [⟨7, .notAvailable, none⟩, ⟨8, .ok, some (gear 30)⟩]), clock)]
    let handed : List GetResult :=
      [⟨7, .ok, some (speed 100)⟩, ⟨7, .notAvailable, none⟩, ⟨8, .ok, some (gear 101)⟩]
    ∃ shown final, (start {}).run? turns = some (shown, final) ∧
      .got 0 ⟨.ok, some handed⟩ ∈ shown ∧
        List.Forall₂ ReceivedResult.HandedAs
          ((RelayStep.received 0 [] ((start {}).steps turns)).filter
            fun received => received.IsCurrent) handed := by
  intro speed gear clock turns handed
  have outputs : ((start {}).run? turns).map Prod.fst = some [.got 0 ⟨.ok, some handed⟩] := by rfl
  obtain ⟨⟨shown, final⟩, run, rfl⟩ := Option.map_eq_some_iff.mp outputs
  have shows : RelayOutput.got 0 ⟨.ok, some handed⟩ ∈ [RelayOutput.got 0 ⟨.ok, some handed⟩] :=
    List.mem_singleton_self _
  obtain ⟨results, delivered, all⟩ := got_current_results run shows rfl
  have same : some handed = GetCall.delivery results := delivered
  rw [GetCall.delivery] at same
  split at same
  · simp at same
  · obtain rfl := Option.some.inj same
    exact ⟨_, final, run, shows, all⟩

end Relay

end VehicleRelay
