import Mathlib.Data.List.Infix
import VehicleRelay.Proofs.GetCall.Rounds
import VehicleRelay.Proofs.TimestampTable.Current

/-!
# Current results of an answer

A result of an answer is current when it was asked for and carries no value, or one that
neither the table nor a result in front of it makes stale.  The current results are the ones
that are kept, and each is kept as the result of the server, with the local time that the
table has for its key by then.
-/

namespace VehicleRelay

/-! ## Values that become stale -/

namespace TimestampTable

variable {table : TimestampTable} {presented : List PropertyValue} {value : PropertyValue}

/-- A value that is presented makes stale the older values of its key. -/
theorem isStale_restamp_iff (table : TimestampTable) (clock : Int64)
    (earlier value : PropertyValue) :
    (table.restamp clock earlier).2.IsStale value ↔
      table.IsStale value ∨ ¬earlier.FollowedBy value := by
  rcases restamp_cases table clock earlier with ⟨stamp, advanced, restamped⟩ | ⟨stale, restamped⟩
  · have external := Stamp.external_of_advance advanced
    have current : ¬table.IsStale earlier := by
      intro stale
      simp [Stamp.advance?_eq_none_iff.mpr stale] at advanced
    rw [restamped]
    by_cases same : earlier.key = value.key
    · have older : table.IsStale value → value.timestamp < earlier.timestamp := by
        rintro ⟨recorded, found, older⟩
        apply Std.not_le.mp
        intro newer
        exact current ⟨recorded, same ▸ found, Std.lt_of_le_of_lt newer older⟩
      have stored : (⟨table.stamps.insert earlier.key stamp⟩ : TimestampTable).stamp?
          value.key = some stamp := by
        rw [← same, stamp?, FiniteMap.get?_insert_self]
      have fresh : (⟨table.stamps.insert earlier.key stamp⟩ : TimestampTable).IsStale value ↔
          value.timestamp < earlier.timestamp := by
        simp [IsStale, stored, external]
      have follows : ¬earlier.FollowedBy value ↔ value.timestamp < earlier.timestamp := by
        simp [PropertyValue.FollowedBy, same, Std.not_le]
      rw [fresh, follows]
      exact ⟨.inr, fun older' => older'.elim older id⟩
    · have stored : (⟨table.stamps.insert earlier.key stamp⟩ : TimestampTable).stamp?
          value.key = table.stamp? value.key := by
        rw [stamp?, FiniteMap.get?_insert_of_ne table.stamps (Ne.symm same)]
        rfl
      have follows : earlier.FollowedBy value := fun sameKey => absurd sameKey same
      simp [IsStale, stored, follows]
  · obtain ⟨stamp, stored, older⟩ := Stamp.advance?_eq_none_iff.mp stale
    rw [restamped]
    refine ⟨.inl, fun stale => stale.elim id ?_⟩
    intro notFollowed
    obtain ⟨same, newer⟩ := Classical.not_imp.mp notFollowed
    exact ⟨stamp, same ▸ stored, Std.lt_trans (Std.not_le.mp newer) older⟩

/-- A list that is presented makes stale the values that are not current after it. -/
theorem isStale_restampAll_iff (table : TimestampTable) (readings : ClockReadings)
    (values : List PropertyValue) (value : PropertyValue) :
    (table.restampAll readings values).2.IsStale value ↔
      table.IsStale value ∨ ¬value.CurrentAfter values := by
  induction values generalizing table readings with
  | nil => simp [restampAll, PropertyValue.CurrentAfter]
  | cons earlier values induction =>
      have later := induction (table.restamp readings.first earlier).2 readings.rest
      rw [isStale_restamp_iff] at later
      have after : value.CurrentAfter (earlier :: values) ↔
          earlier.FollowedBy value ∧ value.CurrentAfter values := List.forall_mem_cons
      rw [after, Classical.not_and_iff_not_or_not, ← or_assoc]
      exact later

/-- What a table makes stale is what the values that it was presented make outdated. -/
theorem Remembers.isStale_iff
    (remembers : table.Remembers (presented.map PropertyValue.presentation)) :
    table.IsStale value ↔ ¬value.CurrentAfter presented := by
  rw [remembers.current_iff 0, Classical.not_not, Stamp.advance?_eq_none_iff]
  exact Iff.rfl

end TimestampTable

/-! ## Results with the ones before them -/

/-- A result that was asked for and is not outdated, after values that were presented. -/
def GetResult.IsCurrentAfter (sent : List GetRequest) (presented : List PropertyValue)
    (result : GetResult) : Prop :=
  result.id ∈ sent.map GetRequest.id ∧
    ∀ value ∈ result.value.toList, value.CurrentAfter presented

instance (sent : List GetRequest) (presented : List PropertyValue) (result : GetResult) :
    Decidable (result.IsCurrentAfter sent presented) :=
  inferInstanceAs (Decidable (_ ∧ _))

/-- A result that was asked for and is not outdated, by a table that an answer meets and by
the results of the answer before it. -/
def GetResult.IsCurrentIn (table : TimestampTable) (sent : List GetRequest)
    (earlier : List GetResult) (result : GetResult) : Prop :=
  result.id ∈ sent.map GetRequest.id ∧
    ∀ value ∈ result.value.toList,
      ¬table.IsStale value ∧ value.CurrentAfter (carriedValues sent earlier)

instance (table : TimestampTable) (sent : List GetRequest) (earlier : List GetResult)
    (result : GetResult) : Decidable (result.IsCurrentIn table sent earlier) :=
  inferInstanceAs (Decidable (_ ∧ _))

/-- The other result is the same one, with the time that a table has recorded for its
value. -/
def GetResult.HandedAs (table : TimestampTable) (result handed : GetResult) : Prop :=
  match result.value with
  | none => handed = result
  | some value => ∃ localTime,
      table.stamp? value.key = some ⟨value.timestamp, localTime⟩ ∧
        handed = { result with value := some (value.withTimestamp localTime) }

/-- Each result of an answer, with the ones before it. -/
def withEarlier (results : List GetResult) : List (List GetResult × GetResult) :=
  results.inits.zip results

theorem withEarlier_cons (result : GetResult) (results : List GetResult) :
    withEarlier (result :: results) =
      ([], result) :: (withEarlier results).map (Prod.map (result :: ·) id) := by
  rw [withEarlier, List.inits_cons, List.zip_cons_cons, List.zip_map_left]
  rfl

theorem carriedValues_append (sent : List GetRequest) (first later : List GetResult) :
    carriedValues sent (first ++ later) =
      carriedValues sent first ++ carriedValues sent later := by
  rw [carriedValues, List.filter_append, List.filterMap_append]
  rfl

namespace TimestampTable

variable {sent : List GetRequest}

/-- The current results of an answer, each with the ones before it. -/
def currentResults (table : TimestampTable) (sent : List GetRequest)
    (results : List GetResult) : List (List GetResult × GetResult) :=
  (withEarlier results).filter fun received =>
    received.2.IsCurrentIn table sent received.1

/-- What becomes of a result that comes with the ones before it. -/
def HandsOver (table : TimestampTable) (readings : ClockReadings) (sent : List GetRequest)
    (received : List GetResult × GetResult) (handed : GetResult) : Prop :=
  received.2.HandedAs
    (table.restampAll readings (carriedValues sent (received.1 ++ [received.2]))).2 handed

/-- After its first result, an answer goes on from the table that this one leaves. -/
theorem currentResults_cons (table : TimestampTable) (readings : ClockReadings)
    (sent : List GetRequest) (result : GetResult) (results : List GetResult) :
    table.currentResults sent (result :: results) =
      (if result.IsCurrentIn table sent [] then [([], result)] else []) ++
        ((table.restampAll readings (carriedValues sent [result])).2.currentResults sent
          results).map (Prod.map (result :: ·) id) := by
  have behind (received : List GetResult × GetResult) :
      received.2.IsCurrentIn table sent (result :: received.1) ↔
        received.2.IsCurrentIn (table.restampAll readings (carriedValues sent [result])).2 sent
          received.1 := by
    have carries : carriedValues sent (result :: received.1) =
        carriedValues sent [result] ++ carriedValues sent received.1 :=
      carriedValues_append sent [result] received.1
    simp only [GetResult.IsCurrentIn, carries, isStale_restampAll_iff,
      PropertyValue.CurrentAfter, List.forall_mem_append, not_or, Classical.not_not, and_assoc]
  rw [currentResults, withEarlier_cons, List.filter_cons, List.filter_map]
  simp only [Function.comp_def, Prod.map, id_eq, behind, decide_eq_true_eq]
  split <;> rfl

/-- Results are handed over in the same way behind one more result, from the table that
this one leaves. -/
theorem handsOver_behind {table next : TimestampTable} {readings rest : ClockReadings}
    {result : GetResult} {received : List (List GetResult × GetResult)}
    {handed : List GetResult}
    (presents : ∀ earlier, (table.restampAll readings (carriedValues sent (result :: earlier))).2 =
      (next.restampAll rest (carriedValues sent earlier)).2)
    (hands : List.Forall₂ (next.HandsOver rest sent) received handed) :
    List.Forall₂ (table.HandsOver readings sent)
      (received.map (Prod.map (result :: ·) id)) handed := by
  refine List.forall₂_map_left_iff.mpr (hands.imp fun received handed hands => ?_)
  rw [HandsOver] at hands ⊢
  simp only [Prod.map, id_eq, List.cons_append, presents]
  exact hands

/-- A value that is admitted is handed over with the stamp that it gets. -/
theorem handsOver_admitted {table : TimestampTable} {readings : ClockReadings}
    {result : GetResult} {value : PropertyValue} {stamp : Stamp}
    (carried : result.value = some value) (own : carriedValues sent [result] = [value])
    (advanced : Stamp.advance? (table.stamp? value.key) value.timestamp readings.first =
      some stamp) :
    table.HandsOver readings sent ([], result)
      { result with value := some (value.withTimestamp stamp.localTime) } := by
  have restamped : table.restamp readings.first value =
      (some (value.withTimestamp stamp.localTime), ⟨table.stamps.insert value.key stamp⟩) := by
    rw [restamp, present_of_advance advanced]
  have external := Stamp.external_of_advance advanced
  simp only [HandsOver, GetResult.HandedAs, carried, List.nil_append, own, restampAll,
    restamped, stamp?, FiniteMap.get?_insert_self]
  exact ⟨stamp.localTime, by rw [← external], rfl⟩

/-- An answer is sifted to its current results, each as the table has it right after it
was presented. -/
theorem handsOver_sift (table : TimestampTable) (readings : ClockReadings)
    (sent : List GetRequest) (results : List GetResult) :
    List.Forall₂ (table.HandsOver readings sent) (table.currentResults sent results)
      (table.sift readings sent results).kept := by
  induction results generalizing table readings with
  | nil => exact .nil
  | cons result results induction =>
      rw [currentResults_cons table readings]
      cases known : requestOf? sent result.id with
      | none =>
          have unknown : result.id ∉ sent.map GetRequest.id := by
            simp [← requestOf?_isSome_iff, known]
          have carries := carriedValues_cons_of_unknown known
          have own : carriedValues sent [result] = [] := carries []
          rw [if_neg fun current => unknown current.1, sift_cons_of_unknown known, own,
            List.nil_append]
          exact handsOver_behind (fun earlier => by rw [carries]) (induction table readings)
      | some request =>
          have asked : result.id ∈ sent.map GetRequest.id := by
            simp [← requestOf?_isSome_iff, known]
          have carries := carriedValues_cons_of_known known
          cases carried : result.value with
          | none =>
              simp only [carried, Option.toList_none, List.nil_append] at carries
              have own : carriedValues sent [result] = [] := carries []
              have current : result.IsCurrentIn table sent [] := ⟨asked, by simp [carried]⟩
              rw [if_pos current, sift_cons_of_empty known carried, own, List.singleton_append]
              refine .cons ?_
                (handsOver_behind (fun earlier => by rw [carries]) (induction table readings))
              simp only [HandsOver, GetResult.HandedAs, carried]
          | some value =>
              simp only [carried, Option.toList_some, List.singleton_append] at carries
              have own : carriedValues sent [result] = [value] := carries []
              have none : carriedValues sent [] = [] := rfl
              have current : result.IsCurrentIn table sent [] ↔ ¬table.IsStale value := by
                simp [GetResult.IsCurrentIn, PropertyValue.CurrentAfter, asked, carried, none]
              have later := handsOver_behind (fun earlier => by rw [carries]; rfl)
                (induction (table.restamp readings.first value).2 readings.rest)
              rw [own]
              rcases restamp_cases table readings.first value with
                ⟨stamp, advanced, restamped⟩ | ⟨stale, restamped⟩
              · have fresh : ¬table.IsStale value := by
                  intro stale
                  simp [Stamp.advance?_eq_none_iff.mpr stale] at advanced
                rw [if_pos (current.mpr fresh), sift_cons_of_current known carried restamped,
                  List.singleton_append]
                rw [restamped] at later
                refine .cons (handsOver_admitted carried own advanced) ?_
                simpa only [restampAll, restamped] using later
              · have stale := Stamp.advance?_eq_none_iff.mp stale
                rw [if_neg fun fresh => current.mp fresh stale, List.nil_append,
                  sift_cons_of_stale known carried stale]
                rw [restamped] at later
                simpa only [restampAll, restamped] using later

end TimestampTable

/-! ## Results of a round -/

namespace GetRound

/-- The results that the server gave; a call that failed has none. -/
def results (round : GetRound) : List GetResult :=
  match round.answer with
  | .ok results => results
  | .error _ => []

/-- The current results of a round are handed over in order, each with the local time of its
key right after it was presented. -/
def HandsOver (round : GetRound) (handed : List GetResult) : Prop :=
  List.Forall₂ (round.table.HandsOver round.readings round.sent)
    (round.table.currentResults round.sent round.results) handed

theorem handsOver_kept (round : GetRound) : round.HandsOver round.sifted.kept := by
  have kept : round.sifted.kept =
      (round.table.sift round.readings round.sent round.results).kept := by
    rw [sifted, results]
    cases round.answer <;> rfl
  rw [HandsOver, kept]
  exact TimestampTable.handsOver_sift _ _ _ _

end GetRound

end VehicleRelay
