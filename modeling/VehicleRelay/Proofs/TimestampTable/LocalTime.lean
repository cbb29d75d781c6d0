import Mathlib.Data.List.Induction
import VehicleRelay.Proofs.TimestampTable.Independence

/-!
# Local times in closed form

A key gets another local time by an update only, which is a call with a later time than all
calls of the key before it.  An update takes the reading of the clock, or the next time after
the local time that it finds.  So the local time of a key is the latest of the readings of its
updates, each raised by the number of updates after it, and no later than the end of time.
-/

namespace VehicleRelay

theorem int64_toInt_max (left right : Int64) :
    (max left right).toInt = max left.toInt right.toInt := by
  change (if left ≤ right then right else left).toInt = _
  split
  · next ordered => exact (max_eq_right (Int64.le_iff_toInt_le.mp ordered)).symm
  · next other =>
      exact (max_eq_left (Int.le_of_not_le (mt Int64.le_iff_toInt_le.mpr other))).symm

theorem toInt_laterTime (time : Int64) :
    (laterTime time).toInt = min Int64.maxValue.toInt (time.toInt + 1) := by
  have upper := Int64.toInt_le time
  have lower := Int64.le_toInt time
  by_cases last : time = Int64.maxValue
  · rw [laterTime, if_pos last, last, min_eq_left (by omega)]
  · have notLast : time.toInt ≠ Int64.maxValue.toInt :=
      fun same => last (Int64.toInt_inj.mp same)
    rw [laterTime, if_neg last, Int64.toInt_add, Int64.toInt_one, Int.bmod_def]
    simp only [Int64.toInt_maxValue] at notLast upper ⊢
    omega

/-! ## Raised readings -/

namespace ClockReadings

/-- Readings of a clock, each raised by the number of readings after it. -/
def raised : List Int64 → List Int
  | [] => []
  | reading :: readings => (reading.toInt + readings.length) :: raised readings

theorem raised_concat (readings : List Int64) (reading : Int64) :
    raised (readings ++ [reading]) = (raised readings).map (· + 1) ++ [reading.toInt] := by
  induction readings with
  | nil => simp [raised]
  | cons first readings induction =>
      rw [List.cons_append, raised, raised, induction, List.length_append, List.length_singleton,
        List.map_cons, List.cons_append, Int.natCast_add, Int.add_assoc]
      rfl

/-- One more reading is the latest one, unless the latest of the others is raised above it. -/
theorem max?_raised_concat {readings : List Int64} {latest : Int}
    (greatest : (raised readings).max? = some latest) (reading : Int64) :
    (raised (readings ++ [reading])).max? = some (max reading.toInt (latest + 1)) := by
  obtain ⟨member, bound⟩ := List.max?_eq_some_iff.mp greatest
  rw [raised_concat, List.max?_eq_some_iff]
  constructor
  · rcases max_choice reading.toInt (latest + 1) with now | before
    · rw [now]
      exact List.mem_append_right _ List.mem_cons_self
    · rw [before]
      exact List.mem_append_left _ (List.mem_map_of_mem member)
  · intro time listed
    rcases List.mem_append.mp listed with earlier | now
    · obtain ⟨other, otherMember, rfl⟩ := List.mem_map.mp earlier
      have := bound other otherMember
      omega
    · rw [List.mem_singleton.mp now]
      exact le_max_left _ _

/-- A reading is raised by one less than the number of readings at most. -/
theorem le_of_mem_raised {readings : List Int64} {time : Int} (member : time ∈ raised readings)
    {greatest : Int64} (bound : ∀ reading ∈ readings, reading ≤ greatest) :
    time ≤ greatest.toInt + (readings.length - 1) := by
  induction readings with
  | nil => exact absurd member List.not_mem_nil
  | cons first readings induction =>
      obtain ⟨boundFirst, boundOthers⟩ := List.forall_mem_cons.mp bound
      have firstBelow := Int64.le_iff_toInt_le.mp boundFirst
      rw [List.length_cons]
      rcases List.mem_cons.mp member with now | later
      · omega
      · have := induction later boundOthers
        omega

/-- The last reading is not raised. -/
theorem last_mem_raised {readings : List Int64} {last : Int64}
    (isLast : readings.getLast? = some last) : last.toInt ∈ raised readings := by
  obtain ⟨earlier, rfl⟩ := List.getLast?_eq_some_iff.mp isLast
  rw [raised_concat]
  exact List.mem_append_right _ List.mem_cons_self

/-- The latest raised reading is no earlier than the last reading, and not much later than the
latest one. -/
theorem bounds_of_latest_raised {readings : List Int64} {latest : Int}
    (isLatest : (raised readings).max? = some latest) :
    ∃ last greatest, readings.getLast? = some last ∧ readings.max? = some greatest ∧
      last.toInt ≤ latest ∧ latest ≤ greatest.toInt + (readings.length - 1) := by
  obtain ⟨member, bound⟩ := List.max?_eq_some_iff.mp isLatest
  have given : readings ≠ [] := by
    rintro rfl
    exact absurd member List.not_mem_nil
  obtain ⟨last, isLast⟩ := Option.ne_none_iff_exists'.mp (mt List.getLast?_eq_none_iff.mp given)
  obtain ⟨greatest, isGreatest⟩ := Option.ne_none_iff_exists'.mp (mt List.max?_eq_none_iff.mp given)
  refine ⟨last, greatest, isLast, isGreatest, bound _ (last_mem_raised isLast), ?_⟩
  exact le_of_mem_raised member (List.max?_eq_some_iff.mp isGreatest).2

end ClockReadings

/-! ## Updates -/

namespace TableCall

/-- The calls with later times than all calls before them, after some calls. -/
def updatesAfter (earlier : List TableCall) : List TableCall → List TableCall
  | [] => []
  | call :: calls =>
      if ∀ other ∈ earlier, other.external < call.external then
        call :: updatesAfter (earlier ++ [call]) calls
      else updatesAfter (earlier ++ [call]) calls

theorem updatesAfter_concat (earlier calls : List TableCall) (call : TableCall) :
    updatesAfter earlier (calls ++ [call]) =
      updatesAfter earlier calls ++
        if ∀ other ∈ earlier ++ calls, other.external < call.external then [call] else [] := by
  induction calls generalizing earlier with
  | nil => simp [updatesAfter]
  | cons first calls induction =>
      have rest := induction (earlier ++ [first])
      rw [List.append_assoc, List.singleton_append] at rest
      rw [List.cons_append, updatesAfter, updatesAfter, rest]
      split
      · exact List.cons_append.symm
      · rfl

/-- The readings of the clock at the updates of a key, in order. -/
def updateReadings (key : PropertyKey) (calls : List TableCall) : List Int64 :=
  (updatesAfter [] (ofKey key calls)).map clock

theorem ofKey_append (key : PropertyKey) (first second : List TableCall) :
    ofKey key (first ++ second) = ofKey key first ++ ofKey key second :=
  List.filter_append first second

theorem updateReadings_concat_of_ne {key : PropertyKey} {call : TableCall}
    (other : call.key ≠ key) (calls : List TableCall) :
    updateReadings key (calls ++ [call]) = updateReadings key calls := by
  have none : ofKey key [call] = [] := ofKey_cons_of_ne other []
  rw [updateReadings, ofKey_append, none, List.append_nil, updateReadings]

theorem updateReadings_concat_self (call : TableCall) (calls : List TableCall) :
    updateReadings call.key (calls ++ [call]) =
      updateReadings call.key calls ++
        if ∀ other ∈ ofKey call.key calls, other.external < call.external then [call.clock]
        else [] := by
  have own : ofKey call.key [call] = [call] := ofKey_cons_self call []
  rw [updateReadings, ofKey_append, own, updatesAfter_concat, List.map_append, List.nil_append]
  congr 1
  exact apply_ite (List.map clock) _ _ _

end TableCall

/-! ## The local time of a key -/

namespace TimestampTable

theorem afterAll_concat (table : TimestampTable) (calls : List TableCall) (call : TableCall) :
    table.afterAll (calls ++ [call]) = ((table.afterAll calls).answer call).2 := by
  induction calls generalizing table with
  | nil => rfl
  | cons first calls induction => exact induction (table.answer first).2

/-- A call is an update exactly when its time is later than the recorded one. -/
theorem Remembers.later_iff {table : TimestampTable} {calls : List TableCall}
    (remembers : table.Remembers (calls.map fun call => (call.key, call.external)))
    {key : PropertyKey} {stamp : Stamp} (stored : table.stamp? key = some stamp)
    (external : Int64) :
    stamp.external < external ↔
      ∀ other ∈ TableCall.ofKey key calls, other.external < external := by
  have latest := remembers.external_eq_max key
  rw [stored, Option.map_some, eq_comm, List.max?_eq_some_iff] at latest
  obtain ⟨member, bound⟩ := latest
  constructor
  · intro later other called
    exact Std.lt_of_le_of_lt (bound other.external (List.mem_map_of_mem called)) later
  · intro later
    obtain ⟨other, called, same⟩ := List.mem_map.mp member
    exact same ▸ later other called

theorem Remembers.ofKey_eq_nil {table : TimestampTable} {calls : List TableCall}
    (remembers : table.Remembers (calls.map fun call => (call.key, call.external)))
    {key : PropertyKey} (unseen : table.stamp? key = none) : TableCall.ofKey key calls = [] := by
  have none := remembers.external_eq_max key
  rw [unseen, Option.map_none, eq_comm, List.max?_eq_none_iff, List.map_eq_nil_iff] at none
  exact none

/-- The local time of a key is the latest of the raised readings of its updates. -/
theorem localTime_afterAll (calls : List TableCall) (key : PropertyKey) :
    ((empty.afterAll calls).stamp? key).map (fun stamp => stamp.localTime.toInt) =
      (ClockReadings.raised (TableCall.updateReadings key calls)).max?.map
        (min Int64.maxValue.toInt) := by
  induction calls using List.reverseRecOn with
  | nil => rfl
  | append_singleton calls call induction =>
      have remembers : (empty.afterAll calls).Remembers
          (calls.map fun call => (call.key, call.external)) := remembers_empty.afterAll calls
      rw [afterAll_concat]
      by_cases own : call.key = key
      · subst own
        rw [answer_eq, stamp?_present_self, TableCall.updateReadings_concat_self]
        cases stored : (empty.afterAll calls).stamp? call.key with
        | none =>
            have atEnd := min_eq_right (Int64.toInt_le call.clock)
            have first := remembers.ofKey_eq_nil stored
            rw [TableCall.updateReadings, first, if_pos (by simp)]
            simpa [Stamp.advance?, TableCall.updatesAfter, ClockReadings.raised] using atEnd.symm
        | some stamp =>
            rw [stored, Option.map_some] at induction
            obtain ⟨latest, greatest, localTime⟩ := Option.map_eq_some_iff.mp induction.symm
            have update := remembers.later_iff stored call.external
            by_cases later : stamp.external < call.external
            · rw [if_pos (update.mp later), ClockReadings.max?_raised_concat greatest]
              simp only [Stamp.advance?, if_pos later, Option.some_or, Option.map_some,
                int64_toInt_max, toInt_laterTime, ← localTime, Option.some.injEq]
              have := Int64.toInt_le call.clock
              omega
            · rw [if_neg (mt update.mpr later), List.append_nil, ← induction]
              by_cases same : stamp.external = call.external
              · simp [Stamp.advance?, same]
              · simp [Stamp.advance?, later, same]
      · rw [stamp?_answer_of_ne _ own, TableCall.updateReadings_concat_of_ne own, induction]

/-- The local time of a key is the latest of the readings of its updates, each raised by the
number of updates after it, or the end of time.  It is no earlier than the reading of the last
update, and later than the latest reading by less than the number of updates. -/
theorem localTime_eq_latest_raised (calls : List TableCall) (key : PropertyKey) :
    let readings := TableCall.updateReadings key calls
    let recorded := (empty.afterAll calls).stamp? key
    recorded.map (fun stamp => stamp.localTime.toInt) =
        (ClockReadings.raised readings).max?.map (min Int64.maxValue.toInt) ∧
      ∀ stamp, recorded = some stamp →
        ∃ last greatest, readings.getLast? = some last ∧ readings.max? = some greatest ∧
          last ≤ stamp.localTime ∧
            stamp.localTime.toInt ≤ greatest.toInt + (readings.length - 1) := by
  intro readings recorded
  have closed : recorded.map (fun stamp => stamp.localTime.toInt) = _ :=
    localTime_afterAll calls key
  refine ⟨closed, fun stamp stored => ?_⟩
  rw [stored, Option.map_some] at closed
  obtain ⟨latest, latestRaised, localTime⟩ := Option.map_eq_some_iff.mp closed.symm
  obtain ⟨last, greatest, isLast, isGreatest, notEarlier, notLater⟩ :=
    ClockReadings.bounds_of_latest_raised latestRaised
  refine ⟨last, greatest, isLast, isGreatest, ?_, ?_⟩
  · rw [Int64.le_iff_toInt_le, ← localTime]
    exact le_min (Int64.toInt_le last) notEarlier
  · rw [← localTime]
    exact le_trans (min_le_right _ _) notLater

/-- A clock that goes back and an older time between updates; near the end of time the local
time stays there. -/
theorem localTime_eq_latest_raised_of_backwards :
    let speed : PropertyValue := ⟨10, 0, 1, .available, {}⟩
    let gear : PropertyKey := ⟨2, 0⟩
    let calls : List TableCall :=
      [.presentValue speed 100, .presentTime gear 5 (Int64.maxValue - 1),
        .presentTime speed.key 20 50, .presentTime speed.key 15 200,
        .presentTime gear 6 0, .presentTime speed.key 20 300, .presentTime gear 7 0,
        .presentTime speed.key 30 60]
    TableCall.updateReadings speed.key calls = [100, 50, 60] ∧
      ClockReadings.raised [100, 50, 60] = [102, 51, 60] ∧
      ((empty.afterAll calls).stamp? speed.key).map (fun stamp => stamp.localTime.toInt) =
        some 102 ∧
      ((empty.afterAll calls).stamp? gear).map (fun stamp => stamp.localTime.toInt) =
        some Int64.maxValue.toInt := by
  intro speed gear calls
  have latest := (localTime_eq_latest_raised calls speed.key).1
  have atEnd := (localTime_eq_latest_raised calls gear).1
  exact ⟨by decide, by decide, latest.trans (by decide), atEnd.trans (by decide)⟩

end TimestampTable

end VehicleRelay
