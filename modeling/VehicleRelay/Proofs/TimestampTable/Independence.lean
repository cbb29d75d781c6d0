import Mathlib.Data.List.Nodup
import VehicleRelay.Proofs.TimestampTable.History

/-!
# Keys do not interfere

A table that is presented a time looks at the stamp of that key and at no other.  So the
calls of a key are answered as if no other key existed.  How the calls of different keys
interleave changes no answer, and no stamp at the end.
-/

namespace VehicleRelay

deriving instance DecidableEq for TableCall

/-! ## Maps as sets of entries -/

namespace Entries

variable {Key Value : Type} [DecidableEq Key]

theorem read?_eq_some_iff {key : Key} {value : Value} {entries : List (Key × Value)}
    (distinct : (entries.map Prod.fst).Nodup) :
    read? key entries = some value ↔ (key, value) ∈ entries := by
  induction entries with
  | nil => simp [read?]
  | cons entry rest induction =>
      obtain ⟨other, stored⟩ := entry
      rw [List.map_cons, List.nodup_cons] at distinct
      obtain ⟨absent, distinctRest⟩ := distinct
      by_cases same : other = key
      · subst same
        have later : (other, value) ∉ rest :=
          fun member => absent (List.mem_map.mpr ⟨_, member, rfl⟩)
        simp [read?, later, eq_comm]
      · simp [read?, same, induction distinctRest, Ne.symm same]

end Entries

/-- Two maps have the same entries exactly when they give the same for every key. -/
theorem FiniteMap.perm_entries_iff {Key Value : Type} [DecidableEq Key]
    {first second : FiniteMap Key Value} :
    first.entries.Perm second.entries ↔ ∀ key, first.get? key = second.get? key := by
  rw [List.perm_ext_iff_of_nodup first.distinct.of_map second.distinct.of_map]
  constructor
  · intro same key
    apply Option.ext
    intro value
    rw [get?, get?, Entries.read?_eq_some_iff first.distinct,
      Entries.read?_eq_some_iff second.distinct]
    exact same (key, value)
  · intro same entry
    obtain ⟨key, value⟩ := entry
    rw [← Entries.read?_eq_some_iff first.distinct, ← Entries.read?_eq_some_iff second.distinct]
    exact Eq.congr_left (same key)

/-! ## Calls by key -/

namespace TableCall

/-- The calls of one key, in order. -/
def ofKey (key : PropertyKey) (calls : List TableCall) : List TableCall :=
  calls.filter fun call => call.key = key

theorem ofKey_cons_self (call : TableCall) (calls : List TableCall) :
    ofKey call.key (call :: calls) = call :: ofKey call.key calls :=
  List.filter_cons_of_pos (decide_eq_true rfl)

theorem ofKey_cons_of_ne {key : PropertyKey} {call : TableCall} (other : call.key ≠ key)
    (calls : List TableCall) : ofKey key (call :: calls) = ofKey key calls :=
  List.filter_cons_of_neg (by simpa using other)

/-- Each key has the same calls, in the same order; the keys may take turns in another way. -/
def SameByKey (first second : List TableCall) : Prop :=
  ∀ key, ofKey key first = ofKey key second

/-- Only the keys that are called need to be looked at. -/
theorem sameByKey_iff {first second : List TableCall} :
    SameByKey first second ↔
      ∀ call ∈ first ++ second, ofKey call.key first = ofKey call.key second := by
  constructor
  · intro same call _
    exact same call.key
  · intro same key
    by_cases called : ∃ call ∈ first ++ second, call.key = key
    · obtain ⟨call, member, rfl⟩ := called
      exact same call member
    · have none (calls : List TableCall) (part : calls ⊆ first ++ second) :
          ofKey key calls = [] := by
        rw [ofKey, List.filter_eq_nil_iff]
        intro call member sameKey
        exact called ⟨call, part member, of_decide_eq_true sameKey⟩
      rw [none first (List.subset_append_left first second),
        none second (List.subset_append_right first second)]

instance (first second : List TableCall) : Decidable (SameByKey first second) :=
  decidable_of_iff _ sameByKey_iff.symm

end TableCall

/-- The call of a step with its answer, without the tables around it. -/
def TableStep.answered (step : TableStep) : TableCall × TableAnswer :=
  (step.call, step.answer)

namespace TimestampTable

/-- The same stamps for the same keys; in which order the keys came cannot be seen. -/
def Same (first second : TimestampTable) : Prop :=
  first.stamps.entries.Perm second.stamps.entries

theorem same_iff {first second : TimestampTable} :
    first.Same second ↔ ∀ key, first.stamp? key = second.stamp? key :=
  FiniteMap.perm_entries_iff

/-- The calls of one key in a history, each with its answer. -/
def answersOf (table : TimestampTable) (key : PropertyKey) (calls : List TableCall) :
    List (TableCall × TableAnswer) :=
  ((table.history calls).filter fun step => step.call.key = key).map TableStep.answered

theorem answersOf_cons_self (table : TimestampTable) (call : TableCall)
    (calls : List TableCall) :
    table.answersOf call.key (call :: calls) =
      (call, (table.answer call).1) :: (table.answer call).2.answersOf call.key calls := by
  simp [answersOf, history, TableStep.answered]

theorem answersOf_cons_of_ne (table : TimestampTable) {key : PropertyKey} {call : TableCall}
    (other : call.key ≠ key) (calls : List TableCall) :
    table.answersOf key (call :: calls) = (table.answer call).2.answersOf key calls := by
  simp [answersOf, history, other]

/-- Only the stamp of the key decides an answer, and what the stamp is afterwards. -/
theorem answer_of_sameStamp {first second : TimestampTable} {call : TableCall}
    (same : first.stamp? call.key = second.stamp? call.key) :
    (first.answer call).1 = (second.answer call).1 ∧
      (first.answer call).2.stamp? call.key = (second.answer call).2.stamp? call.key := by
  have presented : (first.present call.key call.external call.clock).1 =
      (second.present call.key call.external call.clock).1 := by
    rw [present, present, same]
    split <;> rfl
  rw [answer_eq, answer_eq]
  simp only
  rw [presented, stamp?_present_self, stamp?_present_self, same]
  exact ⟨rfl, rfl⟩

theorem stamp?_answer_of_ne (table : TimestampTable) {key : PropertyKey} {call : TableCall}
    (other : call.key ≠ key) : (table.answer call).2.stamp? key = table.stamp? key := by
  rw [answer_eq]
  exact stamp?_present_of_ne table (Ne.symm other) call.external call.clock

/-- Without the calls of other keys, a table that has the same stamp gives the same answers
and ends with the same stamp. -/
theorem answersOf_eq_ofKey {whole alone : TimestampTable} {key : PropertyKey}
    (same : whole.stamp? key = alone.stamp? key) (calls : List TableCall) :
    whole.answersOf key calls =
        (alone.history (TableCall.ofKey key calls)).map TableStep.answered ∧
      (whole.afterAll calls).stamp? key =
        (alone.afterAll (TableCall.ofKey key calls)).stamp? key := by
  induction calls generalizing whole alone with
  | nil => exact ⟨rfl, same⟩
  | cons call calls induction =>
      by_cases own : call.key = key
      · subst own
        obtain ⟨answered, sameAfter⟩ := answer_of_sameStamp same
        obtain ⟨answers, stamp⟩ := induction sameAfter
        rw [TableCall.ofKey_cons_self, answersOf_cons_self, answers, answered]
        exact ⟨rfl, stamp⟩
      · have sameAfter : (whole.answer call).2.stamp? key = alone.stamp? key :=
          (stamp?_answer_of_ne whole own).trans same
        rw [TableCall.ofKey_cons_of_ne own, answersOf_cons_of_ne whole own]
        exact induction sameAfter

/-- The calls of a key have the answers that they have alone, and leave the stamp that they
leave alone.  Whatever way the keys take turns, every call has the same answer and the
table is the same at the end. -/
theorem history_noninterference (calls : List TableCall) :
    (∀ key, empty.answersOf key calls =
          (empty.history (TableCall.ofKey key calls)).map TableStep.answered ∧
        (empty.afterAll calls).stamp? key =
          (empty.afterAll (TableCall.ofKey key calls)).stamp? key) ∧
    ∀ others, TableCall.SameByKey calls others →
      (∀ key, empty.answersOf key calls = empty.answersOf key others) ∧
        (empty.afterAll calls).Same (empty.afterAll others) := by
  have alone (key : PropertyKey) (calls : List TableCall) :=
    answersOf_eq_ofKey (rfl : empty.stamp? key = empty.stamp? key) calls
  refine ⟨fun key => alone key calls, fun others same => ⟨fun key => ?_, ?_⟩⟩
  · rw [(alone key calls).1, (alone key others).1, same key]
  · apply same_iff.mpr
    intro key
    rw [(alone key calls).2, (alone key others).2, same key]

/-- Two keys, a stale time and a time that comes twice, in two orders of the keys. -/
theorem history_noninterference_of_reordered :
    let speed : PropertyValue := ⟨10, 0, 1, .available, {}⟩
    let gear : PropertyKey := ⟨2, 0⟩
    let calls : List TableCall :=
      [.presentValue speed 100, .presentTime gear 20 50, .presentTime speed.key 5 101,
        .presentTime gear 20 60, .presentValue (speed.withTimestamp 20) 90]
    let others : List TableCall :=
      [.presentTime gear 20 50, .presentTime gear 20 60, .presentValue speed 100,
        .presentTime speed.key 5 101, .presentValue (speed.withTimestamp 20) 90]
    calls ≠ others ∧ TableCall.SameByKey calls others ∧
      empty.answersOf speed.key calls = empty.answersOf speed.key others ∧
      (empty.afterAll calls).Same (empty.afterAll others) ∧
      (empty.afterAll calls).stamp? speed.key = some ⟨20, 101⟩ := by
  intro speed gear calls others
  have same : TableCall.SameByKey calls others := by decide
  obtain ⟨answers, tables⟩ := (history_noninterference calls).2 others same
  exact ⟨by decide, same, answers speed.key, tables, by decide⟩

end TimestampTable

end VehicleRelay
