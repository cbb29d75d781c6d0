import Mathlib.Data.Finset.Card
import Mathlib.Data.Finset.Dedup
import VehicleRelay.Proofs.TimestampTable.StampOrder

/-!
# Histories of a table

A history is a list of calls that a table answers one after the other, each at
a reading of the clock that may be any time.  The table remembers the latest
external time of each key, and it answers as if it knew the whole history.
-/

namespace VehicleRelay

theorem FiniteMap.size_eq_card {Key Value : Type} [DecidableEq Key]
    (map : FiniteMap Key Value) (keys : Finset Key)
    (stored : ∀ key, key ∈ keys ↔ (map.get? key).isSome) :
    map.size = keys.card := by
  have sameKeys : keys = (map.entries.map Prod.fst).toFinset := by
    ext key
    rw [stored, List.mem_toFinset]
    exact Entries.read?_isSome_iff
  rw [sameKeys, List.toFinset_card_of_nodup map.distinct, List.length_map]
  rfl

namespace TimestampTable

/-- A table holds the latest of the times that were presented for each key. -/
structure Remembers (table : TimestampTable)
    (presented : List (PropertyKey × Int64)) : Prop where
  unseen : ∀ key, table.stamp? key = none →
    ∀ external, (key, external) ∉ presented
  member : ∀ key stamp, table.stamp? key = some stamp →
    (key, stamp.external) ∈ presented
  latest : ∀ key stamp, table.stamp? key = some stamp →
    ∀ external, (key, external) ∈ presented → external ≤ stamp.external

theorem remembers_empty : empty.Remembers [] where
  unseen _ _ _ := List.not_mem_nil
  member _ _ stored := by simp at stored
  latest _ _ stored := by simp at stored

/-- A time is stale exactly when a later one was presented before. -/
theorem Remembers.stale_iff {table : TimestampTable}
    {presented : List (PropertyKey × Int64)}
    (remembers : table.Remembers presented) {key : PropertyKey}
    {external clock : Int64} :
    Stamp.advance? (table.stamp? key) external clock = none ↔
      ∃ later, (key, later) ∈ presented ∧ external < later := by
  rw [Stamp.advance?_eq_none_iff]
  constructor
  · intro stale
    obtain ⟨stamp, stored, older⟩ := stale
    exact ⟨stamp.external, remembers.member key stamp stored, older⟩
  · intro stale
    obtain ⟨later, member, older⟩ := stale
    cases stored : table.stamp? key with
    | none => exact absurd member (remembers.unseen key stored later)
    | some stamp =>
        refine ⟨stamp, rfl, ?_⟩
        exact Std.lt_of_lt_of_le older (remembers.latest key stamp stored later member)

theorem Remembers.present {table : TimestampTable}
    {presented : List (PropertyKey × Int64)}
    (remembers : table.Remembers presented) (key : PropertyKey)
    (external clock : Int64) :
    (table.present key external clock).2.Remembers
      (presented ++ [(key, external)]) := by
  cases advanced : Stamp.advance? (table.stamp? key) external clock with
  | none =>
      obtain ⟨stamp, stored, older⟩ := Stamp.advance?_eq_none_iff.mp advanced
      rw [present_of_stale advanced]
      constructor
      · intro other unseen time
        have different : other ≠ key := by
          intro same
          simp [same, stored] at unseen
        simpa [different] using remembers.unseen other unseen time
      · intro other latest otherStored
        exact List.mem_append_left _ (remembers.member other latest otherStored)
      · intro other latest otherStored time member
        rcases List.mem_append.mp member with before | now
        · exact remembers.latest other latest otherStored time before
        · simp only [List.mem_singleton, Prod.mk.injEq] at now
          rw [now.1, stored] at otherStored
          rw [now.2, ← Option.some.inj otherStored]
          exact Std.le_of_lt older
  | some stamp =>
      have presentNow := Stamp.external_of_advance advanced
      have after := stamp?_present_self table key external clock
      rw [advanced, Option.some_or] at after
      have others := fun other (different : other ≠ key) =>
        stamp?_present_of_ne table different external clock
      constructor
      · intro other unseen time
        have different : other ≠ key := by
          intro same
          simp [same, after] at unseen
        rw [others other different] at unseen
        simpa [different] using remembers.unseen other unseen time
      · intro other latest stored
        by_cases same : other = key
        · rw [same, after] at stored
          simp [← Option.some.inj stored, presentNow, same]
        · rw [others other same] at stored
          exact List.mem_append_left _ (remembers.member other latest stored)
      · intro other latest stored time member
        by_cases same : other = key
        · rw [same, after] at stored
          rw [← Option.some.inj stored, presentNow]
          rcases List.mem_append.mp member with before | now
          · apply Std.not_lt.mp
            intro older
            have stale : Stamp.advance? (table.stamp? key) external clock = none :=
              remembers.stale_iff.mpr ⟨time, same ▸ before, older⟩
            simp [advanced] at stale
          · simp only [List.mem_singleton, Prod.mk.injEq] at now
            exact now.2 ▸ Std.le_refl _
        · rw [others other same] at stored
          have before : (other, time) ∈ presented := by simpa [same] using member
          exact remembers.latest other latest stored time before

/-- The stamp of a key only moves on. -/
theorem stamp?_present_precedes {table : TimestampTable} {other : PropertyKey}
    {stamp : Stamp} (stored : table.stamp? other = some stamp) (key : PropertyKey)
    (external clock : Int64) :
    ∃ later, (table.present key external clock).2.stamp? other = some later ∧
      stamp.Precedes later := by
  by_cases same : other = key
  · subst other
    rw [stamp?_present_self, stored]
    cases advanced : Stamp.advance? (some stamp) external clock with
    | none => exact ⟨stamp, rfl, .refl stamp⟩
    | some later => exact ⟨later, rfl, Stamp.precedes_of_advance advanced⟩
  · rw [stamp?_present_of_ne table same external clock]
    exact ⟨stamp, stored, .refl stamp⟩

end TimestampTable

/-- A call of a table at a reading of the clock: a time is presented for a key,
or a value for its own key and at its own time. -/
inductive TableCall
  | presentTime (key : PropertyKey) (external clock : Int64)
  | presentValue (value : PropertyValue) (clock : Int64)

namespace TableCall

def key : TableCall → PropertyKey
  | .presentTime key _ _ => key
  | .presentValue value _ => value.key

def external : TableCall → Int64
  | .presentTime _ external _ => external
  | .presentValue value _ => value.timestamp

def clock : TableCall → Int64
  | .presentTime _ _ clock => clock
  | .presentValue _ clock => clock

def value? : TableCall → Option PropertyValue
  | .presentTime _ _ _ => none
  | .presentValue value _ => some value

end TableCall

/-- The value that a caller is left with after it presented one. -/
def Admission.settle : Admission → PropertyValue → PropertyValue
  | .accepted localTime, value => value.withTimestamp localTime
  | .stale, value => value

/-- What a caller has after its call: the admission, and the value that it
presented, as it is now. -/
structure TableAnswer where
  admission : Admission
  value : Option PropertyValue

/-- A call of a table, with the table before it and after it. -/
structure TableStep where
  before : TimestampTable
  call : TableCall
  answer : TableAnswer
  after : TimestampTable

namespace TimestampTable

def answer (table : TimestampTable) : TableCall → TableAnswer × TimestampTable
  | .presentTime key external clock =>
      let (admission, next) := table.present key external clock
      (⟨admission, none⟩, next)
  | .presentValue value clock =>
      match table.restamp clock value with
      | (some admitted, next) => (⟨.accepted admitted.timestamp, some admitted⟩, next)
      | (none, next) => (⟨.stale, some value⟩, next)

/-- The steps of a history. -/
def history (table : TimestampTable) : List TableCall → List TableStep
  | [] => []
  | call :: calls =>
      let next := table.answer call
      ⟨table, call, next.1, next.2⟩ :: next.2.history calls

/-- The table at the end of a history. -/
def afterAll (table : TimestampTable) : List TableCall → TimestampTable
  | [] => table
  | call :: calls => (table.answer call).2.afterAll calls

theorem answer_eq (table : TimestampTable) (call : TableCall) :
    table.answer call =
      let presented := table.present call.key call.external call.clock
      (⟨presented.1, call.value?.map presented.1.settle⟩, presented.2) := by
  cases call with
  | presentTime key external clock => rfl
  | presentValue value clock =>
      simp only [answer, restamp, TableCall.key, TableCall.external, TableCall.clock,
        TableCall.value?, Option.map_some]
      rcases table.present value.key value.timestamp clock with ⟨admission, next⟩
      cases admission with
      | accepted localTime => rfl
      | stale => rfl

theorem present_eq_accepted {table : TimestampTable} {key : PropertyKey}
    {external clock localTime : Int64}
    (accepted : (table.present key external clock).1 = .accepted localTime) :
    Stamp.advance? (table.stamp? key) external clock = some ⟨external, localTime⟩ := by
  cases advanced : Stamp.advance? (table.stamp? key) external clock with
  | none => simp [present_of_stale advanced] at accepted
  | some stamp =>
      have presentNow := Stamp.external_of_advance advanced
      simp only [present_of_advance advanced, Admission.accepted.injEq] at accepted
      cases stamp
      simp_all

theorem present_eq_stale_iff {table : TimestampTable} {key : PropertyKey}
    {external clock : Int64} :
    (table.present key external clock).1 = .stale ↔
      Stamp.advance? (table.stamp? key) external clock = none := by
  cases advanced : Stamp.advance? (table.stamp? key) external clock with
  | none => simp [present_of_stale advanced]
  | some stamp => simp [present_of_advance advanced]

theorem map_call_history (table : TimestampTable) (calls : List TableCall) :
    (table.history calls).map TableStep.call = calls := by
  induction calls generalizing table with
  | nil => rfl
  | cons call calls induction => simp [history, induction]

/-- Every step of a history answers its call from the table that the calls before
it have left. -/
theorem history_split {table : TimestampTable} {calls : List TableCall}
    {earlier later : List TableStep} {step : TableStep}
    (split : table.history calls = earlier ++ step :: later) :
    step.before = table.afterAll (earlier.map TableStep.call) ∧
      step.before.answer step.call = (step.answer, step.after) := by
  induction calls generalizing table earlier with
  | nil => simp [history] at split
  | cons call calls induction =>
      cases earlier with
      | nil =>
          simp only [history, List.nil_append, List.cons.injEq] at split
          obtain ⟨rfl, _⟩ := split
          exact ⟨rfl, rfl⟩
      | cons first earlier =>
          simp only [history, List.cons_append, List.cons.injEq] at split
          obtain ⟨rfl, rest⟩ := split
          have tail := induction rest
          exact tail

theorem Remembers.afterAll {table : TimestampTable}
    {presented : List (PropertyKey × Int64)}
    (remembers : table.Remembers presented) (calls : List TableCall) :
    (table.afterAll calls).Remembers
      (presented ++ calls.map fun call => (call.key, call.external)) := by
  induction calls generalizing table presented with
  | nil => simpa [TimestampTable.afterAll] using remembers
  | cons call calls induction =>
      have next := remembers.present call.key call.external call.clock
      simp only [TimestampTable.afterAll, answer_eq]
      simpa using induction next

/-- What a history accepts for a key follows the stamp that the key had before. -/
theorem precedes_of_mem_history {table : TimestampTable} {calls : List TableCall}
    {step : TableStep} (member : step ∈ table.history calls) {localTime : Int64}
    (accepted : step.answer.admission = .accepted localTime) {stamp : Stamp}
    (stored : table.stamp? step.call.key = some stamp) :
    stamp.Precedes ⟨step.call.external, localTime⟩ := by
  induction calls generalizing table stamp with
  | nil => simp [history] at member
  | cons call calls induction =>
      simp only [history, List.mem_cons] at member
      rcases member with rfl | later
      · rw [answer_eq] at accepted
        have advanced := present_eq_accepted accepted
        rw [stored] at advanced
        exact Stamp.precedes_of_advance advanced
      · obtain ⟨next, nextStored, order⟩ :=
          stamp?_present_precedes stored call.key call.external call.clock
        rw [answer_eq] at later
        exact order.trans (induction later nextStored)

/-- The accepted calls of one key come in the order of their stamps. -/
theorem pairwise_history (table : TimestampTable) (calls : List TableCall) :
    (table.history calls).Pairwise fun earlier later =>
      earlier.call.key = later.call.key →
        ∀ first second, earlier.answer.admission = .accepted first →
          later.answer.admission = .accepted second →
            Stamp.Precedes ⟨earlier.call.external, first⟩ ⟨later.call.external, second⟩ := by
  induction calls generalizing table with
  | nil => exact List.Pairwise.nil
  | cons call calls induction =>
      simp only [history, answer_eq]
      refine List.Pairwise.cons ?_ (induction _)
      intro later member sameKey first second accepted laterAccepted
      have advanced := present_eq_accepted accepted
      have stored := stamp?_present_self table call.key call.external call.clock
      rw [advanced, Option.some_or] at stored
      apply precedes_of_mem_history member laterAccepted
      rw [← sameKey]
      exact stored

theorem Remembers.external_eq_max {table : TimestampTable} {calls : List TableCall}
    (remembers : table.Remembers (calls.map fun call => (call.key, call.external)))
    (key : PropertyKey) :
    (table.stamp? key).map Stamp.external =
      ((calls.filter fun call => call.key = key).map TableCall.external).max? := by
  cases stored : table.stamp? key with
  | none =>
      have absent : calls.filter (fun call => call.key = key) = [] := by
        rw [List.filter_eq_nil_iff]
        intro call member same
        apply remembers.unseen key stored call.external
        exact List.mem_map.mpr ⟨call, member, by simpa using same⟩
      simp [absent]
  | some stamp =>
      refine (List.max?_eq_some_iff.mpr ⟨?_, ?_⟩).symm
      · obtain ⟨call, member, same⟩ :=
          List.mem_map.mp (remembers.member key stamp stored)
        obtain ⟨sameKey, sameTime⟩ := Prod.mk.inj same
        exact List.mem_map.mpr
          ⟨call, List.mem_filter.mpr ⟨member, by simp [sameKey]⟩, sameTime⟩
      · intro external member
        obtain ⟨call, found, rfl⟩ := List.mem_map.mp member
        obtain ⟨member, sameKey⟩ := List.mem_filter.mp found
        apply remembers.latest key stamp stored call.external
        exact List.mem_map.mpr ⟨call, member, by simpa using sameKey⟩

theorem Remembers.size_eq_card {table : TimestampTable}
    {presented : List (PropertyKey × Int64)}
    (remembers : table.Remembers presented) :
    table.size = (presented.map Prod.fst).toFinset.card := by
  apply FiniteMap.size_eq_card
  intro key
  rw [List.mem_toFinset, List.mem_map]
  constructor
  · intro listed
    obtain ⟨⟨_, external⟩, member, rfl⟩ := listed
    by_contra unseen
    exact remembers.unseen _ (Option.not_isSome_iff_eq_none.mp unseen) external member
  · intro stored
    obtain ⟨stamp, found⟩ := Option.isSome_iff_exists.mp stored
    exact ⟨_, remembers.member key stamp found, rfl⟩

/-- A table accepts what is not older than all that was presented before, keeps
the latest time of each key, and gives each key local times that only grow. -/
theorem history_of_empty (calls : List TableCall) :
    let steps := empty.history calls
    let table := empty.afterAll calls
    steps.map TableStep.call = calls ∧
    (∀ earlier step later, steps = earlier ++ step :: later →
      (step.answer.admission ≠ .stale ↔
        ∀ other ∈ earlier, other.call.key = step.call.key →
          other.call.external ≤ step.call.external) ∧
      (∀ localTime, step.answer.admission = .accepted localTime →
        step.answer.value = step.call.value?.map (·.withTimestamp localTime)) ∧
      (step.answer.admission = .stale →
        step.after = step.before ∧ step.answer.value = step.call.value?)) ∧
    (∀ key, (table.stamp? key).map Stamp.external =
      ((calls.filter fun call => call.key = key).map TableCall.external).max?) ∧
    table.size = (calls.map TableCall.key).toFinset.card ∧
    steps.Pairwise fun earlier later =>
      earlier.call.key = later.call.key →
        ∀ first second, earlier.answer.admission = .accepted first →
          later.answer.admission = .accepted second →
            earlier.call.external ≤ later.call.external ∧
            (earlier.call.external = later.call.external → first = second) ∧
            (earlier.call.external < later.call.external →
              first < second ∨ first = Int64.maxValue ∧ second = Int64.maxValue) := by
  intro steps table
  have remembers : table.Remembers (calls.map fun call => (call.key, call.external)) := by
    simpa using remembers_empty.afterAll calls
  refine ⟨map_call_history empty calls, ?_, remembers.external_eq_max, ?_, ?_⟩
  · intro earlier step later split
    obtain ⟨before, answered⟩ := history_split split
    have rememberedBefore := remembers_empty.afterAll (earlier.map TableStep.call)
    rw [← before] at rememberedBefore
    rw [answer_eq, Prod.mk.injEq] at answered
    obtain ⟨answer, after⟩ := answered
    rw [← answer, ← after]
    refine ⟨?_, ?_, ?_⟩
    · rw [ne_eq, present_eq_stale_iff, rememberedBefore.stale_iff]
      simp only [List.nil_append, List.mem_map]
      constructor
      · intro current other member sameKey
        refine Std.not_lt.mp fun older => current ⟨other.call.external, ?_, older⟩
        exact ⟨other.call, ⟨other, member, rfl⟩, by rw [sameKey]⟩
      · rintro bounded ⟨_, ⟨_, ⟨other, member, rfl⟩, same⟩, older⟩
        obtain ⟨sameKey, rfl⟩ := Prod.mk.inj same
        exact absurd older (Std.not_lt.mpr (bounded other member sameKey))
    · intro localTime accepted
      simp only at accepted ⊢
      rw [accepted]
      rfl
    · intro stale
      simp only at stale ⊢
      rw [stale]
      refine ⟨?_, by cases step.call.value? <;> rfl⟩
      rw [present_of_stale (present_eq_stale_iff.mp stale)]
  · rw [remembers.size_eq_card, List.map_map]
    rfl
  · apply (pairwise_history empty calls).imp
    intro earlier later order sameKey first second accepted laterAccepted
    have precedes := order sameKey first second accepted laterAccepted
    exact ⟨precedes.external_le, precedes.replayed, precedes.progressed⟩

end TimestampTable

end VehicleRelay
