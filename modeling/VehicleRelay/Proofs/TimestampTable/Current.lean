import Mathlib.Data.List.Forall2
import VehicleRelay.Proofs.TimestampTable.Admissions

/-!
# Current values

A value is current when no newer value of its key was presented before it.  A
table that is presented a list admits the current values of the list, in order,
and changes nothing but their times.  Values that were all presented before
leave the table as it is.
-/

namespace VehicleRelay

namespace PropertyValue

/-- What a table remembers of a value that it is presented. -/
def presentation (value : PropertyValue) : PropertyKey × Int64 :=
  (value.key, value.timestamp)

/-- The other value is at least as new, or it has another key. -/
def FollowedBy (earlier value : PropertyValue) : Prop :=
  earlier.key = value.key → earlier.timestamp ≤ value.timestamp

/-- None of the values that were presented before is a newer one of the same key. -/
def CurrentAfter (value : PropertyValue) (presented : List PropertyValue) : Prop :=
  ∀ earlier ∈ presented, earlier.FollowedBy value

instance (earlier value : PropertyValue) : Decidable (earlier.FollowedBy value) :=
  inferInstanceAs (Decidable (_ → _))

instance (value : PropertyValue) (presented : List PropertyValue) :
    Decidable (value.CurrentAfter presented) :=
  inferInstanceAs (Decidable (∀ earlier ∈ presented, _))

/-- The other value is the same but for its time. -/
def RestampedTo (value shown : PropertyValue) : Prop :=
  ∃ localTime, shown = value.withTimestamp localTime

theorem RestampedTo.key_eq {value shown : PropertyValue} (restamped : value.RestampedTo shown) :
    shown.key = value.key := by
  obtain ⟨localTime, rfl⟩ := restamped
  exact key_withTimestamp value localTime

end PropertyValue

/-- The current values of a list that is presented after some values. -/
def currentValues (presented : List PropertyValue) : List PropertyValue → List PropertyValue
  | [] => []
  | value :: values =>
      if value.CurrentAfter presented then
        value :: currentValues (presented ++ [value]) values
      else currentValues (presented ++ [value]) values

/-- Every value of a list is current when it comes, after some values and the ones of the
list before it. -/
def InSequence (presented values : List PropertyValue) : Prop :=
  (∀ value ∈ values, value.CurrentAfter presented) ∧ values.Pairwise PropertyValue.FollowedBy

instance (presented values : List PropertyValue) : Decidable (InSequence presented values) :=
  inferInstanceAs (Decidable (_ ∧ _))

theorem inSequence_nil (presented : List PropertyValue) : InSequence presented [] :=
  ⟨fun _ member => absurd member List.not_mem_nil, .nil⟩

theorem inSequence_append {presented first later : List PropertyValue} :
    InSequence presented (first ++ later) ↔
      InSequence presented first ∧ InSequence (presented ++ first) later := by
  constructor
  · intro sequence
    obtain ⟨current, ordered⟩ := sequence
    obtain ⟨currentFirst, currentLater⟩ := List.forall_mem_append.mp current
    obtain ⟨orderedFirst, orderedLater, follow⟩ := List.pairwise_append.mp ordered
    refine ⟨⟨currentFirst, orderedFirst⟩, ?_, orderedLater⟩
    intro value member
    exact List.forall_mem_append.mpr
      ⟨currentLater value member, fun earlier before => follow earlier before value member⟩
  · intro sequences
    obtain ⟨⟨currentFirst, orderedFirst⟩, currentLater, orderedLater⟩ := sequences
    refine ⟨List.forall_mem_append.mpr ⟨currentFirst, ?_⟩,
      List.pairwise_append.mpr ⟨orderedFirst, orderedLater, ?_⟩⟩
    · intro value member earlier before
      exact currentLater value member earlier (List.mem_append_left first before)
    · intro earlier before value member
      exact currentLater value member earlier (List.mem_append_right presented before)

/-- Values in sequence are the current values. -/
theorem currentValues_eq_self {presented values : List PropertyValue}
    (sequence : InSequence presented values) : currentValues presented values = values := by
  induction values generalizing presented with
  | nil => rfl
  | cons value values induction =>
      have parts : InSequence presented ([value] ++ values) := sequence
      obtain ⟨first, others⟩ := inSequence_append.mp parts
      have current := first.1 value List.mem_cons_self
      rw [currentValues, if_pos current, induction others]

/-! ## The last value of a key -/

def lastOf? (key : PropertyKey) (values : List PropertyValue) : Option PropertyValue :=
  values.reverse.find? fun value => value.key == key

theorem lastOf?_append (key : PropertyKey) (earlier later : List PropertyValue) :
    lastOf? key (earlier ++ later) = (lastOf? key later).or (lastOf? key earlier) := by
  rw [lastOf?, List.reverse_append, List.find?_append]
  rfl

theorem lastOf?_cons (key : PropertyKey) (value : PropertyValue) (values : List PropertyValue) :
    lastOf? key (value :: values) =
      (lastOf? key values).or (if value.key = key then some value else none) := by
  have single : lastOf? key [value] = if value.key = key then some value else none := by
    simp [lastOf?, List.find?_singleton]
  rw [← single]
  exact lastOf?_append key [value] values

theorem lastOf?_eq_some {key : PropertyKey} {values : List PropertyValue}
    {value : PropertyValue} (found : lastOf? key values = some value) :
    value.key = key ∧ ∃ earlier later, values = earlier ++ value :: later ∧
      ∀ other ∈ later, other.key ≠ key := by
  obtain ⟨same, later, earlier, split, others⟩ := List.find?_eq_some_iff_append.mp found
  refine ⟨by simpa using same, earlier.reverse, later.reverse, ?_, ?_⟩
  · rw [← List.reverse_reverse values, split]
    simp
  · intro other member
    simpa using others other (List.mem_reverse.mp member)

theorem lastOf?_eq_none {key : PropertyKey} {values : List PropertyValue}
    (absent : lastOf? key values = none) : ∀ value ∈ values, value.key ≠ key := by
  intro value member
  have others := List.find?_eq_none.mp absent value (List.mem_reverse.mpr member)
  simpa using others

/-- The last values of a key correspond where all values do. -/
theorem lastOf?_restamped {values shown : List PropertyValue}
    (restamped : List.Forall₂ PropertyValue.RestampedTo values shown) (key : PropertyKey) :
    Option.Rel PropertyValue.RestampedTo (lastOf? key values) (lastOf? key shown) := by
  induction restamped with
  | nil => exact .none
  | @cons value first values others restampedFirst _ induction =>
      rw [lastOf?_cons, lastOf?_cons, restampedFirst.key_eq]
      cases found : lastOf? key values with
      | some last =>
          rw [found] at induction
          cases foundShown : lastOf? key others with
          | none => rw [foundShown] at induction; cases induction
          | some lastShown => rw [foundShown] at induction; exact induction
      | none =>
          rw [found] at induction
          cases foundShown : lastOf? key others with
          | some lastShown => rw [foundShown] at induction; cases induction
          | none =>
              simp only [Option.none_or]
              split
              · exact .some restampedFirst
              · exact .none

namespace TimestampTable

variable {table : TimestampTable} {presented : List PropertyValue} {value : PropertyValue}

/-- A value that is presented gets the stamp of its key after it, or it is stale
and the table stays as it is. -/
theorem restamp_cases (table : TimestampTable) (clock : Int64) (value : PropertyValue) :
    (∃ stamp, Stamp.advance? (table.stamp? value.key) value.timestamp clock = some stamp ∧
      table.restamp clock value = (some (value.withTimestamp stamp.localTime),
        ⟨table.stamps.insert value.key stamp⟩)) ∨
      Stamp.advance? (table.stamp? value.key) value.timestamp clock = none ∧
        table.restamp clock value = (none, table) := by
  cases advanced : Stamp.advance? (table.stamp? value.key) value.timestamp clock with
  | none =>
      right
      exact ⟨rfl, by rw [restamp, present_of_stale advanced]⟩
  | some stamp =>
      left
      exact ⟨stamp, rfl, by rw [restamp, present_of_advance advanced]⟩

theorem restamp_table (table : TimestampTable) (clock : Int64) (value : PropertyValue) :
    (table.restamp clock value).2 = (table.present value.key value.timestamp clock).2 := by
  rw [restamp]
  rcases table.present value.key value.timestamp clock with ⟨admission, next⟩
  cases admission with
  | accepted localTime => rfl
  | stale => rfl

theorem Remembers.current_iff
    (remembers : table.Remembers (presented.map PropertyValue.presentation)) (clock : Int64) :
    value.CurrentAfter presented ↔
      Stamp.advance? (table.stamp? value.key) value.timestamp clock ≠ none := by
  rw [ne_eq, remembers.stale_iff]
  constructor
  · rintro current ⟨later, member, newer⟩
    obtain ⟨earlier, earlierMember, same⟩ := List.mem_map.mp member
    obtain ⟨sameKey, rfl⟩ := Prod.mk.inj same
    exact absurd newer (Std.not_lt.mpr (current earlier earlierMember sameKey))
  · intro notStale earlier member sameKey
    apply Std.not_lt.mp
    intro newer
    apply notStale
    refine ⟨earlier.timestamp, List.mem_map.mpr ⟨earlier, member, ?_⟩, newer⟩
    rw [PropertyValue.presentation, sameKey]

/-- A list of values is remembered like the values one after the other, and its
current values are admitted. -/
theorem Remembers.restampAll
    (remembers : table.Remembers (presented.map PropertyValue.presentation))
    (readings : ClockReadings) (values : List PropertyValue) :
    List.Forall₂ PropertyValue.RestampedTo (currentValues presented values)
        (table.restampAll readings values).1 ∧
      (table.restampAll readings values).2.Remembers
        ((presented ++ values).map PropertyValue.presentation) := by
  induction values generalizing table presented readings with
  | nil =>
      rw [List.append_nil]
      exact ⟨.nil, remembers⟩
  | cons value values induction =>
      have next : (table.restamp readings.first value).2.Remembers
          ((presented ++ [value]).map PropertyValue.presentation) := by
        rw [restamp_table, List.map_append]
        exact remembers.present value.key value.timestamp readings.first
      obtain ⟨admitted, remembered⟩ := induction next readings.rest
      have current : value.CurrentAfter presented ↔ _ := remembers.current_iff readings.first
      rw [List.append_assoc, List.singleton_append] at remembered
      rcases restamp_cases table readings.first value with
        ⟨stamp, advanced, restamped⟩ | ⟨stale, restamped⟩
      · rw [restamped] at admitted remembered
        rw [currentValues, if_pos (current.mpr (by simp [advanced]))]
        simp only [TimestampTable.restampAll, restamped]
        exact ⟨.cons ⟨stamp.localTime, rfl⟩ admitted, remembered⟩
      · rw [restamped] at admitted remembered
        rw [currentValues, if_neg (mt current.mp (by simp [stale]))]
        simp only [TimestampTable.restampAll, restamped]
        exact ⟨admitted, remembered⟩

/-- After a list was presented, a key has the local time of the last value of it that
was admitted, or the one that it had before. -/
theorem localTime_restampAll (table : TimestampTable) (readings : ClockReadings)
    (values : List PropertyValue) (key : PropertyKey) :
    ((table.restampAll readings values).2.stamp? key).map Stamp.localTime =
      ((lastOf? key (table.restampAll readings values).1).map PropertyValue.timestamp).or
        ((table.stamp? key).map Stamp.localTime) := by
  induction values generalizing table readings with
  | nil => rfl
  | cons value values induction =>
      rcases restamp_cases table readings.first value with
        ⟨stamp, advanced, restamped⟩ | ⟨stale, restamped⟩
      · have rest := induction ⟨table.stamps.insert value.key stamp⟩ readings.rest
        simp only [TimestampTable.restampAll, restamped, rest, Option.toList_some,
          List.singleton_append, lastOf?_cons, PropertyValue.key_withTimestamp]
        cases lastOf? key _ with
        | some last => rfl
        | none =>
            by_cases same : value.key = key
            · subst same
              simp [stamp?, PropertyValue.withTimestamp]
            · simp [stamp?, same, FiniteMap.get?_insert_of_ne table.stamps (Ne.symm same)]
      · have rest := induction table readings.rest
        simp only [TimestampTable.restampAll, restamped, rest, Option.toList_none,
          List.nil_append]

/-! ## Values that were presented before -/

/-- A value with the local time that is recorded for it, if its time is still the
latest one of its key. -/
def replay? (table : TimestampTable) (value : PropertyValue) : Option PropertyValue :=
  match table.stamp? value.key with
  | some stamp =>
      if stamp.external = value.timestamp then some (value.withTimestamp stamp.localTime) else none
  | none => none

theorem Remembers.restamp_replayed {presented : List (PropertyKey × Int64)}
    (remembers : table.Remembers presented) (replayed : value.presentation ∈ presented)
    (clock : Int64) : table.restamp clock value = (table.replay? value, table) := by
  cases stored : table.stamp? value.key with
  | none => exact absurd replayed (remembers.unseen value.key stored value.timestamp)
  | some stamp =>
      have latest : value.timestamp ≤ stamp.external :=
        remembers.latest value.key stamp stored value.timestamp replayed
      have notNewer : ¬stamp.external < value.timestamp := Std.not_lt.mpr latest
      by_cases same : stamp.external = value.timestamp
      · have advanced : Stamp.advance? (table.stamp? value.key) value.timestamp clock =
            some stamp := by
          simp only [stored, Stamp.advance?, if_neg notNewer, if_pos same]
        rw [restamp, present_of_advance advanced,
          FiniteMap.insert_of_get? table.stamps stored, replay?, stored]
        simp only [if_pos same]
      · have stale : Stamp.advance? (table.stamp? value.key) value.timestamp clock = none := by
          simp only [stored, Stamp.advance?, if_neg notNewer, if_neg same]
        rw [restamp, present_of_stale stale, replay?, stored]
        simp only [if_neg same]

theorem Remembers.restampAll_replayed {presented : List (PropertyKey × Int64)}
    (remembers : table.Remembers presented) {values : List PropertyValue}
    (replayed : ∀ value ∈ values, value.presentation ∈ presented) (readings : ClockReadings) :
    table.restampAll readings values = (values.filterMap table.replay?, table) := by
  induction values generalizing readings with
  | nil => rfl
  | cons value values induction =>
      obtain ⟨first, others⟩ := List.forall_mem_cons.mp replayed
      have rest := induction others readings.rest
      simp only [TimestampTable.restampAll, remembers.restamp_replayed first, rest]
      cases replays : table.replay? value with
      | none => rw [List.filterMap_cons_none replays]; rfl
      | some shown => rw [List.filterMap_cons_some replays]; rfl

end TimestampTable

end VehicleRelay
