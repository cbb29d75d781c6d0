import VehicleRelay.Proofs.TimestampTable.History

/-!
# Admitted values

A list of values that is presented at once is a history of its own.  Admitted
values of one key come in the order of their stamps, over all the lists that a
table is presented one after the other.
-/

namespace VehicleRelay

/-- A value as a table has admitted it, with the time that its source gave. -/
structure AdmittedValue where
  value : PropertyValue
  external : Int64
deriving DecidableEq, Repr

namespace AdmittedValue

def key (admitted : AdmittedValue) : PropertyKey :=
  admitted.value.key

/-- An admitted value carries the local time of its stamp. -/
def stamp (admitted : AdmittedValue) : Stamp :=
  ⟨admitted.external, admitted.value.timestamp⟩

/-- The order in which values of one key are admitted. -/
def Precedes (earlier later : AdmittedValue) : Prop :=
  earlier.key = later.key → earlier.stamp.Precedes later.stamp

end AdmittedValue

def TableStep.admitted? (step : TableStep) : Option AdmittedValue :=
  match step.answer with
  | ⟨.accepted _, some value⟩ => some ⟨value, step.call.external⟩
  | _ => none

namespace TimestampTable

/-- The calls that present a list of values, each at a reading of its own. -/
def presentations (readings : ClockReadings) : List PropertyValue → List TableCall
  | [] => []
  | value :: values => .presentValue value readings.first :: presentations readings.rest values

def admissions (table : TimestampTable) (calls : List TableCall) : List AdmittedValue :=
  (table.history calls).filterMap TableStep.admitted?

theorem restampAll_eq (table : TimestampTable) (readings : ClockReadings)
    (values : List PropertyValue) :
    table.restampAll readings values =
      ((table.admissions (presentations readings values)).map AdmittedValue.value,
        table.afterAll (presentations readings values)) := by
  induction values generalizing table readings with
  | nil => rfl
  | cons value values induction =>
      rcases restamped : table.restamp readings.first value with ⟨admitted, next⟩
      have rest := induction next readings.rest
      cases admitted with
      | none =>
          have answered : table.answer (.presentValue value readings.first) =
              (⟨.stale, some value⟩, next) := by
            simp only [answer, restamped]
          simp only [restampAll, restamped, rest, presentations, admissions, history, afterAll,
            answered, List.filterMap_cons, TableStep.admitted?, Option.toList_none,
            List.nil_append]
      | some admitted =>
          have answered : table.answer (.presentValue value readings.first) =
              (⟨.accepted admitted.timestamp, some admitted⟩, next) := by
            simp only [answer, restamped]
          simp only [restampAll, restamped, rest, presentations, admissions, history, afterAll,
            answered, List.filterMap_cons, TableStep.admitted?, List.map_cons,
            Option.toList_some, List.singleton_append]

theorem admissions_append (table : TimestampTable) (first second : List TableCall) :
    table.admissions (first ++ second) =
      table.admissions first ++ (table.afterAll first).admissions second := by
  induction first generalizing table with
  | nil => rfl
  | cons call first induction =>
      have rest := induction (table.answer call).2
      simp only [admissions, List.cons_append, history, List.filterMap_cons] at rest ⊢
      split
      · simpa only [afterAll] using rest
      · simp only [rest, afterAll, List.cons_append]

theorem admitted_of_mem_history {table : TimestampTable} {calls : List TableCall}
    {step : TableStep} (member : step ∈ table.history calls) {admitted : AdmittedValue}
    (admits : step.admitted? = some admitted) :
    step.answer.admission = .accepted admitted.value.timestamp ∧
      admitted.key = step.call.key ∧ admitted.external = step.call.external := by
  obtain ⟨earlier, later, split⟩ := List.append_of_mem member
  obtain ⟨_, answered⟩ := history_split split
  rw [answer_eq, Prod.mk.injEq] at answered
  obtain ⟨answer, _⟩ := answered
  rw [TableStep.admitted?, ← answer] at admits
  rw [← answer]
  generalize presented : step.before.present step.call.key step.call.external
    step.call.clock = result at admits ⊢
  obtain ⟨admission, next⟩ := result
  cases admission with
  | stale => simp at admits
  | accepted localTime =>
      cases called : step.call with
      | presentTime key external clock => simp [called, TableCall.value?] at admits
      | presentValue value clock =>
          simp only [called, TableCall.value?, TableCall.external, Option.map_some,
            Admission.settle, Option.some.injEq] at admits
          subst admitted
          exact ⟨rfl, rfl, rfl⟩

/-- Values of one key are admitted in the order of their stamps. -/
theorem pairwise_admissions (table : TimestampTable) (calls : List TableCall) :
    (table.admissions calls).Pairwise AdmittedValue.Precedes := by
  rw [admissions, List.pairwise_filterMap]
  apply (pairwise_history table calls).imp_of_mem
  intro earlier later earlierMember laterMember order first firstAdmitted second secondAdmitted
  obtain ⟨accepted, key, external⟩ := admitted_of_mem_history earlierMember firstAdmitted
  obtain ⟨laterAccepted, laterKey, laterExternal⟩ :=
    admitted_of_mem_history laterMember secondAdmitted
  intro sameKey
  rw [AdmittedValue.stamp, AdmittedValue.stamp, external, laterExternal]
  exact order (by rw [← key, ← laterKey, sameKey]) _ _ accepted laterAccepted

end TimestampTable

end VehicleRelay
