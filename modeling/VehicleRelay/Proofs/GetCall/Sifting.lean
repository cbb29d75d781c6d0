import Mathlib.Data.List.Nodup
import VehicleRelay.Proofs.TimestampTable.StampOrder
import VehicleRelay.Relay.GetCall

/-!
# Sifting the results of one remote call

Every result of a request is either kept or stale, and a stale one gives its
request back.  The values of the results go through the table like the values
of a batch.
-/

namespace VehicleRelay

theorem requestOf?_eq_some {requests : List GetRequest} {id : Int64}
    {request : GetRequest} (found : requestOf? requests id = some request) :
    request ∈ requests ∧ request.id = id := by
  constructor
  · exact List.mem_reverse.mp (List.mem_of_find?_eq_some found)
  · simpa using List.find?_some found

theorem requestOf?_isSome_iff {requests : List GetRequest} {id : Int64} :
    (requestOf? requests id).isSome ↔ id ∈ requests.map GetRequest.id := by
  simp [requestOf?, List.find?_isSome]

theorem requestOf?_of_mem {requests : List GetRequest}
    (distinct : (requests.map GetRequest.id).Nodup) {request : GetRequest}
    (member : request ∈ requests) :
    requestOf? requests request.id = some request := by
  have known : request.id ∈ requests.map GetRequest.id :=
    List.mem_map.mpr ⟨request, member, rfl⟩
  obtain ⟨other, found⟩ :=
    Option.isSome_iff_exists.mp (requestOf?_isSome_iff.mpr known)
  obtain ⟨otherMember, sameId⟩ := requestOf?_eq_some found
  rw [found, List.inj_on_of_nodup_map distinct otherMember member sameId]

/-- The values that the results of a batch of requests carry. -/
def carriedValues (requests : List GetRequest) (results : List GetResult) :
    List PropertyValue :=
  (results.filter fun result => result.id ∈ requests.map GetRequest.id).filterMap
    GetResult.value

theorem carriedValues_cons_of_unknown {requests : List GetRequest}
    {result : GetResult} (unknown : requestOf? requests result.id = none)
    (results : List GetResult) :
    carriedValues requests (result :: results) = carriedValues requests results := by
  have absent : result.id ∉ requests.map GetRequest.id := by
    rw [← requestOf?_isSome_iff]
    simp [unknown]
  rw [carriedValues, carriedValues, List.filter_cons_of_neg (by simpa using absent)]

theorem carriedValues_cons_of_known {requests : List GetRequest}
    {request : GetRequest} {result : GetResult}
    (known : requestOf? requests result.id = some request)
    (results : List GetResult) :
    carriedValues requests (result :: results) =
      result.value.toList ++ carriedValues requests results := by
  have asked : result.id ∈ requests.map GetRequest.id := by
    rw [← requestOf?_isSome_iff]
    simp [known]
  rw [carriedValues, carriedValues, List.filter_cons_of_pos (by simpa using asked)]
  cases carried : result.value with
  | none => rw [List.filterMap_cons_none carried]; rfl
  | some value => rw [List.filterMap_cons_some carried]; rfl

namespace TimestampTable

/-- A value is stale when a later time of its key is in the table. -/
def IsStale (table : TimestampTable) (value : PropertyValue) : Prop :=
  ∃ stamp, table.stamp? value.key = some stamp ∧ value.timestamp < stamp.external

instance (table : TimestampTable) (value : PropertyValue) : Decidable (table.IsStale value) :=
  match found : table.stamp? value.key with
  | none => isFalse (by simp [IsStale, found])
  | some stamp => decidable_of_iff (value.timestamp < stamp.external) (by simp [IsStale, found])

theorem restamp_of_stale {table : TimestampTable} {value : PropertyValue}
    (stale : table.IsStale value) (clock : Int64) :
    table.restamp clock value = (none, table) := by
  rw [restamp, present_of_stale (Stamp.advance?_eq_none_iff.mpr stale)]

theorem restamp_of_current {table : TimestampTable} {value : PropertyValue}
    (current : ¬table.IsStale value) (clock : Int64) :
    ∃ localTime next,
      table.restamp clock value = (some (value.withTimestamp localTime), next) := by
  cases advanced : Stamp.advance? (table.stamp? value.key) value.timestamp clock with
  | none => exact absurd (Stamp.advance?_eq_none_iff.mp advanced) current
  | some stamp => exact ⟨_, _, by rw [restamp, present_of_advance advanced]⟩

/-- A result is found stale when its value is stale by the time at which the
results before it have been presented. -/
def FindsStale (table : TimestampTable) (readings : ClockReadings)
    (requests : List GetRequest) (results : List GetResult) (result : GetResult) :
    Prop :=
  ∃ before after value, results = before ++ result :: after ∧
    result.value = some value ∧
      (table.restampAll readings (carriedValues requests before)).2.IsStale value

variable {table : TimestampTable} {readings : ClockReadings}
  {requests : List GetRequest} {result : GetResult} {results : List GetResult}

theorem sift_cons_of_unknown (unknown : requestOf? requests result.id = none) :
    table.sift readings requests (result :: results) =
      table.sift readings requests results := by
  simp [sift, unknown]

theorem sift_cons_of_empty {request : GetRequest}
    (known : requestOf? requests result.id = some request)
    (empty : result.value = none) :
    table.sift readings requests (result :: results) =
      let others := table.sift readings requests results
      { others with kept := result :: others.kept } := by
  simp [sift, known, empty]

theorem sift_cons_of_stale {request : GetRequest} {value : PropertyValue}
    (known : requestOf? requests result.id = some request)
    (carried : result.value = some value) (stale : table.IsStale value) :
    table.sift readings requests (result :: results) =
      let others := table.sift readings.rest requests results
      { others with retries := request :: others.retries } := by
  simp [sift, known, carried, restamp_of_stale stale]

theorem sift_cons_of_current {request : GetRequest} {value : PropertyValue}
    (known : requestOf? requests result.id = some request)
    (carried : result.value = some value) {admitted : PropertyValue}
    {next : TimestampTable}
    (current : table.restamp readings.first value = (some admitted, next)) :
    table.sift readings requests (result :: results) =
      let others := next.sift readings.rest requests results
      { others with kept := { result with value := some admitted } :: others.kept } := by
  simp [sift, known, carried, current]

/-- A batch of results changes the table as a batch of their values does, and
the values that are kept are the ones that this batch admits. -/
theorem sift_eq_restampAll (table : TimestampTable) (readings : ClockReadings)
    (requests : List GetRequest) (results : List GetResult) :
    ((table.sift readings requests results).kept.filterMap GetResult.value,
        (table.sift readings requests results).table) =
      table.restampAll readings (carriedValues requests results) := by
  induction results generalizing table readings with
  | nil => rfl
  | cons result results induction =>
      cases known : requestOf? requests result.id with
      | none =>
          rw [sift_cons_of_unknown known, carriedValues_cons_of_unknown known]
          exact induction table readings
      | some request =>
          rw [carriedValues_cons_of_known known]
          cases carried : result.value with
          | none =>
              have rest := induction table readings
              rw [sift_cons_of_empty known carried]
              simpa [carried] using rest
          | some value =>
              by_cases stale : table.IsStale value
              · have rest := induction table readings.rest
                rw [sift_cons_of_stale known carried stale]
                simp [restampAll, restamp_of_stale stale, ← rest]
              · obtain ⟨localTime, next, current⟩ :=
                  restamp_of_current stale readings.first
                have rest := induction next readings.rest
                rw [sift_cons_of_current known carried current]
                simp [restampAll, current, ← rest]

/-- Every result of a request is either kept or gives a request back. -/
theorem sift_partition (table : TimestampTable) (readings : ClockReadings)
    (requests : List GetRequest) (results : List GetResult) :
    ((table.sift readings requests results).kept.map GetResult.id ++
        (table.sift readings requests results).retries.map GetRequest.id).Perm
      ((results.map GetResult.id).filter fun id => id ∈ requests.map GetRequest.id) := by
  induction results generalizing table readings with
  | nil => exact List.Perm.refl _
  | cons result results induction =>
      cases known : requestOf? requests result.id with
      | none =>
          have absent : result.id ∉ requests.map GetRequest.id := by
            rw [← requestOf?_isSome_iff]
            simp [known]
          rw [sift_cons_of_unknown known, List.map_cons,
            List.filter_cons_of_neg (by simpa using absent)]
          exact induction table readings
      | some request =>
          have asked : result.id ∈ requests.map GetRequest.id := by
            rw [← requestOf?_isSome_iff]
            simp [known]
          rw [List.map_cons, List.filter_cons_of_pos (by simpa using asked)]
          cases carried : result.value with
          | none =>
              rw [sift_cons_of_empty known carried]
              exact (induction table readings).cons result.id
          | some value =>
              by_cases stale : table.IsStale value
              · rw [sift_cons_of_stale known carried stale, List.map_cons,
                  (requestOf?_eq_some known).2]
                exact List.perm_middle.trans ((induction table readings.rest).cons _)
              · obtain ⟨localTime, next, current⟩ :=
                  restamp_of_current stale readings.first
                rw [sift_cons_of_current known carried current]
                exact (induction next readings.rest).cons result.id

/-- The request of a stale result is the one of the first result, if that is stale,
or of a result that follows, once the first one has been presented. -/
private theorem exists_findsStale_cons {first : GetResult} {next : TimestampTable}
    {rest : ClockReadings} {request : GetRequest}
    (presented : ∀ before,
      (table.restampAll readings (carriedValues requests (first :: before))).2 =
        (next.restampAll rest (carriedValues requests before)).2) :
    (∃ result, table.FindsStale readings requests (first :: results) result ∧
        requestOf? requests result.id = some request) ↔
      ((∃ value, first.value = some value ∧ table.IsStale value) ∧
          requestOf? requests first.id = some request) ∨
        ∃ result, next.FindsStale rest requests results result ∧
          requestOf? requests result.id = some request := by
  constructor
  · intro found
    obtain ⟨result, ⟨before, after, value, split, carried, stale⟩, known⟩ := found
    cases before with
    | nil =>
        obtain ⟨rfl, _⟩ := List.cons.inj split
        exact .inl ⟨⟨value, carried, stale⟩, known⟩
    | cons head before =>
        obtain ⟨rfl, others⟩ := List.cons.inj split
        have later := presented before ▸ stale
        exact .inr ⟨result, ⟨before, after, value, others, carried, later⟩, known⟩
  · intro found
    rcases found with ⟨⟨value, carried, stale⟩, known⟩ |
      ⟨result, ⟨before, after, value, rfl, carried, stale⟩, known⟩
    · exact ⟨first, ⟨[], results, value, rfl, carried, stale⟩, known⟩
    · have later := (presented before).symm ▸ stale
      exact ⟨result, ⟨first :: before, after, value, rfl, carried, later⟩, known⟩

/-- The requests that are sent again are the ones whose results are stale. -/
theorem mem_retries_iff {request : GetRequest} :
    request ∈ (table.sift readings requests results).retries ↔
      ∃ result, table.FindsStale readings requests results result ∧
        requestOf? requests result.id = some request := by
  induction results generalizing table readings with
  | nil => simp [sift, FindsStale]
  | cons first results induction =>
      cases known : requestOf? requests first.id with
      | none =>
          have presented := fun before => congrArg (fun values =>
            (table.restampAll readings values).2)
            (carriedValues_cons_of_unknown known before)
          rw [sift_cons_of_unknown known, induction, exists_findsStale_cons presented]
          simp [known]
      | some asked =>
          have values := carriedValues_cons_of_known known
          cases carried : first.value with
          | none =>
              have presented : ∀ before,
                  (table.restampAll readings (carriedValues requests (first :: before))).2 =
                    (table.restampAll readings (carriedValues requests before)).2 := by
                intro before
                simp [values, carried]
              rw [sift_cons_of_empty known carried, induction,
                exists_findsStale_cons presented]
              simp [carried]
          | some value =>
              by_cases stale : table.IsStale value
              · have presented : ∀ before,
                    (table.restampAll readings (carriedValues requests (first :: before))).2 =
                      (table.restampAll readings.rest (carriedValues requests before)).2 := by
                  intro before
                  simp [values, carried, restampAll, restamp_of_stale stale]
                rw [sift_cons_of_stale known carried stale, List.mem_cons, induction,
                  exists_findsStale_cons presented]
                simp [known, carried, stale, eq_comm]
              · obtain ⟨localTime, next, current⟩ :=
                  restamp_of_current stale readings.first
                have presented : ∀ before,
                    (table.restampAll readings (carriedValues requests (first :: before))).2 =
                      (next.restampAll readings.rest (carriedValues requests before)).2 := by
                  intro before
                  simp [values, carried, restampAll, current]
                rw [sift_cons_of_current known carried current, induction,
                  exists_findsStale_cons presented]
                simp [carried, stale]

end TimestampTable

end VehicleRelay
