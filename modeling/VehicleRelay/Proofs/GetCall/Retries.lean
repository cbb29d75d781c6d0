import VehicleRelay.Proofs.GetCall.Conservation
import VehicleRelay.Proofs.GetCall.CurrentResults

/-!
# Requests that are sent again

Every stale result gives back one request, the last one of its batch that has the id of the
result.  So a batch of retries lists a request as often as its id has stale results, and it
holds only one request for an id, even where the batch before held several.
-/

namespace VehicleRelay

/-- The request is the last one of a batch with the id. -/
def LastOfId (requests : List GetRequest) (id : Int64) (request : GetRequest) : Prop :=
  ∃ before after, requests = before ++ request :: after ∧ request.id = id ∧
    ∀ other ∈ after, other.id ≠ id

theorem requestOf?_eq_some_iff {requests : List GetRequest} {id : Int64}
    {request : GetRequest} :
    requestOf? requests id = some request ↔ LastOfId requests id request := by
  rw [requestOf?, List.find?_eq_some_iff_append]
  constructor
  · intro found
    obtain ⟨same, after, before, split, others⟩ := found
    refine ⟨before.reverse, after.reverse, ?_, by simpa using same, ?_⟩
    · rw [← List.reverse_reverse requests, split]
      simp
    · intro other member
      simpa using others other (List.mem_reverse.mp member)
  · intro last
    obtain ⟨before, after, rfl, same, others⟩ := last
    refine ⟨by simpa using same, after.reverse, before.reverse, by simp, ?_⟩
    intro other member
    simpa using others other (List.mem_reverse.mp member)

/-- A request with the id and for the key is listed. -/
def Lists (batch : List GetRequest) (id : Int64) (key : PropertyKey) : Prop :=
  ∃ request ∈ batch, request.id = id ∧ request.target.key = key

instance (batch : List GetRequest) (id : Int64) (key : PropertyKey) :
    Decidable (Lists batch id key) :=
  inferInstanceAs (Decidable (∃ request ∈ batch, _))

theorem mem_withEarlier_iff {before results : List GetResult} {result : GetResult} :
    (before, result) ∈ withEarlier results ↔ ∃ after, results = before ++ result :: after := by
  induction results generalizing before with
  | nil => simp [withEarlier]
  | cons first results induction =>
      rw [withEarlier_cons, List.mem_cons, List.mem_map]
      constructor
      · intro member
        rcases member with now | ⟨⟨earlier, other⟩, later, same⟩
        · obtain ⟨rfl, rfl⟩ := Prod.mk.inj now
          exact ⟨results, rfl⟩
        · obtain ⟨rfl, rfl⟩ := Prod.mk.inj same
          obtain ⟨after, rfl⟩ := induction.mp later
          exact ⟨after, rfl⟩
      · intro split
        obtain ⟨after, split⟩ := split
        cases before with
        | nil =>
            obtain ⟨rfl, rfl⟩ := List.cons.inj split
            exact .inl rfl
        | cons head before =>
            obtain ⟨rfl, others⟩ := List.cons.inj split
            exact .inr ⟨(before, result), induction.mpr ⟨after, others⟩, rfl⟩

namespace TimestampTable

variable {table next : TimestampTable} {readings rest : ClockReadings}
  {sent : List GetRequest} {result : GetResult}

/-- The result was asked for, and it carries a value that is stale. -/
def IsOutdated (table : TimestampTable) (sent : List GetRequest) (result : GetResult) : Prop :=
  result.id ∈ sent.map GetRequest.id ∧ ∃ value ∈ result.value.toList, table.IsStale value

instance (table : TimestampTable) (sent : List GetRequest) (result : GetResult) :
    Decidable (table.IsOutdated sent result) :=
  inferInstanceAs (Decidable (_ ∧ _))

/-- The results of an answer that were asked for and are stale when they are presented,
after the ones before them. -/
def staleResults (table : TimestampTable) (readings : ClockReadings) (sent : List GetRequest)
    (results : List GetResult) : List GetResult :=
  ((withEarlier results).filter fun received =>
    (table.restampAll readings (carriedValues sent received.1)).2.IsOutdated sent
      received.2).map Prod.snd

theorem mem_staleResults_iff {results : List GetResult} :
    result ∈ table.staleResults readings sent results ↔
      result.id ∈ sent.map GetRequest.id ∧ table.FindsStale readings sent results result := by
  rw [staleResults, List.mem_map]
  constructor
  · intro listed
    obtain ⟨⟨before, other⟩, member, rfl⟩ := listed
    obtain ⟨received, outdated⟩ := List.mem_filter.mp member
    obtain ⟨after, split⟩ := mem_withEarlier_iff.mp received
    obtain ⟨asked, value, carried, stale⟩ := of_decide_eq_true outdated
    exact ⟨asked, before, after, value, split, by simpa using carried, stale⟩
  · intro found
    obtain ⟨asked, before, after, value, split, carried, stale⟩ := found
    refine ⟨(before, result), List.mem_filter.mpr
      ⟨mem_withEarlier_iff.mpr ⟨after, split⟩, decide_eq_true ?_⟩, rfl⟩
    exact ⟨asked, value, by simpa using carried, stale⟩

/-- After its first result, an answer goes on from the table that this one leaves. -/
theorem staleResults_cons (results : List GetResult)
    (presents : ∀ earlier, (table.restampAll readings (carriedValues sent (result :: earlier))).2 =
      (next.restampAll rest (carriedValues sent earlier)).2) :
    table.staleResults readings sent (result :: results) =
      (if table.IsOutdated sent result then [result] else []) ++
        next.staleResults rest sent results := by
  have first : (table.restampAll readings (carriedValues sent [])).2 = table := rfl
  rw [staleResults, withEarlier_cons, List.filter_cons, List.filter_map]
  simp only [Function.comp_def, Prod.map, id_eq, presents, first, decide_eq_true_eq]
  split <;> simp [staleResults, List.map_map, Function.comp_def, Prod.map]

/-- The requests that are sent again have the ids of the stale results, in the same order. -/
theorem ids_retries (table : TimestampTable) (readings : ClockReadings)
    (sent : List GetRequest) (results : List GetResult) :
    (table.sift readings sent results).retries.map GetRequest.id =
      (table.staleResults readings sent results).map GetResult.id := by
  induction results generalizing table readings with
  | nil => rfl
  | cons result results induction =>
      cases known : requestOf? sent result.id with
      | none =>
          have carries := carriedValues_cons_of_unknown known
          have unknown : ¬table.IsOutdated sent result := by
            intro outdated
            have asked := requestOf?_isSome_iff.mpr outdated.1
            simp [known] at asked
          rw [sift_cons_of_unknown known, induction,
            staleResults_cons results fun earlier => by rw [carries], if_neg unknown,
            List.nil_append]
      | some request =>
          obtain ⟨member, sameId⟩ := requestOf?_eq_some known
          have asked : result.id ∈ sent.map GetRequest.id :=
            List.mem_map.mpr ⟨request, member, sameId⟩
          have carries := carriedValues_cons_of_known known
          cases carried : result.value with
          | none =>
              have current : ¬table.IsOutdated sent result := by simp [IsOutdated, carried]
              rw [sift_cons_of_empty known carried, induction,
                staleResults_cons results fun earlier => by rw [carries, carried]; rfl,
                if_neg current, List.nil_append]
          | some value =>
              by_cases stale : table.IsStale value
              · have outdated : table.IsOutdated sent result :=
                  ⟨asked, value, by simp [carried], stale⟩
                have presents (earlier : List GetResult) :
                    (table.restampAll readings (carriedValues sent (result :: earlier))).2 =
                      (table.restampAll readings.rest (carriedValues sent earlier)).2 := by
                  simp [carries, carried, restampAll, restamp_of_stale stale]
                rw [sift_cons_of_stale known carried stale, staleResults_cons results presents,
                  if_pos outdated, List.map_cons, induction, sameId]
                rfl
              · have current : ¬table.IsOutdated sent result := by
                  simp [IsOutdated, carried, stale]
                obtain ⟨localTime, next, restamped⟩ := restamp_of_current stale readings.first
                have presents (earlier : List GetResult) :
                    (table.restampAll readings (carriedValues sent (result :: earlier))).2 =
                      (next.restampAll readings.rest (carriedValues sent earlier)).2 := by
                  simp [carries, carried, restampAll, restamped]
                rw [sift_cons_of_current known carried restamped,
                  staleResults_cons results presents, if_neg current, List.nil_append]
                exact induction next readings.rest

end TimestampTable

namespace GetRound

variable {round : GetRound}

/-- The results of the round that were asked for and were stale, in order. -/
def staleResults (round : GetRound) : List GetResult :=
  round.table.staleResults round.readings round.sent round.results

theorem mem_staleResults_iff {result : GetResult} :
    result ∈ round.staleResults ↔
      result.id ∈ round.sent.map GetRequest.id ∧ round.FindsStale result := by
  rw [staleResults, TimestampTable.mem_staleResults_iff, results]
  cases answered : round.answer with
  | ok results => simp [FindsStale, answered]
  | error error => simp [FindsStale, TimestampTable.FindsStale, answered]

/-- The server gave one result for each request of the round, in any order: with the id of
the request and a value of its key. -/
def AnswersOwn (round : GetRound) : Prop :=
  ∃ results, round.answer = .ok results ∧
    (results.map fun result => (result.id, result.value.map PropertyValue.key)).Perm
      (round.sent.map fun request => (request.id, some request.target.key))

theorem ids_retries (round : GetRound) :
    round.sifted.retries.map GetRequest.id = round.staleResults.map GetResult.id := by
  rw [staleResults, ← TimestampTable.ids_retries, sifted, results]
  cases round.answer <;> rfl

/-- A request that is sent again is the last one of the round with its id. -/
theorem requestOf?_of_mem_retries {request : GetRequest}
    (member : request ∈ round.sifted.retries) :
    requestOf? round.sent request.id = some request := by
  obtain ⟨result, _, known⟩ := mem_retries_iff.mp member
  rw [(requestOf?_eq_some known).2]
  exact known

theorem retries_subset (round : GetRound) : round.sifted.retries ⊆ round.sent :=
  fun _ member => (requestOf?_eq_some (requestOf?_of_mem_retries member)).1

/-- A stale result has the last request with its id sent again, and no other one of that id. -/
theorem lists_retries_iff {result : GetResult} (stale : round.FindsStale result)
    (key : PropertyKey) :
    Lists round.sifted.retries result.id key ↔
      ∃ request, LastOfId round.sent result.id request ∧ request.target.key = key := by
  constructor
  · intro listed
    obtain ⟨request, member, sameId, sameKey⟩ := listed
    have last := requestOf?_of_mem_retries member
    rw [sameId] at last
    exact ⟨request, requestOf?_eq_some_iff.mp last, sameKey⟩
  · intro last
    obtain ⟨request, last, sameKey⟩ := last
    have known := requestOf?_eq_some_iff.mpr last
    exact ⟨request, mem_retries_iff.mpr ⟨result, stale, known⟩,
      (requestOf?_eq_some known).2, sameKey⟩

/-- A result of such an answer has a request of its own, with its id and key. -/
theorem AnswersOwn.lists (answered : round.AnswersOwn) {result : GetResult}
    {value : PropertyValue} (stale : round.FindsStale result)
    (carried : result.value = some value) : Lists round.sent result.id value.key := by
  obtain ⟨results, succeeded, own⟩ := answered
  obtain ⟨others, answer, before, after, _, split, _⟩ := stale
  obtain rfl := Except.ok.inj (succeeded.symm.trans answer)
  have member : result ∈ results := by simp [split]
  have listed := own.mem_iff.mp (List.mem_map_of_mem member)
  obtain ⟨request, sent, same⟩ := List.mem_map.mp listed
  rw [carried, Option.map_some, Prod.mk.injEq, Option.some.injEq] at same
  exact ⟨request, sent, same⟩

/-- Where the requests of an id are all for one key, a stale result has its own request sent
again. -/
theorem AnswersOwn.lists_retries (answered : round.AnswersOwn) {result : GetResult}
    {value : PropertyValue} (stale : round.FindsStale result)
    (carried : result.value = some value)
    (agree : ∀ first ∈ round.sent, ∀ second ∈ round.sent, first.id = second.id →
      first.target.key = second.target.key) :
    Lists round.sifted.retries result.id value.key := by
  obtain ⟨own, sent, sameId, sameKey⟩ := answered.lists stale carried
  have asked : result.id ∈ round.sent.map GetRequest.id := List.mem_map.mpr ⟨own, sent, sameId⟩
  obtain ⟨last, known⟩ := Option.isSome_iff_exists.mp (requestOf?_isSome_iff.mpr asked)
  obtain ⟨lastSent, lastId⟩ := requestOf?_eq_some known
  have lastKey := agree last lastSent own sent (lastId.trans sameId.symm)
  exact (lists_retries_iff stale _).mpr
    ⟨last, requestOf?_eq_some_iff.mp known, lastKey.trans sameKey⟩

end GetRound

/-! ## Batches of a get call -/

namespace GetCall

theorem Runs.sent_subset {call : GetCall} {rounds : List GetRound} {progress : GetProgress}
    (runs : call.Runs rounds progress) : ∀ round ∈ rounds, round.sent ⊆ call.pending := by
  induction runs with
  | waits => simp
  | ends sent => simp [sent]
  | @retries call round left rounds progress sent stale more rest induction =>
      refine List.forall_mem_cons.mpr ⟨by rw [sent]; exact fun _ => id, ?_⟩
      intro later member
      rw [← sent]
      exact List.Subset.trans (induction later member) round.retries_subset

variable {attempts : Nat} {requests : List GetRequest} {rounds : List GetRound}
  {progress : GetProgress}

/-- A get call goes on with the requests that its latest round gave back, which are some of
those that it was made for. -/
theorem sent_of_start (positive : 0 < attempts)
    (runs : (start attempts requests).Runs rounds progress) :
    (∀ round ∈ rounds, round.sent ⊆ requests) ∧
      ∀ index round batch, rounds[index]? = some round →
        (sentBatches rounds progress)[index + 1]? = some batch →
          batch = round.sifted.retries := by
  by_cases asked : requests = []
  · subst requests
    obtain ⟨none, _⟩ := runs
    simp [none]
  · rw [start_of_ne_nil asked positive] at runs
    exact ⟨Runs.sent_subset runs, fun _ _ _ found next => Runs.next_sent runs found next⟩

theorem sentBatches_of_round {index : Nat} {round : GetRound}
    (found : rounds[index]? = some round) (progress : GetProgress) :
    (sentBatches rounds progress)[index]? = some round.sent := by
  have inRange := (List.getElem?_eq_some_iff.mp found).1
  rw [sentBatches, List.getElem?_append_left (by simpa using inRange), List.getElem?_map, found]
  rfl

/-- After the first batch, an id stands for one request. -/
theorem eq_of_id_eq_of_later (positive : 0 < attempts)
    (runs : (start attempts requests).Runs rounds progress) {index : Nat} {round : GetRound}
    (found : rounds[index]? = some round) (later : 0 < index) {first second : GetRequest}
    (firstSent : first ∈ round.sent) (secondSent : second ∈ round.sent)
    (sameId : first.id = second.id) : first = second := by
  obtain ⟨earlier, rfl⟩ := Nat.exists_eq_succ_of_ne_zero (Nat.ne_of_gt later)
  have inRange := (List.getElem?_eq_some_iff.mp found).1
  obtain ⟨before, foundBefore⟩ : ∃ before, rounds[earlier]? = some before :=
    ⟨_, List.getElem?_eq_getElem (Nat.lt_of_succ_lt inRange)⟩
  have batch := (sent_of_start positive runs).2 earlier before round.sent foundBefore
    (sentBatches_of_round found progress)
  rw [batch] at firstSent secondSent
  have known := GetRound.requestOf?_of_mem_retries firstSent
  rw [sameId, GetRound.requestOf?_of_mem_retries secondSent] at known
  exact (Option.some.inj known).symm

end GetCall

end VehicleRelay
