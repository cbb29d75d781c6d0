import VehicleRelay.Proofs.GetCall.Rounds

/-!
# Conservation of requests

A get call that asks for distinct ids has, at any time, a kept result or a
pending request for each of them, and never both, when the server answers every
request that it is sent.
-/

namespace VehicleRelay

namespace GetRound

variable {round : GetRound}

/-- A round moves ids from the requests that it sends to the results that are
kept, and loses none of them. -/
theorem AnswersEach.conserves (answered : round.AnswersEach) :
    (round.sifted.kept.map GetResult.id ++ round.sifted.retries.map GetRequest.id).Perm
      (round.sent.map GetRequest.id) := by
  obtain ⟨results, succeeded, answers⟩ := answered
  have partition := TimestampTable.sift_partition round.table round.readings round.sent results
  have allAsked : (results.map GetResult.id).filter
      (fun id => id ∈ round.sent.map GetRequest.id) = results.map GetResult.id := by
    rw [List.filter_eq_self]
    intro id member
    simpa using answers.mem_iff.mp member
  rw [allAsked] at partition
  simpa only [sifted, succeeded] using partition.trans answers

theorem AnswersEach.distinct_retries (answered : round.AnswersEach)
    (distinct : (round.sent.map GetRequest.id).Nodup) :
    (round.sifted.retries.map GetRequest.id).Nodup := by
  have together := answered.conserves.nodup_iff.mpr distinct
  exact (List.nodup_append.mp together).2.1

/-- With distinct ids, a request is sent again, unchanged, exactly when its own
result is stale. -/
theorem mem_retries_iff_of_distinct (distinct : (round.sent.map GetRequest.id).Nodup)
    (request : GetRequest) :
    request ∈ round.sifted.retries ↔
      request ∈ round.sent ∧ ∃ result, result.id = request.id ∧ round.FindsStale result := by
  rw [mem_retries_iff]
  constructor
  · intro retried
    obtain ⟨result, stale, known⟩ := retried
    obtain ⟨member, sameId⟩ := requestOf?_eq_some known
    exact ⟨member, result, sameId.symm, stale⟩
  · intro asked
    obtain ⟨member, result, sameId, stale⟩ := asked
    refine ⟨result, stale, ?_⟩
    rw [sameId]
    exact requestOf?_of_mem distinct member

end GetRound

namespace GetCall.Runs

variable {call : GetCall} {rounds : List GetRound} {progress : GetProgress}

theorem head_sent (runs : call.Runs rounds progress) :
    (sentBatches rounds progress).head? = some call.pending := by
  cases runs with
  | waits => rfl
  | ends sent | retries sent => simp [sentBatches, sent]

/-- What follows a round is the batch of the requests that it gave back. -/
theorem next_sent (runs : call.Runs rounds progress) {index : Nat} {round : GetRound}
    {batch : List GetRequest} (found : rounds[index]? = some round)
    (next : (sentBatches rounds progress)[index + 1]? = some batch) :
    batch = round.sifted.retries := by
  induction runs generalizing index with
  | waits => simp at found
  | ends => simp [sentBatches, GetProgress.pending?] at next
  | retries sent stale left rest induction =>
      cases index with
      | zero =>
          have first : (sentBatches _ _)[0]? = some batch := next
          rw [← List.head?_eq_getElem?, rest.head_sent] at first
          simp only [List.getElem?_cons_zero, Option.some.injEq] at found first
          rw [← first, found]
      | succ index => exact induction found next

theorem distinct_sent (runs : call.Runs rounds progress)
    (distinct : (call.pending.map GetRequest.id).Nodup)
    (answered : ∀ round ∈ rounds, round.AnswersEach) :
    ∀ round ∈ rounds, (round.sent.map GetRequest.id).Nodup := by
  induction runs with
  | waits => simp
  | ends sent => simpa [sent] using distinct
  | retries sent stale left rest induction =>
      obtain ⟨answeredNow, answeredLater⟩ := List.forall_mem_cons.mp answered
      have distinctNow := sent ▸ distinct
      refine List.forall_mem_cons.mpr ⟨distinctNow, ?_⟩
      exact induction (answeredNow.distinct_retries distinctNow) answeredLater

/-- The results that a completed get call hands over are for the ids that it
held and the ids that it asked for. -/
theorem conserves {outcome : GetOutcome} (runs : call.Runs rounds (.finished outcome))
    (answered : ∀ round ∈ rounds, round.AnswersEach) (asked : call.pending ≠ [])
    (ok : outcome.status = .ok) :
    ∃ results, outcome.delivered = some results ∧
      (results.map GetResult.id).Perm
        (call.kept.map GetResult.id ++ call.pending.map GetRequest.id) := by
  generalize finished : GetProgress.finished outcome = progress at runs
  induction runs with
  | waits => simp at finished
  | @ends call round _ sent ending =>
      obtain rfl := GetProgress.finished.inj finished
      cases ending with
      | fails | givesUp => simp at ok
      | completes succeeds current =>
          have answeredNow := answered round List.mem_cons_self
          have conserved := answeredNow.conserves
          have done : round.sifted.retries = [] := by
            simpa using mt GetRound.retries_iff.mpr current
          rw [done, List.map_nil, List.append_nil, sent] at conserved
          have some : call.kept ++ round.sifted.kept ≠ [] := by
            intro none
            rw [List.append_eq_nil_iff] at none
            rw [none.2, List.map_nil, List.nil_perm, List.map_eq_nil_iff] at conserved
            exact asked conserved
          refine ⟨call.kept ++ round.sifted.kept, by simp [delivery, some], ?_⟩
          rw [List.map_append]
          exact conserved.append_left _
  | @retries call round left rounds progress sent stale more rest induction =>
      obtain ⟨answeredNow, answeredLater⟩ := List.forall_mem_cons.mp answered
      obtain ⟨results, delivered, conserved⟩ :=
        induction answeredLater (GetRound.retries_iff.mp stale) finished
      refine ⟨results, delivered, conserved.trans ?_⟩
      rw [List.map_append, List.append_assoc, ← sent]
      exact answeredNow.conserves.append_left _

end GetCall.Runs

end VehicleRelay
