import VehicleRelay.Proofs.GetCall.CurrentResults

/-!
# Outcomes of a get call

Every round but the last one found stale results, and used up an attempt.  So
the last round decides the outcome, and the attempts alone bound the number of
rounds, whatever the server answers.
-/

namespace VehicleRelay

/-- The results that are kept in some rounds. -/
def keptIn (rounds : List GetRound) : List GetResult :=
  rounds.flatMap fun round => round.sifted.kept

/-- An outcome of a get call, by the rounds that the get call went through and
by the number of remote calls that it might make.  What is kept in a round are its
current results. -/
structure GetOutcome.DecidedBy (outcome : GetOutcome) (limit : Nat)
    (rounds : List GetRound) : Prop where
  internalError_iff : outcome.status = .internalError ↔ ∃ round ∈ rounds, round.Fails
  tryAgain_iff : outcome.status = .tryAgain ↔
    rounds.length = limit ∧ (∀ round ∈ rounds, ¬round.Fails) ∧
      ∃ last, rounds.getLast? = some last ∧ last.Retries
  ok_otherwise : outcome.status ≠ .internalError → outcome.status ≠ .tryAgain →
    outcome.status = .ok
  delivers : ∃ kept, List.Forall₂ GetRound.HandsOver rounds kept ∧
    outcome.delivered =
      if outcome.status = .ok ∧ kept.flatten ≠ [] then some kept.flatten else none

namespace GetCall.Runs

variable {call : GetCall} {rounds : List GetRound}

theorem waiting_cases {latest : GetCall} (runs : call.Runs rounds (.waiting latest)) :
    (∀ round ∈ rounds, round.Retries) ∧
      latest.attemptsLeft + rounds.length = call.attemptsLeft := by
  generalize waiting : GetProgress.waiting latest = progress at runs
  induction runs with
  | waits call =>
      obtain rfl := GetProgress.waiting.inj waiting
      simp
  | ends => simp at waiting
  | retries sent stale left rest induction =>
      obtain ⟨retried, used⟩ := induction waiting
      refine ⟨List.forall_mem_cons.mpr ⟨stale, retried⟩, ?_⟩
      rw [List.length_cons, left, ← Nat.add_assoc]
      exact congrArg Nat.succ used

/-- A get call that has finished was ended by its last round, and by no earlier
one. -/
theorem finished_cases {outcome : GetOutcome}
    (runs : call.Runs rounds (.finished outcome)) :
    ∃ earlier last, ∃ reached : GetCall, rounds = earlier ++ [last] ∧
      (∀ round ∈ earlier, round.Retries) ∧
      reached.kept = call.kept ++ keptIn earlier ∧
      reached.attemptsLeft + earlier.length = call.attemptsLeft ∧
      last.Ends reached outcome := by
  generalize finished : GetProgress.finished outcome = progress at runs
  induction runs with
  | waits => simp at finished
  | @ends call round _ sent ending =>
      obtain rfl := GetProgress.finished.inj finished
      exact ⟨[], round, call, rfl, by simp, by simp [keptIn], rfl, ending⟩
  | @retries call round _ rounds _ sent stale left rest induction =>
      obtain ⟨earlier, last, reached, rfl, retried, kept, used, ending⟩ := induction finished
      refine ⟨round :: earlier, last, reached, rfl,
        List.forall_mem_cons.mpr ⟨stale, retried⟩, ?_, ?_, ending⟩
      · simpa [keptIn] using kept
      · rw [List.length_cons, left, ← Nat.add_assoc]
        exact congrArg Nat.succ used

/-- No get call makes more remote calls than it has attempts. -/
theorem length_le {progress : GetProgress} (runs : call.Runs rounds progress) :
    (sentBatches rounds progress).length ≤ call.attemptsLeft + 1 := by
  rw [sentBatches, List.length_append, List.length_map]
  cases progress with
  | waiting latest =>
      obtain ⟨_, used⟩ := runs.waiting_cases
      simp only [GetProgress.pending?, Option.toList_some, List.length_singleton]
      omega
  | finished outcome =>
      obtain ⟨earlier, last, reached, rfl, _, _, used, _⟩ := runs.finished_cases
      simp only [GetProgress.pending?, Option.toList_none, List.length_append,
        List.length_singleton, List.length_nil]
      omega

/-- A remote call that fails ends the get call. -/
theorem eq_of_fails {before after : List GetRound} {round : GetRound}
    {progress : GetProgress} (runs : call.Runs (before ++ round :: after) progress)
    (failed : round.Fails) :
    after = [] ∧ progress = .finished ⟨.internalError, none⟩ := by
  cases progress with
  | waiting latest =>
      have retried := runs.waiting_cases.1 round (by simp)
      exact absurd failed retried.not_fails
  | finished outcome =>
      obtain ⟨earlier, last, reached, split, retried, _, _, ending⟩ := runs.finished_cases
      rcases List.eq_nil_or_concat after with rfl | ⟨others, final, rfl⟩
      · obtain ⟨_, same⟩ := List.append_inj' split rfl
        obtain rfl := List.singleton_inj.mp same
        refine ⟨rfl, ?_⟩
        cases ending with
        | fails => rfl
        | completes succeeds => exact absurd failed succeeds
        | givesUp stale => exact absurd failed stale.not_fails
      · have sameSplit : (before ++ round :: others) ++ [final] = earlier ++ [last] := by
          simpa using split
        obtain ⟨same, _⟩ := List.append_inj' sameSplit rfl
        have stale := retried round (by simp [← same])
        exact absurd failed stale.not_fails

variable {outcome : GetOutcome}

theorem internalError_iff (runs : call.Runs rounds (.finished outcome)) :
    outcome.status = .internalError ↔ ∃ round ∈ rounds, round.Fails := by
  constructor
  · intro status
    obtain ⟨earlier, last, reached, rfl, _, _, _, ending⟩ := runs.finished_cases
    cases ending with
    | fails failed => exact ⟨last, by simp, failed⟩
    | completes | givesUp => simp at status
  · intro fails
    obtain ⟨round, member, failed⟩ := fails
    obtain ⟨before, after, rfl⟩ := List.append_of_mem member
    obtain ⟨_, same⟩ := runs.eq_of_fails failed
    rw [GetProgress.finished.inj same]

theorem tryAgain_iff (runs : call.Runs rounds (.finished outcome)) :
    outcome.status = .tryAgain ↔
      rounds.length = call.attemptsLeft + 1 ∧ (∀ round ∈ rounds, ¬round.Fails) ∧
        ∃ last, rounds.getLast? = some last ∧ last.Retries := by
  obtain ⟨earlier, last, reached, rfl, retried, _, used, ending⟩ := runs.finished_cases
  cases ending with
  | fails failed =>
      apply iff_of_false (by simp)
      intro spent
      obtain ⟨_, succeeded, _⟩ := spent
      exact succeeded last (by simp) failed
  | completes succeeds current =>
      apply iff_of_false (by simp)
      intro spent
      obtain ⟨_, _, final, same, stale⟩ := spent
      rw [List.getLast?_concat] at same
      exact current (Option.some.inj same ▸ stale)
  | givesUp stale none =>
      have succeeded : ∀ round ∈ earlier ++ [last], ¬round.Fails := by
        intro round member
        rcases List.mem_append.mp member with before | now
        · exact (retried round before).not_fails
        · exact List.mem_singleton.mp now ▸ stale.not_fails
      have length : (earlier ++ [last]).length = call.attemptsLeft + 1 := by
        rw [List.length_append, List.length_singleton]
        omega
      exact iff_of_true rfl ⟨length, succeeded, last, List.getLast?_concat, stale⟩

/-- There are three statuses that a get call may end with. -/
theorem status_cases (runs : call.Runs rounds (.finished outcome)) :
    outcome.status = .internalError ∨ outcome.status = .tryAgain ∨ outcome.status = .ok := by
  obtain ⟨_, _, _, _, _, _, _, ending⟩ := runs.finished_cases
  cases ending with
  | fails => exact .inl rfl
  | completes => exact .inr (.inr rfl)
  | givesUp => exact .inr (.inl rfl)

/-- The callback is given all kept results of a get call that completes, if there
are any, and nothing of another one. -/
theorem delivered_eq (runs : call.Runs rounds (.finished outcome)) :
    outcome.delivered =
      if outcome.status = .ok then delivery (call.kept ++ keptIn rounds) else none := by
  obtain ⟨earlier, last, reached, rfl, _, kept, _, ending⟩ := runs.finished_cases
  cases ending with
  | fails | givesUp => simp
  | completes => simp [kept, keptIn]

end GetCall.Runs

/-! ## Get calls from their start -/

/-- Every round hands over what it has kept. -/
theorem handsOver_keptIn (rounds : List GetRound) :
    List.Forall₂ GetRound.HandsOver rounds (rounds.map fun round => round.sifted.kept) := by
  rw [List.forall₂_map_right_iff, List.forall₂_same]
  exact fun round _ => round.handsOver_kept

namespace GetCall

variable {attempts : Nat} {requests : List GetRequest} {rounds : List GetRound}
  {progress : GetProgress} {outcome : GetOutcome}

/-- A get call for nothing makes no remote call. -/
theorem sent_of_nil (runs : (start attempts []).Runs rounds progress) :
    sentBatches rounds progress = [] := by
  obtain ⟨none, finished⟩ := runs
  rw [none, finished]
  rfl

/-- The callback is given all kept results of a get call that completes, and it is not
called for none. -/
theorem delivered_of_start (positive : 0 < attempts)
    (runs : (start attempts requests).Runs rounds (.finished outcome)) :
    outcome.delivered = if outcome.status = .ok then delivery (keptIn rounds) else none := by
  by_cases asked : requests = []
  · subst requests
    obtain ⟨rfl, finished⟩ := runs
    rw [GetProgress.finished.inj finished]
    rfl
  · rw [start_of_ne_nil asked positive] at runs
    exact GetCall.Runs.delivered_eq runs

theorem eq_keptIn_of_delivered (positive : 0 < attempts)
    (runs : (start attempts requests).Runs rounds (.finished outcome))
    {results : List GetResult} (delivered : outcome.delivered = some results) :
    results = keptIn rounds := by
  rw [delivered_of_start positive runs, delivery] at delivered
  split at delivered
  · split at delivered
    · simp at delivered
    · exact (Option.some.inj delivered).symm
  · simp at delivered

theorem sent_length_le (positive : 0 < attempts)
    (runs : (start attempts requests).Runs rounds progress) :
    (sentBatches rounds progress).length ≤ attempts := by
  by_cases asked : requests = []
  · subst requests
    rw [sent_of_nil runs]
    exact Nat.zero_le _
  · rw [start_of_ne_nil asked positive] at runs
    have bounded := GetCall.Runs.length_le runs
    simp only at bounded
    omega

theorem last_of_fails (positive : 0 < attempts) {before after : List GetRound}
    {round : GetRound}
    (runs : (start attempts requests).Runs (before ++ round :: after) progress)
    (failed : round.Fails) : after = [] ∧ progress.pending? = none := by
  by_cases asked : requests = []
  · subst requests
    obtain ⟨none, _⟩ := runs
    simp at none
  · rw [start_of_ne_nil asked positive] at runs
    obtain ⟨last, finished⟩ := GetCall.Runs.eq_of_fails runs failed
    rw [finished]
    exact ⟨last, rfl⟩

theorem decidedBy (positive : 0 < attempts)
    (runs : (start attempts requests).Runs rounds (.finished outcome)) :
    outcome.DecidedBy attempts rounds := by
  have delivers : ∃ kept, List.Forall₂ GetRound.HandsOver rounds kept ∧ outcome.delivered =
      if outcome.status = .ok ∧ kept.flatten ≠ [] then some kept.flatten else none := by
    refine ⟨_, handsOver_keptIn rounds, ?_⟩
    rw [delivered_of_start positive runs, delivery, keptIn, List.flatMap_def]
    by_cases none : (rounds.map fun round => round.sifted.kept).flatten = []
    · simp [none]
    · simp [none]
  by_cases asked : requests = []
  · subst requests
    obtain ⟨rfl, finished⟩ := runs
    obtain rfl := GetProgress.finished.inj finished
    refine ⟨by simp, iff_of_false (by simp) ?_, fun _ _ => rfl, delivers⟩
    intro spent
    exact absurd spent.1 (Nat.ne_of_lt positive)
  · rw [start_of_ne_nil asked positive] at runs
    have called : GetCall.Runs ⟨requests, [], attempts - 1⟩ rounds (.finished outcome) := runs
    refine ⟨called.internalError_iff, ?_, ?_, delivers⟩
    · have spent := called.tryAgain_iff
      rwa [Nat.sub_add_cancel positive] at spent
    · intro notFailed notSpent
      rcases called.status_cases with failed | spent | ok
      · exact absurd failed notFailed
      · exact absurd spent notSpent
      · exact ok

end GetCall

end VehicleRelay
