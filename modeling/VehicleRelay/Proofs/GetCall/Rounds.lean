import VehicleRelay.Proofs.GetCall.Sifting

/-!
# Rounds of a get call

A round is a remote call of a get call together with its answer.  `Runs` says
how rounds follow each other, and how the last one ends the get call.  The
table may be another one in every round.
-/

namespace VehicleRelay

/-- An answer to a remote call, with the table and the clock that it meets. -/
structure Arrival where
  table : TimestampTable
  readings : ClockReadings
  answer : RpcResult (List GetResult)

/-- A remote call of a get call that has been answered. -/
structure GetRound extends Arrival where
  sent : List GetRequest

namespace GetRound

def Fails (round : GetRound) : Prop :=
  ∃ error, round.answer = .error error

/-- A result of the round was stale when it was presented. -/
def FindsStale (round : GetRound) (result : GetResult) : Prop :=
  ∃ results, round.answer = .ok results ∧
    round.table.FindsStale round.readings round.sent results result

/-- A result that was asked for was stale. -/
def Retries (round : GetRound) : Prop :=
  ∃ result, round.FindsStale result ∧ result.id ∈ round.sent.map GetRequest.id

/-- The server gave one result for each request of the round, in any order. -/
def AnswersEach (round : GetRound) : Prop :=
  ∃ results, round.answer = .ok results ∧
    (results.map GetResult.id).Perm (round.sent.map GetRequest.id)

/-- What becomes of the results of the round; a call that failed has none. -/
def sifted (round : GetRound) : Sifted :=
  match round.answer with
  | .ok results => round.table.sift round.readings round.sent results
  | .error _ => ⟨[], [], round.table⟩

/-- The values that the results of the round carry. -/
def carried (round : GetRound) : List PropertyValue :=
  match round.answer with
  | .ok results => carriedValues round.sent results
  | .error _ => []

/-- A round admits the values of its results as a batch admits its values. -/
theorem sifted_values (round : GetRound) :
    (round.sifted.kept.filterMap GetResult.value, round.sifted.table) =
      round.table.restampAll round.readings round.carried := by
  cases answered : round.answer with
  | error error =>
      simp only [sifted, carried, answered]
      rfl
  | ok results =>
      simp only [sifted, carried, answered]
      exact TimestampTable.sift_eq_restampAll _ _ _ _

theorem mem_retries_iff {round : GetRound} {request : GetRequest} :
    request ∈ round.sifted.retries ↔
      ∃ result, round.FindsStale result ∧
        requestOf? round.sent result.id = some request := by
  cases answered : round.answer with
  | error error => simp [sifted, FindsStale, answered]
  | ok results => simp [sifted, FindsStale, answered, TimestampTable.mem_retries_iff]

theorem retries_iff {round : GetRound} :
    round.Retries ↔ round.sifted.retries ≠ [] := by
  rw [List.ne_nil_iff_exists_cons]
  constructor
  · intro retries
    obtain ⟨result, stale, asked⟩ := retries
    obtain ⟨request, known⟩ :=
      Option.isSome_iff_exists.mp (requestOf?_isSome_iff.mpr asked)
    have member := mem_retries_iff.mpr ⟨result, stale, known⟩
    exact List.exists_cons_of_ne_nil (List.ne_nil_of_mem member)
  · intro retries
    obtain ⟨request, others, retries⟩ := retries
    have member : request ∈ round.sifted.retries := by simp [retries]
    obtain ⟨result, stale, known⟩ := mem_retries_iff.mp member
    exact ⟨result, stale, requestOf?_isSome_iff.mp (by simp [known])⟩

theorem Retries.not_fails {round : GetRound} (retries : round.Retries) :
    ¬round.Fails := by
  intro fails
  obtain ⟨error, failed⟩ := fails
  obtain ⟨_, ⟨results, answered, _⟩, _⟩ := retries
  simp [failed] at answered

end GetRound

namespace GetProgress

/-- The requests of the remote call that is not answered yet. -/
def pending? : GetProgress → Option (List GetRequest)
  | .waiting call => some call.pending
  | .finished _ => none

def outcome? : GetProgress → Option GetOutcome
  | .waiting _ => none
  | .finished outcome => some outcome

end GetProgress

/-- The batches of requests that a get call has sent, the unanswered one last. -/
def sentBatches (rounds : List GetRound) (progress : GetProgress) :
    List (List GetRequest) :=
  rounds.map GetRound.sent ++ progress.pending?.toList

namespace GetCall

/-- The results that the callback is given; it is not called for none at all. -/
def delivery (kept : List GetResult) : Option (List GetResult) :=
  if kept.isEmpty then none else some kept

end GetCall

/-- How a round ends the get call that waited for it. -/
inductive GetRound.Ends (round : GetRound) (call : GetCall) : GetOutcome → Prop
  | fails :
      round.Fails → round.Ends call ⟨.internalError, none⟩
  | completes :
      ¬round.Fails → ¬round.Retries →
      round.Ends call ⟨.ok, GetCall.delivery (call.kept ++ round.sifted.kept)⟩
  | givesUp :
      round.Retries → call.attemptsLeft = 0 → round.Ends call ⟨.tryAgain, none⟩

namespace GetCall

/-- How a get call goes on from one remote call to the next. -/
inductive Runs : GetCall → List GetRound → GetProgress → Prop
  | waits (call : GetCall) : Runs call [] (.waiting call)
  | ends {call : GetCall} {round : GetRound} {outcome : GetOutcome} :
      round.sent = call.pending → round.Ends call outcome →
      Runs call [round] (.finished outcome)
  | retries {call : GetCall} {round : GetRound} {left : Nat}
      {rounds : List GetRound} {progress : GetProgress} :
      round.sent = call.pending → round.Retries → call.attemptsLeft = left + 1 →
      Runs ⟨round.sifted.retries, call.kept ++ round.sifted.kept, left⟩ rounds progress →
      Runs call (round :: rounds) progress

/-- The round that an answer makes of the latest remote call. -/
def roundOf (call : GetCall) (arrival : Arrival) : GetRound :=
  { arrival with sent := call.pending }

end GetCall

/-- How a get call goes on from any progress; one that has finished stays as it is. -/
def GetProgress.Runs : GetProgress → List GetRound → GetProgress → Prop
  | .waiting call, rounds, progress => call.Runs rounds progress
  | .finished outcome, rounds, progress => rounds = [] ∧ progress = .finished outcome

theorem GetCall.start_nil (maxAttempts : Nat) :
    GetCall.start maxAttempts [] = .finished ⟨.ok, none⟩ := by
  cases maxAttempts <;> rfl

/-- A get call for something uses up its first attempt at once. -/
theorem GetCall.start_of_ne_nil {requests : List GetRequest} (asked : requests ≠ [])
    {maxAttempts : Nat} (attempts : 0 < maxAttempts) :
    GetCall.start maxAttempts requests = .waiting ⟨requests, [], maxAttempts - 1⟩ := by
  obtain ⟨left, rfl⟩ := Nat.exists_eq_succ_of_ne_zero (Nat.ne_of_gt attempts)
  rw [start, next, if_neg (by simpa using asked)]
  rfl

theorem GetProgress.runs_refl (progress : GetProgress) : progress.Runs [] progress := by
  cases progress with
  | waiting call => exact .waits call
  | finished outcome => exact ⟨rfl, rfl⟩

namespace GetCall

theorem resume_table (call : GetCall) (arrival : Arrival) :
    (call.resume arrival.table arrival.readings arrival.answer).2 =
      (call.roundOf arrival).sifted.table := by
  obtain ⟨table, readings, answer⟩ := arrival
  cases answer with
  | error error => rfl
  | ok results => rfl

/-- An answer either ends the get call or makes it wait for another round. -/
theorem runs_of_resume (call : GetCall) (arrival : Arrival) {rounds : List GetRound}
    {progress : GetProgress}
    (later : (call.resume arrival.table arrival.readings arrival.answer).1.Runs
      rounds progress) :
    call.Runs (call.roundOf arrival :: rounds) progress := by
  obtain ⟨table, readings, answer⟩ := arrival
  cases answer with
  | error error =>
      obtain ⟨rfl, rfl⟩ := later
      exact .ends rfl (.fails ⟨error, rfl⟩)
  | ok results =>
      let round : GetRound := call.roundOf ⟨table, readings, .ok results⟩
      have sifted : round.sifted = table.sift readings call.pending results := rfl
      have succeeds : ¬round.Fails := by
        intro fails
        obtain ⟨error, failed⟩ := fails
        simp [round, roundOf] at failed
      simp only [resume, next, ← sifted] at later
      by_cases stale : round.Retries
      · have again := GetRound.retries_iff.mp stale
        rw [if_neg (by simpa using again)] at later
        cases left : call.attemptsLeft with
        | zero =>
            rw [left] at later
            obtain ⟨rfl, rfl⟩ := later
            exact .ends rfl (.givesUp stale left)
        | succ attempts =>
            rw [left] at later
            exact .retries rfl stale left later
      · have done : round.sifted.retries = [] := by
          simpa using mt GetRound.retries_iff.mpr stale
        rw [if_pos (by simp [done])] at later
        obtain ⟨rfl, rfl⟩ := later
        exact .ends rfl (.completes succeeds stale)

end GetCall

end VehicleRelay
