import Mathlib.Data.List.Perm.Subperm
import VehicleRelay.Proofs.GetCall.Retries
import VehicleRelay.Proofs.Relay.CallRuns

/-!
# Batches of retries in a run

What a get call sends again is decided by the latest answer alone, whatever the relay does
meanwhile.  Each stale result has one request sent again.  An answer that has several stale
results for an id makes the batch longer than it needs to be, and of several requests with
one id only the last one is ever sent again.
-/

namespace VehicleRelay

/-- Where an id stands for one request, that request occurs as often as its id. -/
theorem count_map_id {batch : List GetRequest} {request : GetRequest}
    (apart : ∀ other ∈ batch, other.id = request.id → other = request) :
    (batch.map GetRequest.id).count request.id = batch.count request := by
  rw [List.count, List.countP_map, List.count]
  apply List.countP_congr
  intro other member
  simp only [Function.comp_apply, beq_iff_eq]
  exact ⟨apart other member, congrArg GetRequest.id⟩

namespace Relay

variable {relay final : Relay} {requests : List GetRequest} {readings : ClockReadings}
  {turns : List (RelayTurn × ClockReadings)} {shown : List RelayOutput}

/-- A get call of distinct ids sends a request again once for each stale result of its id.
So a batch of retries lists a request twice exactly when the answer before it has two stale
results for one id, and without such results it is no longer than the batch before. -/
theorem getCalled_repeats_iff (distinct : (requests.map GetRequest.id).Nodup)
    (run : relay.run? ((.getCalled requests, readings) :: turns) = some (shown, final)) :
    let call := relay.calls.length
    let rounds := relay.roundsOf call ((.getCalled requests, readings) :: turns)
    ∃ progress, final.calls[call]? = some progress ∧
      ∀ index round batch, rounds[index]? = some round →
        (sentBatches rounds progress)[index + 1]? = some batch →
          let stale := round.staleResults.map GetResult.id
          batch ⊆ round.sent ∧ batch.length = stale.length ∧
          (∀ request ∈ round.sent, batch.count request = stale.count request.id) ∧
          (batch.Nodup ↔ stale.Nodup) ∧
          (stale.Nodup → batch.length ≤ round.sent.length) := by
  intro call rounds
  obtain ⟨progress, found, runs, _⟩ := runs_of_getCalled run
  obtain ⟨asked, next⟩ := GetCall.sent_of_start relay.attempts_pos runs
  refine ⟨progress, found, fun index round batch round_at batch_at => ?_⟩
  intro stale
  obtain rfl := next index round batch round_at batch_at
  have part := round.retries_subset
  have ids : round.sifted.retries.map GetRequest.id = stale := round.ids_retries
  have sentAsked := asked round (List.mem_of_getElem? round_at)
  have apart (first : GetRequest) (firstSent : first ∈ round.sent) (second : GetRequest)
      (secondSent : second ∈ round.sent) (same : first.id = second.id) : first = second :=
    List.inj_on_of_nodup_map distinct (sentAsked firstSent) (sentAsked secondSent) same
  have repeats : round.sifted.retries.Nodup ↔ stale.Nodup := by
    rw [← ids]
    constructor
    · intro once
      exact once.map_on fun first firstAgain second secondAgain =>
        apart first (part firstAgain) second (part secondAgain)
    · exact List.Nodup.of_map GetRequest.id
  refine ⟨part, by rw [← ids, List.length_map], ?_, repeats, ?_⟩
  · intro request sent
    rw [← ids]
    exact (count_map_id fun other again => apart other (part again) request sent).symm
  · intro once
    exact ((repeats.mpr once).subperm part).length_le

/-- One request is not answered, one is answered twice, and one answer is for nobody. -/
theorem getCalled_repeats_iff_of_misbehaved :
    let speed (time : Int64) : PropertyValue := ⟨time, 0, 1, .available, {}⟩
    let gear (time : Int64) : PropertyValue := ⟨time, 0, 2, .available, {}⟩
    let requests : List GetRequest := [⟨7, speed 0⟩, ⟨8, gear 0⟩]
    let clock := ClockReadings.still 100
    let turns : List (RelayTurn × ClockReadings) :=
      [(.getCalled requests, clock), (.streamOpened, clock), (.batchReceived [gear 20], clock),
        (.getAnswered 0 (.ok [⟨9, .ok, some (speed 90)⟩, ⟨8, .ok, some (gear 10)⟩,
          ⟨8, .notAvailable, none⟩]), clock)]
    let rounds := (start {}).roundsOf 0 turns
    ∃ shown final progress round, (start {}).run? turns = some (shown, final) ∧
      final.calls[0]? = some progress ∧ rounds[0]? = some round ∧
        (sentBatches rounds progress)[1]? = some [⟨8, gear 0⟩] ∧
          round.staleResults.map GetResult.id = [8] ∧
            [(⟨8, gear 0⟩ : GetRequest)].length ≤ round.sent.length := by
  intro speed gear requests clock turns rounds
  have called : ((start {}).run? turns).bind (fun result => result.2.calls[0]?) =
      some (.waiting ⟨[⟨8, gear 0⟩], [⟨8, .notAvailable, none⟩], 3⟩) := by rfl
  obtain ⟨⟨shown, final⟩, run, waiting⟩ := Option.bind_eq_some_iff.mp called
  have stale : rounds.map (fun round => round.staleResults.map GetResult.id) = [[8]] := by rfl
  obtain ⟨round, others, split, ids, _⟩ := List.map_eq_cons_iff.mp stale
  have first : rounds[0]? = some round := by rw [split]; rfl
  obtain ⟨progress, found, repeats⟩ := getCalled_repeats_iff (by decide) run
  obtain rfl := Option.some.inj (waiting.symm.trans found)
  have batch : (sentBatches rounds (.waiting ⟨[⟨8, gear 0⟩], [⟨8, .notAvailable, none⟩], 3⟩))[1]? =
      some [⟨8, gear 0⟩] := by rfl
  obtain ⟨_, _, _, _, shorter⟩ := repeats 0 round _ first batch
  rw [ids] at shorter
  exact ⟨shown, final, _, round, run, waiting, first, batch, ids, shorter (by decide)⟩

/-- Two stale results for one request have it sent again twice. -/
theorem retries_repeat_request :
    let gear (time : Int64) : PropertyValue := ⟨time, 0, 2, .available, {}⟩
    let request : GetRequest := ⟨8, gear 0⟩
    let clock := ClockReadings.still 100
    let turns : List (RelayTurn × ClockReadings) :=
      [(.getCalled [request], clock), (.streamOpened, clock), (.batchReceived [gear 20], clock),
        (.getAnswered 0 (.ok [⟨8, .ok, some (gear 10)⟩, ⟨8, .ok, some (gear 10)⟩]), clock)]
    ([request].map GetRequest.id).Nodup ∧
      (((start {}).run? turns).bind fun result => result.2.calls[0]?).map
          (sentBatches ((start {}).roundsOf 0 turns)) = some [[request], [request, request]] ∧
        ¬[request, request].Nodup ∧ ¬[request, request].length ≤ [request].length := by
  intro gear request clock turns
  exact ⟨by decide, by rfl, by decide, by decide⟩

/-- A stale result has its own request sent again exactly when the last request with its id
is for its key.  Where the server answers each request with a value of its own key, this is
so in every round but the first one, and in the first one too if requests with one id are
for one key. -/
theorem getCalled_retries_own_iff
    (run : relay.run? ((.getCalled requests, readings) :: turns) = some (shown, final)) :
    let call := relay.calls.length
    let rounds := relay.roundsOf call ((.getCalled requests, readings) :: turns)
    ∃ progress, final.calls[call]? = some progress ∧
      ∀ index round batch, rounds[index]? = some round →
        (sentBatches rounds progress)[index + 1]? = some batch →
          ∀ result ∈ round.staleResults, ∀ value, result.value = some value →
            (Lists batch result.id value.key ↔
              ∃ request, LastOfId round.sent result.id request ∧
                request.target.key = value.key) ∧
            (round.AnswersOwn →
              0 < index ∨ (∀ first ∈ requests, ∀ second ∈ requests, first.id = second.id →
                first.target.key = second.target.key) →
              Lists batch result.id value.key) := by
  intro call rounds
  obtain ⟨progress, found, runs, _⟩ := runs_of_getCalled run
  obtain ⟨asked, next⟩ := GetCall.sent_of_start relay.attempts_pos runs
  refine ⟨progress, found, fun index round batch round_at batch_at => ?_⟩
  intro result member value carried
  obtain ⟨_, stale⟩ := GetRound.mem_staleResults_iff.mp member
  obtain rfl := next index round batch round_at batch_at
  refine ⟨GetRound.lists_retries_iff stale value.key, fun answered unambiguous => ?_⟩
  apply answered.lists_retries stale carried
  intro first firstSent second secondSent sameId
  rcases unambiguous with later | agree
  · rw [GetCall.eq_of_id_eq_of_later relay.attempts_pos runs round_at later firstSent secondSent
      sameId]
  · have sentAsked := asked round (List.mem_of_getElem? round_at)
    exact agree first (sentAsked firstSent) second (sentAsked secondSent) sameId

/-- Two requests share an id, and the values of the last one are stale twice: once among
the two, and once alone. -/
theorem getCalled_retries_own_iff_of_shared :
    let speed (time : Int64) : PropertyValue := ⟨time, 0, 1, .available, {}⟩
    let gear (time : Int64) : PropertyValue := ⟨time, 0, 2, .available, {}⟩
    let requests : List GetRequest := [⟨7, speed 0⟩, ⟨7, gear 0⟩]
    let clock := ClockReadings.still 100
    let turns : List (RelayTurn × ClockReadings) :=
      [(.getCalled requests, clock), (.streamOpened, clock), (.batchReceived [gear 20], clock),
        (.getAnswered 0 (.ok [⟨7, .ok, some (gear 10)⟩, ⟨7, .ok, some (speed 10)⟩]), clock),
        (.getAnswered 0 (.ok [⟨7, .ok, some (gear 15)⟩]), clock)]
    let rounds := (start {}).roundsOf 0 turns
    ∃ shown final progress, (start {}).run? turns = some (shown, final) ∧
      final.calls[0]? = some progress ∧
        sentBatches rounds progress = [requests, [⟨7, gear 0⟩], [⟨7, gear 0⟩]] ∧
          rounds.map GetRound.staleResults =
            [[⟨7, .ok, some (gear 10)⟩], [⟨7, .ok, some (gear 15)⟩]] ∧
            Lists [⟨7, gear 0⟩] 7 (gear 10).key ∧ Lists [⟨7, gear 0⟩] 7 (gear 15).key := by
  intro speed gear requests clock turns rounds
  let waiting : GetProgress := .waiting ⟨[⟨7, gear 0⟩], [⟨7, .ok, some (speed 100)⟩], 2⟩
  have called : ((start {}).run? turns).bind (fun result => result.2.calls[0]?) =
      some waiting := by rfl
  obtain ⟨⟨shown, final⟩, run, isWaiting⟩ := Option.bind_eq_some_iff.mp called
  have facts : rounds.map (fun round => (round.sent, round.answer, round.staleResults)) =
      [(requests, .ok [⟨7, .ok, some (gear 10)⟩, ⟨7, .ok, some (speed 10)⟩],
          [⟨7, .ok, some (gear 10)⟩]),
        ([⟨7, gear 0⟩], .ok [⟨7, .ok, some (gear 15)⟩], [⟨7, .ok, some (gear 15)⟩])] := by rfl
  have batches : sentBatches rounds waiting =
      [requests, [⟨7, gear 0⟩], [⟨7, gear 0⟩]] := by rfl
  obtain ⟨first, later, split, firstFacts, laterFacts⟩ := List.map_eq_cons_iff.mp facts
  obtain ⟨second, none, splitLater, secondFacts, _⟩ := List.map_eq_cons_iff.mp laterFacts
  simp only [Prod.mk.injEq] at firstFacts secondFacts
  obtain ⟨sentFirst, _, staleFirst⟩ := firstFacts
  obtain ⟨sentSecond, answerSecond, staleSecond⟩ := secondFacts
  obtain ⟨progress, found, retries⟩ := getCalled_retries_own_iff run
  obtain rfl := Option.some.inj (isWaiting.symm.trans found)
  have firstRound : rounds[0]? = some first := by rw [split]; rfl
  have secondRound : rounds[1]? = some second := by rw [split, splitLater]; rfl
  have last : LastOfId first.sent 7 ⟨7, gear 0⟩ := by
    rw [sentFirst]
    exact ⟨[⟨7, speed 0⟩], [], rfl, rfl, List.forall_mem_nil _⟩
  have answered : second.AnswersOwn := by
    refine ⟨_, answerSecond, ?_⟩
    rw [sentSecond]
    exact .refl _
  have firstAgain : (sentBatches rounds waiting)[1]? = some [⟨7, gear 0⟩] := by rw [batches]; rfl
  have secondAgain : (sentBatches rounds waiting)[2]? = some [⟨7, gear 0⟩] := by rw [batches]; rfl
  have staleAtFirst : (⟨7, .ok, some (gear 10)⟩ : GetResult) ∈ first.staleResults := by
    rw [staleFirst]
    exact List.mem_singleton_self _
  have staleAtSecond : (⟨7, .ok, some (gear 15)⟩ : GetResult) ∈ second.staleResults := by
    rw [staleSecond]
    exact List.mem_singleton_self _
  obtain ⟨own, _⟩ := retries 0 first _ firstRound firstAgain _ staleAtFirst (gear 10) rfl
  obtain ⟨_, again⟩ := retries 1 second _ secondRound secondAgain _ staleAtSecond (gear 15) rfl
  exact ⟨shown, final, waiting, run, isWaiting, batches, by rfl, own.mpr ⟨_, last, rfl⟩,
    again answered (.inl Nat.one_pos)⟩

/-- Of two requests with one id, the second one is sent again for a stale value of the
first. -/
theorem stale_request_not_retried :
    let speed (time : Int64) : PropertyValue := ⟨time, 0, 1, .available, {}⟩
    let gear (time : Int64) : PropertyValue := ⟨time, 0, 2, .available, {}⟩
    let requests : List GetRequest := [⟨7, speed 0⟩, ⟨7, gear 0⟩]
    let clock := ClockReadings.still 100
    let turns : List (RelayTurn × ClockReadings) :=
      [(.getCalled requests, clock), (.streamOpened, clock), (.batchReceived [speed 20], clock),
        (.getAnswered 0 (.ok [⟨7, .ok, some (speed 10)⟩, ⟨7, .ok, some (gear 10)⟩]), clock)]
    let rounds := (start {}).roundsOf 0 turns
    (∀ round ∈ rounds, round.AnswersOwn) ∧
      rounds.map GetRound.staleResults = [[⟨7, .ok, some (speed 10)⟩]] ∧
        (((start {}).run? turns).bind fun result => result.2.calls[0]?).map
            (sentBatches rounds) = some [requests, [⟨7, gear 0⟩]] ∧
          ¬Lists [⟨7, gear 0⟩] 7 (speed 10).key := by
  intro speed gear requests clock turns rounds
  have answers : rounds.map (fun round => (round.sent, round.answer)) =
      [(requests, .ok [⟨7, .ok, some (speed 10)⟩, ⟨7, .ok, some (gear 10)⟩])] := by rfl
  refine ⟨?_, by rfl, by rfl, by decide⟩
  intro round member
  have listed : (round.sent, round.answer) ∈
      rounds.map (fun round => (round.sent, round.answer)) := List.mem_map_of_mem member
  rw [answers, List.mem_singleton] at listed
  obtain ⟨sent, answer⟩ := Prod.mk.inj listed
  refine ⟨_, answer, ?_⟩
  rw [sent]
  exact .refl _

end Relay

end VehicleRelay
