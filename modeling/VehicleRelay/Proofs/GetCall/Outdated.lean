import VehicleRelay.Proofs.GetCall.Conservation
import VehicleRelay.Proofs.GetCall.Stored

/-!
# Get calls of a store that stays as it is

A stored value is outdated when the table has a later time of its key.  Answers from a
store change no record that is as late as the stored value of its key, so the same
values are outdated in every round.  A get call that asks for one of them sends the same
requests again until its attempts are used up.
-/

namespace VehicleRelay

namespace TimestampTable

variable {store : FiniteMap PropertyKey PropertyValue} {table earlier later last : TimestampTable}
  {key : PropertyKey}

/-- The table has a later time of the key than the stored value. -/
def outdates (table : TimestampTable) (store : FiniteMap PropertyKey PropertyValue)
    (key : PropertyKey) : Bool :=
  match store.get? key, table.stamp? key with
  | some value, some stamp => value.timestamp < stamp.external
  | _, _ => false

theorem outdates_iff : table.outdates store key ↔ ∃ value stamp,
    store.get? key = some value ∧ table.stamp? key = some stamp ∧
      value.timestamp < stamp.external := by
  rw [outdates]
  cases store.get? key with
  | none => simp
  | some value =>
      cases table.stamp? key with
      | none => simp
      | some stamp => simp

theorem isStale_iff {value : PropertyValue} (stored : store.get? value.key = some value) :
    table.IsStale value ↔ table.outdates store value.key := by
  rw [outdates_iff]
  constructor
  · intro stale
    obtain ⟨stamp, found, newer⟩ := stale
    exact ⟨value, stamp, stored, found, newer⟩
  · intro outdated
    obtain ⟨other, stamp, found, recorded, newer⟩ := outdated
    obtain rfl := Option.some.inj (stored.symm.trans found)
    exact ⟨stamp, recorded, newer⟩

/-- From an earlier table to a later one, records that are as late as the stored values
have stayed, and no other record has become later than the stored value. -/
structure Steady (store : FiniteMap PropertyKey PropertyValue)
    (earlier later : TimestampTable) : Prop where
  kept : ∀ key value stamp, store.get? key = some value → earlier.stamp? key = some stamp →
    value.timestamp ≤ stamp.external → later.stamp? key = some stamp
  current : ∀ key, ¬earlier.outdates store key → ¬later.outdates store key

namespace Steady

theorem refl (table : TimestampTable) : Steady store table table where
  kept _ _ _ _ found _ := found
  current _ current := current

theorem trans (first : Steady store earlier later) (second : Steady store later last) :
    Steady store earlier last where
  kept key value stamp stored found notOlder :=
    second.kept key value stamp stored (first.kept key value stamp stored found notOlder)
      notOlder
  current key current := second.current key (first.current key current)

theorem stamp?_eq (steady : Steady store earlier later)
    (outdated : earlier.outdates store key) : later.stamp? key = earlier.stamp? key := by
  obtain ⟨value, stamp, stored, found, newer⟩ := outdates_iff.mp outdated
  rw [found]
  exact steady.kept key value stamp stored found (Std.le_of_lt newer)

theorem outdates_eq (steady : Steady store earlier later) (key : PropertyKey) :
    later.outdates store key = earlier.outdates store key := by
  by_cases outdated : earlier.outdates store key
  · rw [outdates, outdates, steady.stamp?_eq outdated]
  · rw [Bool.eq_false_iff.mpr outdated, Bool.eq_false_iff.mpr (steady.current key outdated)]

end Steady

/-- A stored value that is not outdated is admitted, and its time is recorded. -/
theorem restamp_of_stored {value : PropertyValue} (stored : store.get? value.key = some value)
    (current : ¬table.outdates store value.key) (clock : Int64) :
    ∃ localTime next, table.restamp clock value = (some (value.withTimestamp localTime), next) ∧
      next.stamp? value.key = some ⟨value.timestamp, localTime⟩ ∧ Steady store table next := by
  rcases restamp_cases table clock value with ⟨stamp, advanced, restamped⟩ | ⟨stale, _⟩
  · let next : TimestampTable := ⟨table.stamps.insert value.key stamp⟩
    have external := Stamp.external_of_advance advanced
    have atKey : next.stamp? value.key = some stamp := FiniteMap.get?_insert_self _ _ _
    have elsewhere {key : PropertyKey} (different : key ≠ value.key) :
        next.stamp? key = table.stamp? key :=
      FiniteMap.get?_insert_of_ne _ different _
    refine ⟨stamp.localTime, next, restamped, ?_, ?_, ?_⟩
    · rw [atKey, ← external]
    · intro key other recorded found recordedBefore notOlder
      by_cases same : key = value.key
      · subst same
        obtain rfl := Option.some.inj (stored.symm.trans found)
        have notNewer : ¬value.timestamp < recorded.external := by
          intro newer
          exact current (outdates_iff.mpr ⟨value, recorded, stored, recordedBefore, newer⟩)
        have sameTime := Std.le_antisymm notOlder (Std.not_lt.mp notNewer)
        have unchanged : some recorded = some stamp := by
          rw [← advanced, recordedBefore]
          simp [Stamp.advance?, sameTime]
        rw [atKey, unchanged]
      · rw [elsewhere same]
        exact recordedBefore
    · intro key before after
      by_cases same : key = value.key
      · subst same
        obtain ⟨other, recorded, found, recordedAfter, newer⟩ := outdates_iff.mp after
        obtain rfl := Option.some.inj (stored.symm.trans found)
        obtain rfl := Option.some.inj (atKey.symm.trans recordedAfter)
        rw [external] at newer
        exact Std.lt_irrefl newer
      · rw [outdates, elsewhere same] at after
        exact before after
  · have stale := (isStale_iff stored).mp (Stamp.advance?_eq_none_iff.mp stale)
    exact absurd stale current

/-- Presenting stored values leaves the table steady. -/
theorem steady_restampAll {values : List PropertyValue}
    (stored : ∀ value ∈ values, store.get? value.key = some value) (readings : ClockReadings) :
    Steady store table (table.restampAll readings values).2 := by
  induction values generalizing table readings with
  | nil => exact .refl table
  | cons value values induction =>
      obtain ⟨storedFirst, storedOthers⟩ := List.forall_mem_cons.mp stored
      by_cases outdated : table.outdates store value.key
      · have stale := (isStale_iff storedFirst).mpr outdated
        rw [restampAll, restamp_of_stale stale]
        exact induction storedOthers readings.rest
      · obtain ⟨localTime, next, restamped, _, steady⟩ :=
          restamp_of_stored storedFirst outdated readings.first
        rw [restampAll, restamped]
        exact steady.trans (induction storedOthers readings.rest)

end TimestampTable

open TimestampTable

namespace ScriptedServer

variable {server : ScriptedServer} {table earlier later : TimestampTable}

/-- What a get call hands over for a request: the stored value at the local time that the
table has for it, or that there is none. -/
def HandsOver (server : ScriptedServer) (table : TimestampTable) (request : GetRequest)
    (result : GetResult) : Prop :=
  result.id = request.id ∧
    match server.store.get? request.target.key with
    | none => result.status = .notAvailable ∧ result.value = none
    | some value => result.status = .ok ∧
        ∃ localTime, result.value = some (value.withTimestamp localTime) ∧
          table.stamp? request.target.key = some ⟨value.timestamp, localTime⟩

theorem HandsOver.of_steady (steady : Steady server.store earlier later)
    {request : GetRequest} {result : GetResult}
    (handed : server.HandsOver earlier request result) :
    server.HandsOver later request result := by
  obtain ⟨sameId, handed⟩ := handed
  refine ⟨sameId, ?_⟩
  cases stored : server.store.get? request.target.key with
  | none => simpa [stored] using handed
  | some value =>
      simp only [stored] at handed ⊢
      obtain ⟨status, localTime, restamped, recorded⟩ := handed
      exact ⟨status, localTime, restamped,
        steady.kept _ value _ stored recorded (Std.le_refl _)⟩

/-- The requests for whose keys outdated values are stored. -/
def outdatedRequests (server : ScriptedServer) (table : TimestampTable)
    (requests : List GetRequest) : List GetRequest :=
  requests.filter fun request => table.outdates server.store request.target.key

/-- The requests that the store answers for good. -/
def currentRequests (server : ScriptedServer) (table : TimestampTable)
    (requests : List GetRequest) : List GetRequest :=
  requests.filter fun request => !table.outdates server.store request.target.key

theorem outdatedRequests_of_steady (steady : Steady server.store earlier later)
    (requests : List GetRequest) :
    server.outdatedRequests later requests = server.outdatedRequests earlier requests := by
  simp only [outdatedRequests, steady.outdates_eq]

theorem currentRequests_of_steady (steady : Steady server.store earlier later)
    (requests : List GetRequest) :
    server.currentRequests later requests = server.currentRequests earlier requests := by
  simp only [currentRequests, steady.outdates_eq]

theorem outdatedRequests_self (server : ScriptedServer) (table : TimestampTable)
    (requests : List GetRequest) :
    server.outdatedRequests table (server.outdatedRequests table requests) =
      server.outdatedRequests table requests := by
  simp only [outdatedRequests, List.filter_filter, Bool.and_self]

theorem currentRequests_eq_self {requests : List GetRequest}
    (none : server.outdatedRequests table requests = []) :
    server.currentRequests table requests = requests := by
  apply List.filter_eq_self.mpr
  intro request member
  have current := List.filter_eq_nil_iff.mp none request member
  simpa using current

/-- An answer from the store leaves the table steady, whatever was asked for. -/
theorem steady_sift (table : TimestampTable) (keyed : server.Keyed)
    (asked requests : List GetRequest) (readings : ClockReadings) :
    Steady server.store table
      (table.sift readings asked (requests.map server.storedResult)).table := by
  have sifted := congrArg Prod.snd
    (sift_eq_restampAll table readings asked (requests.map server.storedResult))
  simp only at sifted
  rw [sifted]
  apply steady_restampAll
  intro value member
  obtain ⟨result, answered, carried⟩ := List.mem_filterMap.mp member
  have given : value ∈ server.storedValues requests :=
    List.mem_filterMap.mpr ⟨result, (List.mem_filter.mp answered).1, carried⟩
  exact get?_of_mem_storedValues keyed given

/-- Of an answer from the store, the results of outdated values give their own requests
back and the others are kept, both in the order of the requests. -/
theorem sift_eq_outdated (table : TimestampTable) (keyed : server.Keyed)
    {asked requests : List GetRequest} (distinct : (asked.map GetRequest.id).Nodup)
    (known : ∀ request ∈ requests, request ∈ asked) (readings : ClockReadings) :
    let sifted := table.sift readings asked (requests.map server.storedResult)
    sifted.retries = server.outdatedRequests table requests ∧
      List.Forall₂ (server.HandsOver sifted.table) (server.currentRequests table requests)
        sifted.kept := by
  induction requests generalizing table readings with
  | nil => exact ⟨rfl, .nil⟩
  | cons request requests induction =>
      obtain ⟨first, others⟩ := List.forall_mem_cons.mp known
      have found := requestOf?_of_mem distinct first
      rw [outdatedRequests, currentRequests, List.filter_cons, List.filter_cons, List.map_cons]
      cases stored : server.store.get? request.target.key with
      | none =>
          have current : table.outdates server.store request.target.key = false := by
            rw [outdates, stored]
          obtain ⟨retries, kept⟩ := @induction table others readings
          rw [storedResult_of_absent stored, sift_cons_of_empty found rfl, current]
          refine ⟨retries, .cons ⟨rfl, ?_⟩ kept⟩
          simp [stored]
      | some value =>
          have sameKey := keyed _ value stored
          have storedAtKey : server.store.get? value.key = some value := by
            rw [sameKey, stored]
          rw [storedResult_of_stored stored, ← sameKey]
          by_cases outdated : table.outdates server.store value.key
          · have stale := (isStale_iff storedAtKey).mpr outdated
            obtain ⟨retries, kept⟩ := @induction table others readings.rest
            rw [sift_cons_of_stale found rfl stale, outdated]
            exact ⟨congrArg (request :: ·) retries, kept⟩
          · obtain ⟨localTime, next, restamped, recorded, steady⟩ :=
              restamp_of_stored storedAtKey outdated readings.first
            obtain ⟨retries, kept⟩ := @induction next others readings.rest
            rw [outdatedRequests_of_steady steady] at retries
            rw [currentRequests_of_steady steady] at kept
            rw [sift_cons_of_current found rfl restamped, Bool.eq_false_iff.mpr outdated]
            have handed : server.HandsOver next request
                ⟨request.id, .ok, some (value.withTimestamp localTime)⟩ := by
              refine ⟨rfl, ?_⟩
              simp only [stored]
              exact ⟨trivial, localTime, rfl, sameKey ▸ recorded⟩
            have rest := steady_sift next keyed asked requests readings.rest
            exact ⟨retries, .cons (handed.of_steady rest) kept⟩

end ScriptedServer

/-- The round is answered from a store, and the table has been steady since an earlier
one. -/
structure GetRound.FromStore (round : GetRound) (server : ScriptedServer)
    (earlier : TimestampTable) : Prop where
  answer : round.answer = .ok (round.sent.map server.storedResult)
  steady : Steady server.store earlier round.table

namespace GetRound.FromStore

variable {round : GetRound} {server : ScriptedServer} {earlier : TimestampTable}

theorem not_fails (fromStore : round.FromStore server earlier) : ¬round.Fails := by
  intro fails
  obtain ⟨error, failed⟩ := fails
  simp [fromStore.answer] at failed

theorem sifted (fromStore : round.FromStore server earlier) (keyed : server.Keyed)
    (distinct : (round.sent.map GetRequest.id).Nodup) :
    round.sifted.retries = server.outdatedRequests earlier round.sent ∧
      List.Forall₂ (server.HandsOver round.sifted.table)
        (server.currentRequests earlier round.sent) round.sifted.kept := by
  have split := ScriptedServer.sift_eq_outdated round.table keyed distinct
    (fun _ member => member) round.readings
  rw [ScriptedServer.outdatedRequests_of_steady fromStore.steady,
    ScriptedServer.currentRequests_of_steady fromStore.steady] at split
  simpa only [GetRound.sifted, fromStore.answer] using split

end GetRound.FromStore

section

variable {call : GetCall} {rounds : List GetRound} {progress : GetProgress}
  {server : ScriptedServer} {earlier : TimestampTable}

/-- A get call without outdated values ends well after one remote call. -/
theorem GetCall.Runs.ends_of_current (runs : call.Runs rounds progress) (keyed : server.Keyed)
    (asked : call.pending ≠ []) (distinct : (call.pending.map GetRequest.id).Nodup)
    (fresh : call.kept = []) (current : server.outdatedRequests earlier call.pending = [])
    (answered : ∀ round ∈ rounds, round.FromStore server earlier) :
    sentBatches rounds progress = [call.pending] ∧
      (progress.outcome?.isSome ↔ rounds.length = 1) ∧
      ∀ outcome, progress = .finished outcome →
        ∃ round ∈ rounds, ∃ results, outcome = ⟨.ok, some results⟩ ∧
          List.Forall₂ (server.HandsOver round.sifted.table) call.pending results := by
  cases runs with
  | waits => simp [sentBatches, GetProgress.pending?, GetProgress.outcome?]
  | @ends _ round outcome sent ending =>
      have fromStore := answered round List.mem_cons_self
      obtain ⟨retries, kept⟩ := fromStore.sifted keyed (sent ▸ distinct)
      rw [sent, current] at retries
      rw [sent, ScriptedServer.currentRequests_eq_self current] at kept
      refine ⟨by simp [sentBatches, GetProgress.pending?, sent],
        by simp [GetProgress.outcome?], ?_⟩
      intro other finished
      obtain rfl := GetProgress.finished.inj finished
      cases ending with
      | fails failed => exact absurd failed fromStore.not_fails
      | givesUp stale => exact absurd retries (GetRound.retries_iff.mp stale)
      | completes =>
          have some : round.sifted.kept ≠ [] := by
            intro nothing
            rw [nothing, List.forall₂_nil_right_iff] at kept
            exact asked kept
          refine ⟨round, List.mem_cons_self, round.sifted.kept, ?_, kept⟩
          simp [delivery, fresh, some]
  | @retries _ round _ _ _ sent stale =>
      have fromStore := answered round List.mem_cons_self
      have retries := (fromStore.sifted keyed (sent ▸ distinct)).1
      rw [sent, current] at retries
      exact absurd retries (GetRound.retries_iff.mp stale)

/-- A get call with outdated values sends the requests of them again until its attempts
are used up. -/
theorem GetCall.Runs.gives_up_of_outdated (runs : call.Runs rounds progress)
    (keyed : server.Keyed) (distinct : (call.pending.map GetRequest.id).Nodup)
    (outdated : server.outdatedRequests earlier call.pending ≠ [])
    (answered : ∀ round ∈ rounds, round.FromStore server earlier) :
    sentBatches rounds progress =
        (call.pending :: List.replicate call.attemptsLeft
          (server.outdatedRequests earlier call.pending)).take (rounds.length + 1) ∧
      progress.outcome? =
        if rounds.length = call.attemptsLeft + 1 then some ⟨.tryAgain, none⟩ else none := by
  induction runs with
  | waits call => simp [sentBatches, GetProgress.pending?, GetProgress.outcome?]
  | @ends call round outcome sent ending =>
      have fromStore := answered round List.mem_cons_self
      have retries := (fromStore.sifted keyed (sent ▸ distinct)).1
      rw [sent] at retries
      cases ending with
      | fails failed => exact absurd failed fromStore.not_fails
      | completes succeeds current =>
          have again : round.Retries := GetRound.retries_iff.mpr (retries ▸ outdated)
          exact absurd again current
      | givesUp stale spent =>
          simp [sentBatches, GetProgress.pending?, GetProgress.outcome?, sent, spent]
  | @retries call round left rounds progress sent stale more rest induction =>
      obtain ⟨fromStore, later⟩ := List.forall_mem_cons.mp answered
      have retries := (fromStore.sifted keyed (sent ▸ distinct)).1
      rw [sent] at retries
      have distinctAgain : ((server.outdatedRequests earlier call.pending).map
          GetRequest.id).Nodup :=
        distinct.sublist (List.filter_sublist.map _)
      rw [retries, ScriptedServer.outdatedRequests_self] at induction
      obtain ⟨batches, outcome⟩ := induction distinctAgain outdated later
      constructor
      · rw [more, List.replicate_succ, List.length_cons, List.take_succ_cons, ← batches,
          ← sent]
        rfl
      · rw [outcome, more, List.length_cons]
        simp only [Nat.add_right_cancel_iff]

/-- The batches that a get call sends while the store stays as it is. -/
def plannedBatches (limit : Nat) (requests outdated : List GetRequest) :
    List (List GetRequest) :=
  if outdated = [] then [requests] else requests :: List.replicate (limit - 1) outdated

/-- A get call of distinct requests that is answered from a store goes on as planned. -/
theorem GetCall.runs_of_fromStore {attempts : Nat} (positive : 0 < attempts)
    {requests : List GetRequest}
    (runs : (GetCall.start attempts requests).Runs rounds progress) (keyed : server.Keyed)
    (asked : requests ≠ []) (distinct : (requests.map GetRequest.id).Nodup)
    (answered : ∀ round ∈ rounds, round.FromStore server earlier) :
    let outdated := server.outdatedRequests earlier requests
    let batches := plannedBatches attempts requests outdated
    sentBatches rounds progress = batches.take (rounds.length + 1) ∧
      (progress.outcome?.isSome ↔ rounds.length = batches.length) ∧
      ∀ outcome, progress = .finished outcome →
        if outdated = [] then
          ∃ round ∈ rounds, ∃ results, outcome = ⟨.ok, some results⟩ ∧
            List.Forall₂ (server.HandsOver round.sifted.table) requests results
        else outcome = ⟨.tryAgain, none⟩ := by
  intro outdated batches
  rw [start_of_ne_nil asked positive] at runs
  let call : GetCall := ⟨requests, [], attempts - 1⟩
  have called : call.Runs rounds progress := runs
  by_cases current : outdated = []
  · obtain ⟨sent, ended, handed⟩ := called.ends_of_current keyed asked distinct rfl current answered
    have single : batches = [requests] := if_pos current
    rw [single, List.take_succ_cons, List.take_nil]
    refine ⟨sent, ended, ?_⟩
    intro outcome finished
    rw [if_pos current]
    exact handed outcome finished
  · obtain ⟨sent, ended⟩ := called.gives_up_of_outdated keyed distinct current answered
    have repeated : batches = requests :: List.replicate (attempts - 1) outdated :=
      if_neg current
    rw [repeated]
    refine ⟨sent, ?_, ?_⟩
    · rw [ended, List.length_cons, List.length_replicate]
      split
      · next spent => exact iff_of_true rfl spent
      · next left => exact iff_of_false (by simp) left
    · intro outcome finished
      rw [if_neg current]
      rw [finished, GetProgress.outcome?] at ended
      split at ended
      · exact Option.some.inj ended
      · exact absurd ended (by simp)

end

end VehicleRelay
