import VehicleRelay.Proofs.GetCall.Rounds
import VehicleRelay.Proofs.Relay.CallRuns
import VehicleRelay.Proofs.Server.Injection

/-!
# Get calls of stored values

A server without scripts answers a get call from its store.  When the table has no
other time of a key than the stored value has, nothing is stale: one remote call is
enough, and every key that is in the table is reported at its recorded local time.
-/

namespace VehicleRelay

namespace TimestampTable

/-- The time that is recorded for a key is the one of the stored value. -/
def Agrees (table : TimestampTable) (store : FiniteMap PropertyKey PropertyValue) : Prop :=
  ∀ key value stamp, store.get? key = some value → table.stamp? key = some stamp →
    stamp.external = value.timestamp

theorem agrees_empty (store : FiniteMap PropertyKey PropertyValue) : empty.Agrees store := by
  intro key value stamp stored found
  simp at found

/-- The later table has all stamps of the earlier one. -/
def Extends (later earlier : TimestampTable) : Prop :=
  ∀ key stamp, earlier.stamp? key = some stamp → later.stamp? key = some stamp

theorem Extends.refl (table : TimestampTable) : table.Extends table :=
  fun _ _ stored => stored

theorem Extends.trans {first second third : TimestampTable} (later : third.Extends second)
    (earlier : second.Extends first) : third.Extends first :=
  fun key stamp stored => later key stamp (earlier key stamp stored)

variable {table : TimestampTable} {store : FiniteMap PropertyKey PropertyValue}

/-- A stored value is admitted, and the table still agrees with the store. -/
theorem Agrees.restamp (agrees : table.Agrees store) {value : PropertyValue}
    (stored : store.get? value.key = some value) (clock : Int64) :
    ∃ stamp next, table.restamp clock value =
        (some (value.withTimestamp stamp.localTime), next) ∧
      next.stamp? value.key = some stamp ∧ next.Agrees store ∧ next.Extends table := by
  rcases restamp_cases table clock value with ⟨stamp, advanced, restamped⟩ | ⟨stale, _⟩
  · let next : TimestampTable := ⟨table.stamps.insert value.key stamp⟩
    have external := Stamp.external_of_advance advanced
    have atKey : next.stamp? value.key = some stamp := FiniteMap.get?_insert_self _ _ _
    have elsewhere {key : PropertyKey} (different : key ≠ value.key) :
        next.stamp? key = table.stamp? key :=
      FiniteMap.get?_insert_of_ne _ different _
    refine ⟨stamp, next, restamped, atKey, ?_, ?_⟩
    · intro key other later found laterFound
      by_cases same : key = value.key
      · subst same
        rw [← Option.some.inj (atKey.symm.trans laterFound), external,
          Option.some.inj (stored.symm.trans found)]
      · rw [elsewhere same] at laterFound
        exact agrees key other later found laterFound
    · intro key earlier found
      by_cases same : key = value.key
      · subst same
        have recorded := agrees value.key value earlier stored found
        have unchanged : some earlier = some stamp := by
          rw [← advanced, found]
          simp [Stamp.advance?, recorded]
        rw [atKey, unchanged]
      · rw [elsewhere same]
        exact found
  · obtain ⟨later, found, newer⟩ := Stamp.advance?_eq_none_iff.mp stale
    have recorded := agrees value.key value later stored found
    rw [recorded] at newer
    exact absurd newer Std.lt_irrefl

end TimestampTable

namespace ScriptedServer

/-- What a get call reports for a request, by the store of the server and the stamps of
a table. -/
def Reports (server : ScriptedServer) (table : TimestampTable) (request : GetRequest)
    (result : GetResult) : Prop :=
  result.id = request.id ∧
    match server.store.get? request.target.key with
    | none => result.status = .notAvailable ∧ result.value = none
    | some value => result.status = .ok ∧
        ∃ localTime, result.value = some (value.withTimestamp localTime) ∧
          ∀ stamp, table.stamp? request.target.key = some stamp → stamp.localTime = localTime

variable {server : ScriptedServer}

theorem storedResult_of_absent {request : GetRequest}
    (absent : server.store.get? request.target.key = none) :
    server.storedResult request = ⟨request.id, .notAvailable, none⟩ := by
  rw [storedResult, absent]

theorem storedResult_of_stored {request : GetRequest} {value : PropertyValue}
    (stored : server.store.get? request.target.key = some value) :
    server.storedResult request = ⟨request.id, .ok, some value⟩ := by
  rw [storedResult, stored]

theorem Reports.of_extends {later earlier : TimestampTable} (extend : later.Extends earlier)
    {request : GetRequest} {result : GetResult} (reports : server.Reports later request result) :
    server.Reports earlier request result := by
  obtain ⟨sameId, reported⟩ := reports
  refine ⟨sameId, ?_⟩
  cases stored : server.store.get? request.target.key with
  | none => simpa [stored] using reported
  | some value =>
      simp only [stored] at reported ⊢
      obtain ⟨status, localTime, restamped, recorded⟩ := reported
      exact ⟨status, localTime, restamped,
        fun stamp found => recorded stamp (extend _ stamp found)⟩

/-- All stored results are kept, in the order of the requests. -/
theorem sift_stored (keyed : server.Keyed) {table : TimestampTable}
    (agrees : table.Agrees server.store) {asked requests : List GetRequest}
    (known : ∀ request ∈ requests, request.id ∈ asked.map GetRequest.id)
    (readings : ClockReadings) :
    let sifted := table.sift readings asked (requests.map server.storedResult)
    sifted.retries = [] ∧ List.Forall₂ (server.Reports table) requests sifted.kept ∧
      sifted.table.Extends table := by
  induction requests generalizing table readings with
  | nil => exact ⟨rfl, .nil, .refl table⟩
  | cons request requests induction =>
      obtain ⟨first, others⟩ := List.forall_mem_cons.mp known
      obtain ⟨stands, found⟩ := Option.isSome_iff_exists.mp (requestOf?_isSome_iff.mpr first)
      cases stored : server.store.get? request.target.key with
      | none =>
          have result := storedResult_of_absent stored
          obtain ⟨retries, kept, extend⟩ := induction agrees others readings
          rw [List.map_cons, result, TimestampTable.sift_cons_of_empty found rfl]
          refine ⟨retries, .cons ⟨rfl, ?_⟩ kept, extend⟩
          simp [stored]
      | some value =>
          have result := storedResult_of_stored stored
          have sameKey := keyed _ value stored
          have storedAtKey : server.store.get? value.key = some value := by
            rw [sameKey, stored]
          obtain ⟨stamp, next, restamped, atKey, agreesNext, extendNext⟩ :=
            agrees.restamp storedAtKey readings.first
          obtain ⟨retries, kept, extend⟩ := induction agreesNext others readings.rest
          rw [List.map_cons, result, TimestampTable.sift_cons_of_current found rfl restamped]
          refine ⟨retries, .cons ⟨rfl, ?_⟩ (kept.imp fun _ _ => .of_extends extendNext),
            extend.trans extendNext⟩
          simp only [stored]
          refine ⟨trivial, stamp.localTime, rfl, ?_⟩
          intro earlier recorded
          rw [← sameKey] at recorded
          have same := (extendNext _ earlier recorded).symm.trans atKey
          rw [Option.some.inj same]

/-- The values that an answer from the store carries. -/
def storedValues (server : ScriptedServer) (requests : List GetRequest) :
    List PropertyValue :=
  (requests.map server.storedResult).filterMap GetResult.value

theorem storedResult_id (server : ScriptedServer) (request : GetRequest) :
    (server.storedResult request).id = request.id := by
  rw [storedResult]
  split <;> rfl

theorem carriedValues_stored (server : ScriptedServer) (requests : List GetRequest) :
    carriedValues requests (requests.map server.storedResult) =
      server.storedValues requests := by
  rw [carriedValues, List.filter_eq_self.mpr]
  · rfl
  · intro result member
    obtain ⟨request, asked, rfl⟩ := List.mem_map.mp member
    rw [storedResult_id]
    exact decide_eq_true (List.mem_map_of_mem asked)

theorem get?_of_mem_storedValues {requests : List GetRequest} {value : PropertyValue}
    (keyed : server.Keyed) (member : value ∈ server.storedValues requests) :
    server.store.get? value.key = some value := by
  obtain ⟨result, answered, carried⟩ := List.mem_filterMap.mp member
  obtain ⟨request, _, rfl⟩ := List.mem_map.mp answered
  cases stored : server.store.get? request.target.key with
  | none => simp [storedResult_of_absent stored] at carried
  | some other =>
      rw [storedResult_of_stored stored] at carried
      obtain rfl := Option.some.inj carried
      rw [keyed _ _ stored, stored]

end ScriptedServer

namespace Relay

variable {relay : Relay} {server : ScriptedServer}

/-- No request, no remote call. -/
theorem getValues_nil {Server : Type} [VehicleServer Server] (relay : Relay)
    (readings : Nat → ClockReadings) (server : Server) :
    relay.getValues readings [] server = (⟨.ok, none⟩, relay, server) := by
  simp only [getValues, GetCall.start_nil, GetCall.drive_finished]

/-- A get call of stored values ends well after one remote call. -/
theorem getValues_stored (unscripted : server.Unscripted) (keyed : server.Keyed)
    (agrees : relay.table.Agrees server.store) (readings : Nat → ClockReadings)
    {requests : List GetRequest} (asked : requests ≠ []) :
    let table := (relay.table.restampAll (readings 0) (server.storedValues requests)).2
    table.Extends relay.table ∧
      ∃ results, List.Forall₂ (server.Reports relay.table) requests results ∧
        relay.getValues readings requests server = (⟨.ok, some results⟩, { relay with table },
          { server with calls := server.calls ++ [.getValues requests] }) := by
  obtain ⟨rounds, limit⟩ := Nat.exists_eq_succ_of_ne_zero (Nat.ne_of_gt relay.attempts_pos)
  obtain ⟨retries, reports, extend⟩ := ScriptedServer.sift_stored keyed agrees
    (fun request member => List.mem_map_of_mem member) (readings 0)
  have sifted := TimestampTable.sift_eq_restampAll relay.table (readings 0) requests
    (requests.map server.storedResult)
  rw [ScriptedServer.carriedValues_stored] at sifted
  have table := congrArg Prod.snd sifted
  simp only at table
  rw [table] at extend
  refine ⟨extend, _, reports, ?_⟩
  have kept : (relay.table.sift (readings 0) requests
      (requests.map server.storedResult)).kept.isEmpty = false := by
    rw [List.isEmpty_eq_false_iff, ← List.length_pos_iff, ← reports.length_eq]
    exact List.length_pos_iff.mpr asked
  have driven : GetCall.drive relay.maxAttempts (GetCall.start relay.maxAttempts requests)
      relay.table readings server = (⟨.ok, some (relay.table.sift (readings 0) requests
        (requests.map server.storedResult)).kept⟩,
        (relay.table.restampAll (readings 0) (server.storedValues requests)).2,
        { server with calls := server.calls ++ [.getValues requests] }) := by
    rw [GetCall.start_of_ne_nil asked relay.attempts_pos, limit, GetCall.drive,
      unscripted.answer_getValues]
    simp only [GetCall.resume, retries, List.nil_append, GetCall.next, List.isEmpty_nil, kept,
      table, if_true, GetCall.drive_finished]
    rfl
  rw [getValues, driven]

end Relay

end VehicleRelay
