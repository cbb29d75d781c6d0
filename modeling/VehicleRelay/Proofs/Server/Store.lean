import VehicleRelay.Proofs.Server.Actions

/-!
# The store of a scripted server

The store is what the history has written: injected values, and the values of set calls that
were not scripted.  Get calls report the last value that was written for a key, or the value
without contents that a configuration gave it.  A scripted set call writes nothing.
-/

namespace VehicleRelay

/-- One of the configurations has an area with the key; area zero stands for no areas. -/
def ConfiguredKey (configs : List PropertyConfig) (key : PropertyKey) : Prop :=
  ∃ config ∈ configs, config.property = key.property ∧
    (config.areas = [] ∧ key.area = 0 ∨ ∃ area ∈ config.areas, area.area = key.area)

theorem mem_keys_iff {configs : List PropertyConfig} {key : PropertyKey} :
    key ∈ configs.flatMap PropertyConfig.keys ↔ ConfiguredKey configs key := by
  obtain ⟨property, area⟩ := key
  have ofConfig (config : PropertyConfig) : ⟨property, area⟩ ∈ config.keys ↔
      config.property = property ∧
        (config.areas = [] ∧ area = 0 ∨ ∃ limits ∈ config.areas, limits.area = area) := by
    rw [PropertyConfig.keys, PropertyConfig.areaIds]
    cases config.areas with
    | nil => simp [eq_comm]
    | cons first areas =>
        simp only [List.isEmpty_cons, Bool.false_eq_true, if_false, reduceCtorEq, false_and,
          false_or, List.map_map, List.mem_map, Function.comp_apply, PropertyKey.mk.injEq]
        constructor
        · rintro ⟨limits, member, sameProperty, sameArea⟩
          exact ⟨sameProperty, limits, member, sameArea⟩
        · rintro ⟨sameProperty, limits, member, sameArea⟩
          exact ⟨limits, member, sameProperty, sameArea⟩
  rw [List.mem_flatMap, ConfiguredKey]
  apply exists_congr
  intro config
  exact and_congr_right fun _ => ofConfig config

namespace ServerAction

/-- The values that an action writes, when some responses of set calls wait. -/
def writes (pending : Nat) : ServerAction → Batch
  | .inject values => values
  | .call (.setValues requests) => if pending = 0 then requests.map SetRequest.value else []
  | _ => []

/-- The values that a history writes, in order, when some responses of set calls wait. -/
def writtenFrom (pending : Nat) : List ServerAction → Batch
  | [] => []
  | action :: history =>
      action.writes pending ++ writtenFrom (action.pendingAfter .setValues pending) history

/-- The values that a history writes, in order. -/
def written (history : List ServerAction) : Batch :=
  writtenFrom 0 history

end ServerAction

/-- The result of a get request, by the values that were written. -/
inductive ReportsLast (configs : List PropertyConfig) (written : Batch) (request : GetRequest) :
    GetResult → Prop
  | stored {earlier later : Batch} {value : PropertyValue} :
      written = earlier ++ value :: later → value.key = request.target.key →
        (∀ other ∈ later, other.key ≠ request.target.key) →
          ReportsLast configs written request ⟨request.id, .ok, some value⟩
  | configured : (∀ value ∈ written, value.key ≠ request.target.key) →
      ConfiguredKey configs request.target.key →
        ReportsLast configs written request
          ⟨request.id, .ok, some (.selecting request.target.key)⟩
  | unknown : (∀ value ∈ written, value.key ≠ request.target.key) →
      ¬ConfiguredKey configs request.target.key →
        ReportsLast configs written request ⟨request.id, .notAvailable, none⟩

namespace ScriptedServer

/-! ## What actions write -/

theorem store_answer_of_ne {call : ServerCall} (other : call.method ≠ .setValues)
    (server : ScriptedServer) : (VehicleServer.answer call server).2.store = server.store := by
  cases scripted : server.scripts call.method with
  | cons response responses => rw [answer_of_scripted scripted]
  | nil =>
      rw [answer_of_unscripted scripted]
      rcases unscripted_effect _ call with ⟨_, _, rfl, _⟩ | ⟨_, _, counts⟩ | nothing
      · exact absurd rfl other
      · rw [counts]
      · rw [nothing]

/-- A set call writes its values, if it is not scripted. -/
theorem get?_answer_setValues (requests : List SetRequest) (server : ScriptedServer)
    (key : PropertyKey) :
    (VehicleServer.answer (.setValues requests) server).2.store.get? key =
      (lastOf? key
          ((ServerAction.call (.setValues requests)).writes (server.scripts .setValues).length)).or
        (server.store.get? key) := by
  cases scripted : server.scripts .setValues with
  | cons response responses =>
      rw [answer_of_scripted scripted]
      rfl
  | nil =>
      rw [answer_of_unscripted scripted, List.length_nil, ServerAction.writes, if_pos rfl]
      cases requests with
      | nil => rfl
      | cons request requests => exact get?_inject _ _ key

theorem get?_act (server : ScriptedServer) (action : ServerAction) (key : PropertyKey) :
    (server.act action).store.get? key =
      (lastOf? key (action.writes (server.scripts .setValues).length)).or
        (server.store.get? key) := by
  have nothing {after : ScriptedServer} (same : after.store = server.store) :
      after.store.get? key = (lastOf? key []).or (server.store.get? key) := by
    rw [same]
    rfl
  cases action with
  | inject values => exact server.get?_inject values key
  | call call =>
      cases call with
      | setValues requests => exact get?_answer_setValues requests server key
      | propertyConfigs | getValues _ | dump _ | checkHealth | subscribe _ | unsubscribe _
      | updateSampleRate _ _ => exact nothing (store_answer_of_ne (by simp) server)
  | startStream => exact nothing server.sameContents_startStream.store
  | send id batch => exact nothing (server.sameContents_send id batch).store
  | takeItem id => exact nothing (server.sameContents_takeItem id).store
  | push _ _ | respond _ | scriptStream _ | scriptFailure _ | closeSender _ | closeReceiver _
  | setReachable _ => exact nothing rfl

theorem get?_actAll (server : ScriptedServer) (history : List ServerAction) (key : PropertyKey) :
    (server.actAll history).store.get? key =
      (lastOf? key (ServerAction.writtenFrom (server.scripts .setValues).length history)).or
        (server.store.get? key) := by
  induction history generalizing server with
  | nil => rfl
  | cons action history induction =>
      rw [ServerAction.writtenFrom, lastOf?_append, ← length_scripts_act, Option.or_assoc,
        ← get?_act]
      exact induction (server.act action)

theorem get?_after (configs : List PropertyConfig) (history : List ServerAction)
    (key : PropertyKey) :
    ((ofConfigs configs).actAll history).store.get? key =
      (lastOf? key (ServerAction.written history)).or
        (if key ∈ configs.flatMap PropertyConfig.keys then some (.selecting key) else none) := by
  rw [get?_actAll, get?_ofConfigs]
  rfl

/-- What is reported from the store is the last value that the history wrote. -/
theorem storedResult_reportsLast (configs : List PropertyConfig) (history : List ServerAction)
    (request : GetRequest) :
    ReportsLast configs (ServerAction.written history) request
      (((ofConfigs configs).actAll history).storedResult request) := by
  rw [storedResult, get?_after]
  cases last : lastOf? request.target.key (ServerAction.written history) with
  | some value =>
      obtain ⟨sameKey, earlier, later, split, others⟩ := lastOf?_eq_some last
      exact .stored split sameKey others
  | none =>
      have unwritten := lastOf?_eq_none last
      rw [Option.none_or]
      by_cases configured : request.target.key ∈ configs.flatMap PropertyConfig.keys
      · rw [if_pos configured]
        exact .configured unwritten (mem_keys_iff.mp configured)
      · rw [if_neg configured]
        exact .unknown unwritten (mt mem_keys_iff.mpr configured)

/-- A get call that is not scripted reports for each request, in order, what was written last
for its key; a scripted set call leaves the store and the streams as they are. -/
theorem getValues_reports_last_written (configs : List PropertyConfig)
    (history : List ServerAction) :
    let server := (ofConfigs configs).actAll history
    (ServerAction.pending .getValues history = 0 →
      (∀ action ∈ history, action.responds = false) → ∀ requests,
        ∃ results, (VehicleServer.answer (.getValues requests) server).1 = .ok results ∧
          List.Forall₂ (ReportsLast configs (ServerAction.written history)) requests results) ∧
    (0 < ServerAction.pending .setValues history → ∀ requests,
      let next := (VehicleServer.answer (.setValues requests) server).2
      next.store = server.store ∧ next.streams = server.streams ∧ next.live = server.live ∧
        next.streamScript = server.streamScript) := by
  intro server
  constructor
  · intro unscripted silent requests
    rw [pending_eq_length configs, List.length_eq_zero_iff] at unscripted
    have noResponder : server.responder = none := responder_actAll rfl silent
    refine ⟨requests.map server.storedResult, ?_, ?_⟩
    · rw [answer_getValues unscripted noResponder]
    · rw [List.forall₂_map_right_iff, List.forall₂_same]
      intro request _
      exact storedResult_reportsLast configs history request
  · intro scripted requests
    rw [pending_eq_length configs, List.length_pos_iff_exists_cons] at scripted
    obtain ⟨response, responses, next⟩ := scripted
    rw [answer_of_scripted next]
    exact ⟨rfl, rfl, rfl, rfl⟩

/-- A batch with two values of one key, a key that two configurations have, and a set call that
fails because it is scripted to; one more response waits for the next one. -/
theorem getValues_reports_last_written_of_scripted :
    let speed : PropertyValue := ⟨10, 0, 1, .available, {}⟩
    let door : PropertyValue := ⟨5, 4, 2, .error, {}⟩
    let configs : List PropertyConfig :=
      [{ property := 1 }, { property := 2, areas := [{ area := 1 }, { area := 4 }] },
        { property := 1 }]
    let failure : RpcError := ⟨.unavailable, "down"⟩
    let history : List ServerAction :=
      [.push .setValues (.error failure), .inject [speed, speed.withTimestamp 30, door],
        .call (.setValues [⟨1, speed.withTimestamp 40⟩]), .push .getValues (.error failure),
        .call (.getValues []), .startStream, .call (.setValues [⟨2, door.withTimestamp 3⟩]),
        .push .setValues (.ok [])]
    let requests : List GetRequest :=
      [⟨7, .selecting ⟨2, 4⟩⟩, ⟨8, speed⟩, ⟨7, .selecting ⟨2, 1⟩⟩, ⟨9, .selecting ⟨2, 0⟩⟩]
    let results : List GetResult :=
      [⟨7, .ok, some (door.withTimestamp 3)⟩, ⟨8, .ok, some (speed.withTimestamp 30)⟩,
        ⟨7, .ok, some (.selecting ⟨2, 1⟩)⟩, ⟨9, .notAvailable, none⟩]
    let server := (ofConfigs configs).actAll history
    (VehicleServer.answer (.getValues requests) server).1 = .ok results ∧
      List.Forall₂ (ReportsLast configs (ServerAction.written history)) requests results ∧
      (VehicleServer.answer (.setValues [⟨3, door⟩]) server).2.store = server.store := by
  intro speed door configs failure history requests results server
  obtain ⟨reported, unchanged⟩ := getValues_reports_last_written configs history
  have given : (VehicleServer.answer (.getValues requests) server).1 = .ok results := rfl
  obtain ⟨others, answered, reports⟩ := reported (by decide) (by decide) requests
  obtain rfl := Except.ok.inj (given.symm.trans answered)
  exact ⟨given, reports, (unchanged (by decide) [⟨3, door⟩]).1⟩

end ScriptedServer

end VehicleRelay
