import Mathlib.Logic.Function.Iterate
import VehicleRelay.Proofs.TimestampTable.Current
import VehicleRelay.Server.Scripted

/-!
# Values that a scripted server is given

Values that are injected are stored, the last one of each key, and pushed to the
live streams.  A stream gives its batches back in the order in which they were
pushed.
-/

namespace VehicleRelay

theorem get?_foldl_insert (store : FiniteMap PropertyKey PropertyValue) (values : Batch)
    (key : PropertyKey) :
    (values.foldl (fun store value => store.insert value.key value) store).get? key =
      (lastOf? key values).or (store.get? key) := by
  induction values generalizing store with
  | nil => rfl
  | cons value values induction =>
      rw [List.foldl_cons, induction, lastOf?_cons]
      cases lastOf? key values with
      | some last => rfl
      | none =>
          by_cases same : value.key = key
          · subst same
            simp
          · simp [same, FiniteMap.get?_insert_of_ne store (Ne.symm same)]

namespace ScriptedServer

/-- Every stored value is stored under its own key. -/
def Keyed (server : ScriptedServer) : Prop :=
  ∀ key value, server.store.get? key = some value → value.key = key

theorem get?_foldl_selecting (store : FiniteMap PropertyKey PropertyValue)
    (keys : List PropertyKey) (key : PropertyKey) :
    (keys.foldl (fun store key => store.insert key (.selecting key)) store).get? key =
      if key ∈ keys then some (.selecting key) else store.get? key := by
  induction keys generalizing store with
  | nil => simp
  | cons first keys induction =>
      rw [List.foldl_cons, induction]
      by_cases same : key = first
      · subst same
        simp
      · simp [same, FiniteMap.get?_insert_of_ne store same]

/-- A key of a configuration has the value without contents at first. -/
theorem get?_ofConfigs (configs : List PropertyConfig) (key : PropertyKey) :
    (ofConfigs configs).store.get? key =
      if key ∈ configs.flatMap PropertyConfig.keys then some (.selecting key) else none :=
  get?_foldl_selecting .empty (configs.flatMap PropertyConfig.keys) key

theorem keyed_ofConfigs (configs : List PropertyConfig) : (ofConfigs configs).Keyed := by
  intro key value stored
  rw [get?_ofConfigs, Option.ite_none_right_eq_some] at stored
  rw [← Option.some.inj stored.2, PropertyValue.key_selecting]

theorem foldl_changeStream (server : ScriptedServer) (ids : List StreamId)
    (change : ValueStream → ValueStream) :
    ids.foldl (fun server id => server.changeStream id change) server =
      { server with
        streams := ids.foldl (fun streams id => streams.modify id change) server.streams } := by
  induction ids generalizing server with
  | nil => rfl
  | cons id ids induction => rw [List.foldl_cons, induction]; rfl

theorem getElem?_foldl_modify {Element : Type} (elements : List Element) (ids : List Nat)
    (change : Element → Element) (id : Nat) :
    (ids.foldl (fun elements id => elements.modify id change) elements)[id]? =
      elements[id]?.map (change^[ids.count id]) := by
  induction ids generalizing elements with
  | nil => simp
  | cons first ids induction =>
      rw [List.foldl_cons, induction, List.getElem?_modify]
      by_cases same : first = id
      · subst same
        simp [Function.comp_def]
      · simp [same, List.count_cons_of_ne same]

variable {server : ScriptedServer} {stream : ValueStream} {id : StreamId} {values : Batch}

theorem inject_eq (server : ScriptedServer) (values : Batch) :
    server.inject values =
      { server with
        store := values.foldl (fun store value => store.insert value.key value) server.store
        live := server.live.filter server.isReceiving
        streams := (server.live.filter server.isReceiving).foldl
          (fun streams id => streams.modify id (·.push (.ok values))) server.streams } := by
  rw [inject, foldl_changeStream]

theorem get?_inject (server : ScriptedServer) (values : Batch) (key : PropertyKey) :
    (server.inject values).store.get? key =
      (lastOf? key values).or (server.store.get? key) := by
  rw [inject_eq]
  exact get?_foldl_insert server.store values key

theorem Keyed.inject (keyed : server.Keyed) (values : Batch) : (server.inject values).Keyed := by
  intro key value found
  rw [get?_inject, Option.or_eq_some_iff] at found
  rcases found with last | ⟨_, before⟩
  · exact (lastOf?_eq_some last).1
  · exact keyed key value before

/-- An injected batch goes into a stream as often as the stream is listed. -/
theorem getElem?_inject (received : server.isReceiving id = true) (values : Batch) :
    (server.inject values).streams[id]? =
      server.streams[id]?.map (·.push (.ok values))^[server.live.count id] := by
  rw [inject_eq, getElem?_foldl_modify, List.count_filter received]

theorem count_inject (received : server.isReceiving id = true) (values : Batch) :
    (server.inject values).live.count id = server.live.count id := by
  rw [inject_eq, List.count_filter received]

/-- Nothing goes into a stream that nobody receives. -/
theorem getElem?_inject_of_dropped (dropped : server.isReceiving id = false) (values : Batch) :
    (server.inject values).streams[id]? = server.streams[id]? := by
  have unlisted : (server.live.filter server.isReceiving).count id = 0 := by
    apply List.count_eq_zero_of_not_mem
    simp [dropped]
  rw [inject_eq, getElem?_foldl_modify, unlisted]
  exact Option.map_id'

/-- The server pushes to a stream, which somebody receives. -/
structure Feeds (server : ScriptedServer) (id : StreamId) (stream : ValueStream) : Prop where
  found : server.streams[id]? = some stream
  receiving : stream.receiving = true
  listedOnce : server.live.count id = 1

/-- An injected batch waits last in the stream, and the stream is fed on. -/
theorem Feeds.inject (feeds : server.Feeds id stream) (values : Batch) :
    (server.inject values).Feeds id (stream.push (.ok values)) := by
  have received : server.isReceiving id = true := by
    rw [isReceiving, feeds.found]
    exact feeds.receiving
  refine ⟨?_, feeds.receiving, ?_⟩
  · rw [getElem?_inject received, feeds.found, feeds.listedOnce]
    rfl
  · rw [count_inject received, feeds.listedOnce]

/-- The batch that waits first is taken, and the stream is fed on. -/
theorem Feeds.takeItem (feeds : server.Feeds id stream) {batch : RpcResult Batch}
    {waiting : List (RpcResult Batch)} (waits : stream.waiting = batch :: waiting) :
    ∃ next, server.takeItem id = (.item batch, next) ∧
      next.Feeds id { stream with waiting } ∧
        next.store = server.store ∧ next.scripts = server.scripts ∧
          next.responder = server.responder := by
  have taken : stream.take = (.item batch, { stream with waiting }) := by
    rw [ValueStream.take, waits]
  refine ⟨server.changeStream id fun _ => { stream with waiting }, ?_, ?_, rfl, rfl, rfl⟩
  · rw [ScriptedServer.takeItem, feeds.found]
    simp only [taken]
  · refine ⟨?_, feeds.receiving, feeds.listedOnce⟩
    rw [changeStream, List.getElem?_modify_eq, feeds.found]
    rfl

/-! ## Answers -/

theorem answer_of_scripted {call : ServerCall} {response : RpcResult call.Answer}
    {responses : List (RpcResult call.Answer)}
    (scripted : server.scripts call.method = response :: responses) :
    VehicleServer.answer call server =
      (response, { server with
        calls := server.calls ++ [call]
        scripts := server.scripts.replace call.method responses }) := by
  change ScriptedServer.answer call server = _
  rw [ScriptedServer.answer]
  simp only [scripted]

theorem answer_of_unscripted {call : ServerCall} (unscripted : server.scripts call.method = []) :
    VehicleServer.answer call server =
      ({ server with calls := server.calls ++ [call] } : ScriptedServer).unscripted call := by
  change ScriptedServer.answer call server = _
  rw [ScriptedServer.answer]
  simp only [unscripted]

/-- Set calls inject their values, a responder counts the get calls, and no other call has an
effect. -/
theorem unscripted_effect (server : ScriptedServer) (call : ServerCall) :
    (∃ request requests, call = .setValues (request :: requests) ∧
      (server.unscripted call).2 =
        server.inject ((request :: requests).map SetRequest.value)) ∨
    (∃ responder, server.responder = some responder ∧
      (server.unscripted call).2 = { server with
        responder := some { responder with answered := responder.answered + 1 } }) ∨
    (server.unscripted call).2 = server := by
  cases call with
  | setValues requests =>
      cases requests with
      | nil => exact .inr (.inr rfl)
      | cons request requests => exact .inl ⟨request, requests, rfl, rfl⟩
  | getValues requests =>
      simp only [unscripted]
      split
      · next responder found => exact .inr (.inl ⟨responder, found, rfl⟩)
      · exact .inr (.inr rfl)
  | propertyConfigs | dump _ | checkHealth | subscribe _ | unsubscribe _
  | updateSampleRate _ _ => exact .inr (.inr rfl)

theorem calls_answer (call : ServerCall) (server : ScriptedServer) :
    (server.answer call).2.calls = server.calls ++ [call] := by
  change (VehicleServer.answer call server).2.calls = _
  cases scripted : server.scripts call.method with
  | cons response responses => rw [answer_of_scripted scripted]
  | nil =>
      rw [answer_of_unscripted scripted]
      rcases unscripted_effect _ call with ⟨_, _, _, injects⟩ | ⟨_, _, counts⟩ | nothing
      · rw [injects, inject_eq]
      · rw [counts]
      · rw [nothing]

theorem calls_startStream (server : ScriptedServer) :
    server.startStream.2.calls = server.calls := by
  simp only [startStream]
  split <;> rfl

theorem calls_takeItem (server : ScriptedServer) (id : StreamId) :
    (server.takeItem id).2.calls = server.calls := by
  simp only [takeItem]
  split <;> rfl

/-- The call makes the server push values into its live streams. -/
def Pushes (server : ScriptedServer) (call : ServerCall) : Prop :=
  server.scripts call.method = [] ∧ ∃ request requests, call = .setValues (request :: requests)

theorem streams_answer {call : ServerCall} (still : ¬server.Pushes call) :
    (server.answer call).2.streams = server.streams ∧
      (server.answer call).2.live = server.live := by
  change (VehicleServer.answer call server).2.streams = _ ∧
    (VehicleServer.answer call server).2.live = _
  cases scripted : server.scripts call.method with
  | cons response responses =>
      rw [answer_of_scripted scripted]
      exact ⟨rfl, rfl⟩
  | nil =>
      rw [answer_of_unscripted scripted]
      rcases unscripted_effect _ call with ⟨request, requests, made, _⟩ | ⟨_, _, counts⟩ | nothing
      · exact absurd ⟨scripted, request, requests, made⟩ still
      · rw [counts]
        exact ⟨rfl, rfl⟩
      · rw [nothing]
        exact ⟨rfl, rfl⟩

/-- Set calls and get calls are answered without scripts. -/
structure Unscripted (server : ScriptedServer) : Prop where
  sets : server.scripts .setValues = []
  gets : server.scripts .getValues = []
  noResponder : server.responder = none

theorem Unscripted.answer_setValues (unscripted : server.Unscripted)
    (requests : List SetRequest) (given : requests ≠ []) :
    VehicleServer.answer (.setValues requests) server =
      (.ok (requests.map fun request => ⟨request.id, .ok⟩),
        ({ server with calls := server.calls ++ [.setValues requests] } : ScriptedServer).inject
          (requests.map SetRequest.value)) := by
  have notEmpty : requests.isEmpty = false := by simpa using given
  rw [answer_of_unscripted unscripted.sets]
  simp only [ScriptedServer.unscripted, notEmpty]
  rfl

/-- Without a scripted response and a responder, get calls are answered from the store. -/
theorem answer_getValues (gets : server.scripts .getValues = [])
    (noResponder : server.responder = none) (requests : List GetRequest) :
    VehicleServer.answer (.getValues requests) server =
      (.ok (requests.map server.storedResult),
        { server with calls := server.calls ++ [.getValues requests] }) := by
  rw [answer_of_unscripted gets]
  simp only [ScriptedServer.unscripted, noResponder]
  rfl

theorem Unscripted.answer_getValues (unscripted : server.Unscripted)
    (requests : List GetRequest) :
    VehicleServer.answer (.getValues requests) server =
      (.ok (requests.map server.storedResult),
        { server with calls := server.calls ++ [.getValues requests] }) :=
  ScriptedServer.answer_getValues unscripted.gets unscripted.noResponder requests

end ScriptedServer

end VehicleRelay
