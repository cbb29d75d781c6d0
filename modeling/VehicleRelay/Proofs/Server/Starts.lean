import Mathlib.Data.List.DropRight
import VehicleRelay.Proofs.Server.Actions

/-!
# Starts of streams

Every start is counted.  What is scripted for starts is given in the order in which it was
scripted, one thing to each start; when nothing is left, a new stream is started, and it is
live.  No stream is started twice.
-/

namespace VehicleRelay

def StreamScript.result : StreamScript → RpcResult StreamId
  | .stream id => .ok id
  | .failure error => .error error

namespace ServerAction

def isStart : ServerAction → Bool
  | .startStream => true
  | _ => false

/-- How many of the scripted starts are left after an action. -/
def startsLeftAfter (left : Nat) : ServerAction → Nat
  | .scriptStream _ | .scriptFailure _ => left + 1
  | .startStream => left - 1
  | _ => left

/-- How many starts were scripted in a history and not made yet. -/
def startsLeft (history : List ServerAction) : Nat :=
  history.foldl startsLeftAfter 0

/-- Neither starts a stream nor scripts a start. -/
def leavesStarts : ServerAction → Bool
  | .startStream | .scriptStream _ | .scriptFailure _ => false
  | _ => true

end ServerAction

namespace ScriptedServer

/-- What the actions of a history give, one after the other. -/
def collect {Item : Type} (gives : ScriptedServer → ServerAction → Option Item)
    (server : ScriptedServer) : List ServerAction → List Item
  | [] => []
  | action :: history =>
      (gives server action).toList ++ collect gives (server.act action) history

/-- The result that an action scripts for a start. -/
def scriptsStart? (server : ScriptedServer) : ServerAction → Option (RpcResult StreamId)
  | .scriptStream stream => some (.ok (server.scriptStream stream).1)
  | .scriptFailure error => some (.error error)
  | _ => none

/-- The results that a history scripts for starts, in order. -/
def scriptedStarts (configs : List PropertyConfig) (history : List ServerAction) :
    List (RpcResult StreamId) :=
  (ofConfigs configs).collect scriptsStart? history

/-- The results that no start was given yet, the oldest first. -/
def waitingStarts (configs : List PropertyConfig) (history : List ServerAction) :
    List (RpcResult StreamId) :=
  (scriptedStarts configs history).rtake (ServerAction.startsLeft history)

/-- The stream that an action starts. -/
def startsStream? (server : ScriptedServer) : ServerAction → Option StreamId
  | .startStream => server.startStream.1.toOption
  | _ => none

/-- The streams that a history starts, in order. -/
def startedStreams (configs : List PropertyConfig) (history : List ServerAction) :
    List StreamId :=
  (ofConfigs configs).collect startsStream? history

variable {server : ScriptedServer}

/-! ## What leaves the starts alone -/

/-- The servers agree in all that matters for the next starts. -/
structure SameStarts (before after : ScriptedServer) : Prop where
  streamScript : after.streamScript = before.streamScript
  starts : after.starts = before.starts
  places : after.streams.length = before.streams.length
  live : after.live ⊆ before.live

theorem SameStarts.refl (server : ScriptedServer) : server.SameStarts server :=
  ⟨rfl, rfl, rfl, List.Subset.refl _⟩

theorem sameStarts_changeStream (server : ScriptedServer) (id : StreamId)
    (change : ValueStream → ValueStream) : server.SameStarts (server.changeStream id change) :=
  ⟨rfl, rfl, List.length_modify .., List.Subset.refl _⟩

theorem length_foldl_modify {Element : Type} (elements : List Element) (ids : List Nat)
    (change : Element → Element) :
    (ids.foldl (fun elements id => elements.modify id change) elements).length =
      elements.length := by
  induction ids generalizing elements with
  | nil => rfl
  | cons id ids induction => rw [List.foldl_cons, induction, List.length_modify]

theorem sameStarts_inject (server : ScriptedServer) (values : Batch) :
    server.SameStarts (server.inject values) := by
  rw [inject_eq]
  exact ⟨rfl, rfl, length_foldl_modify .., List.filter_subset_self _⟩

theorem sameStarts_answer (server : ScriptedServer) (call : ServerCall) :
    server.SameStarts (VehicleServer.answer call server).2 := by
  cases scripted : server.scripts call.method with
  | cons response responses =>
      rw [answer_of_scripted scripted]
      exact ⟨rfl, rfl, rfl, List.Subset.refl _⟩
  | nil =>
      rw [answer_of_unscripted scripted]
      rcases unscripted_effect _ call with ⟨_, _, _, injects⟩ | ⟨_, _, counts⟩ | nothing
      · rw [injects]
        obtain ⟨streamScript, starts, places, live⟩ := sameStarts_inject
          ({ server with calls := server.calls ++ [call] } : ScriptedServer) _
        exact ⟨streamScript, starts, places, live⟩
      · rw [counts]
        exact ⟨rfl, rfl, rfl, List.Subset.refl _⟩
      · rw [nothing]
        exact ⟨rfl, rfl, rfl, List.Subset.refl _⟩

theorem sameStarts_act (server : ScriptedServer) {action : ServerAction}
    (leaves : action.leavesStarts = true) : server.SameStarts (server.act action) := by
  cases action with
  | startStream | scriptStream _ | scriptFailure _ => cases leaves
  | push _ _ | respond _ | setReachable _ => exact ⟨rfl, rfl, rfl, List.Subset.refl _⟩
  | call call => exact server.sameStarts_answer call
  | inject values => exact server.sameStarts_inject values
  | send id batch =>
      simp only [act, send]
      split
      · exact server.sameStarts_changeStream id _
      · exact .refl server
  | takeItem id =>
      simp only [act, takeItem]
      split
      · exact server.sameStarts_changeStream id _
      · exact .refl server
  | closeSender id | closeReceiver id => exact server.sameStarts_changeStream id _

/-! ## Starts in turn -/

theorem startStream_of_scripted {next : StreamScript} {later : List StreamScript}
    (scripted : server.streamScript = next :: later) :
    server.startStream =
      (next.result, { server with starts := server.starts + 1, streamScript := later }) := by
  simp only [startStream, scripted]
  cases next <;> rfl

theorem startStream_of_unscripted (unscripted : server.streamScript = []) :
    server.startStream =
      (.ok server.streams.length,
        { server with
          starts := server.starts + 1
          streams := server.streams ++ [{}]
          live := server.live ++ [server.streams.length] }) := by
  simp only [startStream, unscripted]
  rfl

theorem starts_startStream (server : ScriptedServer) :
    server.startStream.2.starts = server.starts + 1 := by
  cases script : server.streamScript with
  | nil => rw [startStream_of_unscripted script]
  | cons next later => rw [startStream_of_scripted script]

theorem streamScript_startStream (server : ScriptedServer) :
    server.startStream.2.streamScript = server.streamScript.tail := by
  cases script : server.streamScript with
  | nil => rw [startStream_of_unscripted script, script, List.tail_nil]
  | cons next later => rw [startStream_of_scripted script, List.tail_cons]

/-- A start gives the result that waits first, or else a new stream. -/
theorem startStream_fst (server : ScriptedServer) :
    server.startStream.1 =
      (server.streamScript.map StreamScript.result).head?.getD (.ok server.streams.length) := by
  cases script : server.streamScript with
  | nil => rw [startStream_of_unscripted script]; rfl
  | cons next later => rw [startStream_of_scripted script]; rfl

theorem starts_act (server : ScriptedServer) (action : ServerAction) :
    (server.act action).starts = server.starts + (if action.isStart then 1 else 0) := by
  cases action with
  | startStream => exact server.starts_startStream
  | scriptStream _ | scriptFailure _ => rfl
  | _ => exact (server.sameStarts_act rfl).starts

theorem starts_actAll (server : ScriptedServer) (history : List ServerAction) :
    (server.actAll history).starts = server.starts + history.countP ServerAction.isStart := by
  induction history generalizing server with
  | nil => rfl
  | cons action history induction =>
      rw [actAll, List.foldl_cons, ← actAll, induction, starts_act, List.countP_cons]
      omega

/-- A start takes the result that waits first, if there is one. -/
theorem streamScript_act (server : ScriptedServer) (action : ServerAction) :
    (server.act action).streamScript.map StreamScript.result =
      (server.streamScript.map StreamScript.result
        ++ (server.scriptsStart? action).toList).drop (if action.isStart then 1 else 0) := by
  cases action with
  | startStream =>
      rw [act, streamScript_startStream, List.map_tail, ← List.drop_one]
      exact congrArg _ (List.append_nil _).symm
  | scriptStream stream => exact List.map_append
  | scriptFailure error => exact List.map_append
  | _ =>
      rw [(server.sameStarts_act rfl).streamScript]
      exact (List.append_nil _).symm

theorem length_streamScript_act (server : ScriptedServer) (action : ServerAction) :
    (server.act action).streamScript.length =
      action.startsLeftAfter server.streamScript.length := by
  cases action with
  | startStream => rw [act, streamScript_startStream, List.length_tail]; rfl
  | scriptStream stream => exact List.length_append
  | scriptFailure error => exact List.length_append
  | _ => rw [(server.sameStarts_act rfl).streamScript]; rfl

theorem length_streamScript_actAll (server : ScriptedServer) (history : List ServerAction) :
    (server.actAll history).streamScript.length =
      history.foldl ServerAction.startsLeftAfter server.streamScript.length := by
  induction history generalizing server with
  | nil => rfl
  | cons action history induction =>
      rw [actAll, List.foldl_cons, List.foldl_cons, ← length_streamScript_act]
      exact induction (server.act action)

/-- What waits for the starts is what was scripted last, in order. -/
theorem streamScript_actAll (server : ScriptedServer) (history : List ServerAction) :
    (server.actAll history).streamScript.map StreamScript.result <:+
      server.streamScript.map StreamScript.result ++ server.collect scriptsStart? history := by
  induction history generalizing server with
  | nil => rw [collect, List.append_nil]; exact List.suffix_refl _
  | cons action history induction =>
      have step : (server.act action).streamScript.map StreamScript.result <:+
          server.streamScript.map StreamScript.result
            ++ (server.scriptsStart? action).toList := by
        rw [streamScript_act]
        exact List.drop_suffix ..
      rw [collect, ← List.append_assoc]
      exact (induction (server.act action)).trans (List.suffix_append_self_iff.mpr step)

theorem streamScript_eq_waitingStarts (configs : List PropertyConfig)
    (history : List ServerAction) :
    ((ofConfigs configs).actAll history).streamScript.map StreamScript.result =
      waitingStarts configs history := by
  have left : ServerAction.startsLeft history = _ :=
    (length_streamScript_actAll (ofConfigs configs) history).symm
  have suffix := streamScript_actAll (ofConfigs configs) history
  rw [List.suffix_iff_eq_drop, List.length_map] at suffix
  rw [waitingStarts, left, List.rtake]
  exact suffix

/-! ## No stream is started twice -/

/-- The streams that wait to be started. -/
def scriptedIds (server : ScriptedServer) : List StreamId :=
  server.streamScript.filterMap (·.result.toOption)

/-- The streams that were started and those that wait for it are all different, and they and
the live ones are streams of the server. -/
structure InPlaces (server : ScriptedServer) (started : List StreamId) : Prop where
  live : ∀ id ∈ server.live, id < server.streams.length
  known : ∀ id ∈ started ++ server.scriptedIds, id < server.streams.length
  distinct : (started ++ server.scriptedIds).Nodup

variable {next : ScriptedServer} {started startedNext : List StreamId}

theorem InPlaces.keep (inPlaces : server.InPlaces started)
    (places : next.streams.length = server.streams.length) (live : next.live ⊆ server.live)
    (same : startedNext ++ next.scriptedIds = started ++ server.scriptedIds) :
    next.InPlaces startedNext where
  live id member := places ▸ inPlaces.live id (live member)
  known := places ▸ same ▸ inPlaces.known
  distinct := same ▸ inPlaces.distinct

theorem InPlaces.grow (inPlaces : server.InPlaces started)
    (places : next.streams.length = server.streams.length + 1)
    (live : next.live ⊆ server.live ++ [server.streams.length])
    (fresh : startedNext ++ next.scriptedIds =
      started ++ server.scriptedIds ++ [server.streams.length]) :
    next.InPlaces startedNext where
  live id member := by
    rw [places]
    rcases List.mem_append.mp (live member) with old | new
    · exact Nat.lt_succ_of_lt (inPlaces.live id old)
    · exact List.mem_singleton.mp new ▸ Nat.lt_succ_self _
  known id member := by
    rw [places]
    rw [fresh] at member
    rcases List.mem_append.mp member with old | new
    · exact Nat.lt_succ_of_lt (inPlaces.known id old)
    · exact List.mem_singleton.mp new ▸ Nat.lt_succ_self _
  distinct := by
    rw [fresh, ← List.concat_eq_append, List.nodup_concat]
    exact ⟨fun member => Nat.lt_irrefl _ (inPlaces.known _ member), inPlaces.distinct⟩

theorem InPlaces.startStream (inPlaces : server.InPlaces started) :
    server.startStream.2.InPlaces (started ++ server.startStream.1.toOption.toList) := by
  cases script : server.streamScript with
  | nil =>
      rw [startStream_of_unscripted script]
      refine inPlaces.grow List.length_append (List.Subset.refl _) ?_
      simp [scriptedIds, script, Except.toOption]
  | cons next later =>
      rw [startStream_of_scripted script]
      refine inPlaces.keep rfl (List.Subset.refl _) ?_
      rw [scriptedIds, scriptedIds, script, List.filterMap_eq_flatMap_toList,
        List.filterMap_eq_flatMap_toList, List.flatMap_cons, List.append_assoc]

theorem scriptedIds_scriptStream (server : ScriptedServer) (stream : ValueStream) :
    (server.scriptStream stream).2.scriptedIds =
      server.scriptedIds ++ [server.streams.length] :=
  List.filterMap_append

theorem scriptedIds_scriptFailure (server : ScriptedServer) (error : RpcError) :
    (server.scriptFailure error).scriptedIds = server.scriptedIds :=
  List.filterMap_append.trans (List.append_nil _)

theorem InPlaces.of_sameStarts (inPlaces : server.InPlaces started)
    (same : server.SameStarts next) : next.InPlaces started :=
  inPlaces.keep same.places same.live (by rw [scriptedIds, same.streamScript, scriptedIds])

theorem InPlaces.act (inPlaces : server.InPlaces started) (action : ServerAction) :
    (server.act action).InPlaces (started ++ (server.startsStream? action).toList) := by
  cases action with
  | startStream => exact inPlaces.startStream
  | scriptStream stream =>
      simp only [startsStream?, Option.toList_none, List.append_nil]
      refine inPlaces.grow List.length_append (List.subset_append_left ..) ?_
      rw [ScriptedServer.act, scriptedIds_scriptStream, List.append_assoc]
  | scriptFailure error =>
      simp only [startsStream?, Option.toList_none, List.append_nil]
      refine inPlaces.keep rfl (List.Subset.refl _) ?_
      rw [ScriptedServer.act, scriptedIds_scriptFailure]
  | _ =>
      simp only [startsStream?, Option.toList_none, List.append_nil]
      exact inPlaces.of_sameStarts (server.sameStarts_act rfl)

theorem InPlaces.actAll (inPlaces : server.InPlaces started) (history : List ServerAction) :
    (server.actAll history).InPlaces (started ++ server.collect startsStream? history) := by
  induction history generalizing server started with
  | nil => rwa [collect, List.append_nil]
  | cons action history induction =>
      rw [collect, ← List.append_assoc]
      exact induction (inPlaces.act action)

theorem inPlaces_after (configs : List PropertyConfig) (history : List ServerAction) :
    ((ofConfigs configs).actAll history).InPlaces (startedStreams configs history) := by
  have empty : (ofConfigs configs).InPlaces [] :=
    ⟨List.forall_mem_nil _, List.forall_mem_nil _, List.nodup_nil⟩
  exact empty.actAll history

end ScriptedServer

end VehicleRelay
