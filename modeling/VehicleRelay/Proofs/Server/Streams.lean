import Mathlib.Data.List.Permutation
import VehicleRelay.Proofs.Server.Starts

/-!
# What streams yield

A stream yields what is put into it while somebody receives it, in order and each item once.
Injected batches go into the live streams, whole; into a scripted stream goes what is sent to
it, and nothing else.  What happens to other streams does not matter.
-/

namespace VehicleRelay

/-- The item that a look has found. -/
def StreamItem.item? : StreamItem → Option (RpcResult Batch)
  | .item batch => some batch
  | _ => none

/-- What a look finds in a stream with some items left. -/
def StreamItem.first (sending : Bool) : List (RpcResult Batch) → StreamItem
  | batch :: _ => .item batch
  | [] => if sending then .nothingYet else .ended

theorem StreamItem.item?_first (sending : Bool) (left : List (RpcResult Batch)) :
    (first sending left).item? = left.head? := by
  cases left with
  | nil => cases sending <;> rfl
  | cons batch left => rfl

theorem ValueStream.take_eq (stream : ValueStream) :
    stream.take =
      (.first stream.sending stream.waiting,
        { stream with waiting := stream.waiting.tail }) := by
  rw [take]
  split
  · next batch waiting waits => rw [waits]; rfl
  · next waits => rw [waits]; exact Prod.ext rfl (congrArg (ValueStream.mk · _ _) waits)

namespace ServerAction

/-- The batch that an action injects, when some responses of set calls wait. -/
def injects? (pending : Nat) : ServerAction → Option Batch
  | .inject values => some values
  | .call (.setValues requests) =>
      if pending = 0 ∧ requests ≠ [] then some (requests.map SetRequest.value) else none
  | _ => none

/-- The batches that a history injects, in order, when some responses of set calls wait. -/
def injectedFrom (pending : Nat) : List ServerAction → List Batch
  | [] => []
  | action :: history =>
      (action.injects? pending).toList
        ++ injectedFrom (action.pendingAfter .setValues pending) history

/-- The item that an action sends into a stream. -/
def sends? (id : StreamId) : ServerAction → Option (RpcResult Batch)
  | .send other batch => if other = id then some batch else none
  | _ => none

/-- Closes the sender of a stream. -/
def closes (id : StreamId) : ServerAction → Bool
  | .closeSender other => other = id
  | _ => false

/-- Needs the sender of a stream.  Nobody but the server has the sender of a live one. -/
def usesSender (id : StreamId) (action : ServerAction) : Bool :=
  (action.sends? id).isSome || action.closes id

/-- Drops a stream: nobody receives it any more. -/
def drops (id : StreamId) : ServerAction → Bool
  | .closeReceiver other => other = id
  | _ => false

/-- The part of a history before a stream is dropped. -/
def untilDropped (id : StreamId) (history : List ServerAction) : List ServerAction :=
  history.takeWhile fun action => !action.drops id

/-- What an action puts into a stream.  Injected batches go into fed streams. -/
def puts (id : StreamId) (fed : Bool) (pending : Nat) (action : ServerAction) :
    List (RpcResult Batch) :=
  (action.sends? id).toList ++ if fed then (action.injects? pending).toList.map .ok else []

/-- What a history puts into a stream, when some responses of set calls wait. -/
def putFrom (id : StreamId) (fed : Bool) (pending : Nat) :
    List ServerAction → List (RpcResult Batch)
  | [] => []
  | action :: history =>
      action.puts id fed pending
        ++ putFrom id fed (action.pendingAfter .setValues pending) history

theorem usesSender_eq_false_iff {id : StreamId} {action : ServerAction} :
    action.usesSender id = false ↔ action.sends? id = none ∧ action.closes id = false := by
  rw [usesSender, Bool.or_eq_false_iff, Option.isSome_eq_false_iff, Option.isNone_iff_eq_none]

theorem puts_eq_nil {id : StreamId} {pending : Nat} {action : ServerAction}
    (unsent : action.sends? id = none) (nothing : action.injects? pending = none) (fed : Bool) :
    action.puts id fed pending = [] := by
  rw [puts, unsent, nothing]
  cases fed <;> rfl

/-- Nothing is put into a stream from when it is dropped. -/
theorem putFrom_untilDropped_cons (id : StreamId) (fed : Bool) (pending : Nat)
    (action : ServerAction) (history : List ServerAction) :
    putFrom id fed pending (untilDropped id (action :: history)) =
      action.puts id fed pending ++
        if action.drops id then []
        else putFrom id fed (action.pendingAfter .setValues pending)
          (untilDropped id history) := by
  cases drops : action.drops id with
  | false =>
      rw [untilDropped, List.takeWhile_cons_of_pos (by rw [drops]; rfl), putFrom]
      rfl
  | true =>
      rw [untilDropped, List.takeWhile_cons_of_neg (by rw [drops]; exact Bool.false_ne_true)]
      cases action with
      | closeReceiver other =>
          rw [puts_eq_nil rfl rfl]
          rfl
      | _ => cases drops

theorem putFrom_unfed (id : StreamId) (pending : Nat) (history : List ServerAction) :
    putFrom id false pending history = history.filterMap (sends? id) := by
  rw [List.filterMap_eq_flatMap_toList]
  induction history generalizing pending with
  | nil => rfl
  | cons action history induction =>
      rw [putFrom, puts, induction, List.flatMap_cons, if_neg Bool.false_ne_true, List.append_nil]

theorem putFrom_fed {id : StreamId} {history : List ServerAction}
    (unsent : ∀ action ∈ history, action.sends? id = none) (pending : Nat) :
    putFrom id true pending history = (injectedFrom pending history).map .ok := by
  induction history generalizing pending with
  | nil => rfl
  | cons action history induction =>
      obtain ⟨first, others⟩ := List.forall_mem_cons.mp unsent
      rw [putFrom, puts, induction others, first, if_pos rfl, injectedFrom, List.map_append]
      rfl

end ServerAction

/-- A stream before and after something is put into it, taken from it, or closed. -/
structure ValueStream.Becomes (before after : ValueStream) (put taken : List (RpcResult Batch))
    (closed dropped : Bool) : Prop where
  contents : before.waiting ++ put = taken ++ after.waiting
  sending : after.sending = (before.sending && !closed)
  receiving : after.receiving = (before.receiving && !dropped)

namespace ValueStream.Becomes

variable {first second third : ValueStream} {put taken laterPut laterTaken : List (RpcResult Batch)}
  {closed dropped laterClosed laterDropped : Bool}

theorem refl (stream : ValueStream) : stream.Becomes stream [] [] false false where
  contents := List.append_nil _
  sending := (Bool.and_true _).symm
  receiving := (Bool.and_true _).symm

theorem trans (earlier : first.Becomes second put taken closed dropped)
    (later : second.Becomes third laterPut laterTaken laterClosed laterDropped) :
    first.Becomes third (put ++ laterPut) (taken ++ laterTaken) (closed || laterClosed)
      (dropped || laterDropped) where
  contents := by
    rw [← List.append_assoc, earlier.contents, List.append_assoc, later.contents,
      List.append_assoc]
  sending := by rw [later.sending, earlier.sending, Bool.not_or, Bool.and_assoc]
  receiving := by rw [later.receiving, earlier.receiving, Bool.not_or, Bool.and_assoc]

end ValueStream.Becomes

namespace ScriptedServer

/-- The item that an action takes out of a stream. -/
def yields? (id : StreamId) (server : ScriptedServer) :
    ServerAction → Option (RpcResult Batch)
  | .takeItem other => if other = id then (server.takeItem id).1.item? else none
  | _ => none

/-- The server has a stream, and feeds it with injected batches or does not. -/
structure Carries (server : ScriptedServer) (id : StreamId) (stream : ValueStream) (fed : Bool) :
    Prop where
  found : server.streams[id]? = some stream
  listed : stream.receiving = true → server.live.count id = fed.toNat

variable {server next : ScriptedServer} {id : StreamId} {stream : ValueStream} {fed : Bool}

theorem Carries.of_same (carries : server.Carries id stream fed)
    (streams : next.streams = server.streams) (live : next.live = server.live) :
    next.Carries id stream fed where
  found := by rw [streams, carries.found]
  listed received := by rw [live, carries.listed received]

theorem Carries.changeStream (carries : server.Carries id stream fed)
    (change : ValueStream → ValueStream)
    (receives : (change stream).receiving = true → stream.receiving = true) :
    (server.changeStream id change).Carries id (change stream) fed where
  found := by
    rw [ScriptedServer.changeStream, List.getElem?_modify_eq, carries.found]
    rfl
  listed received := carries.listed (receives received)

theorem Carries.changeStream_of_ne (carries : server.Carries id stream fed) {other : StreamId}
    (different : other ≠ id) (change : ValueStream → ValueStream) :
    (server.changeStream other change).Carries id stream fed where
  found := by
    rw [ScriptedServer.changeStream, List.getElem?_modify_ne _ _ different, carries.found]
  listed := carries.listed

theorem Carries.isReceiving (carries : server.Carries id stream fed) :
    server.isReceiving id = stream.receiving := by
  rw [ScriptedServer.isReceiving, carries.found]

/-- A place that is there already is not the place of a new stream. -/
theorem Carries.addStream (carries : server.Carries id stream fed) {fresh : ValueStream}
    (streams : next.streams = server.streams ++ [fresh])
    (live : next.live = server.live ∨ next.live = server.live ++ [server.streams.length]) :
    next.Carries id stream fed := by
  obtain ⟨present, _⟩ := List.getElem?_eq_some_iff.mp carries.found
  refine ⟨?_, fun received => ?_⟩
  · rw [streams, List.getElem?_append_left present, carries.found]
  · rcases live with same | longer
    · rw [same, carries.listed received]
    · rw [longer, List.count_append, carries.listed received,
        List.count_singleton, if_neg (by simpa using (Nat.ne_of_lt present).symm), Nat.add_zero]

theorem Carries.inject (carries : server.Carries id stream fed) (values : Batch) :
    (server.inject values).Carries id
      (if fed && stream.receiving then stream.push (.ok values) else stream) fed := by
  cases received : stream.receiving with
  | true =>
      have receives := carries.isReceiving.trans received
      have listed := carries.listed received
      refine ⟨?_, fun _ => by rw [count_inject receives, listed]⟩
      rw [getElem?_inject receives, carries.found, listed]
      cases fed <;> rfl
  | false =>
      rw [Bool.and_false, if_neg Bool.false_ne_true]
      have dropped := carries.isReceiving.trans received
      refine ⟨?_, fun receives => absurd (received.symm.trans receives) Bool.false_ne_true⟩
      rw [getElem?_inject_of_dropped dropped, carries.found]

theorem Carries.takeItem_eq (carries : server.Carries id stream fed) :
    server.takeItem id =
      (.first stream.sending stream.waiting,
        server.changeStream id fun _ => { stream with waiting := stream.waiting.tail }) := by
  rw [takeItem, carries.found]
  simp only [ValueStream.take_eq]

/-! ## One action -/

/-- What an action does to a stream. -/
def Passes (server : ScriptedServer) (id : StreamId) (stream : ValueStream) (fed : Bool)
    (action : ServerAction) : Prop :=
  ∃ next, (server.act action).Carries id next fed ∧
    stream.Becomes next
      (if stream.receiving then action.puts id fed (server.scripts .setValues).length else [])
      (server.yields? id action).toList (action.closes id) (action.drops id)

variable {action : ServerAction}

theorem passes_of_nothing (carries : (server.act action).Carries id stream fed)
    (unsent : stream.receiving = true → action.sends? id = none)
    (injects : action.injects? (server.scripts .setValues).length = none)
    (yields : server.yields? id action = none) (closes : action.closes id = false)
    (drops : action.drops id = false) : server.Passes id stream fed action := by
  refine ⟨stream, carries, ?_⟩
  rw [yields, closes, drops]
  split
  · next received =>
      rw [ServerAction.puts_eq_nil (unsent received) injects]
      exact .refl stream
  · exact .refl stream

theorem Carries.passes_inject (carries : server.Carries id stream fed) (values : Batch)
    (streams : (server.act action).streams = (server.inject values).streams)
    (live : (server.act action).live = (server.inject values).live)
    (unsent : action.sends? id = none)
    (injects : action.injects? (server.scripts .setValues).length = some values)
    (yields : server.yields? id action = none) (closes : action.closes id = false)
    (drops : action.drops id = false) : server.Passes id stream fed action := by
  refine ⟨_, (carries.inject values).of_same streams live, ?_⟩
  rw [ServerAction.puts, unsent, injects, yields, closes, drops]
  cases fed <;> cases received : stream.receiving
  all_goals
    constructor
    all_goals simp [ValueStream.push, received]

theorem Carries.passes_takeItem (carries : server.Carries id stream fed) (other : StreamId) :
    server.Passes id stream fed (.takeItem other) := by
  by_cases same : other = id
  · subst same
    refine ⟨{ stream with waiting := stream.waiting.tail }, ?_, ?_⟩
    · rw [ScriptedServer.act, carries.takeItem_eq]
      exact carries.changeStream _ id
    · rw [ServerAction.puts_eq_nil rfl rfl, ite_self, yields?, if_pos rfl, carries.takeItem_eq,
        StreamItem.item?_first]
      constructor
      · rw [List.append_nil]
        cases stream.waiting <;> rfl
      · exact (Bool.and_true _).symm
      · exact (Bool.and_true _).symm
  · refine passes_of_nothing ?_ (fun _ => rfl) rfl (if_neg same) rfl rfl
    simp only [ScriptedServer.act, takeItem]
    split
    · exact carries.changeStream_of_ne same _
    · exact carries

theorem Carries.passes_send (carries : server.Carries id stream fed) (other : StreamId)
    (batch : RpcResult Batch) : server.Passes id stream fed (.send other batch) := by
  by_cases same : other = id
  · subst same
    cases received : stream.receiving with
    | true =>
        refine ⟨stream.push batch, ?_, ?_⟩
        · rw [ScriptedServer.act, send, if_pos (carries.isReceiving.trans received)]
          exact carries.changeStream _ id
        · rw [if_pos received, ServerAction.puts, ServerAction.sends?, if_pos rfl]
          constructor
          · cases fed <;> rfl
          · exact (Bool.and_true _).symm
          · exact (Bool.and_true _).symm
    | false =>
        refine passes_of_nothing ?_ (fun receives => ?_) rfl rfl rfl rfl
        · rw [ScriptedServer.act, send, if_neg]
          · exact carries
          · rw [carries.isReceiving, received]
            exact Bool.false_ne_true
        · exact absurd (received.symm.trans receives) Bool.false_ne_true
  · refine passes_of_nothing ?_ (fun _ => if_neg same) rfl rfl rfl rfl
    simp only [ScriptedServer.act, send]
    split
    · exact carries.changeStream_of_ne same _
    · exact carries

theorem injects?_of_not_pushes {call : ServerCall} (still : ¬server.Pushes call) :
    (ServerAction.call call).injects? (server.scripts .setValues).length = none := by
  cases call with
  | setValues requests =>
      refine if_neg ?_
      rintro ⟨none, given⟩
      obtain ⟨request, others, rfl⟩ := List.exists_cons_of_ne_nil given
      exact still ⟨List.length_eq_zero_iff.mp none, request, others, rfl⟩
  | _ => rfl

theorem Carries.passes_call (carries : server.Carries id stream fed) (call : ServerCall) :
    server.Passes id stream fed (.call call) := by
  by_cases pushes : server.Pushes call
  · obtain ⟨scripted, request, requests, rfl⟩ := pushes
    have acts : server.act (.call (.setValues (request :: requests))) = _ :=
      congrArg Prod.snd (answer_of_unscripted scripted)
    refine carries.passes_inject ((request :: requests).map SetRequest.value) ?_ ?_ rfl
      (if_pos ⟨List.length_eq_zero_iff.mpr scripted, List.cons_ne_nil _ _⟩) rfl rfl rfl
    · rw [acts]
      change (ScriptedServer.inject _ _).streams = _
      rw [inject_eq, inject_eq]
      rfl
    · rw [acts]
      change (ScriptedServer.inject _ _).live = _
      rw [inject_eq, inject_eq]
      rfl
  · obtain ⟨streams, live⟩ := streams_answer pushes
    exact passes_of_nothing (carries.of_same streams live) (fun _ => rfl)
      (injects?_of_not_pushes pushes) rfl rfl rfl

theorem Carries.passes_startStream (carries : server.Carries id stream fed) :
    server.Passes id stream fed .startStream := by
  refine passes_of_nothing ?_ (fun _ => rfl) rfl rfl rfl rfl
  cases script : server.streamScript with
  | nil =>
      rw [ScriptedServer.act, startStream_of_unscripted script]
      exact carries.addStream rfl (.inr rfl)
  | cons next later =>
      rw [ScriptedServer.act, startStream_of_scripted script]
      exact carries.of_same rfl rfl

theorem Carries.passes_closeSender (carries : server.Carries id stream fed) (other : StreamId) :
    server.Passes id stream fed (.closeSender other) := by
  by_cases same : other = id
  · subst same
    refine ⟨{ stream with sending := false }, carries.changeStream _ id, ?_⟩
    rw [ServerAction.puts_eq_nil rfl rfl, ite_self, ServerAction.closes, decide_eq_true rfl]
    exact ⟨List.append_nil _, (Bool.and_false _).symm, (Bool.and_true _).symm⟩
  · exact passes_of_nothing (carries.changeStream_of_ne same _) (fun _ => rfl) rfl rfl
      (decide_eq_false same) rfl

theorem Carries.passes_closeReceiver (carries : server.Carries id stream fed)
    (other : StreamId) : server.Passes id stream fed (.closeReceiver other) := by
  by_cases same : other = id
  · subst same
    refine ⟨{ stream with receiving := false }, carries.changeStream _ nofun, ?_⟩
    rw [ServerAction.puts_eq_nil rfl rfl, ite_self, ServerAction.drops, decide_eq_true rfl]
    exact ⟨List.append_nil _, (Bool.and_true _).symm, (Bool.and_false _).symm⟩
  · exact passes_of_nothing (carries.changeStream_of_ne same _) (fun _ => rfl) rfl rfl rfl
      (decide_eq_false same)

theorem Carries.act (carries : server.Carries id stream fed) (action : ServerAction) :
    server.Passes id stream fed action := by
  cases action with
  | takeItem other => exact carries.passes_takeItem other
  | send other batch => exact carries.passes_send other batch
  | call call => exact carries.passes_call call
  | startStream => exact carries.passes_startStream
  | inject values => exact carries.passes_inject values rfl rfl rfl rfl rfl rfl rfl
  | closeSender other => exact carries.passes_closeSender other
  | closeReceiver other => exact carries.passes_closeReceiver other
  | scriptStream fresh =>
      exact passes_of_nothing (carries.addStream rfl (.inl rfl)) (fun _ => rfl) rfl rfl rfl rfl
  | push _ _ | respond _ | scriptFailure _ | setReachable _ =>
      exact passes_of_nothing (carries.of_same rfl rfl) (fun _ => rfl) rfl rfl rfl rfl

/-! ## A history -/

/-- What a history does to a stream: what is put into it before it is dropped is taken from it
in order, and the rest is left. -/
theorem Carries.actAll (carries : server.Carries id stream fed) (history : List ServerAction) :
    ∃ now, (server.actAll history).Carries id now fed ∧
      stream.Becomes now
        (if stream.receiving then
          ServerAction.putFrom id fed (server.scripts .setValues).length
            (ServerAction.untilDropped id history)
        else [])
        (server.collect (yields? id) history) (history.any (·.closes id))
        (history.any (·.drops id)) := by
  induction history generalizing server stream with
  | nil =>
      refine ⟨stream, carries, ?_⟩
      rw [ServerAction.untilDropped, List.takeWhile_nil, ServerAction.putFrom, ite_self]
      exact .refl stream
  | cons action history induction =>
      obtain ⟨next, carried, step⟩ := carries.act action
      obtain ⟨now, carriedOn, run⟩ := induction carried
      refine ⟨now, carriedOn, ?_⟩
      rw [List.any_cons, List.any_cons, collect, ServerAction.putFrom_untilDropped_cons]
      rw [length_scripts_act, step.receiving] at run
      convert step.trans run using 1
      cases stream.receiving <;> cases action.drops id <;> simp

/-- What is put into a stream that is received comes out of it in order; a look finds the first
of the rest. -/
theorem Carries.yields (carries : server.Carries id stream fed) (received : stream.receiving = true)
    (history : List ServerAction) :
    ∃ left,
      stream.waiting ++ ServerAction.putFrom id fed (server.scripts .setValues).length
          (ServerAction.untilDropped id history) =
        server.collect (yields? id) history ++ left ∧
      ((server.actAll history).takeItem id).1 =
        .first (stream.sending && !history.any (·.closes id)) left := by
  obtain ⟨now, carried, becomes⟩ := carries.actAll history
  rw [if_pos received] at becomes
  refine ⟨now.waiting, becomes.contents, ?_⟩
  rw [carried.takeItem_eq, becomes.sending]

/-- A new place is not listed as live. -/
theorem count_fresh (configs : List PropertyConfig) (history : List ServerAction) :
    let server := (ofConfigs configs).actAll history
    server.live.count server.streams.length = 0 := by
  intro server
  apply List.count_eq_zero_of_not_mem
  intro member
  exact Nat.lt_irrefl _ ((inPlaces_after configs history).live _ member)

theorem carries_started (configs : List PropertyConfig) (history : List ServerAction)
    (unscripted : ((ofConfigs configs).actAll history).streamScript = []) :
    let server := (ofConfigs configs).actAll history
    server.startStream.2.Carries server.streams.length {} true := by
  intro server
  rw [startStream_of_unscripted unscripted]
  refine ⟨List.getElem?_concat_length, fun _ => ?_⟩
  rw [List.count_append, count_fresh, List.count_singleton_self]
  rfl

/-- A live stream yields what is injected, and does not end. -/
theorem live_yields (configs : List PropertyConfig) {earlier later : List ServerAction}
    (unscripted : ((ofConfigs configs).actAll earlier).streamScript = [])
    (unused : ∀ action ∈ later,
      action.usesSender ((ofConfigs configs).actAll earlier).streams.length = false) :
    let before := (ofConfigs configs).actAll earlier
    let id := before.streams.length
    ∃ left,
      (ServerAction.injectedFrom (ServerAction.pending .setValues earlier)
        (ServerAction.untilDropped id later)).map .ok =
          before.startStream.2.collect (yields? id) later ++ left ∧
      ((before.startStream.2.actAll later).takeItem id).1 = .first true left := by
  intro before id
  obtain ⟨left, contents, look⟩ := (carries_started configs earlier unscripted).yields rfl later
  refine ⟨left, ?_, look.trans ?_⟩
  · rw [← contents, before.sameContents_startStream.scripts, ← pending_eq_length configs,
      ServerAction.putFrom_fed]
    · rfl
    · intro action member
      have whole := (List.takeWhile_prefix _).subset member
      exact (ServerAction.usesSender_eq_false_iff.mp (unused action whole)).1
  · have unclosed : later.any (·.closes id) = false := by
      rw [List.any_eq_false]
      intro action member
      rw [(ServerAction.usesSender_eq_false_iff.mp (unused action member)).2]
      exact Bool.false_ne_true
    rw [unclosed]
    rfl

theorem carries_scripted (configs : List PropertyConfig) (history : List ServerAction)
    (stream : ValueStream) :
    let server := (ofConfigs configs).actAll history
    (server.scriptStream stream).2.Carries server.streams.length stream false := by
  intro server
  exact ⟨List.getElem?_concat_length, fun _ => count_fresh configs history⟩

/-- Every start is counted, and starts what was scripted first and not started yet.  Only if
nothing is left, a new stream is opened; it yields what is injected until it is dropped, batch
by batch, and does not end.  A scripted stream yields what it has and what is sent to it, and
nothing that is injected. -/
theorem streams_yield_batches (configs : List PropertyConfig)
    (earlier later : List ServerAction) :
    let before := (ofConfigs configs).actAll earlier
    before.starts = earlier.countP ServerAction.isStart ∧
    before.startStream.1 =
      (waitingStarts configs earlier).head?.getD (.ok before.streams.length) ∧
    (startedStreams configs earlier).Nodup ∧
    (waitingStarts configs earlier ≠ [] →
      before.startStream.2.streams = before.streams ∧
        before.startStream.2.live = before.live) ∧
    (waitingStarts configs earlier = [] → ∀ id started, before.startStream = (.ok id, started) →
      (∀ action ∈ later, action.usesSender id = false) →
        ∃ left,
          (ServerAction.injectedFrom (ServerAction.pending .setValues earlier)
            (ServerAction.untilDropped id later)).map .ok =
              started.collect (yields? id) later ++ left ∧
          ((started.actAll later).takeItem id).1 = .first true left) ∧
    (∀ stream id scripted, stream.receiving = true → before.scriptStream stream = (id, scripted) →
      ∃ left,
        stream.waiting ++ (ServerAction.untilDropped id later).filterMap (·.sends? id) =
          scripted.collect (yields? id) later ++ left ∧
        ((scripted.actAll later).takeItem id).1 =
          .first (stream.sending && !later.any (·.closes id)) left) := by
  intro before
  have waiting := streamScript_eq_waitingStarts configs earlier
  refine ⟨?_, ?_, ?_, ?_, ?_, ?_⟩
  · exact (starts_actAll (ofConfigs configs) earlier).trans (Nat.zero_add _)
  · rw [startStream_fst, waiting]
  · have distinct := (inPlaces_after configs earlier).distinct
    exact (List.nodup_append.mp distinct).1
  · intro queued
    rw [← waiting, ne_eq, List.map_eq_nil_iff] at queued
    obtain ⟨next, later, script⟩ := List.exists_cons_of_ne_nil queued
    rw [startStream_of_scripted script]
    exact ⟨rfl, rfl⟩
  · intro none id started starts unused
    rw [← waiting, List.map_eq_nil_iff] at none
    have fresh : before.startStream.1 = .ok id := by rw [starts]
    obtain rfl : before.startStream.2 = started := by rw [starts]
    rw [startStream_of_unscripted none] at fresh
    obtain rfl := Except.ok.inj fresh
    exact live_yields configs none unused
  · intro stream id scripted received scripts
    obtain ⟨rfl, rfl⟩ := Prod.mk.inj scripts
    obtain ⟨left, contents, look⟩ :=
      (carries_scripted configs earlier stream).yields received later
    rw [ServerAction.putFrom_unfed] at contents
    exact ⟨left, contents, look⟩

/-- Two live streams, after a start that fails and a scripted stream.  One live stream is
dropped, a set call is scripted and injects nothing, and an empty batch counts. -/
theorem streams_yield_batches_of_two_live :
    let speed : PropertyValue := ⟨10, 0, 1, .available, {}⟩
    let door : PropertyValue := ⟨5, 4, 2, .error, {}⟩
    let earlier : List ServerAction :=
      [.scriptFailure ⟨.unavailable, "down"⟩, .scriptStream (.finite [[door]]), .startStream,
        .inject [door], .startStream, .startStream, .push .setValues (.ok [])]
    let later : List ServerAction :=
      [.inject [speed], .closeReceiver 1, .call (.setValues [⟨1, door⟩]), .inject [],
        .takeItem 2, .call (.setValues [⟨2, door⟩, ⟨3, speed⟩]), .closeReceiver 2,
        .inject [door]]
    let queuing := (ofConfigs []).actAll (earlier.take 2)
    let before := (ofConfigs []).actAll earlier
    let started := before.startStream.2
    let scripted := (before.scriptStream (.finite [[door], [speed]])).2
    waitingStarts [] (earlier.take 2) ≠ [] ∧
      queuing.startStream.2.streams = queuing.streams ∧
      queuing.startStream.2.live = queuing.live ∧
      before.starts = 3 ∧ startedStreams [] earlier = [0, 1] ∧ waitingStarts [] earlier = [] ∧
      started.collect (yields? 2) later = [.ok [speed]] ∧
      (∃ left, [.ok [speed], .ok [], .ok [door, speed]] =
          started.collect (yields? 2) later ++ left ∧
        ((started.actAll later).takeItem 2).1 = .first true left) ∧
      scripted.collect (yields? 2) later = [.ok [door]] ∧
      ∃ left, [.ok [door], .ok [speed]] = scripted.collect (yields? 2) later ++ left ∧
        ((scripted.actAll later).takeItem 2).1 = .first false left := by
  intro speed door earlier later queuing before started scripted
  obtain ⟨-, -, -, unopened, -⟩ := streams_yield_batches [] (earlier.take 2) []
  obtain ⟨counted, -, -, -, live, queued⟩ := streams_yield_batches [] earlier later
  have waiting : waitingStarts [] (earlier.take 2) ≠ [] := by
    have two : waitingStarts [] (earlier.take 2) = [.error ⟨.unavailable, "down"⟩, .ok 0] := by
      cbv
    rw [two]
    exact List.cons_ne_nil _ _
  have known : startedStreams [] earlier = [0, 1] := by cbv
  have noneWaiting : waitingStarts [] earlier = [] := by cbv
  have starts : before.startStream = (.ok 2, started) := by cbv
  have unused : ∀ action ∈ later, action.usesSender 2 = false := by decide
  have taken : started.collect (yields? 2) later = [.ok [speed]] := by cbv
  have scripts : before.scriptStream (.finite [[door], [speed]]) = (2, scripted) := by cbv
  have scriptTaken : scripted.collect (yields? 2) later = [.ok [door]] := by cbv
  exact ⟨waiting, (unopened waiting).1, (unopened waiting).2, counted, known, noneWaiting, taken,
    live noneWaiting 2 started starts unused, scriptTaken,
    queued (.finite [[door], [speed]]) 2 scripted rfl scripts⟩

end ScriptedServer

end VehicleRelay
