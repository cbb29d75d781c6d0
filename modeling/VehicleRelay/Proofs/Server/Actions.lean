import VehicleRelay.Proofs.Server.Injection

/-!
# Histories of a scripted server

All that can be done with a scripted server, one action after the other.  Each method has
responses that were scripted for it and not given yet; how many they are follows from the
history alone, and an action of one method leaves those of the others alone.
-/

namespace VehicleRelay

/-- What is done with a scripted server. -/
inductive ServerAction
  | push (method : ServerMethod) (response : RpcResult method.Answer)
  | respond (responder : GetResponder)
  | call (call : ServerCall)
  | inject (values : Batch)
  | scriptStream (stream : ValueStream)
  | scriptFailure (error : RpcError)
  | startStream
  | send (id : StreamId) (batch : RpcResult Batch)
  | takeItem (id : StreamId)
  | closeSender (id : StreamId)
  | closeReceiver (id : StreamId)
  | setReachable (reachable : Bool)

namespace ServerAction

/-- How many responses of a method wait to be given after an action. -/
def pendingAfter (method : ServerMethod) (pending : Nat) : ServerAction → Nat
  | .push other _ => if other = method then pending + 1 else pending
  | .call made => if made.method = method then pending - 1 else pending
  | _ => pending

/-- How many responses of a method were scripted in a history and not given yet. -/
def pending (method : ServerMethod) (history : List ServerAction) : Nat :=
  history.foldl (pendingAfter method) 0

/-- Counts a get call that finds no scripted response, when some responses wait. -/
def unscriptedGet (pending : Nat) : ServerAction → Nat
  | .call (.getValues _) => if pending = 0 then 1 else 0
  | _ => 0

/-- How many get calls of a history find no scripted response, when some wait at first. -/
def unscriptedGets (pending : Nat) : List ServerAction → Nat
  | [] => 0
  | action :: history =>
      action.unscriptedGet pending
        + unscriptedGets (action.pendingAfter .getValues pending) history

/-- From now on get calls are not answered from the store. -/
def responds : ServerAction → Bool
  | .respond _ => true
  | _ => false

end ServerAction

/-- The responder after some more calls that it answered. -/
def GetResponder.afterCalls (responder : GetResponder) (calls : Nat) : GetResponder :=
  { responder with answered := responder.answered + calls }

namespace ScriptedServer

def act (server : ScriptedServer) : ServerAction → ScriptedServer
  | .push method response => server.push method response
  | .respond responder => { server with responder := some responder }
  | .call call => (VehicleServer.answer call server).2
  | .inject values => server.inject values
  | .scriptStream stream => (server.scriptStream stream).2
  | .scriptFailure error => server.scriptFailure error
  | .startStream => server.startStream.2
  | .send id batch => (server.send id batch).2
  | .takeItem id => (server.takeItem id).2
  | .closeSender id => server.closeSender id
  | .closeReceiver id => server.closeReceiver id
  | .setReachable reachable => { server with reachable }

/-- The server after a history. -/
def actAll (server : ScriptedServer) (history : List ServerAction) : ScriptedServer :=
  history.foldl act server

/-! ## Calls -/

theorem scripts_inject (server : ScriptedServer) (values : Batch) :
    (server.inject values).scripts = server.scripts := by
  rw [inject_eq]

theorem responder_inject (server : ScriptedServer) (values : Batch) :
    (server.inject values).responder = server.responder := by
  rw [inject_eq]

theorem scripts_unscripted (server : ScriptedServer) (call : ServerCall) :
    (server.unscripted call).2.scripts = server.scripts := by
  rcases server.unscripted_effect call with ⟨_, _, _, injects⟩ | ⟨_, _, counts⟩ | nothing
  · rw [injects, scripts_inject]
  · rw [counts]
  · rw [nothing]

/-- A call takes the next response of its method, if there is one. -/
theorem scripts_answer (call : ServerCall) (server : ScriptedServer) (method : ServerMethod) :
    (VehicleServer.answer call server).2.scripts method =
      if call.method = method then (server.scripts method).tail else server.scripts method := by
  cases scripted : server.scripts call.method with
  | nil =>
      rw [answer_of_unscripted scripted, scripts_unscripted]
      split
      · next same =>
          subst same
          rw [scripted, List.tail_nil]
      · rfl
  | cons response responses =>
      simp only [answer_of_scripted scripted]
      split
      · next same =>
          subst same
          rw [scripted, Scripts.replace_self, List.tail_cons]
      · next different => exact Scripts.replace_of_ne _ different responses

theorem length_scripts_push (server : ScriptedServer) (pushed : ServerMethod)
    (response : RpcResult pushed.Answer) (method : ServerMethod) :
    ((server.push pushed response).scripts method).length =
      if pushed = method then (server.scripts method).length + 1
      else (server.scripts method).length := by
  simp only [push, Scripts.push]
  split
  · next same =>
      subst same
      rw [Scripts.replace_self, List.length_append, List.length_singleton]
  · next different => rw [Scripts.replace_of_ne _ different]

theorem responder_answer_of_ne {call : ServerCall} (other : call.method ≠ .getValues)
    (server : ScriptedServer) :
    (VehicleServer.answer call server).2.responder = server.responder := by
  cases scripted : server.scripts call.method with
  | cons response responses => rw [answer_of_scripted scripted]
  | nil =>
      rw [answer_of_unscripted scripted]
      cases call with
      | getValues requests => exact absurd rfl other
      | setValues requests =>
          simp only [unscripted]
          split
          · rfl
          · exact responder_inject _ _
      | propertyConfigs | dump _ | checkHealth | subscribe _ | unsubscribe _
      | updateSampleRate _ _ => rfl

/-- The responder counts the get calls for which no response waits. -/
theorem responder_answer (call : ServerCall) (server : ScriptedServer) :
    (VehicleServer.answer call server).2.responder = server.responder.map
      (·.afterCalls ((ServerAction.call call).unscriptedGet
        (server.scripts .getValues).length)) := by
  cases call with
  | getValues requests =>
      rw [ServerAction.unscriptedGet]
      cases scripted : server.scripts .getValues with
      | cons response responses =>
          rw [answer_of_scripted scripted]
          exact Option.map_id'.symm
      | nil =>
          rw [answer_of_unscripted scripted]
          simp only [unscripted]
          cases present : server.responder <;> rfl
  | propertyConfigs | setValues _ | dump _ | checkHealth | subscribe _ | unsubscribe _
  | updateSampleRate _ _ =>
      rw [responder_answer_of_ne (by simp)]
      exact Option.map_id'.symm

/-! ## Actions on streams -/

/-- The servers differ in their streams only. -/
structure SameContents (before after : ScriptedServer) : Prop where
  store : after.store = before.store
  scripts : after.scripts = before.scripts
  responder : after.responder = before.responder

variable (server : ScriptedServer)

theorem sameContents_startStream : server.SameContents server.startStream.2 := by
  simp only [startStream]
  split <;> exact ⟨rfl, rfl, rfl⟩

theorem sameContents_send (id : StreamId) (batch : RpcResult Batch) :
    server.SameContents (server.send id batch).2 := by
  simp only [send]
  split <;> exact ⟨rfl, rfl, rfl⟩

theorem sameContents_takeItem (id : StreamId) : server.SameContents (server.takeItem id).2 := by
  simp only [takeItem]
  split <;> exact ⟨rfl, rfl, rfl⟩

/-! ## Histories -/

/-- An action changes the number of responses that wait as it is counted. -/
theorem length_scripts_act (action : ServerAction) (method : ServerMethod) :
    ((server.act action).scripts method).length =
      action.pendingAfter method (server.scripts method).length := by
  have unchanged {after : ScriptedServer} (same : after.scripts = server.scripts) :
      (after.scripts method).length = (server.scripts method).length := by rw [same]
  cases action with
  | push pushed response => exact server.length_scripts_push pushed response method
  | call call =>
      rw [act, scripts_answer, ServerAction.pendingAfter]
      split
      · exact List.length_tail
      · rfl
  | inject values => exact unchanged (scripts_inject server values)
  | startStream => exact unchanged server.sameContents_startStream.scripts
  | send id batch => exact unchanged (server.sameContents_send id batch).scripts
  | takeItem id => exact unchanged (server.sameContents_takeItem id).scripts
  | respond _ | scriptStream _ | scriptFailure _ | closeSender _ | closeReceiver _
  | setReachable _ => rfl

theorem length_scripts_actAll (history : List ServerAction) (method : ServerMethod) :
    ((server.actAll history).scripts method).length =
      history.foldl (ServerAction.pendingAfter method) (server.scripts method).length := by
  induction history generalizing server with
  | nil => rfl
  | cons action history induction =>
      rw [actAll, List.foldl_cons, List.foldl_cons, ← length_scripts_act]
      exact induction (server.act action)

theorem pending_eq_length (configs : List PropertyConfig) (history : List ServerAction)
    (method : ServerMethod) :
    ServerAction.pending method history =
      (((ofConfigs configs).actAll history).scripts method).length :=
  (length_scripts_actAll (ofConfigs configs) history method).symm

theorem responder_act {action : ServerAction} (silent : action.responds = false) :
    (server.act action).responder = server.responder.map
      (·.afterCalls (action.unscriptedGet (server.scripts .getValues).length)) := by
  have unchanged {after : ScriptedServer} (same : after.responder = server.responder) :
      after.responder = server.responder.map (·.afterCalls 0) :=
    same.trans Option.map_id'.symm
  cases action with
  | respond responder => simp [ServerAction.responds] at silent
  | call call => exact responder_answer call server
  | inject values => exact unchanged (responder_inject server values)
  | startStream => exact unchanged server.sameContents_startStream.responder
  | send id batch => exact unchanged (server.sameContents_send id batch).responder
  | takeItem id => exact unchanged (server.sameContents_takeItem id).responder
  | push _ _ | scriptStream _ | scriptFailure _ | closeSender _ | closeReceiver _
  | setReachable _ => exact unchanged rfl

/-- Without a new responder, the one that is there counts on. -/
theorem responder_after {history : List ServerAction}
    (silent : ∀ action ∈ history, action.responds = false) :
    (server.actAll history).responder = server.responder.map
      (·.afterCalls (ServerAction.unscriptedGets (server.scripts .getValues).length history)) := by
  induction history generalizing server with
  | nil => exact Option.map_id'.symm
  | cons action history induction =>
      obtain ⟨first, others⟩ := List.forall_mem_cons.mp silent
      rw [actAll, List.foldl_cons, ← actAll, induction (server.act action) others,
        responder_act server first, Option.map_map, length_scripts_act]
      simp only [Function.comp_def, GetResponder.afterCalls, ServerAction.unscriptedGets,
        Nat.add_assoc]

theorem responder_actAll {server : ScriptedServer} (noResponder : server.responder = none)
    {history : List ServerAction} (silent : ∀ action ∈ history, action.responds = false) :
    (server.actAll history).responder = none := by
  rw [responder_after server silent, noResponder, Option.map_none]

end ScriptedServer

end VehicleRelay
