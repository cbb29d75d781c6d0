import Mathlib.Data.List.DropRight
import VehicleRelay.Proofs.Server.Actions

/-!
# Scripted responses in turn

The responses that are scripted for a method are given one by one, in the order in which they
were scripted, whatever is done with other methods in between.  A get call that finds none
goes to the responder; any other call is then answered by the server itself.  Every call is
recorded with what it carried.
-/

namespace VehicleRelay

namespace ServerAction

/-- The response that an action scripts for a method. -/
def scripts? (method : ServerMethod) : ServerAction → Option (RpcResult method.Answer)
  | .push pushed response => if same : pushed = method then some (same ▸ response) else none
  | _ => none

/-- The responses that a history scripts for a method, in order. -/
def scripted (method : ServerMethod) (history : List ServerAction) :
    List (RpcResult method.Answer) :=
  history.filterMap (scripts? method)

/-- The responses of a method that no call was given yet, the oldest first. -/
def waiting (method : ServerMethod) (history : List ServerAction) :
    List (RpcResult method.Answer) :=
  (scripted method history).rtake (pending method history)

def call? : ServerAction → Option ServerCall
  | .call made => some made
  | _ => none

/-- The calls of a history, in order. -/
def calls (history : List ServerAction) : List ServerCall :=
  history.filterMap call?

/-- The action scripts or calls a method. -/
def concerns (method : ServerMethod) : ServerAction → Bool
  | .push pushed _ => pushed = method
  | .call made => made.method = method
  | _ => false

variable {method : ServerMethod} {action : ServerAction}

theorem scripts?_of_not_concerns (apart : ¬action.concerns method) :
    action.scripts? method = none := by
  cases action with
  | push pushed response =>
      simp only [concerns, decide_eq_true_eq] at apart
      rw [scripts?, dif_neg apart]
  | _ => rfl

theorem pendingAfter_of_not_concerns (apart : ¬action.concerns method) (pending : Nat) :
    action.pendingAfter method pending = pending := by
  cases action with
  | push _ _ | call _ =>
      simp only [concerns, decide_eq_true_eq] at apart
      rw [pendingAfter, if_neg apart]
  | _ => rfl

theorem scripted_filter (method : ServerMethod) (history : List ServerAction) :
    scripted method (history.filter (·.concerns method)) = scripted method history := by
  rw [scripted, List.filterMap_filter, scripted]
  apply List.filterMap_congr
  intro action _
  split
  · rfl
  · next apart => exact (scripts?_of_not_concerns apart).symm

theorem pending_filter (method : ServerMethod) (history : List ServerAction) :
    pending method (history.filter (·.concerns method)) = pending method history := by
  rw [pending, List.foldl_filter, pending]
  congr 1
  funext pending action
  split
  · rfl
  · next apart => exact (pendingAfter_of_not_concerns apart pending).symm

/-- Either no responder is set in a history, or one is the last. -/
theorem last_responder_cases (history : List ServerAction) :
    (∀ action ∈ history, action.responds = false) ∨
      ∃ earlier responder since, history = earlier ++ .respond responder :: since ∧
        ∀ action ∈ since, action.responds = false := by
  induction history with
  | nil => exact .inl (List.forall_mem_nil _)
  | cons action history induction =>
      rcases induction with silent | ⟨earlier, responder, since, rfl, silent⟩
      · cases responds : action.responds with
        | false => exact .inl (List.forall_mem_cons.mpr ⟨responds, silent⟩)
        | true =>
            cases action with
            | respond responder => exact .inr ⟨[], responder, history, rfl, silent⟩
            | _ => cases responds
      · exact .inr ⟨action :: earlier, responder, since, rfl, silent⟩

end ServerAction

namespace ScriptedServer

/-- What an action is answered, if it calls a method for which some responses wait. -/
def takes? (method : ServerMethod) (pending : Nat) (server : ScriptedServer) :
    ServerAction → Option (RpcResult method.Answer)
  | .call call =>
      if same : call.method = method then
        if 0 < pending then some (same ▸ (VehicleServer.answer call server).1) else none
      else none
  | _ => none

/-- What the calls of a method are answered in a history, those that find a response. -/
def takenFrom (method : ServerMethod) (pending : Nat) (server : ScriptedServer) :
    List ServerAction → List (RpcResult method.Answer)
  | [] => []
  | action :: history =>
      (server.takes? method pending action).toList
        ++ takenFrom method (action.pendingAfter method pending) (server.act action) history

/-- The scripted responses that the calls of a method were given in a history, in order. -/
def given (method : ServerMethod) (configs : List PropertyConfig)
    (history : List ServerAction) : List (RpcResult method.Answer) :=
  (ofConfigs configs).takenFrom method 0 history

/-! ## What is taken and what is left -/

theorem scripts_act (server : ScriptedServer) (action : ServerAction) (method : ServerMethod) :
    server.scripts method ++ (action.scripts? method).toList =
      (server.takes? method (server.scripts method).length action).toList
        ++ (server.act action).scripts method := by
  have unchanged {after : ScriptedServer} (same : after.scripts = server.scripts) :
      server.scripts method ++ [] = [] ++ after.scripts method := by
    rw [same, List.append_nil, List.nil_append]
  cases action with
  | push pushed response =>
      simp only [ServerAction.scripts?, takes?, act, push, Scripts.push]
      split
      · next same =>
          subst same
          rw [Scripts.replace_self]
          rfl
      · next different =>
          rw [Scripts.replace_of_ne _ different]
          simp
  | call call =>
      rw [act, scripts_answer]
      simp only [ServerAction.scripts?, takes?]
      split
      · next same =>
          subst same
          cases scripted : server.scripts call.method with
          | nil => simp
          | cons response responses =>
              rw [answer_of_scripted scripted]
              simp
      · simp
  | inject values => exact unchanged (scripts_inject server values)
  | startStream => exact unchanged server.sameContents_startStream.scripts
  | send id batch => exact unchanged (server.sameContents_send id batch).scripts
  | takeItem id => exact unchanged (server.sameContents_takeItem id).scripts
  | respond _ | scriptStream _ | scriptFailure _ | closeSender _ | closeReceiver _
  | setReachable _ => exact unchanged rfl

/-- Nothing that is scripted for a method is lost, repeated or moved. -/
theorem scripts_actAll (server : ScriptedServer) (history : List ServerAction)
    (method : ServerMethod) :
    server.scripts method ++ ServerAction.scripted method history =
      server.takenFrom method (server.scripts method).length history
        ++ (server.actAll history).scripts method := by
  rw [ServerAction.scripted, List.filterMap_eq_flatMap_toList]
  induction history generalizing server with
  | nil => simp [takenFrom, actAll]
  | cons action history induction =>
      rw [List.flatMap_cons, takenFrom, ← length_scripts_act, ← List.append_assoc,
        scripts_act, List.append_assoc, induction, List.append_assoc]
      rfl

/-- What was scripted is what was given, and then what waits. -/
theorem scripted_eq (configs : List PropertyConfig) (history : List ServerAction)
    (method : ServerMethod) :
    ServerAction.scripted method history =
      given method configs history ++ ((ofConfigs configs).actAll history).scripts method :=
  (ofConfigs configs).scripts_actAll history method

theorem scripts_eq_waiting (configs : List PropertyConfig) (history : List ServerAction)
    (method : ServerMethod) :
    ((ofConfigs configs).actAll history).scripts method =
      ServerAction.waiting method history := by
  rw [ServerAction.waiting, pending_eq_length configs, scripted_eq configs, List.rtake,
    List.length_append, Nat.add_sub_cancel, List.drop_left]

/-- What is given for a method, and what waits, depends on what is done with it alone. -/
theorem given_of_same_concerns {method : ServerMethod} {history other : List ServerAction}
    (same : other.filter (·.concerns method) = history.filter (·.concerns method))
    (configs otherConfigs : List PropertyConfig) :
    given method otherConfigs other = given method configs history ∧
      ServerAction.waiting method other = ServerAction.waiting method history := by
  have waiting : ServerAction.waiting method other = ServerAction.waiting method history := by
    rw [ServerAction.waiting, ServerAction.waiting, ← ServerAction.scripted_filter,
      ← ServerAction.pending_filter, same, ServerAction.scripted_filter,
      ServerAction.pending_filter]
  refine ⟨?_, waiting⟩
  have scripted : ServerAction.scripted method other = ServerAction.scripted method history := by
    rw [← ServerAction.scripted_filter, same, ServerAction.scripted_filter]
  rw [scripted_eq otherConfigs, scripted_eq configs, scripts_eq_waiting, scripts_eq_waiting,
    waiting] at scripted
  exact List.append_cancel_right scripted

theorem calls_act (server : ScriptedServer) (action : ServerAction) :
    (server.act action).calls = server.calls ++ action.call?.toList := by
  have unchanged {after : ScriptedServer} (same : after.calls = server.calls) :
      after.calls = server.calls ++ [] := by
    rw [same, List.append_nil]
  cases action with
  | call call => exact server.calls_answer call
  | inject values =>
      refine unchanged ?_
      rw [act, inject_eq]
  | startStream => exact unchanged server.calls_startStream
  | send id batch =>
      refine unchanged ?_
      simp only [act, send]
      split <;> rfl
  | takeItem id => exact unchanged (server.calls_takeItem id)
  | push _ _ | respond _ | scriptStream _ | scriptFailure _ | closeSender _ | closeReceiver _
  | setReachable _ => exact unchanged rfl

theorem calls_actAll (server : ScriptedServer) (history : List ServerAction) :
    (server.actAll history).calls = server.calls ++ ServerAction.calls history := by
  rw [ServerAction.calls, List.filterMap_eq_flatMap_toList]
  induction history generalizing server with
  | nil => exact (List.append_nil _).symm
  | cons action history induction =>
      rw [List.flatMap_cons, ← List.append_assoc, ← calls_act]
      exact induction (server.act action)

/-! ## Who answers -/

def record (server : ScriptedServer) (call : ServerCall) : ScriptedServer :=
  { server with calls := server.calls ++ [call] }

/-- What a server gives by itself, without a script and a responder.  Only values that are set
change it. -/
inductive AnswersItself (server : ScriptedServer) :
    (call : ServerCall) → RpcResult call.Answer × ScriptedServer → Prop
  | propertyConfigs : AnswersItself server .propertyConfigs (.ok server.configs, server)
  | setNothing : AnswersItself server (.setValues []) (.ok [], server)
  | setValues {requests : List SetRequest} : requests ≠ [] →
      AnswersItself server (.setValues requests)
        (.ok (requests.map fun request => ⟨request.id, .ok⟩),
          server.inject (requests.map SetRequest.value))
  | getValues (requests : List GetRequest) : AnswersItself server (.getValues requests)
      (.ok (requests.map fun request => (server.store.get? request.target.key).elim
        ⟨request.id, .notAvailable, none⟩ fun value => ⟨request.id, .ok, some value⟩), server)
  | dump (options : List String) : AnswersItself server (.dump options)
      (.ok {
        callerShouldDump := true
        text := "mock vehicle server: " ++ Decimal.text server.store.size ++ " values\n"
        refreshConfigs := false }, server)
  | checkHealth : AnswersItself server .checkHealth (.ok .ok, server)
  | subscribe (subscription : Subscription) :
      AnswersItself server (.subscribe subscription) (.ok .ok, server)
  | unsubscribe (key : PropertyKey) : AnswersItself server (.unsubscribe key) (.ok .ok, server)
  | updateSampleRate (key : PropertyKey) (rate : Single) :
      AnswersItself server (.updateSampleRate key rate) (.ok .ok, server)

/-- What a call gives and does after a history.  The response that waits first is the answer,
and nothing else happens; without one, a get call is left to the responder that was set last,
and any other call to the server itself. -/
inductive AnsweredBy (history : List ServerAction) (server : ScriptedServer) :
    (call : ServerCall) → RpcResult call.Answer × ScriptedServer → Prop
  | script {call : ServerCall} {response : RpcResult call.Answer}
      {later : List (RpcResult call.Answer)} :
      ServerAction.waiting call.method history = response :: later →
        AnsweredBy history server call
          (response, { server.record call with
            scripts := server.scripts.replace call.method later })
  | responder {earlier since : List ServerAction} {responder : GetResponder}
      {requests : List GetRequest} {asked : Nat} :
      ServerAction.waiting .getValues history = [] →
        history = earlier ++ .respond responder :: since →
          (∀ action ∈ since, action.responds = false) →
            asked = ServerAction.unscriptedGets (ServerAction.pending .getValues earlier) since →
              AnsweredBy history server (.getValues requests)
                (responder.respond (responder.answered + asked) requests,
                  { server.record (.getValues requests) with
                    responder := some (responder.afterCalls (asked + 1)) })
  | itself {call : ServerCall} {answered : RpcResult call.Answer × ScriptedServer} :
      ServerAction.waiting call.method history = [] →
        (call.method = .getValues → ∀ action ∈ history, action.responds = false) →
          (server.record call).AnswersItself call answered →
            AnsweredBy history server call answered

theorem storedResult_eq (server : ScriptedServer) (request : GetRequest) :
    server.storedResult request = (server.store.get? request.target.key).elim
      ⟨request.id, .notAvailable, none⟩ fun value => ⟨request.id, .ok, some value⟩ := by
  rw [storedResult]
  split
  · next found => rw [found]; rfl
  · next absent => rw [absent]; rfl

theorem answersItself {server : ScriptedServer} {call : ServerCall}
    (noResponder : call.method = .getValues → server.responder = none) :
    server.AnswersItself call (server.unscripted call) := by
  cases call with
  | propertyConfigs => exact .propertyConfigs
  | setValues requests =>
      rw [unscripted]
      split
      · next nothing =>
          obtain rfl := List.isEmpty_iff.mp nothing
          exact .setNothing
      · next something => exact .setValues (by simpa using something)
  | getValues requests =>
      simp only [unscripted, noResponder rfl, funext server.storedResult_eq]
      exact .getValues requests
  | dump options => exact .dump options
  | checkHealth => exact .checkHealth
  | subscribe subscription => exact .subscribe subscription
  | unsubscribe key => exact .unsubscribe key
  | updateSampleRate key rate => exact .updateSampleRate key rate

theorem responder_of_last (configs : List PropertyConfig) (earlier : List ServerAction)
    {since : List ServerAction} (responder : GetResponder)
    (silent : ∀ action ∈ since, action.responds = false) :
    ((ofConfigs configs).actAll (earlier ++ .respond responder :: since)).responder =
      some (responder.afterCalls
        (ServerAction.unscriptedGets (ServerAction.pending .getValues earlier) since)) := by
  rw [actAll, List.foldl_append, List.foldl_cons, ← actAll, ← actAll,
    responder_after _ silent, pending_eq_length configs]
  rfl

theorem unscripted_of_responder {server : ScriptedServer} {responder : GetResponder}
    (present : server.responder = some responder) (requests : List GetRequest) :
    (server.record (.getValues requests)).unscripted (.getValues requests) =
      (responder.respond responder.answered requests,
        { server.record (.getValues requests) with
          responder := some (responder.afterCalls 1) }) := by
  simp only [unscripted, record, present]
  rfl

theorem answeredBy (configs : List PropertyConfig) (history : List ServerAction)
    (call : ServerCall) :
    AnsweredBy history ((ofConfigs configs).actAll history) call
      (VehicleServer.answer call ((ofConfigs configs).actAll history)) := by
  have waiting := scripts_eq_waiting configs history call.method
  cases scripted : ServerAction.waiting call.method history with
  | cons response later =>
      rw [answer_of_scripted (waiting.trans scripted)]
      exact .script scripted
  | nil =>
      rw [answer_of_unscripted (waiting.trans scripted)]
      rcases ServerAction.last_responder_cases history with
        silent | ⟨earlier, responder, since, rfl, silent⟩
      · refine .itself scripted (fun _ => silent) (answersItself fun _ => ?_)
        exact responder_actAll rfl silent
      · cases call with
        | getValues requests =>
            have present := responder_of_last configs earlier responder silent
            change AnsweredBy _ _ _ ((record _ (.getValues requests)).unscripted _)
            rw [unscripted_of_responder present]
            exact .responder scripted rfl silent rfl
        | propertyConfigs | setValues _ | dump _ | checkHealth | subscribe _ | unsubscribe _
        | updateSampleRate _ _ => exact .itself scripted (by simp) (answersItself (by simp))

/-- The scripted responses of each method are given in the order in which they were scripted,
one to each call, and what is done with other methods does not matter; every call is
recorded. -/
theorem scripts_answer_in_turn (configs : List PropertyConfig) (history : List ServerAction) :
    let server := (ofConfigs configs).actAll history
    (∀ call, AnsweredBy history server call (VehicleServer.answer call server)) ∧
    (∀ method, ServerAction.scripted method history =
      given method configs history ++ ServerAction.waiting method history) ∧
    (∀ method otherConfigs other,
      other.filter (·.concerns method) = history.filter (·.concerns method) →
        given method otherConfigs other = given method configs history ∧
          ServerAction.waiting method other = ServerAction.waiting method history) ∧
    server.calls = ServerAction.calls history := by
  refine ⟨answeredBy configs history, ?_, ?_, ?_⟩
  · intro method
    rw [scripted_eq configs, scripts_eq_waiting]
  · intro method otherConfigs other same
    exact given_of_same_concerns same configs otherConfigs
  · exact calls_actAll (ofConfigs configs) history

/-- Two methods in turns, failures among their responses, and a responder for the get calls
that find none.  Without the subscriptions, and on another server, the get calls are given the
same. -/
theorem scripts_answer_in_turn_of_two_methods :
    let failure : RpcError := ⟨.unimplemented, ""⟩
    let subscription : Subscription := { property := 1 }
    let speed : PropertyValue := .selecting ⟨1, 0⟩
    let asked : ServerAction := .call (.getValues [⟨7, speed⟩])
    let gets : List ServerAction :=
      [.push .getValues (.ok []), .push .getValues (.error failure), asked,
        .respond (.advancing 5 3 .ok), asked, asked]
    let history : List ServerAction :=
      [.push .subscribe (.error failure)] ++ gets.take 3 ++ [.call (.subscribe subscription)]
        ++ gets.drop 3 ++ [.call (.subscribe subscription)]
    let server := (ofConfigs []).actAll history
    gets.filter (·.concerns .getValues) = history.filter (·.concerns .getValues) ∧
      given .getValues [{ property := 1 }] gets = given .getValues [] history ∧
      given .getValues [] history = [.ok [], .error failure] ∧
      given .subscribe [] history = [.error failure] ∧
      (VehicleServer.answer (.getValues [⟨8, speed⟩]) server).1 =
        .ok [⟨8, .ok, some (speed.withTimestamp 8)⟩] ∧
      server.calls = [.getValues [⟨7, speed⟩], .subscribe subscription, .getValues [⟨7, speed⟩],
        .getValues [⟨7, speed⟩], .subscribe subscription] := by
  intro failure subscription speed asked gets history server
  obtain ⟨-, -, apart, recorded⟩ := scripts_answer_in_turn [] history
  have same : gets.filter (·.concerns .getValues) = history.filter (·.concerns .getValues) := rfl
  have given := (apart .getValues [{ property := 1 }] gets same).1
  exact ⟨same, given, rfl, rfl, rfl, recorded.trans rfl⟩

end ScriptedServer

end VehicleRelay
