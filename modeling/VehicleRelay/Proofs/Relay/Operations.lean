import VehicleRelay.Bench
import VehicleRelay.Proofs.Relay.Shutdown
import VehicleRelay.Proofs.Server.Injection

/-!
# Operations that a relay passes on

Each operation makes one call with what its caller gave, and reports by one rule what the
call gives: an answer as it is, and a failure by a default that depends on the operation
and on the code alone.  The relay is left as it is.  What happens to it after the call
is what its reader does by itself.
-/

namespace VehicleRelay

/-- An operation with all that its caller gives. -/
inductive Operation
  | propertyConfigs
  | setValues (requests : List SetRequest)
  | dump (options : List String)
  | checkHealth
  | updateSampleRate (key : PropertyKey) (rate : Single)
  | subscribe (subscription : Subscription)
  | unsubscribe (key : PropertyKey)
deriving DecidableEq, Repr

namespace Operation

/-- The call of the server that the operation stands for. -/
def call : Operation → ServerCall
  | .propertyConfigs => .propertyConfigs
  | .setValues requests => .setValues requests
  | .dump options => .dump options
  | .checkHealth => .checkHealth
  | .updateSampleRate key rate => .updateSampleRate key rate
  | .subscribe subscription => .subscribe subscription
  | .unsubscribe key => .unsubscribe key

/-- What the caller learns; of a set call also what its callback is given, if it runs. -/
def Report : Operation → Type
  | .propertyConfigs => List PropertyConfig
  | .setValues _ => CallStatus × Option (List SetResult)
  | .dump _ => DumpReport
  | .checkHealth | .updateSampleRate _ _ | .subscribe _ | .unsubscribe _ => CallStatus

/-- Makes the operation of a relay on a server. -/
def run {Server : Type} [VehicleServer Server] :
    (operation : Operation) → Relay → Server → operation.Report × Relay × Server
  | .propertyConfigs => Relay.propertyConfigs
  | .setValues requests => Relay.setValues requests
  | .dump options => Relay.dump options
  | .checkHealth => Relay.checkHealth
  | .updateSampleRate key rate => Relay.updateSampleRate key rate
  | .subscribe subscription => Relay.subscribe subscription
  | .unsubscribe key => Relay.unsubscribe key

/-- An answer is reported as it is; a set call is done whatever became of its requests. -/
def success : (operation : Operation) → operation.call.Answer → operation.Report
  | .propertyConfigs, configs => configs
  | .setValues _, results => (.ok, some results)
  | .dump _, report => report
  | .checkHealth, status => status
  | .updateSampleRate _ _, status => status
  | .subscribe _, status => status
  | .unsubscribe _, status => status

/-- The report of a failed call.  Only subscriptions may be unknown to a server. -/
def failure : (operation : Operation) → RpcCode → operation.Report
  | .propertyConfigs, _ => ([] : List PropertyConfig)
  | .setValues _, _ => (CallStatus.internalError, none)
  | .dump _, _ => ({} : DumpReport)
  | .checkHealth, _ | .updateSampleRate _ _, _ => CallStatus.internalError
  | .subscribe _, code | .unsubscribe _, code =>
      if code = .unimplemented then CallStatus.ok else CallStatus.internalError

def report (operation : Operation) : RpcResult operation.call.Answer → operation.Report
  | .ok answer => operation.success answer
  | .error error => operation.failure error.code

theorem statusOfOptional_error (error : RpcError) :
    Passthrough.statusOfOptional (.error error) =
      if error.code = .unimplemented then .ok else .internalError := by
  simp [Passthrough.statusOfOptional, RpcError.isUnimplemented]

/-- On any server an operation is its call, and reports what the call gives.  The relay
stays as it is. -/
theorem run_eq {Server : Type} [VehicleServer Server] (operation : Operation) (relay : Relay)
    (server : Server) :
    operation.run relay server =
      (operation.report (VehicleServer.answer operation.call server).1, relay,
        (VehicleServer.answer operation.call server).2) := by
  cases operation with
  | propertyConfigs =>
      simp only [run, call, Relay.propertyConfigs]
      rcases VehicleServer.answer .propertyConfigs server with ⟨_ | _, _⟩ <;> rfl
  | setValues requests =>
      simp only [run, call, Relay.setValues]
      rcases VehicleServer.answer (.setValues requests) server with ⟨_ | _, _⟩ <;> rfl
  | dump options =>
      simp only [run, call, Relay.dump]
      rcases VehicleServer.answer (.dump options) server with ⟨_ | _, _⟩ <;> rfl
  | checkHealth =>
      simp only [run, call, Relay.checkHealth]
      rcases VehicleServer.answer .checkHealth server with ⟨_ | _, _⟩ <;> rfl
  | updateSampleRate key rate =>
      simp only [run, call, Relay.updateSampleRate]
      rcases VehicleServer.answer (.updateSampleRate key rate) server with ⟨_ | _, _⟩ <;> rfl
  | subscribe subscription =>
      simp only [run, call, Relay.subscribe]
      rcases VehicleServer.answer (.subscribe subscription) server with ⟨error | _, _⟩
      · exact congrArg (·, _) (statusOfOptional_error error)
      · rfl
  | unsubscribe key =>
      simp only [run, call, Relay.unsubscribe]
      rcases VehicleServer.answer (.unsubscribe key) server with ⟨error | _, _⟩
      · exact congrArg (·, _) (statusOfOptional_error error)
      · rfl

end Operation

/-- A server together with all calls that were made of it. -/
structure Noting (Server : Type) where
  server : Server
  noted : List ServerCall

instance {Server : Type} [VehicleServer Server] : VehicleServer (Noting Server) where
  answer call noting :=
    let (result, server) := VehicleServer.answer call noting.server
    (result, ⟨server, noting.noted ++ [call]⟩)

/-! ## Operations on the bench -/

/-- No turn of the reader touches the callbacks. -/
theorem Relay.callbacks_of_readers {relay next : Relay} {readings : ClockReadings}
    {turn : RelayTurn} {shown : List RelayOutput} (readers : turn.isReaders = true)
    (taken : relay.turn? readings turn = some (shown, next)) :
    next.callbacks = relay.callbacks := by
  cases turn with
  | streamOpened | streamRefused | batchReceived _ | streamFailed | streamClosed
  | waitElapsed | stopNoticed =>
      simp only [turn?, endStream?, deliver] at taken
      repeat' split at taken
      all_goals
        simp only [Option.some.injEq, Prod.mk.injEq, reduceCtorEq] at taken
      all_goals
        obtain ⟨_, rfl⟩ := taken
        rfl
  | registerChange _ | registerSetFailure _ | getCalled _ | getAnswered _ _ | shutdownCalled
  | shutdownReturned | dropped => simp [RelayTurn.isReaders] at readers

namespace Bench

/-- What the reader leaves alone when it goes on by itself. -/
structure GoesOn (before after : Bench) : Prop where
  calls : after.server.calls = before.server.calls
  callbacks : after.relay.map Relay.callbacks = before.relay.map Relay.callbacks

namespace GoesOn

theorem refl (bench : Bench) : bench.GoesOn bench := ⟨rfl, rfl⟩

theorem trans {first second third : Bench} (earlier : first.GoesOn second)
    (later : second.GoesOn third) : first.GoesOn third where
  calls := later.calls.trans earlier.calls
  callbacks := later.callbacks.trans earlier.callbacks

theorem turn {before bench : Bench} (goesOn : before.GoesOn bench) {turn : RelayTurn}
    (readers : turn.isReaders = true) : before.GoesOn (bench.turn turn) := by
  refine goesOn.trans ?_
  simp only [Bench.turn]
  split
  · next taken =>
      obtain ⟨relay, present, taken⟩ := Option.bind_eq_some_iff.mp taken
      have same := Relay.callbacks_of_readers readers taken
      exact ⟨rfl, by simp only [present, Option.map_some, same]⟩
  · exact refl bench

theorem leaveStream {before bench : Bench} (goesOn : before.GoesOn bench) :
    before.GoesOn bench.leaveStream := by
  refine goesOn.trans ?_
  simp only [Bench.leaveStream]
  split
  · exact ⟨rfl, rfl⟩
  · exact refl bench

theorem readerStep {bench next : Bench} (stepped : bench.readerStep? = some next) :
    bench.GoesOn next := by
  simp only [readerStep?] at stepped
  split at stepped
  · have calls := bench.server.calls_startStream
    split at stepped
    all_goals
      next started =>
        obtain rfl := Option.some.inj stepped
        rw [started] at calls
        refine turn ?_ rfl
        exact ⟨calls, rfl⟩
  · have calls := bench.server.calls_takeItem (bench.stream.getD bench.server.streams.length)
    split at stepped
    · next taken =>
        obtain rfl := Option.some.inj stepped
        rw [taken] at calls
        refine turn ?_ rfl
        exact ⟨calls, rfl⟩
    · next taken =>
        obtain rfl := Option.some.inj stepped
        rw [taken] at calls
        refine leaveStream (turn ?_ rfl)
        exact ⟨calls, rfl⟩
    · next taken =>
        obtain rfl := Option.some.inj stepped
        rw [taken] at calls
        refine leaveStream (turn ?_ rfl)
        exact ⟨calls, rfl⟩
    · simp at stepped
  · split at stepped
    · obtain rfl := Option.some.inj stepped
      exact turn (refl bench) rfl
    · simp at stepped
  · simp at stepped
  · simp at stepped

theorem settle (bench : Bench) : bench.GoesOn bench.settle := by
  rw [Bench.settle]
  generalize bench.stepBound = steps
  induction steps generalizing bench with
  | zero => exact refl bench
  | succ steps induction =>
      rw [settleUpTo]
      split
      · next next stepped => exact (readerStep stepped).trans (induction next)
      · exact refl bench

end GoesOn

/-- No step of the reader is due. -/
def AtRest (bench : Bench) : Prop :=
  bench.readerStep? = none

theorem AtRest.settle {bench : Bench} (atRest : bench.AtRest) : bench.settle = bench := by
  rw [Bench.settle]
  cases bench.stepBound with
  | zero => rfl
  | succ steps => rw [settleUpTo, atRest]

/-- A bench stays at rest when the streams of its server stay as they are. -/
theorem AtRest.of_streams {bench : Bench} (atRest : bench.AtRest) {server : ScriptedServer}
    (same : server.streams = bench.server.streams) : { bench with server }.AtRest := by
  simp only [AtRest, readerStep?, phase?, ScriptedServer.takeItem, same] at atRest ⊢
  split at atRest
  · split at atRest <;> simp at atRest
  · split at atRest
    · simp at atRest
    · simp at atRest
    · simp at atRest
    · next nothing =>
        split at nothing
        · simp only [Prod.mk.injEq] at nothing
          simp only [nothing.1]
        · simp at nothing
  · split at atRest
    · simp at atRest
    · next early => rw [if_neg early]
  · rfl
  · rfl

end Bench

/-- On any server, an operation makes its call once, reports what the call gives by the one
rule, and leaves the relay as it is.  On the bench it changes nothing but the server; the
reader goes on from there, and when nothing is due for the reader the relay stays as it is. -/
theorem Bench.call_operation (operation : Operation) (relay : Relay) :
    (∀ (Server : Type) [VehicleServer Server] (noting : Noting Server),
      let answered := VehicleServer.answer operation.call noting.server
      operation.run relay noting =
        (operation.report answered.1, relay,
          ⟨answered.2, noting.noted ++ [operation.call]⟩)) ∧
    ∀ bench : Bench, bench.relay = some relay →
      let answered := bench.server.answer operation.call
      let after := (bench.operate relay operation.run).2
      (bench.operate relay operation.run).1 = operation.report answered.1 ∧
      after = { bench with server := answered.2 }.settle ∧
      after.server.calls = bench.server.calls ++ [operation.call] ∧
      after.relay.map Relay.callbacks = some relay.callbacks ∧
      (bench.AtRest → ¬bench.server.Pushes operation.call → after.relay = some relay) := by
  refine ⟨fun Server _ noting => operation.run_eq relay noting, ?_⟩
  intro bench present answered after
  have passed : bench.operate relay operation.run =
      (operation.report answered.1, { bench with server := answered.2 }.settle) := by
    rw [operate, operation.run_eq, present]
    rfl
  have settled : after = { bench with server := answered.2 }.settle := congrArg Prod.snd passed
  have goesOn := GoesOn.settle { bench with server := answered.2 }
  rw [← settled] at goesOn
  refine ⟨congrArg Prod.fst passed, settled, ?_, ?_, ?_⟩
  · rw [goesOn.calls]
    exact ScriptedServer.calls_answer operation.call bench.server
  · rw [goesOn.callbacks, present, Option.map_some]
  · intro atRest still
    have streams := (ScriptedServer.streams_answer still).1
    rw [settled, (atRest.of_streams streams).settle]
    exact present

/-- A subscription that the server does not know counts as done, and a sample rate that it
does not know does not. -/
theorem Bench.call_operation_of_unimplemented :
    let unknown : RpcResult CallStatus := .error ⟨.unimplemented, "unknown method"⟩
    let server : ScriptedServer := { streams := [{}] }
    let relay : Relay := { Relay.start {} with reader := ⟨.reading 0, 100⟩ }
    let bench : Bench := {
      server := (server.push .subscribe unknown).push .updateSampleRate unknown
      relay := some relay
      stream := some 0 }
    let subscribed := bench.operate relay (Relay.subscribe { property := 1 })
    let rated := bench.operate relay (Relay.updateSampleRate ⟨1, 0⟩ .zero)
    subscribed.1 = .ok ∧ subscribed.2.server.calls = [.subscribe { property := 1 }] ∧
      subscribed.2.relay = some relay ∧
    rated.1 = .internalError ∧ rated.2.server.calls = [.updateSampleRate ⟨1, 0⟩ .zero] ∧
      rated.2.relay = some relay := by
  intro unknown server relay bench subscribed rated
  have atRest : bench.AtRest := rfl
  obtain ⟨done, _, once, _, stays⟩ :=
    (call_operation (.subscribe { property := 1 }) relay).2 bench rfl
  obtain ⟨failed, _, onceRated, _, staysRated⟩ :=
    (call_operation (.updateSampleRate ⟨1, 0⟩ .zero) relay).2 bench rfl
  exact ⟨done, once, stays atRest nofun, failed, onceRated, staysRated atRest nofun⟩

end VehicleRelay
