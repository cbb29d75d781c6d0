import VehicleRelay.FiniteMap
import VehicleRelay.Server.Call

/-!
# Scripted servers

A scripted server is a small vehicle server in memory.  Values that are set are
stored, pushed to every live stream and given to later gets.  Responses and
streams that were scripted come first, in the order in which they were scripted
for each method.
-/

namespace VehicleRelay

abbrev Batch := List PropertyValue

/-- A stream of batches between a sender and a receiver.  Batches wait in order
until they are taken. -/
structure ValueStream where
  waiting : List (RpcResult Batch) := []
  /-- Whether anything may still be sent. -/
  sending : Bool := true
  /-- Whether anybody may still receive. -/
  receiving : Bool := true

/-- What one look at a stream finds. -/
inductive StreamItem
  | item (batch : RpcResult Batch)
  | nothingYet
  | ended

namespace ValueStream

/-- A stream that ends after some batches. -/
def finite (batches : List Batch) : ValueStream where
  waiting := batches.map .ok
  sending := false

def push (stream : ValueStream) (batch : RpcResult Batch) : ValueStream :=
  { stream with waiting := stream.waiting ++ [batch] }

def take (stream : ValueStream) : StreamItem × ValueStream :=
  match stream.waiting with
  | batch :: waiting => (.item batch, { stream with waiting })
  | [] => (if stream.sending then .nothingYet else .ended, stream)

end ValueStream

/-- Answers the get calls that are not scripted, each with its number. -/
structure GetResponder where
  respond : Nat → List GetRequest → RpcResult (List GetResult)
  answered : Nat := 0

namespace GetResponder

/-- Gives every request its own target back, at a time that advances with each
call. -/
def advancing (start step : Int64) (status : CallStatus) : GetResponder where
  respond number requests := .ok <| requests.map fun request =>
    ⟨request.id, status,
      some (request.target.withTimestamp (start + step * Int64.ofNat number))⟩

def failing (error : RpcError) : GetResponder where
  respond _ _ := .error error

end GetResponder

/-- Responses by method, the next one first. -/
abbrev Scripts := (method : ServerMethod) → List (RpcResult method.Answer)

namespace Scripts

def none : Scripts := fun _ => []

def replace (scripts : Scripts) (method : ServerMethod)
    (responses : List (RpcResult method.Answer)) : Scripts :=
  fun other => if same : method = other then same ▸ responses else scripts other

def push (scripts : Scripts) (method : ServerMethod) (response : RpcResult method.Answer) :
    Scripts :=
  scripts.replace method (scripts method ++ [response])

@[simp] theorem replace_self (scripts : Scripts) (method : ServerMethod)
    (responses : List (RpcResult method.Answer)) :
    scripts.replace method responses method = responses := by
  simp [replace]

theorem replace_of_ne (scripts : Scripts) {method other : ServerMethod}
    (different : method ≠ other) (responses : List (RpcResult method.Answer)) :
    scripts.replace method responses other = scripts other := by
  simp [replace, different]

end Scripts

/-- The place of a stream among all streams of a server. -/
abbrev StreamId := Nat

/-- What a start of a stream is scripted to give. -/
inductive StreamScript
  | stream (id : StreamId)
  | failure (error : RpcError)

structure ScriptedServer where
  reachable : Bool := true
  configs : List PropertyConfig := []
  store : FiniteMap PropertyKey PropertyValue := .empty
  scripts : Scripts := .none
  responder : Option GetResponder := none
  /-- All calls so far, in order. -/
  calls : List ServerCall := []
  streams : List ValueStream := []
  streamScript : List StreamScript := []
  /-- The streams that were started without a script. -/
  live : List StreamId := []
  starts : Nat := 0

namespace ScriptedServer

/-- A server with one stored value for each area of each configuration. -/
def ofConfigs (configs : List PropertyConfig) : ScriptedServer where
  configs := configs
  store := (configs.flatMap PropertyConfig.keys).foldl
    (fun store key => store.insert key (.selecting key)) .empty

def push (server : ScriptedServer) (method : ServerMethod)
    (response : RpcResult method.Answer) : ScriptedServer :=
  { server with scripts := server.scripts.push method response }

def addStream (server : ScriptedServer) (stream : ValueStream) : StreamId × ScriptedServer :=
  (server.streams.length, { server with streams := server.streams ++ [stream] })

def changeStream (server : ScriptedServer) (id : StreamId)
    (change : ValueStream → ValueStream) : ScriptedServer :=
  { server with streams := server.streams.modify id change }

/-- Scripts a stream for a later start, and gives its place. -/
def scriptStream (server : ScriptedServer) (stream : ValueStream) :
    StreamId × ScriptedServer :=
  let (id, server) := server.addStream stream
  (id, { server with streamScript := server.streamScript ++ [.stream id] })

def scriptFailure (server : ScriptedServer) (error : RpcError) : ScriptedServer :=
  { server with streamScript := server.streamScript ++ [.failure error] }

def isReceiving (server : ScriptedServer) (id : StreamId) : Bool :=
  match server.streams[id]? with
  | some stream => stream.receiving
  | none => false

/-- Sends into a stream; nothing happens when nobody receives. -/
def send (server : ScriptedServer) (id : StreamId) (batch : RpcResult Batch) :
    Bool × ScriptedServer :=
  if server.isReceiving id then (true, server.changeStream id (·.push batch))
  else (false, server)

def closeSender (server : ScriptedServer) (id : StreamId) : ScriptedServer :=
  server.changeStream id ({ · with sending := false })

def closeReceiver (server : ScriptedServer) (id : StreamId) : ScriptedServer :=
  server.changeStream id ({ · with receiving := false })

/-- Stores values, the last one of each key, and pushes them as one batch to the
live streams that are still received. -/
def inject (server : ScriptedServer) (values : Batch) : ScriptedServer :=
  let store := values.foldl (fun store value => store.insert value.key value) server.store
  let live := server.live.filter server.isReceiving
  live.foldl (fun server id => server.changeStream id (·.push (.ok values)))
    { server with store, live }

/-- Starts a stream: the next scripted one, or a live one. -/
def startStream (server : ScriptedServer) : RpcResult StreamId × ScriptedServer :=
  let server := { server with starts := server.starts + 1 }
  match server.streamScript with
  | .stream id :: streamScript => (.ok id, { server with streamScript })
  | .failure error :: streamScript => (.error error, { server with streamScript })
  | [] =>
      let (id, server) := server.addStream {}
      (.ok id, { server with live := server.live ++ [id] })

def takeItem (server : ScriptedServer) (id : StreamId) : StreamItem × ScriptedServer :=
  match server.streams[id]? with
  | some stream =>
      let (item, stream) := stream.take
      (item, server.changeStream id fun _ => stream)
  | none => (.ended, server)

def storedResult (server : ScriptedServer) (request : GetRequest) : GetResult :=
  match server.store.get? request.target.key with
  | some value => ⟨request.id, .ok, some value⟩
  | none => ⟨request.id, .notAvailable, none⟩

/-- The answer to a call for which no response is scripted. -/
def unscripted (server : ScriptedServer) :
    (call : ServerCall) → RpcResult call.Answer × ScriptedServer
  | .propertyConfigs => (.ok server.configs, server)
  | .setValues requests =>
      let server :=
        if requests.isEmpty then server else server.inject (requests.map SetRequest.value)
      (.ok (requests.map fun request => ⟨request.id, .ok⟩), server)
  | .getValues requests =>
      match server.responder with
      | some responder =>
          (responder.respond responder.answered requests,
            { server with
              responder := some { responder with answered := responder.answered + 1 } })
      | none => (.ok (requests.map server.storedResult), server)
  | .dump _ =>
      (.ok {
        callerShouldDump := true
        text := "mock vehicle server: " ++ Decimal.text server.store.size ++ " values\n" },
        server)
  | .checkHealth => (.ok .ok, server)
  | .subscribe _ => (.ok .ok, server)
  | .unsubscribe _ => (.ok .ok, server)
  | .updateSampleRate _ _ => (.ok .ok, server)

def answer (call : ServerCall) (server : ScriptedServer) :
    RpcResult call.Answer × ScriptedServer :=
  let server := { server with calls := server.calls ++ [call] }
  match server.scripts call.method with
  | response :: responses =>
      (response, { server with scripts := server.scripts.replace call.method responses })
  | [] => server.unscripted call

instance : VehicleServer ScriptedServer := ⟨answer⟩

end ScriptedServer

end VehicleRelay
