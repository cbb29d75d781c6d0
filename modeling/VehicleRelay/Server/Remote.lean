import VehicleRelay.Server.Call
import VehicleRelay.Wire.Conversion

/-!
# Remote servers

A remote server is called by sending one message to the path of a method.  It
refuses the call, or replies with messages and a final status.  Calls with one
response need the first message and a final status without error; a message
that cannot be read is an internal error.
-/

namespace VehicleRelay

open Wire

/-- How a server replies to one call; without an error the final status is
good. -/
inductive Reply
  | refused (error : RpcError)
  | streamed (contents : List (List UInt8)) (error : Option RpcError)

namespace Reply

def unreadable : RpcError := ⟨.internal, "failed to decode Protobuf message"⟩

def missing : RpcError := ⟨.internal, "Missing response message."⟩

/-- The error of a final status, unless its code is that of success. -/
def failure? (error : Option RpcError) : Option RpcError :=
  error.filter fun error => error.code != .ok

/-- The messages of a reply up to the first failure, and that failure. -/
def items {Message : Type} [WireMessage Message] (error : Option RpcError) :
    List (List UInt8) → List Message × Option RpcError
  | [] => ([], failure? error)
  | bytes :: rest =>
      match WireMessage.decode? bytes with
      | none => ([], some unreadable)
      | some message =>
          let (messages, failure) := items error rest
          (message :: messages, failure)

/-- All messages of a reply that has no failure. -/
def collect (Message : Type) [WireMessage Message] : Reply → RpcResult (List Message)
  | .refused error => if error.code = .ok then .ok [] else .error error
  | .streamed contents error =>
      match items error contents with
      | (messages, none) => .ok messages
      | (_, some failure) => .error failure

/-- The first message of a reply that has no failure. -/
def single (Message : Type) [WireMessage Message] (reply : Reply) : RpcResult Message :=
  match reply.collect Message with
  | .ok (message :: _) => .ok message
  | .ok [] => .error missing
  | .error error => .error error

/-- The batches of a stream up to its first failure, or the failure to open
it. -/
def batches : Reply → RpcResult (List (List PropertyValue) × Option RpcError)
  | .refused error => if error.code = .ok then .ok ([], none) else .error error
  | .streamed contents error =>
      let (messages, failure) := items error contents
      .ok (messages.map BatchMessage.toValues, failure)

end Reply

namespace ServerMethod

def servicePath : String := "/android.hardware.automotive.vehicle.proto.VehicleServer/"

def path : ServerMethod → String
  | .propertyConfigs => servicePath ++ "GetAllPropertyConfig"
  | .setValues => servicePath ++ "SetValues"
  | .getValues => servicePath ++ "GetValues"
  | .dump => servicePath ++ "Dump"
  | .checkHealth => servicePath ++ "CheckHealth"
  | .subscribe => servicePath ++ "Subscribe"
  | .unsubscribe => servicePath ++ "Unsubscribe"
  | .updateSampleRate => servicePath ++ "UpdateSampleRate"

/-- The path on which the stream of values is started. -/
def streamPath : String := servicePath ++ "StartPropertyValuesStream"

end ServerMethod

namespace ServerCall

/-- The message that a call sends. -/
def body : ServerCall → List UInt8
  | .propertyConfigs => WireMessage.encode EmptyMessage.mk
  | .setValues requests => WireMessage.encode (RequestsMessage.ofSetRequests requests)
  | .getValues requests => WireMessage.encode (RequestsMessage.ofGetRequests requests)
  | .dump options => WireMessage.encode (DumpOptionsMessage.mk options)
  | .checkHealth => WireMessage.encode EmptyMessage.mk
  | .subscribe subscription => WireMessage.encode (SubscribeMessage.ofSubscription subscription)
  | .unsubscribe key => WireMessage.encode (UnsubscribeMessage.mk key.property key.area)
  | .updateSampleRate key rate =>
      WireMessage.encode (SampleRateMessage.mk key.property key.area rate)

/-- What a reply to a call means. -/
def outcome (reply : Reply) : (call : ServerCall) → RpcResult call.Answer
  | .propertyConfigs => (reply.collect ConfigMessage).map (·.map ConfigMessage.toConfig)
  | .setValues _ => (reply.single SetResultsMessage).map SetResultsMessage.toResults
  | .getValues _ => (reply.single GetResultsMessage).map GetResultsMessage.toResults
  | .dump _ => (reply.single DumpReportMessage).map DumpReportMessage.toReport
  | .checkHealth => (reply.single StatusMessage).map StatusMessage.toStatus
  | .subscribe _ => (reply.single StatusMessage).map StatusMessage.toStatus
  | .unsubscribe _ => (reply.single StatusMessage).map StatusMessage.toStatus
  | .updateSampleRate _ _ => (reply.single StatusMessage).map StatusMessage.toStatus

end ServerCall

/-- A message that was sent to a path. -/
structure Sent where
  path : String
  body : List UInt8
deriving DecidableEq, Repr

/-- The way to a remote server, with what it replies to each path and body. -/
inductive Link
  | down
  | up (serve : String → List UInt8 → Reply)

structure RemoteServer where
  link : Link
  sent : List Sent := []

namespace RemoteServer

def unreachable : RpcError := ⟨.unavailable, "Service was not ready"⟩

def isReady (server : RemoteServer) : Bool :=
  match server.link with
  | .down => false
  | .up _ => true

def exchange (server : RemoteServer) (path : String) (body : List UInt8) :
    Reply × RemoteServer :=
  match server.link with
  | .down => (.refused unreachable, server)
  | .up serve => (serve path body, { server with sent := server.sent ++ [⟨path, body⟩] })

def answer (call : ServerCall) (server : RemoteServer) : RpcResult call.Answer × RemoteServer :=
  let (reply, server) := server.exchange call.method.path call.body
  (call.outcome reply, server)

instance : VehicleServer RemoteServer := ⟨answer⟩

/-- Starts the stream of values and takes it to its end. -/
def streamValues (server : RemoteServer) :
    RpcResult (List (List PropertyValue) × Option RpcError) × RemoteServer :=
  let (reply, server) := server.exchange ServerMethod.streamPath
    (WireMessage.encode EmptyMessage.mk)
  (reply.batches, server)

end RemoteServer

end VehicleRelay
