import VehicleRelay.Property.Config
import VehicleRelay.Property.Request
import VehicleRelay.Rpc

/-!
# Calls of the vehicle server

A vehicle server answers calls of eight methods.  What a call carries and what
its answer is depends on the method.  Anything that answers calls while its
state changes is a vehicle server.
-/

namespace VehicleRelay

inductive ServerMethod
  | propertyConfigs
  | setValues
  | getValues
  | dump
  | checkHealth
  | subscribe
  | unsubscribe
  | updateSampleRate
deriving DecidableEq, Repr

abbrev ServerMethod.Answer : ServerMethod → Type
  | .propertyConfigs => List PropertyConfig
  | .setValues => List SetResult
  | .getValues => List GetResult
  | .dump => DumpReport
  | .checkHealth => CallStatus
  | .subscribe => CallStatus
  | .unsubscribe => CallStatus
  | .updateSampleRate => CallStatus

inductive ServerCall
  | propertyConfigs
  | setValues (requests : List SetRequest)
  | getValues (requests : List GetRequest)
  | dump (options : List String)
  | checkHealth
  | subscribe (subscription : Subscription)
  | unsubscribe (key : PropertyKey)
  | updateSampleRate (key : PropertyKey) (rate : Single)
deriving DecidableEq, Repr

namespace ServerCall

abbrev method : ServerCall → ServerMethod
  | .propertyConfigs => .propertyConfigs
  | .setValues _ => .setValues
  | .getValues _ => .getValues
  | .dump _ => .dump
  | .checkHealth => .checkHealth
  | .subscribe _ => .subscribe
  | .unsubscribe _ => .unsubscribe
  | .updateSampleRate _ _ => .updateSampleRate

abbrev Answer (call : ServerCall) : Type :=
  call.method.Answer

end ServerCall

class VehicleServer (Server : Type) where
  answer : (call : ServerCall) → Server → RpcResult call.Answer × Server

end VehicleRelay
