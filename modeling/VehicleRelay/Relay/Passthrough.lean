import VehicleRelay.Relay.Basic

/-!
# Calls that a relay passes on

These operations of a relay make one remote call each and hand on what it gives.
A call that fails is reported by a status, an empty list or an empty report.
Servers need not support subscriptions: where they do not know the call at all,
it counts as done.
-/

namespace VehicleRelay

namespace Passthrough

def statusOf : RpcResult CallStatus → CallStatus
  | .ok status => status
  | .error _ => .internalError

/-- The status of a call that servers may leave out. -/
def statusOfOptional : RpcResult CallStatus → CallStatus
  | .error error => if error.isUnimplemented then .ok else .internalError
  | .ok status => status

end Passthrough

namespace Relay

variable {Server : Type} [VehicleServer Server]

def propertyConfigs (relay : Relay) (server : Server) :
    List PropertyConfig × Relay × Server :=
  match VehicleServer.answer .propertyConfigs server with
  | (.ok configs, server) => (configs, relay, server)
  | (.error _, server) => ([], relay, server)

/-- The configuration of one property. -/
def propertyConfig? (property : Int32) (relay : Relay) (server : Server) :
    Option PropertyConfig × Relay × Server :=
  let (configs, relay, server) := relay.propertyConfigs server
  (PropertyConfig.find? configs property, relay, server)

/-- The status, and the results that the callback is given. -/
def setValues (requests : List SetRequest) (relay : Relay) (server : Server) :
    (CallStatus × Option (List SetResult)) × Relay × Server :=
  match VehicleServer.answer (.setValues requests) server with
  | (.ok results, server) => ((.ok, some results), relay, server)
  | (.error _, server) => ((.internalError, none), relay, server)

def dump (options : List String) (relay : Relay) (server : Server) :
    DumpReport × Relay × Server :=
  match VehicleServer.answer (.dump options) server with
  | (.ok report, server) => (report, relay, server)
  | (.error _, server) => ({}, relay, server)

def checkHealth (relay : Relay) (server : Server) : CallStatus × Relay × Server :=
  let (result, server) := VehicleServer.answer .checkHealth server
  (Passthrough.statusOf result, relay, server)

def subscribe (subscription : Subscription) (relay : Relay) (server : Server) :
    CallStatus × Relay × Server :=
  let (result, server) := VehicleServer.answer (.subscribe subscription) server
  (Passthrough.statusOfOptional result, relay, server)

def unsubscribe (key : PropertyKey) (relay : Relay) (server : Server) :
    CallStatus × Relay × Server :=
  let (result, server) := VehicleServer.answer (.unsubscribe key) server
  (Passthrough.statusOfOptional result, relay, server)

def updateSampleRate (key : PropertyKey) (rate : Single) (relay : Relay) (server : Server) :
    CallStatus × Relay × Server :=
  let (result, server) := VehicleServer.answer (.updateSampleRate key rate) server
  (Passthrough.statusOf result, relay, server)

end Relay

end VehicleRelay
