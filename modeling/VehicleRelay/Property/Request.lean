import VehicleRelay.CallStatus
import VehicleRelay.Property.Value

/-!
# Requests and their results

A result belongs to the request that has the same request id, whatever the
order in which results come.
-/

namespace VehicleRelay

structure GetRequest where
  id : Int64
  /-- Selects a property and an area; the rest of it means nothing. -/
  target : PropertyValue
deriving DecidableEq, Repr, Inhabited

structure GetResult where
  id : Int64
  status : CallStatus
  value : Option PropertyValue
deriving DecidableEq, Repr, Inhabited

structure SetRequest where
  id : Int64
  value : PropertyValue
deriving DecidableEq, Repr, Inhabited

structure SetResult where
  id : Int64
  status : CallStatus
deriving DecidableEq, Repr, Inhabited

/-- A failure of a set request that had been accepted. -/
structure SetFailure where
  status : CallStatus
  property : Int32
  area : Int32
deriving DecidableEq, Repr, Inhabited

structure Subscription where
  property : Int32
  areas : List Int32 := []
  /-- In hertz, for continuous properties only. -/
  sampleRate : Single := .zero
  resolution : Single := .zero
  variableUpdateRate : Bool := false
deriving DecidableEq, Repr, Inhabited

/-- The answer to a request for diagnostics. -/
structure DumpReport where
  callerShouldDump : Bool := false
  text : String := ""
  refreshConfigs : Bool := false
deriving DecidableEq, Repr, Inhabited

end VehicleRelay
