import VehicleRelay.Property.Config
import VehicleRelay.Property.Request
import VehicleRelay.Wire.Message

/-!
# Messages and the contract

What is sent is made from the types of the contract, and what is received is
turned into them.  The number of a case that is unknown becomes the fallback of
its vocabulary; nothing else is lost.
-/

namespace VehicleRelay.Wire

namespace ValueMessage

def ofValue (value : PropertyValue) : ValueMessage where
  timestamp := value.timestamp
  area := value.area
  property := value.property
  status := Coded.code value.availability
  int32s := value.payload.int32s
  singles := value.payload.singles
  int64s := value.payload.int64s
  bytes := value.payload.bytes
  text := value.payload.text

def toValue (message : ValueMessage) : PropertyValue where
  timestamp := message.timestamp
  area := message.area
  property := message.property
  availability := Coded.ofCode message.status
  payload := {
    int32s := message.int32s
    singles := message.singles
    int64s := message.int64s
    bytes := message.bytes
    text := message.text }

end ValueMessage

def BatchMessage.toValues (message : BatchMessage) : List PropertyValue :=
  message.values.map ValueMessage.toValue

namespace RequestsMessage

def ofGetRequests (requests : List GetRequest) : RequestsMessage where
  requests := requests.map fun request => ⟨request.id, some (.ofValue request.target)⟩

def ofSetRequests (requests : List SetRequest) : RequestsMessage where
  requests := requests.map fun request => ⟨request.id, some (.ofValue request.value)⟩

end RequestsMessage

def SetResultMessage.toResult (message : SetResultMessage) : SetResult where
  id := message.id
  status := Coded.ofCode message.status

def SetResultsMessage.toResults (message : SetResultsMessage) : List SetResult :=
  message.results.map SetResultMessage.toResult

def GetResultMessage.toResult (message : GetResultMessage) : GetResult where
  id := message.id
  status := Coded.ofCode message.status
  value := message.value.map ValueMessage.toValue

def GetResultsMessage.toResults (message : GetResultsMessage) : List GetResult :=
  message.results.map GetResultMessage.toResult

def StatusMessage.toStatus (message : StatusMessage) : CallStatus :=
  Coded.ofCode message.status

def DumpReportMessage.toReport (message : DumpReportMessage) : DumpReport where
  callerShouldDump := message.callerShouldDump
  text := message.text
  refreshConfigs := message.refreshConfigs

def SubscriptionMessage.ofSubscription (subscription : Subscription) : SubscriptionMessage where
  property := subscription.property
  areas := subscription.areas
  sampleRate := subscription.sampleRate
  resolution := subscription.resolution
  variableUpdateRate := subscription.variableUpdateRate

def SubscribeMessage.ofSubscription (subscription : Subscription) : SubscribeMessage where
  options := some (.ofSubscription subscription)

def AreaConfigMessage.toConfig (message : AreaConfigMessage) : AreaConfig where
  area := message.area
  access := Coded.ofCode message.access
  minInt32 := message.minInt32
  maxInt32 := message.maxInt32
  minInt64 := message.minInt64
  maxInt64 := message.maxInt64
  minSingle := message.minSingle
  maxSingle := message.maxSingle
  supportedEnumValues := message.supportedEnumValues
  variableUpdateRate := message.variableUpdateRate

def ConfigMessage.toConfig (message : ConfigMessage) : PropertyConfig where
  property := message.property
  access := Coded.ofCode message.access
  changeMode := Coded.ofCode message.changeMode
  areas := message.areas.map AreaConfigMessage.toConfig
  numbers := message.numbers
  text := message.text
  minSampleRate := message.minSampleRate
  maxSampleRate := message.maxSampleRate

end VehicleRelay.Wire
