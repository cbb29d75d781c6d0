import Mathlib
import VehicleRelay.Proofs.Wire.Decoding
import VehicleRelay.Wire.Conversion

/-!
# The contract on the wire

What a client sends of the contract is what the server receives: values and requests as
they are, and subscriptions with positive zero for negative zero.
-/

namespace VehicleRelay.Wire

open WireMessage

theorem ValueMessage.toValue_ofValue (value : PropertyValue) : (ofValue value).toValue = value := by
  simp [toValue, ofValue]

/-- The id of a request and the value in it. -/
def RequestMessage.contents (message : RequestMessage) : Int64 × Option PropertyValue :=
  (message.id, message.value.map ValueMessage.toValue)

theorem RequestsMessage.contents_ofGetRequests (requests : List GetRequest) :
    (ofGetRequests requests).requests.map RequestMessage.contents =
      requests.map fun request => (request.id, some request.target) := by
  simp [ofGetRequests, RequestMessage.contents, ValueMessage.toValue_ofValue]

theorem RequestsMessage.contents_ofSetRequests (requests : List SetRequest) :
    (ofSetRequests requests).requests.map RequestMessage.contents =
      requests.map fun request => (request.id, some request.value) := by
  simp [ofSetRequests, RequestMessage.contents, ValueMessage.toValue_ofValue]

/-- Values come back bit for bit.  Requests come back in their order, each with its id and
its value.  Of a subscription all but the sign of a zero comes back. -/
theorem decode?_encode_contract (value : PropertyValue) (gets : List GetRequest)
    (sets : List SetRequest) (subscription : Subscription) :
    ((encode (ValueMessage.ofValue value)).length < UInt64.size →
      (decode? (encode (ValueMessage.ofValue value))).map ValueMessage.toValue = some value) ∧
    ((encode (RequestsMessage.ofGetRequests gets)).length < UInt64.size →
      ∃ message : RequestsMessage,
        decode? (encode (RequestsMessage.ofGetRequests gets)) = some message ∧
        message.requests.map RequestMessage.contents =
          gets.map fun request => (request.id, some request.target)) ∧
    ((encode (RequestsMessage.ofSetRequests sets)).length < UInt64.size →
      ∃ message : RequestsMessage,
        decode? (encode (RequestsMessage.ofSetRequests sets)) = some message ∧
        message.requests.map RequestMessage.contents =
          sets.map fun request => (request.id, some request.value)) ∧
    ((encode (SubscribeMessage.ofSubscription subscription)).length < UInt64.size →
      decode? (encode (SubscribeMessage.ofSubscription subscription)) =
        some (SubscribeMessage.mk (some {
          property := subscription.property
          areas := subscription.areas
          sampleRate := subscription.sampleRate.withoutNegativeZero
          resolution := subscription.resolution.withoutNegativeZero
          variableUpdateRate := subscription.variableUpdateRate }))) := by
  refine ⟨?_, ?_, ?_, ?_⟩
  · intro fits
    have comesBack := MessageType.decode?_encode_eq_settled .value (.ofValue value) fits
    rw [comesBack, Option.map_some]
    exact congrArg some (ValueMessage.toValue_ofValue value)
  · intro fits
    refine ⟨_, ?_, RequestsMessage.contents_ofGetRequests gets⟩
    exact MessageType.decode?_encode_eq_settled .requests (.ofGetRequests gets) fits
  · intro fits
    refine ⟨_, ?_, RequestsMessage.contents_ofSetRequests sets⟩
    exact MessageType.decode?_encode_eq_settled .requests (.ofSetRequests sets) fits
  · intro fits
    exact MessageType.decode?_encode_eq_settled .subscribe (.ofSubscription subscription) fits

/-- Negative zero comes back in a payload and not as a sample rate. -/
theorem decode?_encode_contract_of_negativeZero :
    let speed : PropertyValue := {
      timestamp := Int64.minValue
      area := -1
      property := 1
      availability := .error
      payload := { singles := [.negativeZero, ⟨0x7fc00001⟩], bytes := [255, 0], text := "km/h" } }
    let door := PropertyValue.selecting ⟨2, 0⟩
    let subscription : Subscription := { property := 1, areas := [-1], sampleRate := .negativeZero }
    (decode? (encode (ValueMessage.ofValue speed))).map ValueMessage.toValue = some speed ∧
    (∃ message : RequestsMessage,
      decode? (encode (RequestsMessage.ofGetRequests [⟨8, door⟩, ⟨-7, speed⟩])) = some message ∧
      message.requests.map RequestMessage.contents = [(8, some door), (-7, some speed)]) ∧
    (∃ message : RequestsMessage,
      decode? (encode (RequestsMessage.ofSetRequests [⟨0, speed⟩])) = some message ∧
      message.requests.map RequestMessage.contents = [(0, some speed)]) ∧
    decode? (encode (SubscribeMessage.ofSubscription subscription)) =
      some (SubscribeMessage.mk (some { property := 1, areas := [-1] })) := by
  intro speed door subscription
  obtain ⟨value, gets, sets, subscribe⟩ :=
    decode?_encode_contract speed [⟨8, door⟩, ⟨-7, speed⟩] [⟨0, speed⟩] subscription
  exact ⟨value (by cbv), gets (by cbv), sets (by cbv), subscribe (by cbv)⟩

end VehicleRelay.Wire
