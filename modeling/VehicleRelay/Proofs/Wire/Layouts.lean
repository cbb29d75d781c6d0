import VehicleRelay.Proofs.Wire.MessageTypes

/-!
# Layouts of the declared messages

The layout of every message and the message that comes back in its place.  It is another
one where a singular field holds negative zero: as a default it is not written, and what
is not written is read as positive zero.  All forms follow their layouts.
-/

namespace VehicleRelay.Wire

open Scalar

section Fields

variable {depth : Nat}

theorem int32_follows : int32.singular.Follows int32.Once id depth :=
  follows_singular int32_lawful settled_int32 depth

theorem int64_follows : int64.singular.Follows int64.Once id depth :=
  follows_singular int64_lawful settled_int64 depth

theorem bool_follows : bool.singular.Follows bool.Once id depth :=
  follows_singular bool_lawful settled_bool depth

theorem single_follows : single.singular.Follows single.Once Single.withoutNegativeZero depth :=
  follows_singular single_lawful settled_single depth

theorem bytes_follows : Scalar.bytes.singular.Follows Scalar.bytes.Once id depth :=
  follows_singular bytes_lawful settled_bytes depth

theorem text_follows : Scalar.text.singular.Follows Scalar.text.Once id depth :=
  follows_singular text_lawful settled_text depth

theorem texts_follow : Scalar.text.repeated.Follows Scalar.text.Each id depth :=
  follows_repeated text_lawful depth

theorem int32s_follow : int32.packed.Follows int32.Chunks id depth :=
  follows_packed int32_packable depth

theorem int64s_follow : int64.packed.Follows int64.Chunks id depth :=
  follows_packed int64_packable depth

theorem singles_follow : single.packed.Follows single.Chunks id depth :=
  follows_packed single_packable depth

end Fields

/-! ## Messages that come back -/

def SampleRateMessage.settled (message : SampleRateMessage) : SampleRateMessage :=
  { message with sampleRate := message.sampleRate.withoutNegativeZero }

def SubscriptionMessage.settled (message : SubscriptionMessage) : SubscriptionMessage :=
  { message with
    sampleRate := message.sampleRate.withoutNegativeZero
    resolution := message.resolution.withoutNegativeZero }

def SubscribeMessage.settled (message : SubscribeMessage) : SubscribeMessage where
  options := message.options.map SubscriptionMessage.settled

def AreaConfigMessage.settled (message : AreaConfigMessage) : AreaConfigMessage :=
  { message with
    minSingle := message.minSingle.withoutNegativeZero
    maxSingle := message.maxSingle.withoutNegativeZero }

def ConfigMessage.settled (message : ConfigMessage) : ConfigMessage :=
  { message with
    areas := message.areas.map AreaConfigMessage.settled
    minSampleRate := message.minSampleRate.withoutNegativeZero
    maxSampleRate := message.maxSampleRate.withoutNegativeZero }

/-! ## Layouts and forms -/

namespace Layout

def value : Layout ValueMessage := [
  ⟨1, fun message => int64.Once message.timestamp⟩,
  ⟨2, fun message => int32.Once message.area⟩,
  ⟨3, fun message => int32.Once message.property⟩,
  ⟨4, fun message => int32.Once message.status⟩,
  ⟨5, fun message => int32.Chunks message.int32s⟩,
  ⟨6, fun message => single.Chunks message.singles⟩,
  ⟨7, fun message => int64.Chunks message.int64s⟩,
  ⟨8, fun message => Scalar.bytes.Once message.bytes⟩,
  ⟨9, fun message => Scalar.text.Once message.text⟩]

theorem value_follows : MessageType.value.form.Follows value.Spells id 0 :=
  (MessageType.form_lawful .value).follows <|
    .cons int64_follows.field <|
    .cons int32_follows.field <|
    .cons int32_follows.field <|
    .cons int32_follows.field <|
    .cons int32s_follow.field <|
    .cons singles_follow.field <|
    .cons int64s_follow.field <|
    .cons bytes_follows.field <|
    .cons text_follows.field .nil

def batch : Layout BatchMessage := [
  ⟨1, fun message => OneByOne value.Spells message.values⟩]

theorem batch_follows : MessageType.batch.form.Follows batch.Spells id 1 :=
  (MessageType.form_lawful .batch).follows <|
    .cons value_follows.repeated_exact.field .nil

def request : Layout RequestMessage := [
  ⟨1, fun message => int64.Once message.id⟩,
  ⟨2, fun message => AtMostOne value.Spells message.value⟩]

theorem request_follows : MessageType.request.form.Follows request.Spells id 1 :=
  (MessageType.form_lawful .request).follows <|
    .cons int64_follows.field <|
    .cons value_follows.optional_exact.field .nil

def requests : Layout RequestsMessage := [
  ⟨1, fun message => OneByOne request.Spells message.requests⟩]

theorem requests_follows : MessageType.requests.form.Follows requests.Spells id 2 :=
  (MessageType.form_lawful .requests).follows <|
    .cons request_follows.repeated_exact.field .nil

def setResult : Layout SetResultMessage := [
  ⟨1, fun message => int64.Once message.id⟩,
  ⟨2, fun message => int32.Once message.status⟩]

theorem setResult_follows : MessageType.setResult.form.Follows setResult.Spells id 0 :=
  (MessageType.form_lawful .setResult).follows <|
    .cons int64_follows.field <|
    .cons int32_follows.field .nil

def setResults : Layout SetResultsMessage := [
  ⟨1, fun message => OneByOne setResult.Spells message.results⟩]

theorem setResults_follows : MessageType.setResults.form.Follows setResults.Spells id 1 :=
  (MessageType.form_lawful .setResults).follows <|
    .cons setResult_follows.repeated_exact.field .nil

def getResult : Layout GetResultMessage := [
  ⟨1, fun message => int64.Once message.id⟩,
  ⟨2, fun message => int32.Once message.status⟩,
  ⟨3, fun message => AtMostOne value.Spells message.value⟩]

theorem getResult_follows : MessageType.getResult.form.Follows getResult.Spells id 1 :=
  (MessageType.form_lawful .getResult).follows <|
    .cons int64_follows.field <|
    .cons int32_follows.field <|
    .cons value_follows.optional_exact.field .nil

def getResults : Layout GetResultsMessage := [
  ⟨1, fun message => OneByOne getResult.Spells message.results⟩]

theorem getResults_follows : MessageType.getResults.form.Follows getResults.Spells id 2 :=
  (MessageType.form_lawful .getResults).follows <|
    .cons getResult_follows.repeated_exact.field .nil

def status : Layout StatusMessage := [
  ⟨1, fun message => int32.Once message.status⟩]

theorem status_follows : MessageType.status.form.Follows status.Spells id 0 :=
  (MessageType.form_lawful .status).follows <|
    .cons int32_follows.field .nil

def dumpOptions : Layout DumpOptionsMessage := [
  ⟨1, fun message => Scalar.text.Each message.options⟩]

theorem dumpOptions_follows : MessageType.dumpOptions.form.Follows dumpOptions.Spells id 0 :=
  (MessageType.form_lawful .dumpOptions).follows <|
    .cons texts_follow.field .nil

def dumpReport : Layout DumpReportMessage := [
  ⟨1, fun message => bool.Once message.callerShouldDump⟩,
  ⟨2, fun message => Scalar.text.Once message.text⟩,
  ⟨3, fun message => bool.Once message.refreshConfigs⟩]

theorem dumpReport_follows : MessageType.dumpReport.form.Follows dumpReport.Spells id 0 :=
  (MessageType.form_lawful .dumpReport).follows <|
    .cons bool_follows.field <|
    .cons text_follows.field <|
    .cons bool_follows.field .nil

def sampleRate : Layout SampleRateMessage := [
  ⟨1, fun message => int32.Once message.property⟩,
  ⟨2, fun message => int32.Once message.area⟩,
  ⟨3, fun message => single.Once message.sampleRate⟩]

theorem sampleRate_follows :
    MessageType.sampleRate.form.Follows sampleRate.Spells SampleRateMessage.settled 0 :=
  (MessageType.form_lawful .sampleRate).follows <|
    .cons (int32_follows.settledField fun _ => rfl) <|
    .cons (int32_follows.settledField fun _ => rfl) <|
    .cons (single_follows.settledField fun _ => rfl) .nil

def subscription : Layout SubscriptionMessage := [
  ⟨1, fun message => int32.Once message.property⟩,
  ⟨2, fun message => int32.Chunks message.areas⟩,
  ⟨3, fun message => single.Once message.sampleRate⟩,
  ⟨4, fun message => single.Once message.resolution⟩,
  ⟨5, fun message => bool.Once message.variableUpdateRate⟩]

theorem subscription_follows :
    MessageType.subscription.form.Follows subscription.Spells SubscriptionMessage.settled 0 :=
  (MessageType.form_lawful .subscription).follows <|
    .cons (int32_follows.settledField fun _ => rfl) <|
    .cons (int32s_follow.settledField fun _ => rfl) <|
    .cons (single_follows.settledField fun _ => rfl) <|
    .cons (single_follows.settledField fun _ => rfl) <|
    .cons (bool_follows.settledField fun _ => rfl) .nil

def subscribe : Layout SubscribeMessage := [
  ⟨1, fun message => AtMostOne subscription.Spells message.options⟩]

theorem subscribe_follows :
    MessageType.subscribe.form.Follows subscribe.Spells SubscribeMessage.settled 1 :=
  (MessageType.form_lawful .subscribe).follows <|
    .cons (subscription_follows.optional.settledField fun _ => rfl) .nil

def unsubscribe : Layout UnsubscribeMessage := [
  ⟨1, fun message => int32.Once message.property⟩,
  ⟨2, fun message => int32.Once message.area⟩]

theorem unsubscribe_follows : MessageType.unsubscribe.form.Follows unsubscribe.Spells id 0 :=
  (MessageType.form_lawful .unsubscribe).follows <|
    .cons int32_follows.field <|
    .cons int32_follows.field .nil

def areaConfig : Layout AreaConfigMessage := [
  ⟨1, fun message => int32.Once message.area⟩,
  ⟨2, fun message => int32.Once message.minInt32⟩,
  ⟨3, fun message => int32.Once message.maxInt32⟩,
  ⟨4, fun message => int64.Once message.minInt64⟩,
  ⟨5, fun message => int64.Once message.maxInt64⟩,
  ⟨6, fun message => single.Once message.minSingle⟩,
  ⟨7, fun message => single.Once message.maxSingle⟩,
  ⟨8, fun message => int64.Chunks message.supportedEnumValues⟩,
  ⟨9, fun message => int32.Once message.access⟩,
  ⟨10, fun message => bool.Once message.variableUpdateRate⟩]

theorem areaConfig_follows :
    MessageType.areaConfig.form.Follows areaConfig.Spells AreaConfigMessage.settled 0 :=
  (MessageType.form_lawful .areaConfig).follows <|
    .cons (int32_follows.settledField fun _ => rfl) <|
    .cons (int32_follows.settledField fun _ => rfl) <|
    .cons (int32_follows.settledField fun _ => rfl) <|
    .cons (int64_follows.settledField fun _ => rfl) <|
    .cons (int64_follows.settledField fun _ => rfl) <|
    .cons (single_follows.settledField fun _ => rfl) <|
    .cons (single_follows.settledField fun _ => rfl) <|
    .cons (int64s_follow.settledField fun _ => rfl) <|
    .cons (int32_follows.settledField fun _ => rfl) <|
    .cons (bool_follows.settledField fun _ => rfl) .nil

def config : Layout ConfigMessage := [
  ⟨1, fun message => int32.Once message.property⟩,
  ⟨2, fun message => int32.Once message.access⟩,
  ⟨3, fun message => int32.Once message.changeMode⟩,
  ⟨4, fun message => OneByOne areaConfig.Spells message.areas⟩,
  ⟨5, fun message => int32.Chunks message.numbers⟩,
  ⟨6, fun message => Scalar.text.Once message.text⟩,
  ⟨7, fun message => single.Once message.minSampleRate⟩,
  ⟨8, fun message => single.Once message.maxSampleRate⟩]

theorem config_follows : MessageType.config.form.Follows config.Spells ConfigMessage.settled 1 :=
  (MessageType.form_lawful .config).follows <|
    .cons (int32_follows.settledField fun _ => rfl) <|
    .cons (int32_follows.settledField fun _ => rfl) <|
    .cons (int32_follows.settledField fun _ => rfl) <|
    .cons (areaConfig_follows.repeated.settledField fun _ => rfl) <|
    .cons (int32s_follow.settledField fun _ => rfl) <|
    .cons (text_follows.settledField fun _ => rfl) <|
    .cons (single_follows.settledField fun _ => rfl) <|
    .cons (single_follows.settledField fun _ => rfl) .nil

end Layout

end VehicleRelay.Wire
