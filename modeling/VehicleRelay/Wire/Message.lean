import VehicleRelay.Wire.MessageForm

/-!
# Messages of the vehicle server

The messages that the vehicle server and its clients exchange.  Cases of
vocabularies are kept as the numbers that were sent.
-/

namespace VehicleRelay.Wire

open Scalar

structure ValueMessage where
  timestamp : Int64 := 0
  area : Int32 := 0
  property : Int32 := 0
  status : Int32 := 0
  int32s : List Int32 := []
  singles : List Single := []
  int64s : List Int64 := []
  bytes : List UInt8 := []
  text : String := ""
deriving DecidableEq, Repr

instance : WireMessage ValueMessage where
  form := {
    initial := {}
    fields := [
      ⟨1, int64.singular, (·.timestamp), fun timestamp message => { message with timestamp }⟩,
      ⟨2, int32.singular, (·.area), fun area message => { message with area }⟩,
      ⟨3, int32.singular, (·.property), fun property message => { message with property }⟩,
      ⟨4, int32.singular, (·.status), fun status message => { message with status }⟩,
      ⟨5, int32.packed, (·.int32s), fun int32s message => { message with int32s }⟩,
      ⟨6, single.packed, (·.singles), fun singles message => { message with singles }⟩,
      ⟨7, int64.packed, (·.int64s), fun int64s message => { message with int64s }⟩,
      ⟨8, Scalar.bytes.singular, (·.bytes), fun bytes message => { message with bytes }⟩,
      ⟨9, Scalar.text.singular, (·.text), fun text message => { message with text }⟩] }

/-- One batch of the stream of values. -/
structure BatchMessage where
  values : List ValueMessage := []
deriving DecidableEq, Repr

instance : WireMessage BatchMessage where
  form := {
    initial := {}
    fields := [
      ⟨1, WireMessage.form.repeated, (·.values), fun values message => { message with values }⟩] }

structure RequestMessage where
  id : Int64 := 0
  value : Option ValueMessage := none
deriving DecidableEq, Repr

instance : WireMessage RequestMessage where
  form := {
    initial := {}
    fields := [
      ⟨1, int64.singular, (·.id), fun id message => { message with id }⟩,
      ⟨2, WireMessage.form.optional, (·.value), fun value message => { message with value }⟩] }

structure RequestsMessage where
  requests : List RequestMessage := []
deriving DecidableEq, Repr

instance : WireMessage RequestsMessage where
  form := {
    initial := {}
    fields := [
      ⟨1, WireMessage.form.repeated, (·.requests),
        fun requests message => { message with requests }⟩] }

structure SetResultMessage where
  id : Int64 := 0
  status : Int32 := 0
deriving DecidableEq, Repr

instance : WireMessage SetResultMessage where
  form := {
    initial := {}
    fields := [
      ⟨1, int64.singular, (·.id), fun id message => { message with id }⟩,
      ⟨2, int32.singular, (·.status), fun status message => { message with status }⟩] }

structure SetResultsMessage where
  results : List SetResultMessage := []
deriving DecidableEq, Repr

instance : WireMessage SetResultsMessage where
  form := {
    initial := {}
    fields := [
      ⟨1, WireMessage.form.repeated, (·.results),
        fun results message => { message with results }⟩] }

structure GetResultMessage where
  id : Int64 := 0
  status : Int32 := 0
  value : Option ValueMessage := none
deriving DecidableEq, Repr

instance : WireMessage GetResultMessage where
  form := {
    initial := {}
    fields := [
      ⟨1, int64.singular, (·.id), fun id message => { message with id }⟩,
      ⟨2, int32.singular, (·.status), fun status message => { message with status }⟩,
      ⟨3, WireMessage.form.optional, (·.value), fun value message => { message with value }⟩] }

structure GetResultsMessage where
  results : List GetResultMessage := []
deriving DecidableEq, Repr

instance : WireMessage GetResultsMessage where
  form := {
    initial := {}
    fields := [
      ⟨1, WireMessage.form.repeated, (·.results),
        fun results message => { message with results }⟩] }

structure StatusMessage where
  status : Int32 := 0
deriving DecidableEq, Repr

instance : WireMessage StatusMessage where
  form := {
    initial := {}
    fields := [
      ⟨1, int32.singular, (·.status), fun status message => { message with status }⟩] }

structure DumpOptionsMessage where
  options : List String := []
deriving DecidableEq, Repr

instance : WireMessage DumpOptionsMessage where
  form := {
    initial := {}
    fields := [
      ⟨1, Scalar.text.repeated, (·.options), fun options message => { message with options }⟩] }

structure DumpReportMessage where
  callerShouldDump : Bool := false
  text : String := ""
  refreshConfigs : Bool := false
deriving DecidableEq, Repr

instance : WireMessage DumpReportMessage where
  form := {
    initial := {}
    fields := [
      ⟨1, bool.singular, (·.callerShouldDump),
        fun callerShouldDump message => { message with callerShouldDump }⟩,
      ⟨2, Scalar.text.singular, (·.text), fun text message => { message with text }⟩,
      ⟨3, bool.singular, (·.refreshConfigs),
        fun refreshConfigs message => { message with refreshConfigs }⟩] }

structure SampleRateMessage where
  property : Int32 := 0
  area : Int32 := 0
  sampleRate : Single := .zero
deriving DecidableEq, Repr

instance : WireMessage SampleRateMessage where
  form := {
    initial := {}
    fields := [
      ⟨1, int32.singular, (·.property), fun property message => { message with property }⟩,
      ⟨2, int32.singular, (·.area), fun area message => { message with area }⟩,
      ⟨3, single.singular, (·.sampleRate),
        fun sampleRate message => { message with sampleRate }⟩] }

structure SubscriptionMessage where
  property : Int32 := 0
  areas : List Int32 := []
  sampleRate : Single := .zero
  resolution : Single := .zero
  variableUpdateRate : Bool := false
deriving DecidableEq, Repr

instance : WireMessage SubscriptionMessage where
  form := {
    initial := {}
    fields := [
      ⟨1, int32.singular, (·.property), fun property message => { message with property }⟩,
      ⟨2, int32.packed, (·.areas), fun areas message => { message with areas }⟩,
      ⟨3, single.singular, (·.sampleRate),
        fun sampleRate message => { message with sampleRate }⟩,
      ⟨4, single.singular, (·.resolution),
        fun resolution message => { message with resolution }⟩,
      ⟨5, bool.singular, (·.variableUpdateRate),
        fun variableUpdateRate message => { message with variableUpdateRate }⟩] }

structure SubscribeMessage where
  options : Option SubscriptionMessage := none
deriving DecidableEq, Repr

instance : WireMessage SubscribeMessage where
  form := {
    initial := {}
    fields := [
      ⟨1, WireMessage.form.optional, (·.options),
        fun options message => { message with options }⟩] }

structure UnsubscribeMessage where
  property : Int32 := 0
  area : Int32 := 0
deriving DecidableEq, Repr

instance : WireMessage UnsubscribeMessage where
  form := {
    initial := {}
    fields := [
      ⟨1, int32.singular, (·.property), fun property message => { message with property }⟩,
      ⟨2, int32.singular, (·.area), fun area message => { message with area }⟩] }

structure AreaConfigMessage where
  area : Int32 := 0
  minInt32 : Int32 := 0
  maxInt32 : Int32 := 0
  minInt64 : Int64 := 0
  maxInt64 : Int64 := 0
  minSingle : Single := .zero
  maxSingle : Single := .zero
  supportedEnumValues : List Int64 := []
  access : Int32 := 0
  variableUpdateRate : Bool := false
deriving DecidableEq, Repr

instance : WireMessage AreaConfigMessage where
  form := {
    initial := {}
    fields := [
      ⟨1, int32.singular, (·.area), fun area message => { message with area }⟩,
      ⟨2, int32.singular, (·.minInt32), fun minInt32 message => { message with minInt32 }⟩,
      ⟨3, int32.singular, (·.maxInt32), fun maxInt32 message => { message with maxInt32 }⟩,
      ⟨4, int64.singular, (·.minInt64), fun minInt64 message => { message with minInt64 }⟩,
      ⟨5, int64.singular, (·.maxInt64), fun maxInt64 message => { message with maxInt64 }⟩,
      ⟨6, single.singular, (·.minSingle), fun minSingle message => { message with minSingle }⟩,
      ⟨7, single.singular, (·.maxSingle), fun maxSingle message => { message with maxSingle }⟩,
      ⟨8, int64.packed, (·.supportedEnumValues),
        fun supportedEnumValues message => { message with supportedEnumValues }⟩,
      ⟨9, int32.singular, (·.access), fun access message => { message with access }⟩,
      ⟨10, bool.singular, (·.variableUpdateRate),
        fun variableUpdateRate message => { message with variableUpdateRate }⟩] }

structure ConfigMessage where
  property : Int32 := 0
  access : Int32 := 0
  changeMode : Int32 := 0
  areas : List AreaConfigMessage := []
  numbers : List Int32 := []
  text : String := ""
  minSampleRate : Single := .zero
  maxSampleRate : Single := .zero
deriving DecidableEq, Repr

instance : WireMessage ConfigMessage where
  form := {
    initial := {}
    fields := [
      ⟨1, int32.singular, (·.property), fun property message => { message with property }⟩,
      ⟨2, int32.singular, (·.access), fun access message => { message with access }⟩,
      ⟨3, int32.singular, (·.changeMode), fun changeMode message => { message with changeMode }⟩,
      ⟨4, WireMessage.form.repeated, (·.areas), fun areas message => { message with areas }⟩,
      ⟨5, int32.packed, (·.numbers), fun numbers message => { message with numbers }⟩,
      ⟨6, Scalar.text.singular, (·.text), fun text message => { message with text }⟩,
      ⟨7, single.singular, (·.minSampleRate),
        fun minSampleRate message => { message with minSampleRate }⟩,
      ⟨8, single.singular, (·.maxSampleRate),
        fun maxSampleRate message => { message with maxSampleRate }⟩] }

/-- The message without fields that calls without arguments send. -/
structure EmptyMessage where
deriving DecidableEq, Repr

instance : WireMessage EmptyMessage where
  form := { initial := {}, fields := [] }

end VehicleRelay.Wire
