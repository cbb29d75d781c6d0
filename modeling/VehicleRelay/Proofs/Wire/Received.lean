import Mathlib
import VehicleRelay.Proofs.Wire.Contract

/-!
# What received messages stand for

A received message stands for something of the contract.  Nothing of a message is lost but the
numbers that belong to no case: they stand for the fallback of their vocabulary.  So two messages
stand for the same exactly when they are the same once each such number is replaced by the number
of the fallback.  Whatever the contract can express is what some message stands for.
-/

namespace VehicleRelay.Wire

/-! ## Readings that lose nothing but what a normal form forgets -/

/-- What is read of a message can be written again, and then is the normal form of the message;
what is written is read as it was. -/
structure Faithful {Message Contents : Type} (read : Message → Contents)
    (normal : Message → Message) (write : Contents → Message) : Prop where
  write_read : ∀ message, write (read message) = normal message
  read_write : ∀ contents, read (write contents) = contents

namespace Faithful

variable {Message Contents : Type} {read : Message → Contents} {normal : Message → Message}
  {write : Contents → Message}

theorem read_normal (faithful : Faithful read normal write) (message : Message) :
    read (normal message) = read message := by
  rw [← faithful.write_read, faithful.read_write]

theorem read_eq_iff (faithful : Faithful read normal write) (first second : Message) :
    read first = read second ↔ normal first = normal second := by
  constructor
  · intro same
    rw [← faithful.write_read, same, faithful.write_read]
  · intro same
    rw [← faithful.read_normal, same, faithful.read_normal]

theorem normal_normal (faithful : Faithful read normal write) (message : Message) :
    normal (normal message) = normal message := by
  apply (faithful.read_eq_iff (normal message) message).mp
  exact faithful.read_normal message

theorem list (faithful : Faithful read normal write) :
    Faithful (List.map read) (List.map normal) (List.map write) where
  write_read messages := by
    rw [List.map_map]
    apply List.map_congr_left
    intro message _
    exact faithful.write_read message
  read_write contents := by
    rw [List.map_map]
    apply List.map_id''
    exact faithful.read_write

theorem option (faithful : Faithful read normal write) :
    Faithful (Option.map read) (Option.map normal) (Option.map write) where
  write_read message := by
    cases message with
    | none => rfl
    | some message => exact congrArg some (faithful.write_read message)
  read_write contents := by
    cases contents with
    | none => rfl
    | some contents => exact congrArg some (faithful.read_write contents)

end Faithful

/-! ## Numbers of cases -/

/-- A vocabulary numbers its cases from zero; a number of no case is replaced. -/
def knownCode (cases : Nat) (replacement number : Int32) : Int32 :=
  if 0 ≤ number.toInt ∧ number.toInt < cases then number else replacement

theorem mem_range_map_ofNat_iff {cases : Nat} (fits : cases ≤ 2 ^ 31) (number : Int32) :
    number ∈ (List.range cases).map Int32.ofNat ↔
      0 ≤ number.toInt ∧ number.toInt < cases := by
  rw [List.mem_map]
  constructor
  · rintro ⟨code, known, rfl⟩
    have small : code < cases := List.mem_range.mp known
    rw [Int32.toInt_ofNat_of_lt (by omega)]
    omega
  · rintro ⟨nonnegative, small⟩
    refine ⟨number.toInt.toNat, List.mem_range.mpr (by omega), ?_⟩
    apply Int32.toInt_inj.mp
    rw [Int32.toInt_ofNat_of_lt (by omega)]
    omega

theorem code_ofCode {Case : Type} [Coded Case] (number : Int32) :
    Coded.code (Coded.ofCode number : Case) =
      if number ∈ (Coded.cases : List Case).map Coded.code then number
      else Coded.code (Coded.fallback : Case) := by
  unfold Coded.ofCode Coded.ofCode?
  split
  case isTrue known =>
    obtain ⟨case, listed, rfl⟩ := List.mem_map.mp known
    cases found : (Coded.cases : List Case).find? fun candidate =>
        Coded.code candidate == Coded.code case with
    | none => exact absurd (beq_self_eq_true _) (List.find?_eq_none.mp found case listed)
    | some candidate =>
      have meets := List.find?_some found
      exact eq_of_beq meets
  case isFalse unknown =>
    have nothing : (Coded.cases : List Case).find? (fun candidate =>
        Coded.code candidate == number) = none := by
      apply List.find?_eq_none.mpr
      intro candidate listed same
      exact unknown (List.mem_map.mpr ⟨candidate, listed, eq_of_beq same⟩)
    rw [nothing, Option.getD_none]

/-- The cases of a vocabulary are listed by their numbers, from zero on. -/
theorem faithful_ofCode {Case : Type} [Coded Case] {cases : Nat} (fits : cases ≤ 2 ^ 31)
    (numbered : (Coded.cases : List Case).map Coded.code = (List.range cases).map Int32.ofNat)
    (ofCode_code : ∀ case : Case, Coded.ofCode (Coded.code case) = case) :
    Faithful (Coded.ofCode : Int32 → Case) (knownCode cases (Coded.code (Coded.fallback : Case)))
      Coded.code where
  write_read number := by
    rw [code_ofCode, numbered, knownCode]
    simp only [mem_range_map_ofNat_iff fits]
  read_write := ofCode_code

def availabilityCode : Int32 → Int32 := knownCode 3 2

def statusCode : Int32 → Int32 := knownCode 11 5

def accessCode : Int32 → Int32 := knownCode 4 0

def changeModeCode : Int32 → Int32 := knownCode 3 0

theorem faithful_availability :
    Faithful (Coded.ofCode : Int32 → Availability) availabilityCode Coded.code := by
  apply faithful_ofCode (by decide) rfl
  exact Availability.ofCode_code

theorem faithful_status :
    Faithful (Coded.ofCode : Int32 → CallStatus) statusCode Coded.code := by
  apply faithful_ofCode (by decide) rfl
  exact CallStatus.ofCode_code

theorem faithful_access :
    Faithful (Coded.ofCode : Int32 → Access) accessCode Coded.code := by
  apply faithful_ofCode (by decide) rfl
  exact Access.ofCode_code

theorem faithful_changeMode :
    Faithful (Coded.ofCode : Int32 → ChangeMode) changeModeCode Coded.code := by
  apply faithful_ofCode (by decide) rfl
  exact ChangeMode.ofCode_code

/-! ## Messages -/

def ValueMessage.normal (message : ValueMessage) : ValueMessage :=
  { message with status := availabilityCode message.status }

theorem ValueMessage.faithful : Faithful toValue normal ofValue where
  write_read message := by
    rw [toValue, ofValue, normal, ← faithful_availability.write_read]
  read_write := toValue_ofValue

def BatchMessage.normal (message : BatchMessage) : BatchMessage where
  values := message.values.map ValueMessage.normal

def BatchMessage.ofValues (values : List PropertyValue) : BatchMessage where
  values := values.map ValueMessage.ofValue

theorem BatchMessage.faithful : Faithful toValues normal ofValues where
  write_read message := by
    rw [toValues, ofValues, normal, ← ValueMessage.faithful.list.write_read]
  read_write := ValueMessage.faithful.list.read_write

def SetResultMessage.normal (message : SetResultMessage) : SetResultMessage :=
  { message with status := statusCode message.status }

def SetResultMessage.ofResult (result : SetResult) : SetResultMessage where
  id := result.id
  status := Coded.code result.status

theorem SetResultMessage.faithful : Faithful toResult normal ofResult where
  write_read message := by
    rw [toResult, ofResult, normal, ← faithful_status.write_read]
  read_write result := by
    rw [toResult, ofResult, faithful_status.read_write]

def GetResultMessage.normal (message : GetResultMessage) : GetResultMessage :=
  { message with
    status := statusCode message.status
    value := message.value.map ValueMessage.normal }

def GetResultMessage.ofResult (result : GetResult) : GetResultMessage where
  id := result.id
  status := Coded.code result.status
  value := result.value.map ValueMessage.ofValue

theorem GetResultMessage.faithful : Faithful toResult normal ofResult where
  write_read message := by
    rw [toResult, ofResult, normal, ← faithful_status.write_read,
      ← ValueMessage.faithful.option.write_read]
  read_write result := by
    rw [toResult, ofResult, faithful_status.read_write,
      ValueMessage.faithful.option.read_write]

def DumpReportMessage.ofReport (report : DumpReport) : DumpReportMessage where
  callerShouldDump := report.callerShouldDump
  text := report.text
  refreshConfigs := report.refreshConfigs

theorem DumpReportMessage.faithful : Faithful toReport id ofReport where
  write_read _ := rfl
  read_write _ := rfl

def AreaConfigMessage.normal (message : AreaConfigMessage) : AreaConfigMessage :=
  { message with access := accessCode message.access }

def AreaConfigMessage.ofConfig (config : AreaConfig) : AreaConfigMessage where
  area := config.area
  minInt32 := config.minInt32
  maxInt32 := config.maxInt32
  minInt64 := config.minInt64
  maxInt64 := config.maxInt64
  minSingle := config.minSingle
  maxSingle := config.maxSingle
  supportedEnumValues := config.supportedEnumValues
  access := Coded.code config.access
  variableUpdateRate := config.variableUpdateRate

theorem AreaConfigMessage.faithful : Faithful toConfig normal ofConfig where
  write_read message := by
    rw [toConfig, ofConfig, normal, ← faithful_access.write_read]
  read_write config := by
    rw [toConfig, ofConfig, faithful_access.read_write]

def ConfigMessage.normal (message : ConfigMessage) : ConfigMessage :=
  { message with
    access := accessCode message.access
    changeMode := changeModeCode message.changeMode
    areas := message.areas.map AreaConfigMessage.normal }

def ConfigMessage.ofConfig (config : PropertyConfig) : ConfigMessage where
  property := config.property
  access := Coded.code config.access
  changeMode := Coded.code config.changeMode
  areas := config.areas.map AreaConfigMessage.ofConfig
  numbers := config.numbers
  text := config.text
  minSampleRate := config.minSampleRate
  maxSampleRate := config.maxSampleRate

theorem ConfigMessage.faithful : Faithful toConfig normal ofConfig where
  write_read message := by
    rw [toConfig, ofConfig, normal, ← faithful_access.write_read,
      ← faithful_changeMode.write_read, ← AreaConfigMessage.faithful.list.write_read]
  read_write config := by
    rw [toConfig, ofConfig, faithful_access.read_write, faithful_changeMode.read_write,
      AreaConfigMessage.faithful.list.read_write]

/-- The types of the messages that are turned into something of the contract. -/
inductive ReceivedType
  | value
  | batch
  | setResult
  | getResult
  | dumpReport
  | areaConfig
  | config
deriving DecidableEq, Repr

namespace ReceivedType

@[reducible]
def Message : ReceivedType → Type
  | .value => ValueMessage
  | .batch => BatchMessage
  | .setResult => SetResultMessage
  | .getResult => GetResultMessage
  | .dumpReport => DumpReportMessage
  | .areaConfig => AreaConfigMessage
  | .config => ConfigMessage

@[reducible]
def Contents : ReceivedType → Type
  | .value => PropertyValue
  | .batch => List PropertyValue
  | .setResult => SetResult
  | .getResult => GetResult
  | .dumpReport => DumpReport
  | .areaConfig => AreaConfig
  | .config => PropertyConfig

def toContents : (type : ReceivedType) → type.Message → type.Contents
  | .value => ValueMessage.toValue
  | .batch => BatchMessage.toValues
  | .setResult => SetResultMessage.toResult
  | .getResult => GetResultMessage.toResult
  | .dumpReport => DumpReportMessage.toReport
  | .areaConfig => AreaConfigMessage.toConfig
  | .config => ConfigMessage.toConfig

/-- The message with the number of a case wherever the number of a case belongs. -/
def normal : (type : ReceivedType) → type.Message → type.Message
  | .value => ValueMessage.normal
  | .batch => BatchMessage.normal
  | .setResult => SetResultMessage.normal
  | .getResult => GetResultMessage.normal
  | .dumpReport => id
  | .areaConfig => AreaConfigMessage.normal
  | .config => ConfigMessage.normal

def ofContents : (type : ReceivedType) → type.Contents → type.Message
  | .value => ValueMessage.ofValue
  | .batch => BatchMessage.ofValues
  | .setResult => SetResultMessage.ofResult
  | .getResult => GetResultMessage.ofResult
  | .dumpReport => DumpReportMessage.ofReport
  | .areaConfig => AreaConfigMessage.ofConfig
  | .config => ConfigMessage.ofConfig

theorem faithful (type : ReceivedType) :
    Faithful type.toContents type.normal type.ofContents := by
  cases type with
  | value => exact ValueMessage.faithful
  | batch => exact BatchMessage.faithful
  | setResult => exact SetResultMessage.faithful
  | getResult => exact GetResultMessage.faithful
  | dumpReport => exact DumpReportMessage.faithful
  | areaConfig => exact AreaConfigMessage.faithful
  | config => exact ConfigMessage.faithful

end ReceivedType

/-- A list of messages stands for a list of the same length, in the same order. -/
def InOrder {Message Contents : Type} (read : Message → Contents) (messages : List Message)
    (contents : List Contents) : Prop :=
  contents.length = messages.length ∧
    ∀ index : Nat, contents[index]? = messages[index]?.map read

theorem inOrder_map {Message Contents : Type} (read : Message → Contents)
    (messages : List Message) : InOrder read messages (messages.map read) := by
  constructor
  · exact List.length_map read
  · intro index
    exact List.getElem?_map

/-- Two messages stand for the same exactly when they have the same normal form. -/
theorem toContents_eq_iff_normal_eq :
    (∀ (type : ReceivedType) (first second : type.Message),
      type.toContents first = type.toContents second ↔ type.normal first = type.normal second) ∧
    (∀ (type : ReceivedType) (message : type.Message),
      type.normal (type.normal message) = type.normal message) ∧
    (∀ number,
      availabilityCode number = Coded.code (Coded.ofCode number : Availability) ∧
      statusCode number = Coded.code (Coded.ofCode number : CallStatus) ∧
      accessCode number = Coded.code (Coded.ofCode number : Access) ∧
      changeModeCode number = Coded.code (Coded.ofCode number : ChangeMode)) ∧
    (∀ message : BatchMessage,
      InOrder ValueMessage.toValue message.values message.toValues) ∧
    (∀ message : ConfigMessage,
      InOrder AreaConfigMessage.toConfig message.areas message.toConfig.areas ∧
      message.toConfig.numbers = message.numbers) ∧
    (∀ message : AreaConfigMessage,
      message.toConfig.supportedEnumValues = message.supportedEnumValues) ∧
    (∀ message : ValueMessage,
      message.toValue.payload =
        ⟨message.int32s, message.singles, message.int64s, message.bytes, message.text⟩) ∧
    (∀ message : GetResultMessage, message.toResult.value = none ↔ message.value = none) := by
  refine ⟨fun type => type.faithful.read_eq_iff, fun type => type.faithful.normal_normal,
    ?_, ?_, ?_, ?_, ?_, ?_⟩
  · intro number
    exact ⟨(faithful_availability.write_read number).symm,
      (faithful_status.write_read number).symm, (faithful_access.write_read number).symm,
      (faithful_changeMode.write_read number).symm⟩
  · intro message
    exact inOrder_map ValueMessage.toValue message.values
  · intro message
    constructor
    · exact inOrder_map AreaConfigMessage.toConfig message.areas
    · rfl
  · intro message
    rfl
  · intro message
    rfl
  · intro message
    exact Option.map_eq_none_iff

end VehicleRelay.Wire
