import VehicleRelay.Proofs.Wire.Layouts

/-!
# Decoding messages

For every declared type of messages, what is decoded depends on the contents of a message
alone: all spellings of it are decoded to it.  What is encoded is one of the spellings, so
every message comes back, apart from negative zero in singular fields.
-/

namespace VehicleRelay.Wire

open WireMessage

namespace MessageType

/-- Bytes that spell a message. -/
def Spells : (type : MessageType) → type.Message → List UInt8 → Prop
  | .value => Layout.value.Spells
  | .batch => Layout.batch.Spells
  | .request => Layout.request.Spells
  | .requests => Layout.requests.Spells
  | .setResult => Layout.setResult.Spells
  | .setResults => Layout.setResults.Spells
  | .getResult => Layout.getResult.Spells
  | .getResults => Layout.getResults.Spells
  | .status => Layout.status.Spells
  | .dumpOptions => Layout.dumpOptions.Spells
  | .dumpReport => Layout.dumpReport.Spells
  | .sampleRate => Layout.sampleRate.Spells
  | .subscription => Layout.subscription.Spells
  | .subscribe => Layout.subscribe.Spells
  | .unsubscribe => Layout.unsubscribe.Spells
  | .areaConfig => Layout.areaConfig.Spells
  | .config => Layout.config.Spells

/-- The message with positive zero for negative zero in its singular fields. -/
def settled : (type : MessageType) → type.Message → type.Message
  | .sampleRate => SampleRateMessage.settled
  | .subscription => SubscriptionMessage.settled
  | .subscribe => SubscribeMessage.settled
  | .areaConfig => AreaConfigMessage.settled
  | .config => ConfigMessage.settled
  | _ => id

/-- How deep messages nest in a message. -/
def depth : MessageType → Nat
  | .requests | .getResults => 2
  | .batch | .request | .setResults | .getResult | .subscribe | .config => 1
  | _ => 0

theorem form_follows (type : MessageType) :
    type.form.Follows type.Spells type.settled type.depth := by
  cases type with
  | value => exact Layout.value_follows
  | batch => exact Layout.batch_follows
  | request => exact Layout.request_follows
  | requests => exact Layout.requests_follows
  | setResult => exact Layout.setResult_follows
  | setResults => exact Layout.setResults_follows
  | getResult => exact Layout.getResult_follows
  | getResults => exact Layout.getResults_follows
  | status => exact Layout.status_follows
  | dumpOptions => exact Layout.dumpOptions_follows
  | dumpReport => exact Layout.dumpReport_follows
  | sampleRate => exact Layout.sampleRate_follows
  | subscription => exact Layout.subscription_follows
  | subscribe => exact Layout.subscribe_follows
  | unsubscribe => exact Layout.unsubscribe_follows
  | areaConfig => exact Layout.areaConfig_follows
  | config => exact Layout.config_follows

theorem depth_le (type : MessageType) : type.depth ≤ MessageForm.nestingLimit := by
  cases type <;> decide

/-- Every message that is written is read back as it is settled. -/
theorem decode?_encode_eq_settled (type : MessageType) (message : type.Message)
    (fits : (encode message).length < UInt64.size) :
    decode? (encode message) = some (type.settled message) := by
  apply type.form_follows.reads _ type.depth_le
  exact type.form_follows.writes message fits

/-- Bytes spell one message at most. -/
theorem eq_of_spells {type : MessageType} {message other : type.Message} {bytes : List UInt8}
    (spells : type.Spells message bytes) (otherSpells : type.Spells other bytes) :
    message = other := by
  have first := type.form_follows.reads type.depth (Nat.le_refl _) message bytes spells
  have second := type.form_follows.reads type.depth (Nat.le_refl _) other bytes otherSpells
  exact Option.some.inj (first.symm.trans second)

end MessageType

/-- All spellings of a message are decoded to it. -/
theorem decode?_of_spells (type : MessageType) {message : type.Message} {bytes : List UInt8}
    (spells : type.Spells message bytes) : decode? bytes = some message :=
  type.form_follows.reads _ type.depth_le message bytes spells

/-- A value with its fields in another order, a field of another number, a default that is
written in two bytes and numbers of which some are packed. -/
theorem decode?_of_spells_reordered :
    let message : BatchMessage := { values := [{ timestamp := 1, int32s := [1, 2, 3] }] }
    let bytes : List UInt8 := [10, 13, 42, 2, 1, 2, 120, 7, 8, 1, 40, 3, 16, 128, 0]
    MessageType.batch.Spells message bytes ∧ decode? bytes = some message := by
  intro message bytes
  have chunk : RawField.Spells ⟨5, .delimited [1, 2]⟩ [42, 2, 1, 2] :=
    RawField.spells_of_byte_key (WireValue.spells_delimited_byte rfl (by decide))
      (by decide) (by decide) rfl
  have unknown : RawField.Spells ⟨15, .varint 7⟩ [120, 7] :=
    RawField.spells_of_byte_key (WireValue.spells_varint_byte rfl (by decide))
      (by decide) (by decide) rfl
  have timestamp : RawField.Spells ⟨1, .varint 1⟩ [8, 1] :=
    RawField.spells_of_byte_key (WireValue.spells_varint_byte rfl (by decide))
      (by decide) (by decide) rfl
  have third : RawField.Spells ⟨5, .varint 3⟩ [40, 3] :=
    RawField.spells_of_byte_key (WireValue.spells_varint_byte rfl (by decide))
      (by decide) (by decide) rfl
  have zero : Varint.Groups 0 [128, 0] :=
    @Varint.Groups.more 128 0 [0] (by decide) (@Varint.Groups.last 0 (by decide))
  have area : RawField.Spells ⟨2, .varint 0⟩ [16, 128, 0] :=
    RawField.spells_of_byte_key (.varint ⟨zero, by decide, by decide⟩)
      (by decide) (by decide) rfl
  have one : (Scalar.int32.toWire 1).Spells .varint [1] :=
    WireValue.spells_varint_byte rfl (by decide)
  have two : (Scalar.int32.toWire 2).Spells .varint [2] :=
    WireValue.spells_varint_byte rfl (by decide)
  have packs : Scalar.int32.Packs [1, 2] ([1] ++ ([2] ++ [])) := .cons one (.cons two .nil)
  have numbers : Scalar.int32.Chunks [1, 2, 3] [.delimited [1, 2], .varint 3] :=
    .packed packs (.single .nil)
  have inner : Layout.value.Spells { timestamp := 1, int32s := [1, 2, 3] }
      [42, 2, 1, 2, 120, 7, 8, 1, 40, 3, 16, 128, 0] := by
    refine ⟨_, .cons chunk (.cons unknown (.cons timestamp (.cons third (.cons area .nil)))), ?_⟩
    simp only [Layout.value, List.forall_mem_cons]
    exact ⟨.written 1, .written 0, .omitted, .omitted, numbers, .nil, .nil, .omitted, .omitted,
      nofun⟩
  have outer : RawField.Spells
      ⟨1, .delimited [42, 2, 1, 2, 120, 7, 8, 1, 40, 3, 16, 128, 0]⟩ bytes :=
    RawField.spells_of_byte_key (WireValue.spells_delimited_byte rfl (by decide))
      (by decide) (by decide) rfl
  have spells : MessageType.batch.Spells message bytes := by
    refine ⟨_, .cons outer .nil, ?_⟩
    simp only [Layout.batch, List.forall_mem_cons]
    exact ⟨.cons inner .nil, nofun⟩
  exact ⟨spells, decode?_of_spells .batch spells⟩

/-- The size of a message is the length of its encoding.  What is decoded from the encoding
is the settled message; as for all that has a length on the wire, it is a length of 64
bits. -/
theorem decode?_encode (type : MessageType) (message : type.Message) :
    encodedSize message = (encode message).length ∧
      ((encode message).length < UInt64.size →
        decode? (encode message) = some (type.settled message)) := by
  exact ⟨type.form_follows.size_eq message, type.decode?_encode_eq_settled message⟩

/-- Numbers of ten bytes come back from a nested message, and negative zero does not. -/
theorem decode?_encode_of_negativeZero :
    let options : SubscriptionMessage := {
      property := -1
      areas := [0, 300, Int32.minValue]
      sampleRate := .negativeZero
      resolution := ⟨0x7fc00001⟩ }
    let message : SubscribeMessage := { options := some options }
    (encode message).length = 33 ∧ encodedSize message = 33 ∧
      decode? (encode message) =
        some { message with options := some { options with sampleRate := .zero } } := by
  intro options message
  have length : (encode message).length = 33 := by cbv
  have fits : (encode message).length < UInt64.size := by
    rw [length]
    decide
  obtain ⟨measured, comesBack⟩ := decode?_encode .subscribe message
  exact ⟨length, measured.trans length, comesBack fits⟩

end VehicleRelay.Wire
