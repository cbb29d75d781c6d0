import VehicleRelay.Proofs.Wire.Scalars
import VehicleRelay.Wire.MessageForm

/-!
# Occurrences of a field

The values with the number of one field, in the order in which they stand in a message,
are the occurrences of the field.  There is more than one list of occurrences for the same
contents: defaults may be left out or not, and repeated scalars may be cut into packed
chunks and single values in any way.  All of them give the contents back, and what is
written is one of them.
-/

namespace VehicleRelay.Wire

namespace Scalar

variable {α : Type} (scalar : Scalar α)

/-- Occurrences of a singular field.  The initial value may be left out; negative zero is
not initial. -/
inductive Once : α → List WireValue → Prop
  | omitted : Once scalar.initial []
  | written (value : α) : Once value [scalar.toWire value]

/-- Occurrences of a repeated field of one value each. -/
def Each (values : List α) (wires : List WireValue) : Prop :=
  wires = values.map scalar.toWire

/-- Bytes that spell scalars one after the other. -/
inductive Packs : List α → List UInt8 → Prop
  | nil : Packs [] []
  | cons {value : α} {values : List α} {first rest : List UInt8} :
      (scalar.toWire value).Spells scalar.wireType first → Packs values rest →
      Packs (value :: values) (first ++ rest)

/-- Occurrences of a repeated field of scalars: packed chunks and single values. -/
inductive Chunks : List α → List WireValue → Prop
  | nil : Chunks [] []
  | single {value : α} {values : List α} {wires : List WireValue} :
      Chunks values wires → Chunks (value :: values) (scalar.toWire value :: wires)
  | packed {chunk values : List α} {bytes : List UInt8} {wires : List WireValue} :
      scalar.Packs chunk bytes → Chunks values wires →
      Chunks (chunk ++ values) (.delimited bytes :: wires)

end Scalar

section

variable {Message : Type} (Spells : Message → List UInt8 → Prop)

/-- Occurrences of a field with a message or none. -/
inductive AtMostOne : Option Message → List WireValue → Prop
  | absent : AtMostOne none []
  | present {message : Message} {bytes : List UInt8} :
      Spells message bytes → AtMostOne (some message) [.delimited bytes]

/-- Occurrences of a field with a list of messages. -/
inductive OneByOne : List Message → List WireValue → Prop
  | nil : OneByOne [] []
  | cons {message : Message} {messages : List Message} {bytes : List UInt8}
      {wires : List WireValue} :
      Spells message bytes → OneByOne messages wires →
      OneByOne (message :: messages) (.delimited bytes :: wires)

end

/-- The fields of one number with given values. -/
def numbered (number : Nat) (wires : List WireValue) : List RawField :=
  wires.map (RawField.mk number)

namespace FieldKind

variable {α : Type}

/-- Merges one occurrence after the other. -/
def mergeAll? (kind : FieldKind α) (limit : Nat) (wires : List WireValue) (contents : α) :
    Option α :=
  wires.foldlM (fun contents wire => kind.merge? limit wire contents) contents

@[simp] theorem mergeAll?_nil (kind : FieldKind α) (limit : Nat) (contents : α) :
    kind.mergeAll? limit [] contents = some contents := rfl

theorem mergeAll?_cons (kind : FieldKind α) (limit : Nat) (wire : WireValue)
    (wires : List WireValue) (contents : α) :
    kind.mergeAll? limit (wire :: wires) contents =
      (kind.merge? limit wire contents).bind (kind.mergeAll? limit wires) := rfl

/-- A kind reads contents from their occurrences when the limit leaves room for the depth
of the messages in them.  What it writes for contents are occurrences of the contents as
they are settled, and it measures what it writes. -/
structure Follows (kind : FieldKind α) (Occurs : α → List WireValue → Prop) (settled : α → α)
    (depth : Nat) : Prop where
  reads : ∀ limit, depth ≤ limit → ∀ contents wires, Occurs contents wires →
    kind.mergeAll? limit wires kind.initial = some contents
  writes : ∀ number contents, 0 < number → number < fieldNumberBound →
    (kind.write number contents).length < UInt64.size →
      ∃ wires, RawField.SpellsAll (numbered number wires) (kind.write number contents) ∧
        Occurs (settled contents) wires
  size_eq : ∀ number contents, kind.size number contents = (kind.write number contents).length

end FieldKind

theorem spellsAll_numbered_cons {number : Nat} {wireType : WireType} {wire : WireValue}
    {wires : List WireValue} {first rest : List UInt8} (positive : 0 < number)
    (bounded : number < fieldNumberBound) (spells : wire.Spells wireType first)
    (others : RawField.SpellsAll (numbered number wires) rest) :
    RawField.SpellsAll (numbered number (wire :: wires))
      (writeKey number wireType ++ first ++ rest) := by
  have code := wireType.code_lt
  apply RawField.SpellsAll.cons _ others
  apply RawField.Spells.intro positive bounded _ spells
  apply Varint.spells_write
  rw [fieldNumberBound] at bounded
  rw [UInt64.size]
  omega

theorem spellsAll_numbered_single {number : Nat} {wireType : WireType} {wire : WireValue}
    {bytes : List UInt8} (positive : 0 < number) (bounded : number < fieldNumberBound)
    (spells : wire.Spells wireType bytes) :
    RawField.SpellsAll (numbered number [wire]) (writeKey number wireType ++ bytes) := by
  have none : RawField.SpellsAll (numbered number []) [] := .nil
  have all := spellsAll_numbered_cons positive bounded spells none
  rwa [List.append_nil] at all

namespace Scalar

variable {α : Type} {scalar : Scalar α}

theorem length_writeField (scalar : Scalar α) (number : Nat) (value : α) :
    (scalar.writeField number value).length = scalar.fieldSize number value := by
  rw [writeField, List.length_append, length_writeKey, WireValue.length_write, fieldSize]

theorem follows_singular (lawful : scalar.Lawful) {settle : α → α}
    (settled_eq : ∀ value, scalar.settled value = settle value) (depth : Nat) :
    scalar.singular.Follows scalar.Once settle depth where
  reads limit _ contents wires occurs := by
    cases occurs with
    | omitted => rfl
    | written => exact congrArg (Option.bind · some) (lawful.ofWire?_toWire contents)
  writes number contents positive bounded fits := by
    by_cases default : scalar.isDefault contents
    · refine ⟨[], ?_, ?_⟩
      · simp only [singular, if_pos default]
        exact .nil
      · rw [← settled_eq, settled, if_pos default]
        exact .omitted
    · simp only [singular, if_neg default] at fits ⊢
      rw [writeField, List.length_append] at fits
      have spells := lawful.spells contents (Nat.lt_of_le_of_lt (Nat.le_add_left _ _) fits)
      refine ⟨[scalar.toWire contents], ?_, ?_⟩
      · exact spellsAll_numbered_single positive bounded spells
      · rw [← settled_eq, settled, if_neg default]
        exact .written contents
  size_eq number contents := by
    simp only [singular]
    split
    · rfl
    · exact (scalar.length_writeField number contents).symm

theorem mergeAll?_repeated (lawful : scalar.Lawful) (limit : Nat) (values before : List α) :
    scalar.repeated.mergeAll? limit (values.map scalar.toWire) before =
      some (before ++ values) := by
  induction values generalizing before with
  | nil => simp
  | cons value values induction =>
      rw [List.map_cons, FieldKind.mergeAll?_cons]
      have first : scalar.repeated.merge? limit (scalar.toWire value) before =
          some (before ++ [value]) := by
        simp [repeated, lawful.ofWire?_toWire value]
      rw [first, Option.bind_some, induction, List.append_assoc]
      rfl

theorem follows_repeated (lawful : scalar.Lawful) (depth : Nat) :
    scalar.repeated.Follows scalar.Each id depth where
  reads limit _ contents wires occurs := by
    rw [occurs, mergeAll?_repeated lawful]
    rfl
  writes number contents positive bounded fits := by
    refine ⟨contents.map scalar.toWire, ?_, rfl⟩
    simp only [repeated] at fits ⊢
    induction contents with
    | nil => exact .nil
    | cons value values induction =>
        rw [List.flatMap_cons, List.length_append] at fits
        have others := induction (Nat.lt_of_le_of_lt (Nat.le_add_left _ _) fits)
        rw [writeField, List.length_append] at fits
        have spells := lawful.spells value (by omega)
        rw [List.map_cons, List.flatMap_cons, writeField]
        exact spellsAll_numbered_cons positive bounded spells others
  size_eq number contents :=
    (length_flatMap_eq_total _ _ contents fun value _ =>
      scalar.length_writeField number value).symm

/-! ## Packed scalars -/

/-- A scalar that may be packed. -/
structure Packable (scalar : Scalar α) : Prop extends scalar.Lawful where
  notDelimited : ∀ value bytes, scalar.toWire value ≠ .delimited bytes

theorem int32_packable : int32.Packable where
  toLawful := int32_lawful
  notDelimited _ _ := nofun

theorem int64_packable : int64.Packable where
  toLawful := int64_lawful
  notDelimited _ _ := nofun

theorem single_packable : single.Packable where
  toLawful := single_lawful
  notDelimited _ _ := nofun

theorem unpack?_of_packs (lawful : scalar.Lawful) {values : List α} {bytes : List UInt8}
    (packs : scalar.Packs values bytes) {count : Nat} (enough : bytes.length ≤ count) :
    scalar.unpack? count bytes = some values := by
  induction packs generalizing count with
  | nil => simp [unpack?]
  | @cons value values first rest spells packs induction =>
      obtain ⟨byte, others, rfl⟩ := List.exists_cons_of_ne_nil spells.ne_nil
      cases count with
      | zero => exact absurd enough (by simp)
      | succ count =>
          have shorter : rest.length ≤ count := by
            simp only [List.cons_append, List.length_cons, List.length_append] at enough
            omega
          have first := WireValue.read_of_spells spells rest
          rw [List.cons_append] at first ⊢
          simp [unpack?, first, lawful.ofWire?_toWire value, induction shorter]

theorem merge?_packed_single (packable : scalar.Packable) (limit : Nat) (value : α)
    (before : List α) :
    scalar.packed.merge? limit (scalar.toWire value) before = some (before ++ [value]) := by
  have read := packable.ofWire?_toWire value
  simp only [packed]
  split
  · next bytes wire => exact absurd wire (packable.notDelimited value bytes)
  · rw [read]
    rfl

theorem mergeAll?_packed (packable : scalar.Packable) (limit : Nat) {values : List α}
    {wires : List WireValue} (chunks : scalar.Chunks values wires) (before : List α) :
    scalar.packed.mergeAll? limit wires before = some (before ++ values) := by
  induction chunks generalizing before with
  | nil => simp
  | @single value values wires chunks induction =>
      rw [FieldKind.mergeAll?_cons, merge?_packed_single packable, Option.bind_some, induction,
        List.append_assoc]
      rfl
  | @packed chunk values bytes wires packs chunks induction =>
      have read : scalar.packed.merge? limit (.delimited bytes) before =
          some (before ++ chunk) := by
        simp [packed, unpack?_of_packs packable.toLawful packs (Nat.le_refl _)]
      rw [FieldKind.mergeAll?_cons, read, Option.bind_some, induction, List.append_assoc]

theorem packs_write (lawful : scalar.Lawful) {values : List α}
    (fits : (values.flatMap fun value => (scalar.toWire value).write).length < UInt64.size) :
    scalar.Packs values (values.flatMap fun value => (scalar.toWire value).write) := by
  induction values with
  | nil => exact .nil
  | cons value values induction =>
      rw [List.flatMap_cons, List.length_append] at fits
      rw [List.flatMap_cons]
      exact .cons (lawful.spells value (by omega)) (induction (by omega))

theorem follows_packed (packable : scalar.Packable) (depth : Nat) :
    scalar.packed.Follows scalar.Chunks id depth where
  reads limit _ contents wires chunks := by
    rw [mergeAll?_packed packable limit chunks]
    rfl
  writes number contents positive bounded fits := by
    by_cases empty : contents.isEmpty
    · obtain rfl := List.isEmpty_iff.mp empty
      exact ⟨[], .nil, .nil⟩
    · have written : scalar.packed.write number contents = writeKey number .delimited ++
          (WireValue.delimited (contents.flatMap fun value => (scalar.toWire value).write)).write :=
        if_neg empty
      rw [written] at fits ⊢
      have inner : (contents.flatMap fun value => (scalar.toWire value).write).length <
          UInt64.size := by
        rw [List.length_append, WireValue.length_write, WireValue.size] at fits
        omega
      have spells := WireValue.spells_delimited inner
      have chunks := Chunks.packed (packs_write packable.toLawful inner) .nil
      rw [List.append_nil] at chunks
      exact ⟨_, spellsAll_numbered_single positive bounded spells, chunks⟩
  size_eq number contents := by
    simp only [packed]
    split
    · rfl
    · have length := length_flatMap_eq_total (fun value => (scalar.toWire value).write)
        (fun value => (scalar.toWire value).size) contents fun value _ =>
          (scalar.toWire value).length_write
      rw [List.length_append, length_writeKey, WireValue.length_write, WireValue.size, length,
        Nat.add_assoc]

end Scalar

/-! ## Nested messages -/

namespace MessageForm

variable {Message : Type} {form : MessageForm Message}

/-- A form reads messages from their spellings when the limit leaves room for the depth of
the messages in them.  What it writes for a message spells the message as it is settled,
and it measures what it writes. -/
structure Follows (form : MessageForm Message) (Spells : Message → List UInt8 → Prop)
    (settled : Message → Message) (depth : Nat) : Prop where
  reads : ∀ limit, depth ≤ limit → ∀ message bytes, Spells message bytes →
    form.merge? limit form.initial bytes = some message
  writes : ∀ message, (form.write message).length < UInt64.size →
    Spells (settled message) (form.write message)
  size_eq : ∀ message, form.size message = (form.write message).length

variable {Spells : Message → List UInt8 → Prop} {settled : Message → Message} {depth : Nat}

theorem Follows.mergeNested? (follows : form.Follows Spells settled depth) {limit : Nat}
    (room : depth + 1 ≤ limit) {message : Message} {bytes : List UInt8}
    (spells : Spells message bytes) :
    form.mergeNested? limit (.delimited bytes) form.initial = some message := by
  obtain ⟨less, rfl⟩ := Nat.exists_eq_add_of_le' (Nat.le_trans (Nat.le_add_left 1 depth) room)
  exact follows.reads less (Nat.le_of_succ_le_succ room) message bytes spells

theorem Follows.length_writeNested (follows : form.Follows Spells settled depth) (number : Nat)
    (message : Message) :
    (form.writeNested number message).length = form.nestedSize number message := by
  rw [writeNested, List.length_append, length_writeKey, WireValue.length_write, WireValue.size,
    nestedSize, follows.size_eq, Nat.add_assoc]

/-- A nested message is written behind its key with its length. -/
theorem Follows.spells_writeNested (follows : form.Follows Spells settled depth) {number : Nat}
    {message : Message} (fits : (form.writeNested number message).length < UInt64.size) :
    (WireValue.delimited (form.write message)).Spells .delimited
        (WireValue.delimited (form.write message)).write ∧
      Spells (settled message) (form.write message) := by
  have inner : (form.write message).length < UInt64.size := by
    rw [writeNested, WireValue.write, List.length_append, List.length_append] at fits
    omega
  exact ⟨WireValue.spells_delimited inner, follows.writes message inner⟩

theorem Follows.optional (follows : form.Follows Spells settled depth) :
    form.optional.Follows (AtMostOne Spells) (Option.map settled) (depth + 1) where
  reads limit room contents wires occurs := by
    cases occurs with
    | absent => rfl
    | @present message bytes spells =>
        have merged := follows.mergeNested? room spells
        rw [FieldKind.mergeAll?_cons]
        simp [MessageForm.optional, merged]
  writes number contents positive bounded fits := by
    cases contents with
    | none => exact ⟨[], .nil, .absent⟩
    | some message =>
        obtain ⟨written, spells⟩ := follows.spells_writeNested fits
        exact ⟨[.delimited (form.write message)],
          spellsAll_numbered_single positive bounded written, .present spells⟩
  size_eq number contents := by
    cases contents with
    | none => rfl
    | some message => exact (follows.length_writeNested number message).symm

theorem Follows.mergeAll?_repeated (follows : form.Follows Spells settled depth) {limit : Nat}
    (room : depth + 1 ≤ limit) {messages : List Message} {wires : List WireValue}
    (occurs : OneByOne Spells messages wires) (before : List Message) :
    form.repeated.mergeAll? limit wires before = some (before ++ messages) := by
  induction occurs generalizing before with
  | nil => simp
  | @cons message messages bytes wires spells occurs induction =>
      have merged := follows.mergeNested? room spells
      have first : form.repeated.merge? limit (.delimited bytes) before =
          some (before ++ [message]) := by
        simp [MessageForm.repeated, merged]
      rw [FieldKind.mergeAll?_cons, first, Option.bind_some, induction, List.append_assoc]
      rfl

theorem Follows.repeated (follows : form.Follows Spells settled depth) :
    form.repeated.Follows (OneByOne Spells) (List.map settled) (depth + 1) where
  reads limit room contents wires occurs := by
    rw [follows.mergeAll?_repeated room occurs]
    rfl
  writes number contents positive bounded fits := by
    refine ⟨contents.map fun message => .delimited (form.write message), ?_⟩
    simp only [MessageForm.repeated] at fits ⊢
    induction contents with
    | nil => exact ⟨.nil, .nil⟩
    | cons message messages induction =>
        rw [List.flatMap_cons, List.length_append] at fits
        have first : (form.writeNested number message).length < UInt64.size := by omega
        obtain ⟨written, spells⟩ := follows.spells_writeNested first
        obtain ⟨others, occurs⟩ := induction (by omega)
        exact ⟨spellsAll_numbered_cons positive bounded written others, .cons spells occurs⟩
  size_eq number contents :=
    (length_flatMap_eq_total _ _ contents fun message _ =>
      follows.length_writeNested number message).symm

theorem Follows.optional_exact (follows : form.Follows Spells id depth) :
    form.optional.Follows (AtMostOne Spells) id (depth + 1) := by
  have optional := follows.optional
  rwa [Option.map_id_fun] at optional

theorem Follows.repeated_exact (follows : form.Follows Spells id depth) :
    form.repeated.Follows (OneByOne Spells) id (depth + 1) := by
  have repeated := follows.repeated
  rwa [List.map_id_fun] at repeated

end MessageForm

end VehicleRelay.Wire
