import Mathlib.Data.List.Forall2
import VehicleRelay.Proofs.Wire.Occurrences

/-!
# Layouts of messages

A layout says for every field of a message what its occurrences are.  Bytes spell a message
when they spell raw fields among which each field of the layout has such occurrences; in
which order different fields stand, and which other fields stand between them, does not
matter.  A form whose fields follow a layout reads all spellings of a message and writes
one of them.
-/

namespace VehicleRelay.Wire

/-- The values of the raw fields with one number. -/
def valuesOf (number : Nat) (raws : List RawField) : List WireValue :=
  (raws.filter fun raw => raw.number == number).map RawField.value

section

variable {number other : Nat} {raw : RawField} {raws : List RawField}
  {wires : List WireValue}

theorem valuesOf_cons_self (same : raw.number = number) :
    valuesOf number (raw :: raws) = raw.value :: valuesOf number raws := by
  simp [valuesOf, same]

theorem valuesOf_cons_of_ne (different : raw.number ≠ number) :
    valuesOf number (raw :: raws) = valuesOf number raws := by
  simp [valuesOf, different]

theorem valuesOf_append (number : Nat) (raws others : List RawField) :
    valuesOf number (raws ++ others) = valuesOf number raws ++ valuesOf number others := by
  simp [valuesOf]

theorem number_of_mem_numbered (member : raw ∈ numbered number wires) : raw.number = number := by
  obtain ⟨wire, _, rfl⟩ := List.mem_map.mp member
  rfl

theorem valuesOf_eq_nil (absent : ∀ raw ∈ raws, raw.number ≠ number) :
    valuesOf number raws = [] := by
  rw [valuesOf, List.map_eq_nil_iff, List.filter_eq_nil_iff]
  simpa using absent

theorem valuesOf_numbered_append_self (absent : ∀ raw ∈ raws, raw.number ≠ number) :
    valuesOf number (numbered number wires ++ raws) = wires := by
  rw [valuesOf_append, valuesOf_eq_nil absent, List.append_nil]
  simp [valuesOf, numbered, List.filter_map, Function.comp_def]

theorem valuesOf_numbered_append_of_ne (different : number ≠ other) :
    valuesOf other (numbered number wires ++ raws) = valuesOf other raws := by
  rw [valuesOf_append, valuesOf_eq_nil, List.nil_append]
  intro raw member same
  exact different (number_of_mem_numbered member ▸ same)

end

/-- The number of a field of a message and what its occurrences are. -/
structure FieldLayout (Message : Type) where
  number : Nat
  Occurs : Message → List WireValue → Prop

abbrev Layout (Message : Type) := List (FieldLayout Message)

variable {Message Contents : Type}

/-- Bytes that spell a message.  Fields whose numbers are not in the layout are free. -/
def Layout.Spells (layout : Layout Message) (message : Message) (bytes : List UInt8) : Prop :=
  ∃ raws, RawField.SpellsAll raws bytes ∧
    ∀ field ∈ layout, field.Occurs message (valuesOf field.number raws)

/-! ## Merging fields apart -/

/-- Two fields with different numbers of which each keeps what the other one sets. -/
structure MessageField.Apart (first second : MessageField Message) : Prop where
  number_ne : first.number ≠ second.number
  get_set : ∀ contents message, second.get (first.set contents message) = second.get message
  get_set' : ∀ contents message, first.get (second.set contents message) = first.get message

theorem MessageField.apart_iff {first second : MessageField Message} : first.Apart second ↔
    first.number ≠ second.number ∧
      (∀ contents message, second.get (first.set contents message) = second.get message) ∧
        ∀ contents message, first.get (second.set contents message) = first.get message :=
  ⟨fun apart => ⟨apart.number_ne, apart.get_set, apart.get_set'⟩,
    fun ⟨number_ne, get_set, get_set'⟩ => ⟨number_ne, get_set, get_set'⟩⟩

theorem MessageField.Apart.symm {first second : MessageField Message}
    (apart : first.Apart second) : second.Apart first :=
  ⟨apart.number_ne.symm, apart.get_set', apart.get_set⟩

namespace MessageForm

/-- The fields of a form have numbers in range and initial contents, are apart, give what
was set, and tell all messages apart. -/
structure Lawful (form : MessageForm Message) : Prop where
  inRange : ∀ field ∈ form.fields, 0 < field.number ∧ field.number < fieldNumberBound
  get_initial : ∀ field ∈ form.fields, field.get form.initial = field.kind.initial
  apart : form.fields.Pairwise MessageField.Apart
  get_set : ∀ field ∈ form.fields, ∀ contents message,
    field.get (field.set contents message) = contents
  ext : ∀ message other, (∀ field ∈ form.fields, field.get message = field.get other) →
    message = other

variable {form : MessageForm Message} {limit : Nat}

theorem Lawful.eq_or_apart (lawful : form.Lawful) {field other : MessageField Message}
    (member : field ∈ form.fields) (otherMember : other ∈ form.fields) :
    field = other ∨ field.Apart other := by
  have forward : form.fields.Pairwise fun first second => first = second ∨ first.Apart second :=
    lawful.apart.imp .inr
  have backward : form.fields.Pairwise fun first second => second = first ∨ second.Apart first :=
    lawful.apart.imp fun apart => .inr apart.symm
  exact forward.forall_of_forall_of_flip (fun _ _ => .inl rfl) backward member otherMember

/-- Every field is merged from the values with its own number alone. -/
theorem Lawful.mergeFields? (lawful : form.Lawful) {message target : Message}
    {raws : List RawField}
    (merges : ∀ field ∈ form.fields,
      field.kind.mergeAll? limit (valuesOf field.number raws) (field.get message) =
        some (field.get target)) :
    form.mergeFields? limit message raws = some target := by
  induction raws generalizing message with
  | nil =>
      have same := lawful.ext message target fun field member =>
        Option.some.inj (merges field member)
      rw [same]
      rfl
  | cons raw raws induction =>
      change (form.mergeField? limit message raw).bind
        (fun message => form.mergeFields? limit message raws) = _
      rw [mergeField?]
      cases found : form.fields.find? fun field => field.number == raw.number with
      | none =>
          apply induction
          intro field member
          have different := List.find?_eq_none.mp found field member
          rw [← merges field member, valuesOf_cons_of_ne]
          exact fun same => different (beq_iff_eq.mpr same.symm)
      | some field =>
          have member := List.mem_of_find?_eq_some found
          have same : field.number = raw.number := by simpa using List.find?_some found
          have whole := merges field member
          rw [valuesOf_cons_self same.symm, FieldKind.mergeAll?_cons] at whole
          obtain ⟨contents, first, rest⟩ := Option.bind_eq_some_iff.mp whole
          change ((field.kind.merge? limit raw.value (field.get message)).bind
            fun contents => some (field.set contents message)).bind _ = _
          rw [first]
          apply induction
          intro other otherMember
          rcases lawful.eq_or_apart member otherMember with rfl | apart
          · rw [lawful.get_set field member, rest]
          · rw [apart.get_set, ← merges other otherMember, valuesOf_cons_of_ne]
            exact fun taken => apart.number_ne (same.trans taken)

end MessageForm

/-! ## Forms that follow a layout -/

theorem exists_of_forall₂ {α β : Type*} {Related : α → β → Prop} {lefts : List α}
    {rights : List β} (related : List.Forall₂ Related lefts rights) {left : α}
    (member : left ∈ lefts) : ∃ right ∈ rights, Related left right := by
  induction related with
  | nil => exact absurd member List.not_mem_nil
  | cons first rest induction =>
      rcases List.mem_cons.mp member with rfl | later
      · exact ⟨_, List.mem_cons_self, first⟩
      · obtain ⟨right, found, related⟩ := induction later
        exact ⟨right, List.mem_cons_of_mem _ found, related⟩

/-- A field of a form reads its contents from their occurrences, writes such occurrences
and measures what it writes. -/
structure MessageField.Follows (settled : Message → Message) (depth : Nat)
    (field : MessageField Message) (layout : FieldLayout Message) : Prop where
  number_eq : field.number = layout.number
  reads : ∀ limit, depth ≤ limit → ∀ message wires, layout.Occurs message wires →
    field.kind.mergeAll? limit wires field.kind.initial = some (field.get message)
  writes : ∀ message, 0 < field.number → field.number < fieldNumberBound →
    (field.kind.write field.number (field.get message)).length < UInt64.size →
      ∃ wires, RawField.SpellsAll (numbered field.number wires)
        (field.kind.write field.number (field.get message)) ∧
          layout.Occurs (settled message) wires
  size_eq : ∀ message, field.kind.size field.number (field.get message) =
    (field.kind.write field.number (field.get message)).length

namespace FieldKind.Follows

variable {kind : FieldKind Contents} {Occurs : Contents → List WireValue → Prop}
  {settledContents : Contents → Contents} {settled : Message → Message}
  {get : Message → Contents} {set : Contents → Message → Message} {depth number : Nat}

/-- A field follows its kind when the message is settled by settling its contents. -/
theorem settledField (follows : kind.Follows Occurs settledContents depth)
    (settled_eq : ∀ message, get (settled message) = settledContents (get message)) :
    MessageField.Follows settled depth ⟨number, kind, get, set⟩
      ⟨number, fun message => Occurs (get message)⟩ where
  number_eq := rfl
  reads limit room message wires occurs :=
    follows.reads limit room (get message) wires occurs
  writes message positive bounded fits := by
    have written := follows.writes number (get message) positive bounded fits
    rwa [← settled_eq] at written
  size_eq message := follows.size_eq number (get message)

theorem field (follows : kind.Follows Occurs id depth) :
    MessageField.Follows id depth ⟨number, kind, get, set⟩
      ⟨number, fun message => Occurs (get message)⟩ :=
  follows.settledField fun _ => rfl

end FieldKind.Follows

namespace MessageForm

variable {form : MessageForm Message} {layout : Layout Message} {settled : Message → Message}
  {depth : Nat}

/-- What the fields write one after the other are raw fields in which each layout finds its
occurrences, because the fields are apart. -/
theorem spells_write {message : Message} {fields : List (MessageField Message)}
    (follow : List.Forall₂ (MessageField.Follows settled depth) fields layout)
    (apart : fields.Pairwise MessageField.Apart)
    (inRange : ∀ field ∈ fields, 0 < field.number ∧ field.number < fieldNumberBound)
    (fits : (fields.flatMap fun field =>
      field.kind.write field.number (field.get message)).length < UInt64.size) :
    ∃ raws, RawField.SpellsAll raws (fields.flatMap fun field =>
        field.kind.write field.number (field.get message)) ∧
      (∀ fieldLayout ∈ layout,
        fieldLayout.Occurs (settled message) (valuesOf fieldLayout.number raws)) ∧
      ∀ raw ∈ raws, ∃ field ∈ fields, field.number = raw.number := by
  induction follow with
  | nil => exact ⟨[], .nil, by simp⟩
  | @cons field fieldLayout fields layout follows follow induction =>
      rw [List.flatMap_cons, List.length_append] at fits
      rw [List.flatMap_cons]
      obtain ⟨separate, apart⟩ := List.pairwise_cons.mp apart
      obtain ⟨⟨positive, bounded⟩, inRange⟩ := List.forall_mem_cons.mp inRange
      obtain ⟨wires, written, occurs⟩ := follows.writes message positive bounded (by omega)
      obtain ⟨raws, others, occursLater, known⟩ := induction apart inRange (by omega)
      refine ⟨numbered field.number wires ++ raws, written.append others, ?_, ?_⟩
      · intro other member
        rcases List.mem_cons.mp member with rfl | later
        · rw [← follows.number_eq, valuesOf_numbered_append_self]
          · exact occurs
          · intro raw rawMember
            obtain ⟨another, anotherMember, same⟩ := known raw rawMember
            rw [← same]
            exact (separate another anotherMember).number_ne.symm
        · obtain ⟨another, anotherMember, behind⟩ :=
            exists_of_forall₂ (List.Forall₂.flip (R := flip _) follow) later
          rw [valuesOf_numbered_append_of_ne]
          · exact occursLater other later
          · rw [← behind.number_eq]
            exact (separate another anotherMember).number_ne
      · intro raw member
        rcases List.mem_append.mp member with first | later
        · exact ⟨field, List.mem_cons_self, (number_of_mem_numbered first).symm⟩
        · obtain ⟨another, anotherMember, same⟩ := known raw later
          exact ⟨another, List.mem_cons_of_mem _ anotherMember, same⟩

theorem Lawful.follows (lawful : form.Lawful)
    (follow : List.Forall₂ (MessageField.Follows settled depth) form.fields layout) :
    form.Follows layout.Spells settled depth where
  reads limit room message bytes spells := by
    obtain ⟨raws, spelled, occurs⟩ := spells
    rw [merge?, RawField.readAll_of_spells spelled]
    apply lawful.mergeFields?
    intro field member
    obtain ⟨fieldLayout, found, follows⟩ := exists_of_forall₂ follow member
    rw [lawful.get_initial field member, follows.number_eq]
    exact follows.reads limit room message _ (occurs fieldLayout found)
  writes message fits := by
    obtain ⟨raws, spelled, occurs, _⟩ := spells_write follow lawful.apart lawful.inRange fits
    exact ⟨raws, spelled, occurs⟩
  size_eq message := by
    symm
    apply length_flatMap_eq_total
    intro field member
    obtain ⟨fieldLayout, found, follows⟩ := exists_of_forall₂ follow member
    exact (follows.size_eq message).symm

end MessageForm

end VehicleRelay.Wire
