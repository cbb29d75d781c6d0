import VehicleRelay.Proofs.Json.Numbers

/-!
# JSON texts

A JSON value whose numbers are JSON numbers is read back from its text.  Strings come back
with all their characters, whichever of them were escaped.
-/

namespace VehicleRelay

namespace JsonText

/-- What is read when one more piece stands in front. -/
def withPiece (piece : Piece) (read : List Piece × List Char) : List Piece × List Char :=
  (piece :: read.1, read.2)

theorem readPieces_shortEscape {letter character : Char}
    (short : shortEscape? letter = some character) (other : letter ≠ 'u') (rest : List Char) :
    readPieces ('\\' :: letter :: rest) = (readPieces rest).map (withPiece (.plain character)) := by
  rw [readPieces, short]
  · cases readPieces rest <;> rfl
  · exact fun _ _ _ _ _ same _ => other same

theorem readPieces_plain {character : Char} (notQuote : character ≠ '"')
    (notBackslash : character ≠ '\\') (printable : ¬character.toNat < 0x20) (rest : List Char) :
    readPieces (character :: rest) = (readPieces rest).map (withPiece (.plain character)) := by
  rw [readPieces, if_neg (not_or.mpr ⟨printable, notBackslash⟩)]
  · cases readPieces rest <;> rfl
  · exact notQuote
  · exact fun _ _ _ _ _ same _ => notBackslash same
  · exact fun _ _ same _ => notBackslash same

theorem hexValue?_hexDigit (number : Nat) : hexValue? (hexDigit number) = some (number % 16) := by
  have digits : ∀ digit < 16, hexValue? (Nat.digitChar digit) = some digit := by decide
  exact digits _ (Nat.mod_lt _ (by decide))

theorem unitValue?_hexDigits {number : Nat} (small : number < 0x20) :
    unitValue? '0' '0' (hexDigit (number / 16)) (hexDigit number) = some number := by
  have zero : hexValue? '0' = some 0 := rfl
  simp only [unitValue?, zero, hexValue?_hexDigit, Option.bind_eq_bind, Option.bind_some]
  congr 1
  omega

theorem readPieces_control {number : Nat} (control : number < 0x20) (rest : List Char) :
    readPieces ('\\' :: 'u' :: '0' :: '0' :: hexDigit (number / 16) :: hexDigit number :: rest) =
      (readPieces rest).map (withPiece (.unit number)) := by
  rw [readPieces, unitValue?_hexDigits control]
  cases readPieces rest <;> rfl

theorem joinPieces_control {character : Char} (control : character.toNat < 0x20)
    (pieces : List Piece) :
    joinPieces (.unit character.toNat :: pieces) = (joinPieces pieces).map (character :: ·) := by
  have notLow : isLowSurrogate character.toNat = false := by
    simp only [isLowSurrogate, Bool.and_eq_false_iff, decide_eq_false_iff_not]
    omega
  have notHigh : isHighSurrogate character.toNat = false := by
    simp only [isHighSurrogate, Bool.and_eq_false_iff, decide_eq_false_iff_not]
    omega
  rw [joinPieces.eq_def]
  simp only [notLow, notHigh, Bool.false_eq_true, if_false, Char.ofNat_toNat]

/-- A character is read back from its escape as one piece. -/
theorem readPieces_escape (character : Char) :
    ∃ piece, (∀ rest, readPieces (escape character ++ rest) =
        (readPieces rest).map (withPiece piece)) ∧
      ∀ pieces, joinPieces (piece :: pieces) = (joinPieces pieces).map (character :: ·) := by
  simp only [escape]
  split
  case h_8 =>
    next notQuote notBackslash _ _ _ _ _ =>
      split
      · next control =>
          exact ⟨.unit character.toNat, readPieces_control control, joinPieces_control control⟩
      · next printable =>
          exact ⟨.plain character, readPieces_plain notQuote notBackslash printable, fun _ => rfl⟩
  all_goals exact ⟨.plain _, readPieces_shortEscape rfl (by decide), fun _ => rfl⟩

theorem readPieces_escapes (characters rest : List Char) :
    ∃ pieces, readPieces (characters.flatMap escape ++ '"' :: rest) = some (pieces, rest) ∧
      joinPieces pieces = some characters := by
  induction characters with
  | nil => exact ⟨[], rfl, rfl⟩
  | cons character characters induction =>
      obtain ⟨pieces, read, joined⟩ := induction
      obtain ⟨piece, readFirst, joins⟩ := readPieces_escape character
      refine ⟨piece :: pieces, ?_, ?_⟩
      · rw [List.flatMap_cons, List.append_assoc, readFirst, read]
        rfl
      · rw [joins, joined]
        rfl

/-- The contents of a string are read back from what follows its opening quote. -/
theorem readString_quote (contents : Option String) :
    ∃ quoted, quote contents = '"' :: quoted ∧
      ∀ rest, readString (quoted ++ rest) = some (contents, rest) := by
  cases contents with
  | none => exact ⟨_, rfl, fun _ => rfl⟩
  | some contents =>
      refine ⟨contents.toList.flatMap escape ++ ['"'], rfl, ?_⟩
      intro rest
      obtain ⟨pieces, read, joined⟩ := readPieces_escapes contents.toList rest
      rw [List.append_assoc, List.singleton_append]
      simp only [readString, read, joined, Option.bind_eq_bind, Option.bind_some, Option.map_some,
        String.ofList_toList]

end JsonText

namespace JsonValue

open JsonText

/-- Every number in the value is a JSON number. -/
inductive Printable : JsonValue → Prop
  | null : Printable .null
  | bool (value : Bool) : Printable (.bool value)
  | number {literal : NumberLiteral} : literal.WellFormed → Printable (.number literal)
  | text (contents : Option String) : Printable (.text contents)
  | array {items : List JsonValue} :
      (∀ item ∈ items, Printable item) → Printable (.array items)
  | object {members : List (Option String × JsonValue)} :
      (∀ member ∈ members, Printable member.2) → Printable (.object members)

/-- The value is read back from its text, with two steps for each character of it. -/
def ReadsBack (value : JsonValue) : Prop :=
  ∀ steps rest, 2 * value.print.length ≤ steps → EndsNumber rest →
    readValue steps (value.print ++ rest) = some (value, rest)

end JsonValue

namespace JsonText

theorem text_eq_cons {literal : NumberLiteral} (wellFormed : literal.WellFormed) :
    ∃ first later, literal.text = first :: later ∧ (first = '-' ∨ first.isDigit = true) := by
  obtain ⟨⟨some, all⟩, _⟩ := wellFormed.whole
  obtain ⟨digit, digits, whole⟩ := List.exists_cons_of_ne_nil some
  rw [text_eq, whole]
  cases literal.negative with
  | true => exact ⟨'-', _, rfl, .inl rfl⟩
  | false => exact ⟨digit, _, rfl, .inr (all digit (whole ▸ List.mem_cons_self))⟩

theorem skipBlanks_cons (character : Char) (visible : isBlank character = false)
    (text : List Char) : skipBlanks (character :: text) = character :: text := by
  simp [skipBlanks, visible]

theorem not_isBlank_of_isDigit {character : Char} (digit : character.isDigit = true) :
    isBlank character = false := by
  rw [← Bool.not_eq_true]
  intro blank
  simp only [isBlank, Bool.or_eq_true, beq_iff_eq] at blank
  rcases blank with ((rfl | rfl) | rfl) | rfl <;> simp at digit

theorem readValue_text {literal : NumberLiteral} (wellFormed : literal.WellFormed) (steps : Nat)
    {rest : List Char} (ends : EndsNumber rest) :
    readValue (steps + 1) (literal.text ++ rest) = some (.number literal, rest) := by
  have read := readNumber_text wellFormed ends
  obtain ⟨first, later, split, numeric⟩ := text_eq_cons wellFormed
  have visible : isBlank first = false := by
    rcases numeric with rfl | digit
    · rfl
    · exact not_isBlank_of_isDigit digit
  rw [split, List.cons_append] at read ⊢
  rw [readValue, skipBlanks_cons first visible]
  split
  case h_7 => rw [read]; rfl
  all_goals
    next other =>
      obtain ⟨rfl, _⟩ := List.cons.inj other
      simp at numeric

/-- The first character of a value is neither blank nor the end of an array. -/
theorem print_eq_cons {value : JsonValue} (printable : value.Printable) :
    ∃ first later, value.print = first :: later ∧ isBlank first = false ∧ first ≠ ']' := by
  cases printable with
  | null | array | object => exact ⟨_, _, rfl, rfl, by decide⟩
  | bool value => cases value <;> exact ⟨_, _, rfl, rfl, by decide⟩
  | text contents =>
      obtain ⟨quoted, quote, _⟩ := readString_quote contents
      exact ⟨'"', quoted, quote, rfl, by decide⟩
  | number wellFormed =>
      obtain ⟨first, later, split, numeric⟩ := text_eq_cons wellFormed
      refine ⟨first, later, split, ?_, ?_⟩
      · rcases numeric with rfl | digit
        · rfl
        · exact not_isBlank_of_isDigit digit
      · rintro rfl
        simp at numeric

theorem endsNumber_cons {character : Char} (other : character.isDigit = false)
    (marks : character ≠ '.' ∧ character ≠ 'e' ∧ character ≠ 'E') (text : List Char) :
    EndsNumber (character :: text) := by
  rintro _ _ ⟨⟩
  exact ⟨other, marks⟩

theorem printItems_singleton (item : JsonValue) :
    JsonValue.printItems [item] = item.print := rfl

theorem printItems_cons (item second : JsonValue) (items : List JsonValue) :
    JsonValue.printItems (item :: second :: items) =
      item.print ++ ',' :: JsonValue.printItems (second :: items) := rfl

theorem printItems_eq_cons {item : JsonValue} (printable : item.Printable)
    (items : List JsonValue) :
    ∃ first later, JsonValue.printItems (item :: items) = first :: later ∧
      isBlank first = false ∧ first ≠ ']' := by
  obtain ⟨first, later, split, visible, notEnd⟩ := print_eq_cons printable
  cases items with
  | nil => exact ⟨first, later, split, visible, notEnd⟩
  | cons second items =>
      refine ⟨first, later ++ ',' :: JsonValue.printItems (second :: items), ?_, visible, notEnd⟩
      rw [printItems_cons, split]
      rfl

theorem printMembers_singleton (name : Option String) (value : JsonValue) :
    JsonValue.printMembers [(name, value)] = quote name ++ ':' :: value.print := rfl

theorem printMembers_cons (name : Option String) (value : JsonValue)
    (second : Option String × JsonValue) (members : List (Option String × JsonValue)) :
    JsonValue.printMembers ((name, value) :: second :: members) =
      quote name ++ ':' :: value.print ++ ',' :: JsonValue.printMembers (second :: members) := rfl

theorem printMembers_eq_cons (member : Option String × JsonValue)
    (members : List (Option String × JsonValue)) :
    ∃ later, JsonValue.printMembers (member :: members) = '"' :: later := by
  obtain ⟨name, value⟩ := member
  obtain ⟨quoted, quote, _⟩ := readString_quote name
  cases members with
  | nil => exact ⟨_, by rw [printMembers_singleton, quote]; rfl⟩
  | cons second members => exact ⟨_, by rw [printMembers_cons, quote]; rfl⟩

theorem readItems_print {items : List JsonValue} (nonempty : items ≠ [])
    (readsBack : ∀ item ∈ items, item.ReadsBack) {steps : Nat}
    (enough : 2 * (JsonValue.printItems items).length < steps) (rest : List Char) :
    readItems steps (JsonValue.printItems items ++ ']' :: rest) = some (items, rest) := by
  induction items generalizing steps with
  | nil => exact absurd rfl nonempty
  | cons item items induction =>
      obtain ⟨readsItem, readsItems⟩ := List.forall_mem_cons.mp readsBack
      obtain ⟨steps, rfl⟩ := Nat.exists_eq_add_one_of_ne_zero (Nat.ne_zero_of_lt enough)
      cases items with
      | nil =>
          rw [printItems_singleton] at enough ⊢
          have read := readsItem steps (']' :: rest) (Nat.le_of_lt_succ enough)
            (endsNumber_cons rfl (by decide) rest)
          simp only [readItems, read, skipBlanks_cons ']' rfl, Option.bind_eq_bind,
            Option.bind_some]
      | cons second items =>
          rw [printItems_cons] at enough ⊢
          simp only [List.length_append, List.length_cons] at enough
          rw [List.append_assoc, List.cons_append]
          have read := readsItem steps
            (',' :: (JsonValue.printItems (second :: items) ++ ']' :: rest)) (by omega)
            (endsNumber_cons rfl (by decide) _)
          have others := induction (List.cons_ne_nil _ _) readsItems (by omega : _ < steps)
          simp only [readItems, read, skipBlanks_cons ',' rfl, others,
            Option.bind_eq_bind, Option.bind_some]

theorem readMembers_print {members : List (Option String × JsonValue)} (nonempty : members ≠ [])
    (readsBack : ∀ member ∈ members, member.2.ReadsBack) {steps : Nat}
    (enough : 2 * (JsonValue.printMembers members).length < steps) (rest : List Char) :
    readMembers steps (JsonValue.printMembers members ++ '\x7d' :: rest) =
      some (members, rest) := by
  induction members generalizing steps with
  | nil => exact absurd rfl nonempty
  | cons member members induction =>
      obtain ⟨name, value⟩ := member
      obtain ⟨readsValue, readsMembers⟩ := List.forall_mem_cons.mp readsBack
      obtain ⟨steps, rfl⟩ := Nat.exists_eq_add_one_of_ne_zero (Nat.ne_zero_of_lt enough)
      obtain ⟨quoted, quote, readName⟩ := readString_quote name
      cases members with
      | nil =>
          rw [printMembers_singleton, quote] at enough ⊢
          simp only [List.cons_append, List.length_append, List.length_cons] at enough
          have read := readsValue steps ('\x7d' :: rest) (by simp only; omega)
            (endsNumber_cons rfl (by decide) rest)
          simp only [List.append_assoc, List.cons_append, readMembers, readName, read,
            skipBlanks_cons '"' rfl, skipBlanks_cons ':' rfl,
            skipBlanks_cons '\x7d' rfl, Option.bind_eq_bind, Option.bind_some]
      | cons second members =>
          rw [printMembers_cons, quote] at enough ⊢
          simp only [List.cons_append, List.length_append, List.length_cons] at enough
          have read := readsValue steps
            (',' :: (JsonValue.printMembers (second :: members) ++ '\x7d' :: rest))
            (by simp only; omega) (endsNumber_cons rfl (by decide) _)
          have others := induction (List.cons_ne_nil _ _) readsMembers (by omega : _ < steps)
          simp only [List.append_assoc, List.cons_append, readMembers, readName, read, others,
            skipBlanks_cons '"' rfl, skipBlanks_cons ':' rfl,
            skipBlanks_cons ',' rfl, Option.bind_eq_bind, Option.bind_some]

end JsonText

namespace JsonValue

open JsonText

theorem print_ne_nil {value : JsonValue} (printable : value.Printable) : value.print ≠ [] := by
  obtain ⟨first, later, split, _⟩ := print_eq_cons printable
  rw [split]
  exact List.cons_ne_nil first later

/-- Reading takes a step at least. -/
theorem readsBack_of_succ {value : JsonValue} (nonempty : value.print ≠ [])
    (reads : ∀ steps rest, 2 * value.print.length ≤ steps + 1 → EndsNumber rest →
      readValue (steps + 1) (value.print ++ rest) = some (value, rest)) : value.ReadsBack := by
  intro steps rest enough ends
  have positive := List.length_pos_iff.mpr nonempty
  obtain ⟨steps, rfl⟩ : ∃ fewer, steps = fewer + 1 := ⟨steps - 1, by omega⟩
  exact reads steps rest enough ends

theorem Printable.readsBack {value : JsonValue} (printable : value.Printable) :
    value.ReadsBack := by
  have nonempty := print_ne_nil printable
  induction printable with
  | null => exact readsBack_of_succ nonempty fun _ _ _ _ => rfl
  | bool value =>
      refine readsBack_of_succ nonempty fun _ _ _ _ => ?_
      cases value <;> rfl
  | number wellFormed =>
      exact readsBack_of_succ nonempty fun steps _ _ ends => readValue_text wellFormed steps ends
  | text contents =>
      refine readsBack_of_succ nonempty fun steps rest _ _ => ?_
      obtain ⟨quoted, quote, read⟩ := readString_quote contents
      simp only [print, quote, List.cons_append, readValue, skipBlanks_cons '"' rfl, read,
        Option.bind_eq_bind, Option.bind_some]
  | @array items printable induction =>
      refine readsBack_of_succ nonempty fun steps rest enough _ => ?_
      have readsBack : ∀ item ∈ items, item.ReadsBack := fun item member =>
        induction item member (print_ne_nil (printable item member))
      simp only [print, List.length_append, List.length_cons, List.length_nil] at enough
      cases items with
      | nil => rfl
      | cons item items =>
          have read := readItems_print (List.cons_ne_nil _ _) readsBack (by omega : _ < steps) rest
          obtain ⟨first, later, split, visible, notEnd⟩ :=
            printItems_eq_cons (printable item List.mem_cons_self) items
          rw [split, List.cons_append] at read
          simp only [print, split, List.cons_append, List.append_assoc, List.nil_append, readValue,
            skipBlanks_cons '[' rfl, skipBlanks_cons first visible]
          split
          · next other =>
              obtain ⟨same, _⟩ := List.cons.inj other
              exact absurd same notEnd
          · rw [read]
            rfl
  | @object members printable induction =>
      refine readsBack_of_succ nonempty fun steps rest enough _ => ?_
      have readsBack : ∀ member ∈ members, member.2.ReadsBack := fun member belongs =>
        induction member belongs (print_ne_nil (printable member belongs))
      simp only [print, List.length_append, List.length_cons, List.length_nil] at enough
      cases members with
      | nil => rfl
      | cons member members =>
          have read := readMembers_print (List.cons_ne_nil _ _) readsBack
            (by omega : _ < steps) rest
          obtain ⟨later, split⟩ := printMembers_eq_cons member members
          rw [split, List.cons_append] at read
          simp only [print, split, List.cons_append, List.append_assoc, List.nil_append, readValue,
            skipBlanks_cons '\x7b' rfl, skipBlanks_cons '"' rfl]
          split
          · next other => simp at other
          · rw [read]
            rfl

/-- A value is read back from its text. -/
theorem ofText?_toText {value : JsonValue} (printable : value.Printable) :
    ofText? value.toText = some value := by
  have read := printable.readsBack (2 * value.print.length + 2) [] (Nat.le_add_right _ _)
    endsNumber_nil
  rw [List.append_nil] at read
  simp only [ofText?, toText, String.toList_ofList, read, Option.bind_eq_bind, Option.bind_some]
  rfl

end JsonValue

end VehicleRelay
