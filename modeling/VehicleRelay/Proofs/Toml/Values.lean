import VehicleRelay.Proofs.Toml.Documents
import VehicleRelay.Proofs.Toml.Numbers

/-!
# Reading values

Whatever spells a value is read as that value, at every level of arrays and inline tables.
-/

namespace VehicleRelay.Toml

/-! ## Members -/


theorem lookup_eq_none {name : String} {members : Members}
    (fresh : name ∉ members.map Prod.fst) : members.lookup name = none := by
  rw [List.lookup_eq_none_iff]
  intro member listed
  have other : member.1 ≠ name := by
    rintro rfl
    exact fresh (List.mem_map_of_mem listed)
  exact bne_iff_ne.mpr other.symm

namespace Members

theorem put_of_fresh {name : String} {members : Members} (fresh : name ∉ members.map Prod.fst)
    (item : Item) : members.put name item = members ++ [(name, item)] := by
  induction members with
  | nil => rfl
  | cons member members induction =>
      obtain ⟨other, stored⟩ := member
      rw [List.map_cons, List.mem_cons, not_or] at fresh
      rw [put, if_neg (Ne.symm fresh.1), induction fresh.2, List.cons_append]

theorem put_last {name : String} {members : Members} (fresh : name ∉ members.map Prod.fst)
    (stored item : Item) :
    put name item (members ++ [(name, stored)]) = members ++ [(name, item)] := by
  induction members with
  | nil => simp [put]
  | cons member members induction =>
      obtain ⟨other, held⟩ := member
      rw [List.map_cons, List.mem_cons, not_or] at fresh
      rw [List.cons_append, put, if_neg (Ne.symm fresh.1), induction fresh.2, List.cons_append]

theorem lookup_last {name : String} {members : Members} (fresh : name ∉ members.map Prod.fst)
    (item : Item) : List.lookup name (members ++ [(name, item)]) = some item := by
  rw [List.lookup_append, lookup_eq_none fresh, Option.none_or, List.lookup_cons_self]

/-- A value is added to the table in which it is written. -/
theorem assign_of_fresh {name : String} {members : Members}
    (fresh : name ∉ members.map Prod.fst) (value : TomlValue) :
    members.assign [] name value = some (members ++ [(name, .value value)]) := by
  simp [assign, extend, lookup_eq_none fresh, put_of_fresh fresh]

end Members

/-- Members under construction that are values. -/
def valueItems (members : List (String × TomlValue)) : Members :=
  members.map fun member => (member.1, .value member.2)

theorem map_fst_valueItems (members : List (String × TomlValue)) :
    (valueItems members).map Prod.fst = members.map Prod.fst := by
  simp [valueItems, Function.comp_def]

theorem membersToValues_append (first second : Members) :
    membersToValues (first ++ second) = membersToValues first ++ membersToValues second := by
  induction first with
  | nil => rfl
  | cons member first induction =>
      rw [List.cons_append, membersToValues, induction, membersToValues, List.cons_append]

theorem membersToValues_valueItems (members : List (String × TomlValue)) :
    membersToValues (valueItems members) = members := by
  induction members with
  | nil => rfl
  | cons member members induction =>
      have rest : membersToValues (members.map fun member => (member.1, .value member.2)) =
          members := induction
      rw [valueItems, List.map_cons, membersToValues, rest, Item.toValue]


/-! ## Values -/

/-- A reader reads what is spelled, which begins neither with a gap nor with a closing bracket,
whatever follows that goes on with no value. -/
structure ReadsBack (read : Reader TomlValue) (Spells : List Char → TomlValue → Prop) : Prop where
  head : ∀ {spelled value}, Spells spelled value →
    ∃ first later, spelled = first :: later ∧ Visible first ∧ first ≠ ']'
  reads : ∀ {spelled value rest}, Spells spelled value → Delimited rest →
    read (spelled ++ rest) = some (value, rest)

theorem readKeyPath_name {before spelled after : List Char} {name : String} {mark : Char}
    (blanksBefore : Blanks before) (spells : SpellsName spelled name) (blanksAfter : Blanks after)
    (marks : mark = '=' ∨ mark = ']') (rest : List Char) :
    readKeyPath (before ++ (spelled ++ (after ++ mark :: rest))) =
      some ([], name, mark :: rest) := by
  have notBare : ∀ character ∈ (after ++ mark :: rest).head?, isBareKey character = false := by
    intro character member
    cases after with
    | nil =>
        obtain rfl : mark = character := by simpa using member
        rcases marks with rfl | rfl
        all_goals rfl
    | cons first after =>
        obtain rfl : first = character := by simpa using member
        rcases blanksAfter first List.mem_cons_self with rfl | rfl
        all_goals rfl
  have notBlank : ¬Blank mark := by
    rcases marks with rfl | rfl
    all_goals decide
  have part := spells.readKeyPart notBare
  obtain ⟨first, later, rfl, ⟨visible, _⟩, _⟩ := spells.head
  have key : readKey nestingLimit (before ++ (first :: later ++ (after ++ mark :: rest))) =
      some ([name], mark :: rest) := by
    rw [nestingLimit, readKey, List.cons_append, blanksBefore.skip_cons visible,
      ← List.cons_append, part]
    simp only [Option.bind_eq_bind, Option.bind_some, blanksAfter.skip_cons notBlank]
    rcases marks with rfl | rfl
    all_goals rfl
  rw [readKeyPath, key]
  rfl

variable {readItem : Reader TomlValue} {Spells : List Char → TomlValue → Prop}

/-- The blanks before a name are no part of it. -/
theorem SpellsPair.strip {spelled : List Char} {member : String × TomlValue}
    (spells : SpellsPair Spells spelled member) :
    ∃ blanks first later, spelled = blanks ++ first :: later ∧ Blanks blanks ∧
      BeginsName first ∧ SpellsPair Spells (first :: later) member := by
  cases spells with
  | pair blanksBefore spellsName blanksAfter blanksBetween spells =>
      have stripped := SpellsPair.pair (List.forall_mem_nil _) spellsName blanksAfter
        blanksBetween spells
      obtain ⟨first, later, rfl, begins⟩ := spellsName.head
      exact ⟨_, first, _, rfl, blanksBefore, begins, stripped⟩

theorem SpellsMembers.strip {spelled : List Char} {members : List (String × TomlValue)}
    (spells : SpellsMembers Spells spelled members) :
    ∃ blanks first later, spelled = blanks ++ first :: later ∧ Blanks blanks ∧
      BeginsName first ∧ SpellsMembers Spells (first :: later) members := by
  cases spells with
  | last spells blanksAfter =>
      obtain ⟨blanks, first, later, rfl, blanksBefore, begins, spells⟩ := spells.strip
      exact ⟨blanks, first, _, List.append_assoc _ _ _, blanksBefore, begins,
        .last spells blanksAfter⟩
  | next spells blanksAfter others =>
      obtain ⟨blanks, first, later, rfl, blanksBefore, begins, spells⟩ := spells.strip
      exact ⟨blanks, first, _, List.append_assoc _ _ _, blanksBefore, begins,
        .next spells blanksAfter others⟩

theorem SpellsPair.readPair (readsBack : ReadsBack readItem Spells) {spelled : List Char}
    {member : String × TomlValue} (spells : SpellsPair Spells spelled member) {rest : List Char}
    (ends : Delimited rest) :
    readPair readItem (spelled ++ rest) = some (([], member.1, member.2), rest) := by
  cases spells with
  | @pair before name after between spelled key value blanksBefore spellsName blanksAfter
      blanksBetween spells =>
      have path := readKeyPath_name blanksBefore spellsName blanksAfter (.inl rfl)
        (between ++ (spelled ++ rest))
      have read := readsBack.reads spells ends
      obtain ⟨first, later, rfl, ⟨visible, _⟩, _⟩ := readsBack.head spells
      simp only [List.append_assoc, List.cons_append] at path read ⊢
      rw [Toml.readPair, path]
      simp only [Option.bind_eq_bind, Option.bind_some, expect, if_true,
        blanksBetween.skip_cons visible, read]

/-- An item with the mark behind it. -/
theorem readItems_item (readsBack : ReadsBack readItem Spells) {before spelled after : List Char}
    {item : TomlValue} (gapBefore : Gap before) (spells : Spells spelled item)
    (gapAfter : Gap after) (steps : Nat) {mark : Char} (marks : mark = ',' ∨ mark = ']')
    (rest : List Char) :
    readItems readItem (steps + 1) (before ++ (spelled ++ (after ++ mark :: rest))) =
      if mark = ',' then (readItems readItem steps rest).map fun read => (item :: read.1, read.2)
      else some ([item], rest) := by
  have ends : Delimited (after ++ mark :: rest) := by
    refine gapAfter.delimited (delimited_cons ?_ rest)
    rcases marks with rfl | rfl
    all_goals decide
  have visibleMark : Visible mark := by
    rcases marks with rfl | rfl
    all_goals decide
  have read := readsBack.reads spells ends
  obtain ⟨first, later, rfl, visible, notEnd⟩ := readsBack.head spells
  rw [List.cons_append] at read ⊢
  rw [readItems, gapBefore.skip_cons visible]
  split
  · next same => exact absurd (List.cons.inj same).1 notEnd
  · rw [read]
    simp only [Option.bind_eq_bind, Option.bind_some, gapAfter.skip_cons visibleMark]
    rcases marks with rfl | rfl
    · simp only [if_true]
      cases readItems readItem steps rest <;> rfl
    · rfl

theorem SpellsItems.readItems (readsBack : ReadsBack readItem Spells) {spelled : List Char}
    {items : List TomlValue} (spells : SpellsItems Spells spelled items) {steps : Nat}
    (enough : spelled.length ≤ steps) (rest : List Char) :
    readItems readItem (steps + 1) (spelled ++ rest) = some (items, rest) := by
  induction spells generalizing steps with
  | nil gaps =>
      rw [List.append_assoc, List.singleton_append, Toml.readItems, gaps.skip_cons (by decide)]
      rfl
  | last gapBefore spells gapAfter =>
      have read := readItems_item readsBack gapBefore spells gapAfter steps (.inr rfl) rest
      simpa using read
  | next gapBefore spells gapAfter others induction =>
      simp only [List.length_append, List.length_cons] at enough
      obtain ⟨fewer, rfl⟩ : ∃ fewer, steps = fewer + 1 := ⟨steps - 1, by omega⟩
      rw [List.append_assoc, List.append_assoc, List.append_assoc, List.cons_append,
        readItems_item readsBack gapBefore spells gapAfter (fewer + 1) (.inl rfl),
        if_pos rfl, induction (by omega)]
      rfl

theorem not_mem_of_nodup_append {first : List String} {name : String} {later : List String}
    (distinct : (first ++ name :: later).Nodup) : name ∉ first :=
  fun member => (List.nodup_append.mp distinct).2.2 name member name List.mem_cons_self rfl

/-- A member of an inline table with the mark behind it. -/
theorem readPairs_member (readsBack : ReadsBack readItem Spells) {spelled after : List Char}
    {member : String × TomlValue} (spells : SpellsPair Spells spelled member)
    (blanks : Blanks after) {held : Members} (fresh : member.1 ∉ held.map Prod.fst) (steps : Nat)
    {mark : Char} (marks : mark = ',' ∨ mark = '\x7d') (rest : List Char) :
    readPairs readItem held (steps + 1) (spelled ++ (after ++ mark :: rest)) =
      if mark = ',' then readPairs readItem (held ++ valueItems [member]) steps rest
      else some (held ++ valueItems [member], rest) := by
  have ends : Delimited (after ++ mark :: rest) := by
    refine blanks.delimited (delimited_cons ?_ rest)
    rcases marks with rfl | rfl
    all_goals decide
  have visibleMark : ¬Blank mark := by
    rcases marks with rfl | rfl
    all_goals decide
  rw [readPairs, spells.readPair readsBack ends]
  simp only [Option.bind_eq_bind, Option.bind_some, Members.assign_of_fresh fresh,
    blanks.skip_cons visibleMark]
  rcases marks with rfl | rfl
  all_goals rfl

theorem SpellsMembers.readPairs (readsBack : ReadsBack readItem Spells) {spelled : List Char}
    {members : List (String × TomlValue)} (spells : SpellsMembers Spells spelled members)
    {held : Members} (distinct : (held.map Prod.fst ++ members.map Prod.fst).Nodup) {steps : Nat}
    (enough : spelled.length ≤ steps) (rest : List Char) :
    readPairs readItem held (steps + 1) (spelled ++ rest) =
      some (held ++ valueItems members, rest) := by
  induction spells generalizing held steps with
  | last spells blanks =>
      have fresh := not_mem_of_nodup_append distinct
      have read := readPairs_member readsBack spells blanks fresh steps (.inr rfl) rest
      simpa using read
  | @next spelled after more member members spells blanks others induction =>
      simp only [List.length_append, List.length_cons] at enough
      obtain ⟨fewer, rfl⟩ : ∃ fewer, steps = fewer + 1 := ⟨steps - 1, by omega⟩
      have fresh := not_mem_of_nodup_append distinct
      have distinctLater : ((held ++ valueItems [member]).map Prod.fst ++
          members.map Prod.fst).Nodup := by
        simpa [map_fst_valueItems] using distinct
      rw [List.append_assoc, List.append_assoc, List.cons_append,
        readPairs_member readsBack spells blanks fresh (fewer + 1) (.inl rfl), if_pos rfl,
        induction distinctLater (by omega), List.append_assoc]
      rfl

theorem SpellsInteger.head {spelled : List Char} {number : Int}
    (spells : SpellsInteger spelled number) :
    ∃ first later, spelled = first :: later ∧
      (first.isDigit = true ∨ first = '+' ∨ first = '-') := by
  cases spells with
  | @unsigned _ magnitude spells =>
      have decimal := (Decimal.digits_isDigits magnitude).2
      obtain ⟨first, more, others, rfl, digits⟩ := spells.head_eq
      exact ⟨first, more, rfl, .inl (decimal first (digits ▸ List.mem_cons_self))⟩
  | plus => exact ⟨_, _, rfl, .inr (.inl rfl)⟩
  | minus => exact ⟨_, _, rfl, .inr (.inr rfl)⟩

theorem SpellsInteger.readValue {spelled rest : List Char} {number : Int}
    (spells : SpellsInteger spelled number) (least : Int64.minValue.toInt ≤ number)
    (greatest : number ≤ Int64.maxValue.toInt) (ends : Delimited rest) (levels : Nat) :
    readValue levels (spelled ++ rest) = some (.integer number, rest) := by
  have read := spells.readNumber least greatest ends
  obtain ⟨first, later, rfl, numeric⟩ := spells.head
  unfold Toml.readValue
  split
  case h_7 => exact read
  all_goals
    next same =>
      obtain ⟨rfl, _⟩ := List.cons.inj same
      simp at numeric

theorem SpellsScalar.readValue {spelled rest : List Char} {value : TomlValue}
    (spells : SpellsScalar spelled value) (ends : Delimited rest) (levels : Nat) :
    readValue levels (spelled ++ rest) = some (value, rest) := by
  cases spells with
  | text spells =>
      have read := spells.readString ends
      cases spells with
      | basic | literal =>
          rw [List.cons_append] at read ⊢
          unfold Toml.readValue
          simp only [read]
          rfl
  | integer spells least greatest => exact spells.readValue least greatest ends levels
  | yes | no =>
      unfold Toml.readValue
      rfl

theorem SpellsScalar.head {spelled : List Char} {value : TomlValue}
    (spells : SpellsScalar spelled value) :
    ∃ first later, spelled = first :: later ∧ Visible first ∧ first ≠ ']' := by
  cases spells with
  | text spells =>
      cases spells with
      | basic | literal => exact ⟨_, _, rfl, by decide, by decide⟩
  | integer spells =>
      obtain ⟨first, later, rfl, numeric⟩ := spells.head
      have other : ∀ character ∈ [' ', '\t', '\n', '\r', '#', ']'], first ≠ character := by
        rintro character member rfl
        have none : ∀ character ∈ [' ', '\t', '\n', '\r', '#', ']'],
            character.isDigit = false ∧ character ≠ '+' ∧ character ≠ '-' := by simp
        obtain ⟨notDigit, notPlus, notMinus⟩ := none first member
        simp [notDigit, notPlus, notMinus] at numeric
      refine ⟨first, later, rfl, ?_⟩
      simp [Visible, Blank, other]
  | yes | no => exact ⟨_, _, rfl, by decide, by decide⟩

/-- At every level the reader of values reads what is spelled. -/
theorem readsBack_value (levels : Nat) : ReadsBack (readValue levels) (SpellsValue levels) := by
  induction levels with
  | zero =>
      constructor
      · exact fun spells => SpellsScalar.head spells
      · exact fun spells ends => SpellsScalar.readValue spells ends 0
  | succ levels induction =>
      constructor
      · intro spelled value spells
        cases spells with
        | scalar spells => exact spells.head
        | array | empty | table => exact ⟨_, _, rfl, by decide, by decide⟩
      · intro spelled value rest spells ends
        cases spells with
        | scalar spells => exact spells.readValue ends (levels + 1)
        | @array spelled items spells =>
            have enough : spelled.length ≤ (spelled ++ rest).length := by simp
            rw [List.cons_append, readValue, spells.readItems induction enough rest]
            rfl
        | empty blanks =>
            have skipped := blanks.skip_cons (by decide : ¬Blank '\x7d') rest
            rw [List.cons_append, List.append_assoc, List.singleton_append, readValue, skipped]
            rfl
        | @table spelled members spells distinct =>
            obtain ⟨blanks, first, later, rfl, all, begins, spells⟩ := spells.strip
            have enough : (first :: later).length ≤ (first :: (later ++ rest)).length := by simp
            have unheld : (([] : Members).map Prod.fst ++ members.map Prod.fst).Nodup := distinct
            have read := spells.readPairs induction unheld enough rest
            rw [List.cons_append, readValue, List.append_assoc, List.cons_append,
              all.skip_cons begins.1.1]
            split
            · next same =>
                obtain ⟨rfl, _⟩ := List.cons.inj same
                exact absurd begins (by decide)
            · rw [List.cons_append] at read
              simp only [read, Option.bind_eq_bind, Option.bind_some, List.nil_append,
                membersToValues_valueItems]

end VehicleRelay.Toml
