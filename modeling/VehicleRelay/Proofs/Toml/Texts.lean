import VehicleRelay.Proofs.Toml.Values

/-!
# Texts of documents

Whatever spells a document is read as that document.
-/

namespace VehicleRelay.Toml

/-! ## Statements -/

/-- A statement is read with the end of its line, which is no line to skip. -/
theorem SpellsStatement.readStatement {spelled rest text : List Char} {statement : Statement}
    (spells : SpellsStatement spelled statement) (ends : Delimited rest)
    (ended : afterLine? rest = some text) :
    afterLine? (spelled ++ rest) = none ∧
      readStatement (skipBlanks (spelled ++ rest)) = some (statement, text) := by
  cases spells with
  | assign spells =>
      obtain ⟨blanks, first, later, rfl, all, begins, spells⟩ := spells.strip
      have read := spells.readPair (readsBack_value nestingLimit) ends
      have notHeader : first ≠ '[' := by
        rintro rfl
        exact absurd begins (by decide)
      rw [List.append_assoc, List.cons_append] at *
      refine ⟨afterLine?_of_visible all begins.1 _, ?_⟩
      rw [all.skip_cons begins.1.1]
      unfold Toml.readStatement
      split
      · next same => exact absurd (List.cons.inj same).1 notHeader
      · next same => exact absurd (List.cons.inj same).1 notHeader
      · rw [read]
        simp only [Option.bind_eq_bind, Option.bind_some, ended]
  | @openTable before inside spelled after name blanksBefore blanksInside spells blanksAfter =>
      have path := readKeyPath_name blanksInside spells blanksAfter (.inr rfl) rest
      simp only [List.append_assoc, List.cons_append, List.nil_append]
      refine ⟨afterLine?_of_visible blanksBefore (by decide) _, ?_⟩
      rw [blanksBefore.skip_cons (by decide)]
      unfold Toml.readStatement
      split
      · next same =>
          obtain ⟨first, later, rfl, begins⟩ := spells.head
          cases inside with
          | nil =>
              obtain ⟨rfl, _⟩ := List.cons.inj (List.cons.inj same).2
              exact absurd begins (by decide)
          | cons blank inside =>
              obtain ⟨rfl, _⟩ := List.cons.inj (List.cons.inj same).2
              exact absurd (blanksInside _ List.mem_cons_self) (by decide)
      · next same =>
          obtain ⟨_, rfl⟩ := List.cons.inj same
          simp only [path, Option.bind_eq_bind, Option.bind_some, expect, if_true, ended]
      · next notHeader => exact absurd rfl (notHeader _)

theorem Blanks.head {blanks : List Char} (all : Blanks blanks) {first : Char}
    (other : first ≠ '\ufeff') (later : List Char) :
    ∃ head tail, blanks ++ first :: later = head :: tail ∧ head ≠ '\ufeff' := by
  cases blanks with
  | nil => exact ⟨first, later, rfl, other⟩
  | cons blank blanks =>
      refine ⟨blank, _, rfl, ?_⟩
      rintro rfl
      exact absurd (all _ List.mem_cons_self) (by decide)

theorem SpellsStatement.head {spelled : List Char} {statement : Statement}
    (spells : SpellsStatement spelled statement) :
    ∃ head tail, spelled = head :: tail ∧ head ≠ '\ufeff' := by
  cases spells with
  | assign spells =>
      obtain ⟨blanks, first, later, rfl, all, begins, _⟩ := spells.strip
      refine all.head ?_ later
      rintro rfl
      exact absurd begins (by decide)
  | openTable all => exact all.head (by decide) _

theorem Newline.length_pos {newline : List Char} (ended : Newline newline) :
    0 < newline.length := by
  cases ended with
  | lineFeed | carriageReturn => exact Nat.succ_pos _

theorem SpellsStatements.readStatements {spelled : List Char} {statements : List Statement}
    (spells : SpellsStatements spelled statements) {lines : Nat}
    (enough : spelled.length ≤ lines) : readStatements (lines + 1) spelled = some statements := by
  induction spells generalizing lines with
  | rest remarks => rw [Toml.readStatements, remarks.afterLine_nil]
  | @skip remark newline more statements remarks ended others induction =>
      have some := ended.length_pos
      simp only [List.length_append] at enough
      obtain ⟨fewer, rfl⟩ : ∃ fewer, lines = fewer + 1 := ⟨lines - 1, by omega⟩
      have later := induction (by omega : more.length ≤ fewer)
      rw [Toml.readStatements, remarks.afterLine ended]
      cases more with
      | nil | cons _ _ => exact later
  | @last spelled remark statement spells remarks =>
      have ends : Delimited remark := by
        have ends := remarks.delimited delimited_nil
        rwa [List.append_nil] at ends
      obtain ⟨unskipped, read⟩ := spells.readStatement ends remarks.afterLine_nil
      obtain ⟨head, tail, rfl, _⟩ := spells.head
      simp only [List.length_append, List.length_cons] at enough
      obtain ⟨fewer, rfl⟩ : ∃ fewer, lines = fewer + 1 := ⟨lines - 1, by omega⟩
      rw [Toml.readStatements, unskipped]
      simp only [read, Option.bind_eq_bind, Option.bind_some]
      rfl
  | @next spelled remark newline more statement statements spells remarks ended others induction =>
      have some := ended.length_pos
      simp only [List.length_append] at enough
      obtain ⟨fewer, rfl⟩ : ∃ fewer, lines = fewer + 1 := ⟨lines - 1, by omega⟩
      have later := induction (by omega : more.length ≤ fewer)
      have ends : Delimited (remark ++ (newline ++ more)) :=
        remarks.delimited (ended.delimited more)
      obtain ⟨unskipped, read⟩ := spells.readStatement ends (remarks.afterLine ended more)
      rw [Toml.readStatements, unskipped]
      simp only [read, later, Option.bind_eq_bind, Option.bind_some]

theorem Newline.head {newline : List Char} (ended : Newline newline) :
    ∃ head tail, newline = head :: tail ∧ head ≠ '\ufeff' := by
  cases ended with
  | lineFeed | carriageReturn => exact ⟨_, _, rfl, by decide⟩

theorem Remark.ne_mark {remark : List Char} (remarks : Remark remark) {later : List Char}
    (unmarked : ∀ more, later ≠ '\ufeff' :: more) (more : List Char) :
    remark ++ later ≠ '\ufeff' :: more := by
  cases remarks with
  | nil => exact unmarked more
  | blank blank _ =>
      intro same
      obtain ⟨rfl, _⟩ := List.cons.inj same
      exact absurd blank (by decide)
  | comment => exact fun same => absurd (List.cons.inj same).1 (by decide)

/-- A document that begins with no byte order mark is not taken for one that does. -/
theorem SpellsStatements.ne_mark {spelled : List Char} {statements : List Statement}
    (spells : SpellsStatements spelled statements) (more : List Char) :
    spelled ≠ '\ufeff' :: more := by
  cases spells with
  | rest remarks =>
      have unmarked := remarks.ne_mark fun _ => (List.cons_ne_nil _ _).symm
      rw [List.append_nil] at unmarked
      exact unmarked more
  | skip remarks ended _ =>
      obtain ⟨head, tail, rfl, other⟩ := ended.head
      exact remarks.ne_mark (fun _ same => other (List.cons.inj same).1) more
  | last spells _ | next spells _ _ _ =>
      obtain ⟨head, tail, rfl, other⟩ := spells.head
      exact fun same => other (List.cons.inj same).1

/-! ## Documents -/

/-- The table of a header stands at a place among the members. -/
def StandsAt (header : List String) (place : Members → Members) : Prop :=
  ∀ (change : Members → Option Members) (inner : Members),
    Members.extend .implied (fun _ => change) header .header (place inner) =
      (change inner).map place

theorem standsAt_top : StandsAt [] id := by
  intro change inner
  rw [Members.extend, Option.map_id, id, id]

theorem standsAt_last {part : String} {members : Members}
    (fresh : part ∉ members.map Prod.fst) :
    StandsAt [part] fun inner => members ++ [(part, .table .header inner)] := by
  intro change inner
  simp only [Members.extend, Members.lookup_last fresh]
  cases change inner with
  | none => rfl
  | some changed => simp [Members.put_last fresh]

namespace Draft

theorem foldlM_assignments {header : List String} {place : Members → Members}
    (stands : StandsAt header place) {inner : Members} {values : List (String × TomlValue)}
    (distinct : (inner.map Prod.fst ++ values.map Prod.fst).Nodup) :
    (assignments values).foldlM add ⟨place inner, header⟩ =
      some ⟨place (inner ++ valueItems values), header⟩ := by
  induction values generalizing inner with
  | nil => simp [assignments, valueItems]
  | cons member values induction =>
      obtain ⟨name, value⟩ := member
      have fresh := not_mem_of_nodup_append distinct
      have distinctLater : ((inner ++ [(name, Item.value value)]).map Prod.fst ++
          values.map Prod.fst).Nodup := by
        simpa using distinct
      have added : add ⟨place inner, header⟩ (.assign [] name value) =
          some ⟨place (inner ++ [(name, .value value)]), header⟩ := by
        have assigned := stands (Members.assign [] name value) inner
        rw [Members.assign_of_fresh fresh] at assigned
        simp [add, assigned]
      have later := induction distinctLater
      rw [assignments, List.map_cons, List.foldlM_cons, added]
      simpa [assignments, valueItems] using later

/-- A section as the table under construction that its statements make. -/
def sectionItem (part : String × List (String × TomlValue)) : String × Item :=
  (part.1, .table .header (valueItems part.2))

theorem foldlM_section {members : Members} {header : List String}
    {part : String × List (String × TomlValue)} (fresh : part.1 ∉ members.map Prod.fst)
    (distinct : (part.2.map Prod.fst).Nodup) :
    (sectionStatements part).foldlM add ⟨members, header⟩ =
      some ⟨members ++ [sectionItem part], [part.1]⟩ := by
  have opened : add ⟨members, header⟩ (.openTable [] part.1) =
      some ⟨members ++ [(part.1, .table .header [])], [part.1]⟩ := by
    simp [add, Members.extend, Members.openTable, lookup_eq_none fresh,
      Members.put_of_fresh fresh]
  have unheld : (([] : Members).map Prod.fst ++ part.2.map Prod.fst).Nodup := distinct
  have filled := foldlM_assignments (standsAt_last fresh) unheld
  rw [sectionStatements, List.foldlM_cons, opened]
  exact filled

theorem foldlM_sections {sections : List (String × List (String × TomlValue))}
    {members : Members} (distinct : (members.map Prod.fst ++ sections.map Prod.fst).Nodup)
    (each : ∀ part ∈ sections, (part.2.map Prod.fst).Nodup) (header : List String) :
    ∃ last, (sections.flatMap sectionStatements).foldlM add ⟨members, header⟩ =
      some ⟨members ++ sections.map sectionItem, last⟩ := by
  induction sections generalizing members header with
  | nil => exact ⟨header, by simp⟩
  | cons part sections induction =>
      have fresh := not_mem_of_nodup_append distinct
      have distinctLater : ((members ++ [sectionItem part]).map Prod.fst ++
          sections.map Prod.fst).Nodup := by
        simpa [sectionItem] using distinct
      obtain ⟨distinctFirst, eachLater⟩ := List.forall_mem_cons.mp each
      obtain ⟨last, later⟩ := induction distinctLater eachLater [part.1]
      refine ⟨last, ?_⟩
      rw [List.flatMap_cons, List.foldlM_append, foldlM_section fresh distinctFirst]
      simpa using later

end Draft

theorem membersToValues_sections (sections : List (String × List (String × TomlValue))) :
    membersToValues (sections.map Draft.sectionItem) = sections.map tableOf := by
  induction sections with
  | nil => rfl
  | cons part sections induction =>
      rw [List.map_cons, List.map_cons, Draft.sectionItem, membersToValues, Item.toValue,
        membersToValues_valueItems, induction, tableOf]

theorem ofText?_eq_of_toList {text : String} {mark spelled : List Char}
    (marked : mark = [] ∨ mark = ['\ufeff']) (written : text.toList = mark ++ spelled)
    (unmarked : ∀ more, spelled ≠ '\ufeff' :: more) :
    ofText? text = (readStatements (spelled.length + 1) spelled).bind fun statements =>
      (statements.foldlM Draft.add .empty).map fun draft => membersToValues draft.members := by
  rcases marked with rfl | rfl
  · rw [List.nil_append] at written
    simp only [ofText?, written, Option.bind_eq_bind, Option.map_eq_bind]
    rfl
  · simp only [ofText?, written, Option.bind_eq_bind, Option.map_eq_bind]
    rfl

/-- Whatever spells a document is read as that document. -/
theorem ofText?_of_spells {text : String} {members : List (String × TomlValue)}
    (spells : SpellsDocument text members) : ofText? text = some members := by
  cases spells with
  | @document mark spelled plain sections marked written spells distinct each =>
      have statements := spells.readStatements (Nat.le_refl spelled.length)
      have unheld : (([] : Members).map Prod.fst ++ plain.map Prod.fst).Nodup :=
        (List.nodup_append.mp distinct).1
      have first : (assignments plain).foldlM Draft.add .empty = some ⟨valueItems plain, []⟩ :=
        Draft.foldlM_assignments standsAt_top unheld
      have sectionsDistinct : ((valueItems plain).map Prod.fst ++
          sections.map Prod.fst).Nodup := by
        rwa [map_fst_valueItems]
      obtain ⟨last, later⟩ := Draft.foldlM_sections sectionsDistinct each []
      rw [ofText?_eq_of_toList marked written spells.ne_mark, statements, Option.bind_some,
        List.foldlM_append, first, Option.bind_eq_bind, Option.bind_some, later,
        Option.map_some, membersToValues_append, membersToValues_valueItems,
        membersToValues_sections]

/-- A text spells one document at most. -/
theorem SpellsDocument.unique {text : String} {members others : List (String × TomlValue)}
    (spells : SpellsDocument text members) (otherSpells : SpellsDocument text others) :
    members = others := by
  have read := ofText?_of_spells spells
  rw [ofText?_of_spells otherSpells] at read
  exact (Option.some.inj read).symm

end VehicleRelay.Toml
