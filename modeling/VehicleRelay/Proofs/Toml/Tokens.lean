import VehicleRelay.Proofs.Toml.Spelling

/-!
# Blanks, strings and names in documents

Blanks, remarks and line ends are skipped, and a string and a name are read back from any of
their spellings.  Each reader leaves what follows.
-/

namespace VehicleRelay.Toml

/-! ## Blanks, remarks and line ends -/

theorem isBlank_iff {character : Char} : isBlank character = true ↔ Blank character := by
  simp [isBlank, Blank]

theorem isPrintable_iff {character : Char} :
    isPrintable character = true ↔ Printable character := by
  simp [isPrintable, Printable]

/-- A character that begins neither a gap nor a remark nor a line end. -/
def Visible (character : Char) : Prop :=
  ¬Blank character ∧ character ∉ ['\n', '\r', '#']

instance (character : Char) : Decidable (Visible character) :=
  inferInstanceAs (Decidable (_ ∧ _))

/-- No character that goes on with a value stands at the front of a text. -/
def Delimited (text : List Char) : Prop :=
  ∀ character ∈ text.head?, character ∈ [' ', '\t', '\n', '\r', '#', ',', ']', '\x7d']

theorem delimited_nil : Delimited [] := nofun

theorem delimited_cons {character : Char}
    (ends : character ∈ [' ', '\t', '\n', '\r', '#', ',', ']', '\x7d']) (text : List Char) :
    Delimited (character :: text) := by
  rintro _ ⟨⟩
  exact ends

theorem Blank.delimited {character : Char} (blank : Blank character) (text : List Char) :
    Delimited (character :: text) := by
  apply delimited_cons
  rcases blank with rfl | rfl
  · exact List.mem_cons_self
  · decide

theorem Blanks.delimited {blanks text : List Char} (all : Blanks blanks)
    (ends : Delimited text) : Delimited (blanks ++ text) := by
  cases blanks with
  | nil => exact ends
  | cons first blanks => exact (all first List.mem_cons_self).delimited _

theorem Newline.delimited {newline : List Char} (ended : Newline newline) (text : List Char) :
    Delimited (newline ++ text) := by
  cases ended with
  | lineFeed | carriageReturn => exact delimited_cons (by decide) _

theorem Remark.delimited {remark text : List Char} (remarks : Remark remark)
    (ends : Delimited text) : Delimited (remark ++ text) := by
  cases remarks with
  | nil => exact ends
  | blank blank => exact blank.delimited _
  | comment => exact delimited_cons (by decide) _

theorem Gap.delimited {gap text : List Char} (gaps : Gap gap) (ends : Delimited text) :
    Delimited (gap ++ text) := by
  cases gaps with
  | blanks all => exact all.delimited ends
  | line remarks ended =>
      rw [List.append_assoc, List.append_assoc]
      exact remarks.delimited (ended.delimited _)

theorem skipBlanks_cons {character : Char} (visible : ¬Blank character) (text : List Char) :
    skipBlanks (character :: text) = character :: text := by
  rw [skipBlanks, List.dropWhile_cons_of_neg (mt isBlank_iff.mp visible)]

theorem Blanks.skip {blanks : List Char} (all : Blanks blanks) (text : List Char) :
    skipBlanks (blanks ++ text) = skipBlanks text :=
  List.dropWhile_append_of_pos fun character member => isBlank_iff.mpr (all character member)

theorem Blanks.skip_cons {blanks : List Char} (all : Blanks blanks) {character : Char}
    (visible : ¬Blank character) (text : List Char) :
    skipBlanks (blanks ++ character :: text) = character :: text := by
  rw [all.skip, skipBlanks_cons visible]

theorem Newline.not_printable {newline text : List Char} (ended : Newline newline) :
    (newline ++ text).dropWhile isPrintable = newline ++ text := by
  cases ended with
  | lineFeed | carriageReturn => rfl

/-- A remark is skipped up to the end of its line. -/
theorem Remark.skip {remark text : List Char} (remarks : Remark remark)
    (ends : text = [] ∨ ∃ newline more, Newline newline ∧ text = newline ++ more) :
    skipComment (skipBlanks (remark ++ text)) = text := by
  induction remarks with
  | nil =>
      rcases ends with rfl | ⟨newline, more, ended, rfl⟩
      · rfl
      · cases ended with
        | lineFeed | carriageReturn => rfl
  | blank blank remarks induction =>
      rw [List.cons_append, skipBlanks, List.dropWhile_cons_of_pos (isBlank_iff.mpr blank)]
      exact induction
  | @comment words printable =>
      have all : ∀ character ∈ words, isPrintable character = true :=
        fun character member => isPrintable_iff.mpr (printable character member)
      have skipped : skipComment (skipBlanks ('#' :: (words ++ text))) =
          (words ++ text).dropWhile isPrintable := rfl
      rw [List.cons_append, skipped, List.dropWhile_append_of_pos all]
      rcases ends with rfl | ⟨newline, more, ended, rfl⟩
      · rfl
      · exact ended.not_printable

theorem Remark.afterLine {remark newline : List Char} (remarks : Remark remark)
    (ended : Newline newline) (text : List Char) :
    afterLine? (remark ++ (newline ++ text)) = some text := by
  rw [afterLine?, remarks.skip (.inr ⟨newline, text, ended, rfl⟩)]
  cases ended with
  | lineFeed | carriageReturn => rfl

theorem Remark.afterLine_nil {remark : List Char} (remarks : Remark remark) :
    afterLine? remark = some [] := by
  have skipped := remarks.skip (.inl rfl)
  rw [List.append_nil] at skipped
  rw [afterLine?, skipped]

/-- A line that holds a statement is not one that is skipped. -/
theorem afterLine?_of_visible {blanks : List Char} (all : Blanks blanks) {character : Char}
    (visible : Visible character) (text : List Char) :
    afterLine? (blanks ++ character :: text) = none := by
  obtain ⟨notBlank, other⟩ := visible
  simp only [List.mem_cons, List.not_mem_nil, or_false, not_or] at other
  obtain ⟨notLineFeed, notReturn, notComment⟩ := other
  have kept : skipComment (character :: text) = character :: text := by
    simp [skipComment, notComment]
  rw [afterLine?, all.skip_cons notBlank, kept]
  simp [afterNewline?, notLineFeed, notReturn]

theorem skipGaps_of_blank {character : Char} (blank : Blank character) (text : List Char) :
    skipGaps false (character :: text) = skipGaps false text := by
  rcases blank with rfl | rfl
  all_goals rfl

theorem Blanks.skipGaps {blanks : List Char} (all : Blanks blanks) (text : List Char) :
    skipGaps false (blanks ++ text) = skipGaps false text := by
  induction blanks with
  | nil => rfl
  | cons first blanks induction =>
      obtain ⟨blank, all⟩ := List.forall_mem_cons.mp all
      rw [List.cons_append, skipGaps_of_blank blank, induction all]

theorem Newline.skipGaps {newline : List Char} (ended : Newline newline) (comment : Bool)
    (text : List Char) : skipGaps comment (newline ++ text) = skipGaps false text := by
  cases ended with
  | lineFeed | carriageReturn => rfl

theorem skipGaps_comment {words : List Char} (printable : ∀ character ∈ words, Printable character)
    {newline : List Char} (ended : Newline newline) (text : List Char) :
    skipGaps true (words ++ (newline ++ text)) = skipGaps false text := by
  induction words with
  | nil => exact ended.skipGaps true text
  | cons first words induction =>
      obtain ⟨printableFirst, printable⟩ := List.forall_mem_cons.mp printable
      have notLineFeed : first ≠ '\n' := by
        rintro rfl
        simp [Printable] at printableFirst
      have notReturn : first ≠ '\r' := by
        rintro rfl
        simp [Printable] at printableFirst
      rw [List.cons_append, Toml.skipGaps, if_neg notLineFeed, if_pos rfl,
        if_pos (isPrintable_iff.mpr printableFirst), induction printable]
      exact fun _ same _ => notReturn same

theorem Remark.skipGaps {remark newline : List Char} (remarks : Remark remark)
    (ended : Newline newline) (text : List Char) :
    skipGaps false (remark ++ (newline ++ text)) = skipGaps false text := by
  induction remarks with
  | nil => exact ended.skipGaps false text
  | blank blank remarks induction => rw [List.cons_append, skipGaps_of_blank blank, induction]
  | comment printable =>
      exact skipGaps_comment printable ended text

theorem Gap.skip {gap : List Char} (gaps : Gap gap) (text : List Char) :
    skipGaps false (gap ++ text) = skipGaps false text := by
  induction gaps with
  | blanks all => exact all.skipGaps text
  | line remarks ended gaps induction =>
      rw [List.append_assoc, List.append_assoc, remarks.skipGaps ended, induction]

theorem skipGaps_cons {character : Char} (visible : Visible character) (text : List Char) :
    skipGaps false (character :: text) = character :: text := by
  obtain ⟨notBlank, other⟩ := visible
  simp only [List.mem_cons, List.not_mem_nil, or_false, not_or] at other
  obtain ⟨notLineFeed, notReturn, notComment⟩ := other
  rw [Toml.skipGaps, if_neg notLineFeed, if_neg Bool.false_ne_true,
    if_neg (mt isBlank_iff.mp notBlank), if_neg notComment]
  exact fun _ same _ => notReturn same

theorem Gap.skip_cons {gap : List Char} (gaps : Gap gap) {character : Char}
    (visible : Visible character) (text : List Char) :
    skipGaps false (gap ++ character :: text) = character :: text := by
  rw [gaps.skip, skipGaps_cons visible]

/-! ## Strings and names -/

theorem hexValue?_digitChar {digit : Nat} (small : digit < 16) :
    hexValue? (Nat.digitChar digit) = some digit ∧
      hexValue? (Nat.digitChar digit).toUpper = some digit := by
  have each : ∀ digit < 16, hexValue? (Nat.digitChar digit) = some digit ∧
      hexValue? (Nat.digitChar digit).toUpper = some digit := by decide
  exact each digit small

theorem SpellsHex.length_eq {count number : Nat} {digits : List Char}
    (spells : SpellsHex count digits number) : digits.length = count := by
  induction spells with
  | nil => rfl
  | lower _ _ induction | upper _ _ induction => simp [induction]

theorem SpellsHex.values {count number : Nat} {digits : List Char}
    (spells : SpellsHex count digits number) :
    ∃ values, digits.mapM hexValue? = some values ∧
      values.foldl (fun sum value => sum * 16 + value) 0 = number := by
  induction spells with
  | nil => exact ⟨[], rfl, rfl⟩
  | @lower count high low digits spells small induction =>
      obtain ⟨values, read, value⟩ := induction
      refine ⟨values ++ [low], ?_, by rw [List.foldl_append, value]; rfl⟩
      simp [List.mapM_append, read, (hexValue?_digitChar small).1]
  | @upper count high low digits spells small induction =>
      obtain ⟨values, read, value⟩ := induction
      refine ⟨values ++ [low], ?_, by rw [List.foldl_append, value]; rfl⟩
      simp [List.mapM_append, read, (hexValue?_digitChar small).2]

theorem SpellsHex.hexadecimal {count : Nat} {digits : List Char} {character : Char}
    (spells : SpellsHex count digits character.toNat) (rest : List Char) :
    readEscape.hexadecimal count (digits ++ rest) = some (character, rest) := by
  obtain ⟨values, read, value⟩ := spells.values
  have length := spells.length_eq
  have scalar : scalar? digits = some character := by
    have valid : character.toNat.isValidChar := character.valid
    simp [scalar?, read, value, valid]
  rw [readEscape.hexadecimal, ← length, List.take_left, List.drop_left]
  simp [scalar]

theorem SpellsCharacter.readBasic {spelled : List Char} {character : Char}
    (spells : SpellsCharacter spelled character) (steps : Nat) (rest : List Char) :
    readBasic (steps + 1) (spelled ++ rest) =
      (readBasic steps rest).map fun read => (character :: read.1, read.2) := by
  have escaped {body : List Char} (read : readEscape (body ++ rest) = some (character, rest)) :
      Toml.readBasic (steps + 1) ('\\' :: body ++ rest) =
        (Toml.readBasic steps rest).map fun read => (character :: read.1, read.2) := by
    rw [List.cons_append, Toml.readBasic, read]
    simp only [Option.bind_eq_bind, Option.bind_some]
    cases Toml.readBasic steps rest <;> rfl
  cases spells with
  | plain printable notQuote notBackslash =>
      rw [List.singleton_append, Toml.readBasic, if_pos (isPrintable_iff.mpr printable)]
      · cases Toml.readBasic steps rest <;> rfl
      · exact notQuote
      · exact notBackslash
  | @short letter _ member =>
      have read : readEscape ([letter] ++ rest) = some (character, rest) := by
        simp only [shortEscapes, List.mem_cons, List.not_mem_nil, or_false, Prod.mk.injEq]
          at member
        rcases member with ⟨rfl, rfl⟩ | ⟨rfl, rfl⟩ | ⟨rfl, rfl⟩ | ⟨rfl, rfl⟩ | ⟨rfl, rfl⟩ |
          ⟨rfl, rfl⟩ | ⟨rfl, rfl⟩
        all_goals rfl
      exact escaped read
  | four spells => exact escaped (spells.hexadecimal rest)
  | eight spells => exact escaped (spells.hexadecimal rest)

theorem SpellsCharacter.ne_nil {spelled : List Char} {character : Char}
    (spells : SpellsCharacter spelled character) : spelled ≠ [] := by
  cases spells with
  | plain | short | four | eight => exact List.cons_ne_nil _ _

/-- A string does not begin with its closing quote. -/
theorem SpellsCharacter.head_ne {spelled : List Char} {character first : Char}
    (spells : SpellsCharacter spelled character) {later : List Char}
    (split : spelled = first :: later) : first ≠ '"' := by
  cases spells with
  | plain _ notQuote _ =>
      obtain ⟨rfl, _⟩ := List.cons.inj split
      exact notQuote
  | short | four | eight =>
      obtain ⟨rfl, _⟩ := List.cons.inj split
      decide

/-- What a string holds does not begin with a quote. -/
theorem SpellsCharacters.head_cases {spelled characters : List Char}
    (spells : SpellsCharacters spelled characters) :
    spelled = [] ∨ ∃ first later, spelled = first :: later ∧ first ≠ '"' := by
  cases spells with
  | nil => exact .inl rfl
  | cons first _ =>
      obtain ⟨letter, later, split⟩ := List.exists_cons_of_ne_nil first.ne_nil
      exact .inr ⟨letter, _, by rw [split]; rfl, first.head_ne split⟩

theorem SpellsCharacters.readBasic {spelled characters : List Char}
    (spells : SpellsCharacters spelled characters) {steps : Nat} (enough : spelled.length ≤ steps)
    (rest : List Char) :
    readBasic (steps + 1) (spelled ++ '"' :: rest) = some (characters, rest) := by
  induction spells generalizing steps with
  | nil => rfl
  | @cons spelled more characters character first spells induction =>
      have some := List.length_pos_iff.mpr first.ne_nil
      rw [List.length_append] at enough
      obtain ⟨fewer, rfl⟩ : ∃ fewer, steps = fewer + 1 := ⟨steps - 1, by omega⟩
      rw [List.append_assoc, first.readBasic, induction (by omega)]
      rfl

theorem readLiteral_append {characters : List Char}
    (literal : ∀ character ∈ characters, Printable character ∧ character ≠ '\'')
    (rest : List Char) : readLiteral (characters ++ '\'' :: rest) = some (characters, rest) := by
  induction characters with
  | nil => rfl
  | cons first characters induction =>
      obtain ⟨⟨printable, notQuote⟩, literal⟩ := List.forall_mem_cons.mp literal
      rw [List.cons_append, readLiteral, if_pos (isPrintable_iff.mpr printable),
        induction literal]
      · rfl
      · exact notQuote

theorem SpellsString.readQuoted {spelled : List Char} {contents : String}
    (spells : SpellsString spelled contents) (rest : List Char) :
    readQuoted (spelled ++ rest) = some (contents, rest) := by
  cases spells with
  | @basic spelled _ spells =>
      have enough : spelled.length ≤ (spelled ++ '"' :: rest).length := by simp
      simp only [List.cons_append, List.append_assoc, List.nil_append, Toml.readQuoted,
        spells.readBasic enough rest, Option.bind_eq_bind, Option.bind_some, String.ofList_toList]
  | literal literal =>
      simp only [List.cons_append, List.append_assoc, List.nil_append, Toml.readQuoted,
        readLiteral_append literal rest, Option.bind_eq_bind, Option.bind_some,
        String.ofList_toList]

theorem readString_eq_readQuoted {text : List Char}
    (notBasic : ∀ more, text ≠ '"' :: '"' :: '"' :: more)
    (notLiteral : ∀ more, text ≠ '\'' :: '\'' :: '\'' :: more) :
    readString text = readQuoted text := by
  unfold readString
  split
  · exact absurd rfl (notBasic _)
  · exact absurd rfl (notLiteral _)
  · rfl

/-- A string on one line is not taken for one of several lines. -/
theorem SpellsString.readString {spelled : List Char} {contents : String}
    (spells : SpellsString spelled contents) {rest : List Char} (ends : Delimited rest) :
    readString (spelled ++ rest) = some (contents, rest) := by
  rw [readString_eq_readQuoted, spells.readQuoted rest]
  · intro more triple
    cases spells with
    | basic spells =>
        rcases spells.head_cases with rfl | ⟨first, later, rfl, notQuote⟩
        · have opened : rest = '"' :: more := by simpa using triple
          have quote := ends '"' (by simp [opened])
          simp at quote
        · simp only [List.cons_append, List.cons.injEq] at triple
          exact notQuote triple.2.1
    | literal => simp at triple
  · intro more triple
    cases spells with
    | basic => simp at triple
    | @literal _ literal =>
        cases held : contents.toList with
        | nil =>
            have opened : rest = '\'' :: more := by simpa [held] using triple
            have quote := ends '\'' (by simp [opened])
            simp at quote
        | cons first later =>
            have quote : first = '\'' := by
              simp only [held, List.cons_append, List.cons.injEq] at triple
              exact triple.2.1
            exact (literal first (by simp [held])).2 quote

theorem isBareKey_of_bare {character : Char} (bare : Bare character) :
    isBareKey character = true := by
  simpa [isBareKey, Bare, or_assoc] using bare

/-- A name is read up to what cannot go on with it. -/
theorem SpellsName.readKeyPart {spelled : List Char} {name : String}
    (spells : SpellsName spelled name) {rest : List Char}
    (ends : ∀ character ∈ rest.head?, isBareKey character = false) :
    readKeyPart (spelled ++ rest) = some (name, rest) := by
  have untaken : rest.takeWhile isBareKey = [] ∧ rest.dropWhile isBareKey = rest := by
    cases rest with
    | nil => exact ⟨rfl, rfl⟩
    | cons first rest => simp [ends first rfl]
  cases spells with
  | bare some bare =>
      have all : ∀ character ∈ name.toList, isBareKey character = true :=
        fun character member => isBareKey_of_bare (bare character member)
      have taken : (name.toList ++ rest).takeWhile isBareKey = name.toList := by
        rw [List.takeWhile_append_of_pos all, untaken.1, List.append_nil]
      have dropped : (name.toList ++ rest).dropWhile isBareKey = rest := by
        rw [List.dropWhile_append_of_pos all, untaken.2]
      rw [Toml.readKeyPart, taken, dropped]
      cases held : name.toList with
      | nil => exact absurd held some
      | cons first later => simp only [← held, String.ofList_toList]
  | quoted spells =>
      have none : (spelled ++ rest).takeWhile isBareKey = [] := by
        cases spells with
        | basic | literal => rfl
      rw [Toml.readKeyPart, none]
      exact spells.readQuoted rest

/-- A character with which neither a gap nor a header nor a document begins. -/
def BeginsName (character : Char) : Prop :=
  Visible character ∧ character ∉ ['[', ']', '\x7d', '\ufeff']

instance (character : Char) : Decidable (BeginsName character) :=
  inferInstanceAs (Decidable (_ ∧ _))

theorem SpellsName.head {spelled : List Char} {name : String} (spells : SpellsName spelled name) :
    ∃ first later, spelled = first :: later ∧ BeginsName first := by
  cases spells with
  | bare some bare =>
      obtain ⟨first, later, split⟩ := List.exists_cons_of_ne_nil some
      refine ⟨first, later, split, ?_⟩
      have bareFirst := isBareKey_of_bare (bare first (by simp [split]))
      have other : ∀ character ∈ [' ', '\t', '\n', '\r', '#', '[', ']', '\x7d', '\ufeff'],
          first ≠ character := by
        rintro character member rfl
        have none : ∀ character ∈ [' ', '\t', '\n', '\r', '#', '[', ']', '\x7d', '\ufeff'],
            isBareKey character = false := by simp [isBareKey]
        simp [none first member] at bareFirst
      simp [BeginsName, Visible, Blank, other]
  | quoted spells =>
      cases spells with
      | basic | literal => exact ⟨_, _, rfl, by decide⟩

end VehicleRelay.Toml
