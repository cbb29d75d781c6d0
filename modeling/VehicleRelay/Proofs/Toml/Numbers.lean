import VehicleRelay.Proofs.Json.Numbers
import VehicleRelay.Proofs.Toml.Tokens

/-!
# Integers in documents

An integer is read back from any of its spellings.  The readers of times and of floating point
numbers, which try it first, leave it alone.
-/

namespace VehicleRelay.Toml

/-! ## Digits -/

theorem hexValue?_of_isDigit {digit : Char} (decimal : digit.isDigit = true) :
    hexValue? digit = some (digit.toNat - '0'.toNat) := by
  have bounds : '0' ≤ digit ∧ digit ≤ '9' := by
    simp only [Char.isDigit, Bool.and_eq_true, decide_eq_true_eq] at decimal
    exact decimal
  rw [hexValue?, if_pos bounds]

theorem digitsValue_digits (number : Nat) : digitsValue 10 (Decimal.digits number) = number := by
  have decimal : ∀ sum, ∀ digit ∈ Decimal.digits number,
      sum * 10 + (hexValue? digit).getD 0 = 10 * sum + (digit.toNat - '0'.toNat) := by
    intro sum digit member
    rw [hexValue?_of_isDigit ((Decimal.digits_isDigits number).2 digit member), Nat.mul_comm]
    rfl
  have value : Nat.ofDigitChars 10 (Decimal.digits number) 0 = number :=
    Nat.ofDigitChars_ten_toDigits
  rw [digitsValue, List.foldl_ext _ _ _ decimal]
  exact value

/-- Nothing that goes on with a number follows a value. -/
theorem Delimited.ends_number {rest : List Char} (ends : Delimited rest) {character : Char}
    (member : character ∈ rest.head?) : character.isDigit = false ∧
      character ∉ ['_', '-', ':', '.', 'e', 'E', 'x', 'o', 'b'] := by
  have each : ∀ character ∈ [' ', '\t', '\n', '\r', '#', ',', ']', '\x7d'],
      character.isDigit = false ∧
        character ∉ ['_', '-', ':', '.', 'e', 'E', 'x', 'o', 'b'] := by simp
  exact each character (ends character member)

theorem more_of_digit {digit : Char} (decimal : digit.isDigit = true) (text : List Char) :
    readRun.more Char.isDigit (digit :: text) =
      (digit :: (readRun.more Char.isDigit text).1, (readRun.more Char.isDigit text).2) := by
  have other : digit ≠ '_' := by
    rintro rfl
    simp at decimal
  rw [readRun.more, if_pos decimal]
  exact fun _ _ same _ => other same

theorem more_of_delimited {rest : List Char} (ends : Delimited rest) :
    readRun.more Char.isDigit rest = ([], rest) := by
  cases rest with
  | nil => rfl
  | cons first rest =>
      obtain ⟨notDigit, others⟩ := ends.ends_number rfl
      have notUnderscore : first ≠ '_' := by
        rintro rfl
        simp at others
      rw [readRun.more, notDigit]
      · rfl
      · exact fun _ _ same _ => notUnderscore same

theorem more_of_underscore {digit : Char} (decimal : digit.isDigit = true) (text : List Char) :
    readRun.more Char.isDigit ('_' :: digit :: text) =
      readRun.more Char.isDigit (digit :: text) := by
  rw [more_of_digit decimal, readRun.more, if_pos decimal]

namespace SpellsDigits

variable {spelled digits rest : List Char}

/-- The first digit stands first. -/
theorem head_eq (spells : SpellsDigits spelled digits) :
    ∃ first more others, spelled = first :: more ∧ digits = first :: others := by
  cases spells with
  | last | next | apart => exact ⟨_, _, _, rfl, rfl⟩

theorem more (spells : SpellsDigits spelled digits)
    (decimal : ∀ digit ∈ digits, digit.isDigit = true) (ends : Delimited rest) :
    readRun.more Char.isDigit (spelled ++ rest) = (digits, rest) := by
  induction spells with
  | last digit =>
      rw [List.singleton_append, more_of_digit (decimal digit List.mem_cons_self),
        more_of_delimited ends]
  | next spells induction =>
      obtain ⟨first, decimal⟩ := List.forall_mem_cons.mp decimal
      rw [List.cons_append, more_of_digit first, induction decimal]
  | apart spells induction =>
      obtain ⟨first, decimal⟩ := List.forall_mem_cons.mp decimal
      obtain ⟨second, more, others, rfl, rfl⟩ := spells.head_eq
      have read := induction decimal
      rw [List.cons_append] at read
      rw [List.cons_append, List.cons_append, List.cons_append, more_of_digit first,
        more_of_underscore (decimal second List.mem_cons_self), read]

theorem readRun (spells : SpellsDigits spelled digits)
    (decimal : ∀ digit ∈ digits, digit.isDigit = true) (ends : Delimited rest) :
    readRun Char.isDigit (spelled ++ rest) = some (digits, rest) := by
  have read := spells.more decimal ends
  obtain ⟨first, more, others, rfl, rfl⟩ := spells.head_eq
  have firstDecimal := decimal first List.mem_cons_self
  rw [List.cons_append, more_of_digit firstDecimal] at read
  rw [List.cons_append, Toml.readRun, if_pos firstDecimal]
  exact congrArg some read

theorem readWhole {number : Nat} (spells : SpellsDigits spelled (Decimal.digits number))
    (ends : Delimited rest) :
    readWhole (spelled ++ rest) = some (Decimal.digits number, rest) := by
  have read := spells.readRun (Decimal.digits_isDigits number).2 ends
  have leading := (Decimal.digits_isWhole number).2
  obtain ⟨first, more, others, rfl, digits⟩ := spells.head_eq
  by_cases zero : first = '0'
  · subst zero
    rw [digits] at spells leading ⊢
    cases spells with
    | last => rfl
    | next spells | apart spells =>
        obtain ⟨second, _, others, _, rfl⟩ := spells.head_eq
        exact absurd rfl (leading second others)
  · rw [List.cons_append] at read ⊢
    rw [Toml.readWhole, read]
    exact fun _ same => zero (List.cons.inj same).1

/-- What stands behind the first digits is no sign and no colon. -/
theorem dropWhile_head? (spells : SpellsDigits spelled digits)
    (decimal : ∀ digit ∈ digits, digit.isDigit = true) (ends : Delimited rest) {mark : Char}
    (marks : mark = '-' ∨ mark = ':') :
    ((spelled ++ rest).dropWhile Char.isDigit).head? ≠ some mark := by
  induction spells with
  | last digit =>
      rw [List.singleton_append, List.dropWhile_cons_of_pos (decimal digit List.mem_cons_self)]
      intro found
      cases rest with
      | nil => simp at found
      | cons first rest =>
          obtain ⟨notDigit, others⟩ := ends.ends_number rfl
          rw [List.dropWhile_cons_of_neg (by simp [notDigit])] at found
          obtain rfl : first = mark := by simpa using found
          rcases marks with rfl | rfl
          all_goals simp at others
  | next spells induction =>
      obtain ⟨first, decimal⟩ := List.forall_mem_cons.mp decimal
      rw [List.cons_append, List.dropWhile_cons_of_pos first]
      exact induction decimal
  | apart spells induction =>
      obtain ⟨first, decimal⟩ := List.forall_mem_cons.mp decimal
      rw [List.cons_append, List.dropWhile_cons_of_pos first]
      rcases marks with rfl | rfl
      all_goals simp

end SpellsDigits

/-! ## Times and floating point numbers -/

theorem dropWhile_of_readField {count least greatest value : Nat} {text after : List Char}
    (read : readField count least greatest text = some (value, after)) :
    text.dropWhile Char.isDigit = after.dropWhile Char.isDigit := by
  simp only [readField] at read
  obtain ⟨⟨_, decimal, _⟩, same⟩ := Option.ite_none_right_eq_some.mp read
  obtain ⟨_, rfl⟩ := Prod.mk.inj (Option.some.inj same)
  have all : ∀ digit ∈ text.take count, digit.isDigit = true := List.all_eq_true.mp decimal
  conv_lhs => rw [← List.take_append_drop count text]
  exact List.dropWhile_append_of_pos all

theorem head?_of_expect {mark : Char} {text after : List Char}
    (read : expect mark text = some after) : text.head? = some mark := by
  cases text with
  | nil => simp [expect] at read
  | cons first text =>
      obtain ⟨rfl, _⟩ := Option.ite_none_right_eq_some.mp read
      rfl

/-- A field of digits with a mark behind it. -/
theorem head?_of_readField {count least greatest value : Nat} {text after final : List Char}
    {mark : Char} (other : mark.isDigit = false)
    (read : readField count least greatest text = some (value, after))
    (marked : expect mark after = some final) :
    (text.dropWhile Char.isDigit).head? = some mark := by
  rw [dropWhile_of_readField read]
  have found := head?_of_expect marked
  cases after with
  | nil => simp at found
  | cons first after =>
      obtain rfl : first = mark := by simpa using found
      rw [List.dropWhile_cons_of_neg (by simp [other])]
      rfl

theorem readTime_eq_none {text : List Char}
    (noDate : (text.dropWhile Char.isDigit).head? ≠ some '-')
    (noTime : (text.dropWhile Char.isDigit).head? ≠ some ':') : readTime text = none := by
  have undated : afterDate? text = none := by
    apply Option.eq_none_iff_forall_ne_some.mpr
    intro after dated
    obtain ⟨⟨year, next⟩, read, dated⟩ := Option.bind_eq_some_iff.mp dated
    obtain ⟨final, marked, _⟩ := Option.bind_eq_some_iff.mp dated
    exact noDate (head?_of_readField rfl read marked)
  have untimed : afterTimeOfDay? text = none := by
    apply Option.eq_none_iff_forall_ne_some.mpr
    intro after timed
    obtain ⟨⟨hour, next⟩, read, timed⟩ := Option.bind_eq_some_iff.mp timed
    obtain ⟨final, marked, _⟩ := Option.bind_eq_some_iff.mp timed
    exact noTime (head?_of_readField rfl read marked)
  rw [readTime, undated, untimed]
  rfl

theorem readField_of_sign {sign : Char} (other : sign.isDigit = false) (count least greatest : Nat)
    (text : List Char) : readField (count + 1) least greatest (sign :: text) = none := by
  simp [readField, other]

theorem readTime_of_sign {sign : Char} (other : sign.isDigit = false) (text : List Char) :
    readTime (sign :: text) = none := by
  simp [readTime, afterDate?, afterTimeOfDay?, readField_of_sign other]

theorem Delimited.readExponent {rest : List Char} (ends : Delimited rest) :
    readExponent rest = none := by
  cases rest with
  | nil => rfl
  | cons next rest =>
      obtain ⟨_, others⟩ := ends.ends_number rfl
      simp only [List.mem_cons, List.not_mem_nil, or_false, not_or] at others
      obtain ⟨_, _, _, _, notLower, notUpper, _⟩ := others
      simp [Toml.readExponent, notLower, notUpper]

/-- A whole number without a fraction and without an exponent has no point. -/
theorem readFloat_eq_none {text spelled rest : List Char} {negative : Bool} {number : Nat}
    (spells : SpellsDigits spelled (Decimal.digits number)) (ends : Delimited rest)
    (signed : readSign text = (negative, spelled ++ rest)) : readFloat text = none := by
  have read := spells.readWhole ends
  have decimal := (Decimal.digits_isDigits number).2
  obtain ⟨first, more, others, rfl, digits⟩ := spells.head_eq
  have firstDecimal : first.isDigit = true := decimal first (digits ▸ List.mem_cons_self)
  unfold readFloat
  simp only [signed]
  split
  · next same =>
      obtain ⟨rfl, _⟩ := List.cons.inj same
      simp at firstDecimal
  · next same =>
      obtain ⟨rfl, _⟩ := List.cons.inj same
      simp at firstDecimal
  · rw [read]
    simp only [Option.bind_eq_bind, Option.bind_some]
    split
    · obtain ⟨_, others⟩ := ends.ends_number rfl
      simp at others
    · rw [ends.readExponent]
      rfl

theorem readInteger_eq {text spelled rest : List Char} {negative : Bool} {number : Nat}
    (spells : SpellsDigits spelled (Decimal.digits number)) (ends : Delimited rest)
    (signed : readSign text = (negative, spelled ++ rest))
    (decimal : ∀ mark more, text = '0' :: mark :: more → mark ∉ ['x', 'o', 'b']) :
    readInteger text = (integer? (if negative then -number else number)).map (·, rest) := by
  unfold readInteger
  split
  · exact absurd (decimal _ _ rfl) (by simp)
  · exact absurd (decimal _ _ rfl) (by simp)
  · exact absurd (decimal _ _ rfl) (by simp)
  · simp only [signed, spells.readWhole ends, digitsValue_digits, Option.bind_eq_bind,
      Option.bind_some]
    cases integer? (if negative then -number else number) <;> rfl

/-- The mark of another base does not follow a number that is written in decimal. -/
theorem SpellsDigits.decimal {spelled rest : List Char} {number : Nat}
    (spells : SpellsDigits spelled (Decimal.digits number)) (ends : Delimited rest) {mark : Char}
    {more : List Char} (split : spelled ++ rest = '0' :: mark :: more) :
    mark ∉ ['x', 'o', 'b'] := by
  have read := spells.readWhole ends
  rw [split, Toml.readWhole] at read
  obtain ⟨_, rfl⟩ := Prod.mk.inj (Option.some.inj read)
  obtain ⟨_, others⟩ := ends.ends_number rfl
  simp only [List.mem_cons, not_or] at others ⊢
  exact others.2.2.2.2.2.2

theorem SpellsInteger.readNumber {spelled rest : List Char} {number : Int}
    (spells : SpellsInteger spelled number) (least : Int64.minValue.toInt ≤ number)
    (greatest : number ≤ Int64.maxValue.toInt) (ends : Delimited rest) :
    readNumber (spelled ++ rest) = some (.integer number, rest) := by
  have made : integer? number = some (.integer number) := if_pos ⟨least, greatest⟩
  cases spells with
  | @unsigned _ magnitude spells =>
      have decimal := (Decimal.digits_isDigits magnitude).2
      have noTime := readTime_eq_none (spells.dropWhile_head? decimal ends (.inl rfl))
        (spells.dropWhile_head? decimal ends (.inr rfl))
      have signed : readSign (spelled ++ rest) = (false, spelled ++ rest) := by
        obtain ⟨first, more, others, rfl, digits⟩ := spells.head_eq
        have firstDecimal : first.isDigit = true := decimal first (digits ▸ List.mem_cons_self)
        unfold readSign
        split
        · next same =>
            obtain ⟨rfl, _⟩ := List.cons.inj same
            simp at firstDecimal
        · next same =>
            obtain ⟨rfl, _⟩ := List.cons.inj same
            simp at firstDecimal
        · rfl
      rw [Toml.readNumber, noTime, readFloat_eq_none spells ends signed,
        readInteger_eq spells ends signed fun _ _ => spells.decimal ends, if_neg Bool.false_ne_true,
        made]
      rfl
  | @plus spelled magnitude spells =>
      have signed : readSign ('+' :: (spelled ++ rest)) = (false, spelled ++ rest) := rfl
      rw [Toml.readNumber, List.cons_append, readTime_of_sign rfl,
        readFloat_eq_none spells ends signed, readInteger_eq spells ends signed (by simp),
        if_neg Bool.false_ne_true, made]
      rfl
  | @minus spelled magnitude spells =>
      have signed : readSign ('-' :: (spelled ++ rest)) = (true, spelled ++ rest) := rfl
      rw [Toml.readNumber, List.cons_append, readTime_of_sign rfl,
        readFloat_eq_none spells ends signed, readInteger_eq spells ends signed (by simp),
        if_pos rfl, made]
      rfl

end VehicleRelay.Toml
