import VehicleRelay.Json.Printer
import VehicleRelay.Json.Reader

/-!
# Numbers in JSON texts

A literal with the digits of a JSON number is read back from its text, if nothing that
goes on with the number follows it.  The literals that are written for integers and for
finite numbers have such digits, and an integer is the value of its literal.
-/

namespace VehicleRelay

namespace NumberLiteral

def IsDigits (digits : List Char) : Prop :=
  digits ≠ [] ∧ ∀ digit ∈ digits, digit.isDigit = true

/-- A whole part has no leading zero. -/
def IsWhole (digits : List Char) : Prop :=
  IsDigits digits ∧ ∀ next rest, digits ≠ '0' :: next :: rest

/-- The parts of the literal are those of a JSON number. -/
structure WellFormed (literal : NumberLiteral) : Prop where
  whole : IsWhole literal.whole
  fraction : ∀ digit ∈ literal.fraction, digit.isDigit = true
  exponent : ∀ negative digits, literal.exponent = some (negative, digits) → IsDigits digits

end NumberLiteral

namespace JsonText

open NumberLiteral

def EndsDigits (text : List Char) : Prop :=
  ∀ character rest, text = character :: rest → character.isDigit = false

/-- No character that goes on with a number stands at the front of a text. -/
def EndsNumber (text : List Char) : Prop :=
  ∀ character rest, text = character :: rest →
    character.isDigit = false ∧ character ≠ '.' ∧ character ≠ 'e' ∧ character ≠ 'E'

theorem EndsNumber.endsDigits {text : List Char} (ends : EndsNumber text) : EndsDigits text :=
  fun character rest split => (ends character rest split).1

theorem endsDigits_cons {character : Char} (other : character.isDigit = false)
    (rest : List Char) : EndsDigits (character :: rest) := by
  rintro _ _ ⟨⟩
  exact other

theorem endsNumber_nil : EndsNumber [] := nofun

theorem readDigits_append {digits rest : List Char} (all : IsDigits digits)
    (ends : EndsDigits rest) : readDigits (digits ++ rest) = some (digits, rest) := by
  obtain ⟨some, all⟩ := all
  have untaken : rest.takeWhile Char.isDigit = [] ∧ rest.dropWhile Char.isDigit = rest := by
    cases rest with
    | nil => exact ⟨rfl, rfl⟩
    | cons character rest => simp [ends character rest rfl]
  rw [readDigits, List.takeWhile_append_of_pos all, List.dropWhile_append_of_pos all,
    untaken.1, untaken.2, List.append_nil]
  cases digits with
  | nil => exact absurd rfl some
  | cons digit digits => rfl

theorem readWhole_append {digits rest : List Char} (whole : IsWhole digits)
    (ends : EndsDigits rest) : readWhole (digits ++ rest) = some (digits, rest) := by
  rw [readWhole, readDigits_append whole.1 ends]
  simp only [Option.bind_eq_bind, Option.bind_some]
  split
  · exact absurd rfl (whole.2 _ _)
  · rfl

def fractionText (digits : List Char) : List Char :=
  if digits.isEmpty then [] else '.' :: digits

def exponentText : Option (Bool × List Char) → List Char
  | none => []
  | some (true, digits) => 'e' :: '-' :: digits
  | some (false, digits) => 'e' :: '+' :: digits

theorem readExponent_append {exponent : Option (Bool × List Char)} {rest : List Char}
    (digits : ∀ negative digits, exponent = some (negative, digits) → IsDigits digits)
    (ends : EndsNumber rest) :
    readExponent (exponentText exponent ++ rest) = some (exponent, rest) := by
  match exponent with
  | none =>
      cases rest with
      | nil => rfl
      | cons character rest =>
          obtain ⟨_, _, lower, upper⟩ := ends character rest rfl
          simp [exponentText, readExponent, lower, upper]
  | some (true, written) | some (false, written) =>
      have read := readDigits_append (digits _ written rfl) ends.endsDigits
      simp [exponentText, readExponent, read]

theorem readFraction_append {digits rest : List Char}
    (all : ∀ digit ∈ digits, digit.isDigit = true)
    (ends : EndsDigits rest) (noPoint : ∀ later, rest ≠ '.' :: later) :
    readFraction (fractionText digits ++ rest) = some (digits, rest) := by
  cases digits with
  | nil =>
      simp only [fractionText, List.isEmpty_nil, if_true, List.nil_append, readFraction]
  | cons digit digits =>
      simp only [fractionText, List.isEmpty_cons, Bool.false_eq_true, if_false, List.cons_append,
        readFraction]
      exact readDigits_append ⟨List.cons_ne_nil _ _, all⟩ ends

theorem exponentText_append_ends (exponent : Option (Bool × List Char)) {rest : List Char}
    (ends : EndsNumber rest) :
    EndsDigits (exponentText exponent ++ rest) ∧
      ∀ later, exponentText exponent ++ rest ≠ '.' :: later := by
  match exponent with
  | none => exact ⟨ends.endsDigits, fun later split => (ends _ _ split).2.1 rfl⟩
  | some (true, digits) | some (false, digits) =>
      exact ⟨endsDigits_cons rfl _, by simp [exponentText]⟩

theorem fractionText_append_ends (digits : List Char) {rest : List Char}
    (ends : EndsDigits rest) : EndsDigits (fractionText digits ++ rest) := by
  cases digits with
  | nil => exact ends
  | cons digit digits => exact endsDigits_cons rfl _

theorem text_eq (literal : NumberLiteral) :
    literal.text = (if literal.negative then ['-'] else []) ++ (literal.whole ++
      (fractionText literal.fraction ++ exponentText literal.exponent)) := by
  rw [text, List.append_assoc, List.append_assoc]
  rfl

/-- A literal is read back from its text. -/
theorem readNumber_text {literal : NumberLiteral} (wellFormed : literal.WellFormed)
    {rest : List Char} (ends : EndsNumber rest) :
    readNumber (literal.text ++ rest) = some (literal, rest) := by
  obtain ⟨negative, whole, fraction, exponent⟩ := literal
  obtain ⟨isWhole, isFraction, isExponent⟩ := wellFormed
  simp only at isWhole isFraction isExponent
  obtain ⟨endsFraction, noPoint⟩ := exponentText_append_ends exponent ends
  have endsWhole := fractionText_append_ends fraction endsFraction
  have unsigned : ∀ later, whole ++ (fractionText fraction ++ (exponentText exponent ++ rest)) ≠
      '-' :: later := by
    intro later split
    cases whole with
    | nil => exact isWhole.1.1 rfl
    | cons digit digits =>
        obtain ⟨rfl, _⟩ := List.cons.inj split
        have isDigit := isWhole.1.2 _ List.mem_cons_self
        simp at isDigit
  rw [text_eq]
  cases negative with
  | true =>
      simp only [readNumber, if_true, List.append_assoc, List.cons_append, List.nil_append,
        readWhole_append isWhole endsWhole, readFraction_append isFraction endsFraction noPoint,
        readExponent_append isExponent ends, Option.bind_eq_bind, Option.bind_some]
  | false =>
      simp only [readNumber, Bool.false_eq_true, if_false, List.append_assoc, List.nil_append,
        readWhole_append isWhole endsWhole, readFraction_append isFraction endsFraction noPoint,
        readExponent_append isExponent ends, Option.bind_eq_bind, Option.bind_some]

end JsonText

/-! ## Literals that are written -/

namespace Decimal

theorem digits_isDigits (number : Nat) : NumberLiteral.IsDigits (digits number) :=
  ⟨Nat.toDigits_ne_nil, fun _ => Nat.isDigit_of_mem_toDigits (by decide) (by decide)⟩

theorem head?_digits_ne_zero {number : Nat} (positive : 0 < number) :
    (digits number).head? ≠ some '0' := by
  induction number using Nat.strongRecOn with
  | ind number induction =>
      rw [digits, Nat.toDigits_eq_if (by decide)]
      split
      · simpa using Nat.pos_iff_ne_zero.mp positive
      · have smaller := induction (number / 10) (Nat.div_lt_self positive (by decide))
          (Nat.div_pos (by omega) (by decide))
        rw [digits] at smaller
        rwa [List.head?_append, Option.or_of_isSome (by simp)]

theorem digits_isWhole (number : Nat) : NumberLiteral.IsWhole (digits number) := by
  refine ⟨digits_isDigits number, ?_⟩
  intro next rest leading
  cases number with
  | zero => simp [digits] at leading
  | succ number => exact head?_digits_ne_zero (Nat.succ_pos number) (by rw [leading]; rfl)

end Decimal

namespace NumberLiteral

theorem wellFormed_ofInt (number : Int) : (ofInt number).WellFormed where
  whole := Decimal.digits_isWhole _
  fraction := by simp [ofInt]
  exponent := by simp [ofInt]

theorem toInt?_ofInt (number : Int) : (ofInt number).toInt? = some number := by
  have magnitude : digitsValue (Decimal.digits number.natAbs) = number.natAbs :=
    Nat.ofDigitChars_ten_toDigits
  simp only [toInt?, ofInt, magnitude, decide_eq_true_eq]
  by_cases negative : number < 0
  · have nonzero : number.natAbs ≠ 0 := by omega
    rw [if_pos negative, if_neg nonzero]
    congr 1
    omega
  · rw [if_neg negative]
    congr 1
    omega

end NumberLiteral

namespace Decimal

namespace Scientific

/-- Zero is written without an exponent. -/
def PlainZero (decimal : Scientific) : Prop :=
  decimal.significand = 0 → decimal.exponent = 0

theorem significand_pos_of_reads {format : Binary.Format} {magnitude : Nat}
    (positive : magnitude ≠ 0) {decimal : Scientific}
    (reads : decimal.reads format magnitude = true) : 0 < decimal.significand := by
  apply Nat.pos_of_ne_zero
  intro zero
  have numerator : decimal.value.numerator = 0 := by
    simp only [value, zero, Binary.Ratio.scale]
    split <;> simp
  rw [Scientific.reads, Binary.Format.round, if_pos numerator] at reads
  simp only [beq_iff_eq] at reads
  exact positive reads.symm

theorem trim_plainZero {decimal : Scientific} (plain : decimal.PlainZero) :
    decimal.trim.PlainZero := by
  fun_induction trim decimal with
  | case1 decimal positive divides induction =>
      apply induction
      intro zero
      simp only at zero
      omega
  | case2 decimal positive => exact plain
  | case3 decimal => exact plain

end Scientific

theorem significand_pos_of_onGrid {format : Binary.Format} {magnitude : Nat}
    (positive : magnitude ≠ 0) {ratio : Binary.Ratio} {exponent : Int} {decimal : Scientific}
    (found : onGrid format magnitude ratio exponent = some decimal) :
    0 < decimal.significand := by
  simp only [onGrid] at found
  split at found
  · next below _ =>
      obtain rfl := Option.some.inj found
      have quotient := Scientific.significand_pos_of_reads positive below
      simp only [Binary.roundHalfEven] at quotient ⊢
      split
      · exact quotient
      · split <;> omega
  · next below _ =>
      obtain rfl := Option.some.inj found
      exact Scientific.significand_pos_of_reads positive below
  · obtain rfl := Option.some.inj found
    exact Nat.succ_pos _
  · simp at found

theorem firstGrid_plainZero {format : Binary.Format} {magnitude : Nat}
    (positive : magnitude ≠ 0) (ratio : Binary.Ratio) (exponent : Int) (grids : Nat) :
    (firstGrid format magnitude ratio exponent grids).PlainZero := by
  induction grids generalizing exponent with
  | zero => exact fun _ => rfl
  | succ grids induction =>
      rw [firstGrid]
      split
      · next decimal found =>
          intro zero
          have nonzero := significand_pos_of_onGrid positive found
          omega
      · exact induction _

theorem shortest_plainZero (format : Binary.Format) {magnitude : Nat} (positive : magnitude ≠ 0) :
    (shortest format magnitude).PlainZero :=
  Scientific.trim_plainZero (firstGrid_plainZero positive _ _ _)

end Decimal

namespace NumberLiteral

theorem isDigit_of_mem_zeros {count : Nat} {digit : Char} (member : digit ∈ zeros count) :
    digit.isDigit = true := by
  rw [List.eq_of_mem_replicate member]
  rfl

theorem IsWhole.append_zeros {digits : List Char} (whole : IsWhole digits) {count : Nat}
    (zero : digits.head? = some '0' → count = 0) : IsWhole (digits ++ zeros count) := by
  obtain ⟨⟨some, all⟩, noLeadingZero⟩ := whole
  refine ⟨⟨by simp [some], ?_⟩, ?_⟩
  · intro digit member
    rcases List.mem_append.mp member with early | late
    · exact all digit early
    · exact isDigit_of_mem_zeros late
  · intro next rest leading
    have first : digits.head? = Option.some '0' := by
      have head := congrArg List.head? leading
      rwa [List.head?_append, Option.or_of_isSome (by simpa using some)] at head
    rw [zero first, zeros, List.replicate_zero, List.append_nil] at leading
    exact noLeadingZero next rest leading

theorem IsWhole.take {digits : List Char} (whole : IsWhole digits) {count : Nat}
    (positive : 0 < count) : IsWhole (digits.take count) := by
  obtain ⟨⟨some, all⟩, noLeadingZero⟩ := whole
  refine ⟨⟨?_, fun digit member => all digit (List.mem_of_mem_take member)⟩, ?_⟩
  · rw [ne_eq, List.take_eq_nil_iff, not_or]
    exact ⟨Nat.pos_iff_ne_zero.mp positive, some⟩
  · intro next rest leading
    have split := List.take_append_drop count digits
    rw [leading] at split
    exact noLeadingZero next (rest ++ digits.drop count) split.symm

theorem wellFormed_ofScientific (negative : Bool) {decimal : Decimal.Scientific}
    (plain : decimal.PlainZero) :
    (ofScientific negative (Decimal.digits decimal.significand) decimal.exponent).WellFormed := by
  have whole := Decimal.digits_isWhole decimal.significand
  have isDigit := whole.1.2
  simp only [ofScientific]
  split
  · split
    · next notNegative =>
        refine ⟨whole.append_zeros ?_, by simp, nofun⟩
        intro leading
        have zero : decimal.significand = 0 :=
          Nat.eq_zero_of_not_pos fun positive => Decimal.head?_digits_ne_zero positive leading
        rw [plain zero]
        rfl
    · split
      · exact ⟨whole.take (Nat.succ_pos _),
          fun digit member => isDigit digit (List.mem_of_mem_drop member), nofun⟩
      · refine ⟨Decimal.digits_isWhole 0, ?_, nofun⟩
        intro digit member
        rcases List.mem_append.mp member with early | late
        · exact isDigit_of_mem_zeros early
        · exact isDigit digit late
  · refine ⟨whole.take Nat.zero_lt_one,
      fun digit member => isDigit digit (List.mem_of_mem_drop member), ?_⟩
    rintro _ digits ⟨⟩
    exact Decimal.digits_isDigits _

theorem wellFormed_ofSingle (number : Single) : (ofSingle number).WellFormed := by
  simp only [ofSingle]
  split
  · exact ⟨Decimal.digits_isWhole 0, by simp, nofun⟩
  · next nonzero =>
      apply wellFormed_ofScientific
      exact Decimal.shortest_plainZero Binary.single (by simpa [Single.isZero] using nonzero)

end NumberLiteral

end VehicleRelay
