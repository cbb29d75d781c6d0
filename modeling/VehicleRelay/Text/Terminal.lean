/-!
# Text for a terminal

A terminal obeys some control characters instead of showing them.  Text for a
terminal holds none of these: they are replaced by their numbers.
-/

namespace VehicleRelay.Text

/-- Bell, backspace, form feed, escape, delete and the control characters beyond
ASCII are obeyed; blanks and line ends are harmless. -/
def isObeyed (character : Char) : Bool :=
  let number := character.toNat
  number == 0x07 || number == 0x08 || number == 0x0c || number == 0x1b ||
    (0x7f ≤ number && number ≤ 0x9f)

def hexadecimalPair (number : Nat) : List Char :=
  [Nat.digitChar (number / 16 % 16), Nat.digitChar (number % 16)]

/-- A character by its number, with braces for one beyond ASCII. -/
def numbered (character : Char) : List Char :=
  let digits := hexadecimalPair character.toNat
  if character.toNat < 0x80 then '\\' :: 'x' :: digits
  else '\\' :: 'u' :: '\x7b' :: digits ++ ['\x7d']

def forTerminal (text : String) : String :=
  String.ofList (text.toList.flatMap fun character =>
    if isObeyed character then numbered character else [character])

theorem isObeyed_digitChar (number : Nat) : isObeyed (Nat.digitChar (number % 16)) = false := by
  have every : ∀ digit < 16, isObeyed (Nat.digitChar digit) = false := by decide
  exact every _ (Nat.mod_lt _ (by decide))

theorem isObeyed_of_mem_numbered {character written : Char}
    (member : written ∈ numbered character) : isObeyed written = false := by
  have backslash : isObeyed '\\' = false := by decide
  have marks : isObeyed 'x' = false ∧ isObeyed 'u' = false := by decide
  have braces : isObeyed '\x7b' = false ∧ isObeyed '\x7d' = false := by decide
  simp only [numbered, hexadecimalPair] at member
  split at member <;>
    simp only [List.cons_append, List.nil_append, List.mem_cons, List.not_mem_nil,
      or_false] at member <;>
    grind [isObeyed_digitChar]

/-- A terminal obeys nothing in the text that is written for it. -/
theorem isObeyed_of_mem_forTerminal {text : String} {written : Char}
    (member : written ∈ (forTerminal text).toList) : isObeyed written = false := by
  simp only [forTerminal, String.toList_ofList, List.mem_flatMap] at member
  obtain ⟨character, _, member⟩ := member
  split at member
  · exact isObeyed_of_mem_numbered member
  · simp_all

end VehicleRelay.Text
