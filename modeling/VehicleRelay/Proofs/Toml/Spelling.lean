import Mathlib.Data.List.Nodup
import VehicleRelay.Decimal.Integer
import VehicleRelay.Toml.Document

/-!
# Spellings of documents

A document has more than one spelling: blanks, remarks and line ends are free, a name may be
bare or quoted, and a character of a string may stand for itself or be escaped.  The relations
below say which texts spell a document without naming a reader.  They leave out floating point
numbers, times, strings of several lines and tables that dotted names or repeated headers make.
-/

namespace VehicleRelay.Toml

/-! ## Characters -/

def Blank (character : Char) : Prop :=
  character = ' ' ∨ character = '\t'

instance (character : Char) : Decidable (Blank character) :=
  inferInstanceAs (Decidable (_ ∨ _))

/-- A character that may stand for itself in a string or in a remark. -/
def Printable (character : Char) : Prop :=
  character = '\t' ∨ 0x20 ≤ character.toNat ∧ character.toNat ≠ 0x7f

/-- A character of a name that is not quoted. -/
def Bare (character : Char) : Prop :=
  character.isAlphanum = true ∨ character = '-' ∨ character = '_'

def Blanks (text : List Char) : Prop :=
  ∀ character ∈ text, Blank character

inductive Newline : List Char → Prop
  | lineFeed : Newline ['\n']
  | carriageReturn : Newline ['\r', '\n']

/-- Blanks, and a comment if there is one. -/
inductive Remark : List Char → Prop
  | nil : Remark []
  | blank {character : Char} {more : List Char} :
      Blank character → Remark more → Remark (character :: more)
  | comment {words : List Char} : (∀ character ∈ words, Printable character) →
      Remark ('#' :: words)

/-- What may stand between the items of an array. -/
inductive Gap : List Char → Prop
  | blanks {text : List Char} : Blanks text → Gap text
  | line {remark newline more : List Char} : Remark remark → Newline newline → Gap more →
      Gap (remark ++ (newline ++ more))

/-! ## Strings and names -/

/-- Hexadecimal digits of either case, the highest first, and their number. -/
inductive SpellsHex : Nat → List Char → Nat → Prop
  | nil : SpellsHex 0 [] 0
  | lower {count high low : Nat} {digits : List Char} : SpellsHex count digits high →
      low < 16 → SpellsHex (count + 1) (digits ++ [Nat.digitChar low]) (high * 16 + low)
  | upper {count high low : Nat} {digits : List Char} : SpellsHex count digits high →
      low < 16 → SpellsHex (count + 1) (digits ++ [(Nat.digitChar low).toUpper]) (high * 16 + low)

/-- The letters of the short escapes, with what they stand for. -/
def shortEscapes : List (Char × Char) :=
  [('b', '\x08'), ('t', '\t'), ('n', '\n'), ('f', '\x0c'), ('r', '\r'), ('"', '"'), ('\\', '\\')]

inductive SpellsCharacter : List Char → Char → Prop
  | plain {character : Char} : Printable character → character ≠ '"' → character ≠ '\\' →
      SpellsCharacter [character] character
  | short {letter character : Char} : (letter, character) ∈ shortEscapes →
      SpellsCharacter ['\\', letter] character
  | four {digits : List Char} {character : Char} : SpellsHex 4 digits character.toNat →
      SpellsCharacter ('\\' :: 'u' :: digits) character
  | eight {digits : List Char} {character : Char} : SpellsHex 8 digits character.toNat →
      SpellsCharacter ('\\' :: 'U' :: digits) character

inductive SpellsCharacters : List Char → List Char → Prop
  | nil : SpellsCharacters [] []
  | cons {spelled more characters : List Char} {character : Char} :
      SpellsCharacter spelled character → SpellsCharacters more characters →
      SpellsCharacters (spelled ++ more) (character :: characters)

inductive SpellsString : List Char → String → Prop
  | basic {spelled : List Char} {contents : String} : SpellsCharacters spelled contents.toList →
      SpellsString ('"' :: (spelled ++ ['"'])) contents
  | literal {contents : String} :
      (∀ character ∈ contents.toList, Printable character ∧ character ≠ '\'') →
      SpellsString ('\'' :: (contents.toList ++ ['\''])) contents

inductive SpellsName : List Char → String → Prop
  | bare {name : String} : name.toList ≠ [] → (∀ character ∈ name.toList, Bare character) →
      SpellsName name.toList name
  | quoted {spelled : List Char} {name : String} : SpellsString spelled name →
      SpellsName spelled name

/-! ## Integers -/

/-- Digits with single underscores between them. -/
inductive SpellsDigits : List Char → List Char → Prop
  | last (digit : Char) : SpellsDigits [digit] [digit]
  | next {digit : Char} {spelled digits : List Char} : SpellsDigits spelled digits →
      SpellsDigits (digit :: spelled) (digit :: digits)
  | apart {digit : Char} {spelled digits : List Char} : SpellsDigits spelled digits →
      SpellsDigits (digit :: '_' :: spelled) (digit :: digits)

/-- An integer in decimal, without leading zeros. -/
inductive SpellsInteger : List Char → Int → Prop
  | unsigned {spelled : List Char} {number : Nat} :
      SpellsDigits spelled (Decimal.digits number) → SpellsInteger spelled number
  | plus {spelled : List Char} {number : Nat} :
      SpellsDigits spelled (Decimal.digits number) → SpellsInteger ('+' :: spelled) number
  | minus {spelled : List Char} {number : Nat} :
      SpellsDigits spelled (Decimal.digits number) → SpellsInteger ('-' :: spelled) (-number)

/-! ## Values -/

section

variable (SpellsItem : List Char → TomlValue → Prop)

/-- The items of an array, up to the closing bracket.  A comma may follow the last one. -/
inductive SpellsItems : List Char → List TomlValue → Prop
  | nil {gap : List Char} : Gap gap → SpellsItems (gap ++ [']']) []
  | last {before spelled after : List Char} {item : TomlValue} :
      Gap before → SpellsItem spelled item → Gap after →
      SpellsItems (before ++ (spelled ++ (after ++ [']']))) [item]
  | next {before spelled after more : List Char} {item : TomlValue} {items : List TomlValue} :
      Gap before → SpellsItem spelled item → Gap after → SpellsItems more items →
      SpellsItems (before ++ (spelled ++ (after ++ ',' :: more))) (item :: items)

/-- A name with its value. -/
inductive SpellsPair : List Char → String × TomlValue → Prop
  | pair {before name after between spelled : List Char} {key : String} {value : TomlValue} :
      Blanks before → SpellsName name key → Blanks after → Blanks between →
      SpellsItem spelled value →
      SpellsPair (before ++ (name ++ (after ++ '=' :: (between ++ spelled)))) (key, value)

/-- The members of an inline table, up to the closing brace. -/
inductive SpellsMembers : List Char → List (String × TomlValue) → Prop
  | last {spelled after : List Char} {member : String × TomlValue} :
      SpellsPair SpellsItem spelled member → Blanks after →
      SpellsMembers (spelled ++ (after ++ ['\x7d'])) [member]
  | next {spelled after more : List Char} {member : String × TomlValue}
      {members : List (String × TomlValue)} :
      SpellsPair SpellsItem spelled member → Blanks after → SpellsMembers more members →
      SpellsMembers (spelled ++ (after ++ ',' :: more)) (member :: members)

end

inductive SpellsScalar : List Char → TomlValue → Prop
  | text {spelled : List Char} {contents : String} : SpellsString spelled contents →
      SpellsScalar spelled (.text contents)
  | integer {spelled : List Char} {number : Int} : SpellsInteger spelled number →
      Int64.minValue.toInt ≤ number → number ≤ Int64.maxValue.toInt →
      SpellsScalar spelled (.integer number)
  | yes : SpellsScalar ['t', 'r', 'u', 'e'] (.boolean true)
  | no : SpellsScalar ['f', 'a', 'l', 's', 'e'] (.boolean false)

/-- A value whose parts are spelled in some way.  The names of an inline table differ. -/
inductive SpellsNested (SpellsItem : List Char → TomlValue → Prop) : List Char → TomlValue → Prop
  | scalar {spelled : List Char} {value : TomlValue} : SpellsScalar spelled value →
      SpellsNested SpellsItem spelled value
  | array {spelled : List Char} {items : List TomlValue} : SpellsItems SpellsItem spelled items →
      SpellsNested SpellsItem ('[' :: spelled) (.array items)
  | empty {blanks : List Char} : Blanks blanks →
      SpellsNested SpellsItem ('\x7b' :: (blanks ++ ['\x7d'])) (.table [])
  | table {spelled : List Char} {members : List (String × TomlValue)} :
      SpellsMembers SpellsItem spelled members → (members.map Prod.fst).Nodup →
      SpellsNested SpellsItem ('\x7b' :: spelled) (.table members)

/-- A value with at most as many levels of arrays and inline tables as given. -/
def SpellsValue : Nat → List Char → TomlValue → Prop
  | 0 => SpellsScalar
  | levels + 1 => SpellsNested (SpellsValue levels)

/-! ## Documents -/

inductive SpellsStatement : List Char → Statement → Prop
  | assign {spelled : List Char} {name : String} {value : TomlValue} :
      SpellsPair (SpellsValue 79) spelled (name, value) →
      SpellsStatement spelled (.assign [] name value)
  | openTable {before inside spelled after : List Char} {name : String} :
      Blanks before → Blanks inside → SpellsName spelled name → Blanks after →
      SpellsStatement (before ++ '[' :: (inside ++ (spelled ++ (after ++ [']']))))
        (.openTable [] name)

/-- Statements on lines of their own, with remarks behind and between them.  The last line
need not be ended. -/
inductive SpellsStatements : List Char → List Statement → Prop
  | rest {remark : List Char} : Remark remark → SpellsStatements remark []
  | skip {remark newline more : List Char} {statements : List Statement} :
      Remark remark → Newline newline → SpellsStatements more statements →
      SpellsStatements (remark ++ (newline ++ more)) statements
  | last {spelled remark : List Char} {statement : Statement} :
      SpellsStatement spelled statement → Remark remark →
      SpellsStatements (spelled ++ remark) [statement]
  | next {spelled remark newline more : List Char} {statement : Statement}
      {statements : List Statement} :
      SpellsStatement spelled statement → Remark remark → Newline newline →
      SpellsStatements more statements →
      SpellsStatements (spelled ++ (remark ++ (newline ++ more))) (statement :: statements)

def assignments (members : List (String × TomlValue)) : List Statement :=
  members.map fun member => .assign [] member.1 member.2

/-- A header with the members of its table. -/
def sectionStatements (part : String × List (String × TomlValue)) : List Statement :=
  .openTable [] part.1 :: assignments part.2

def tableOf (part : String × List (String × TomlValue)) : String × TomlValue :=
  (part.1, .table part.2)

/-- A text spells a document if its statements are the members that stand before all headers,
and then the sections.  No name is given twice.  A byte order mark may precede the text. -/
inductive SpellsDocument : String → List (String × TomlValue) → Prop
  | document {text : String} {mark spelled : List Char} {plain : List (String × TomlValue)}
      {sections : List (String × List (String × TomlValue))} :
      mark = [] ∨ mark = ['\ufeff'] → text.toList = mark ++ spelled →
      SpellsStatements spelled (assignments plain ++ sections.flatMap sectionStatements) →
      (plain.map Prod.fst ++ sections.map Prod.fst).Nodup →
      (∀ part ∈ sections, (part.2.map Prod.fst).Nodup) →
      SpellsDocument text (plain ++ sections.map tableOf)

end VehicleRelay.Toml
