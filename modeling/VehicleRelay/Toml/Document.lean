import VehicleRelay.Toml.Number
import VehicleRelay.Toml.Table

/-!
# TOML documents

A document is a list of statements: headers and values under keys.  Arrays and
inline tables nest at most 79 deep, and a key has at most 79 parts.
-/

namespace VehicleRelay.Toml

def nestingLimit : Nat := 79

def isBareKey (character : Char) : Bool :=
  character.isAlphanum || character == '-' || character == '_'

def readKeyPart (text : List Char) : Option (String × List Char) :=
  match text.takeWhile isBareKey with
  | [] => readQuoted text
  | part => some (String.ofList part, text.dropWhile isBareKey)

/-- A key of at most as many parts as given, with blanks around each part. -/
def readKey : Nat → Reader (List String)
  | 0, _ => none
  | parts + 1, text => do
      let (part, rest) ← readKeyPart (skipBlanks text)
      match skipBlanks rest with
      | '.' :: rest => do
          let (path, rest) ← readKey parts rest
          some (part :: path, rest)
      | rest => some ([part], rest)

/-- A key, as the path to a table and a last name. -/
def readKeyPath (text : List Char) : Option (List String × String × List Char) := do
  let (parts, rest) ← readKey nestingLimit text
  let last ← parts.getLast?
  some (parts.dropLast, last, rest)

/-- The items of an array after its opening bracket, up to a number of them. -/
def readItems (readItem : Reader TomlValue) : Nat → Reader (List TomlValue)
  | 0, _ => none
  | steps + 1, text =>
      match skipGaps false text with
      | ']' :: rest => some ([], rest)
      | text => do
          let (item, rest) ← readItem text
          match skipGaps false rest with
          | ',' :: rest => do
              let (items, rest) ← readItems readItem steps rest
              some (item :: items, rest)
          | ']' :: rest => some ([item], rest)
          | _ => none

/-- A key and its value. -/
def readPair (readItem : Reader TomlValue) (text : List Char) :
    Option ((List String × String × TomlValue) × List Char) := do
  let (path, name, rest) ← readKeyPath text
  let rest ← expect '=' rest
  let (value, rest) ← readItem (skipBlanks rest)
  some ((path, name, value), rest)

/-- The members of an inline table, up to a number of them. -/
def readPairs (readItem : Reader TomlValue) (members : Members) : Nat → Reader Members
  | 0, _ => none
  | steps + 1, text => do
      let ((path, name, value), rest) ← readPair readItem text
      let members ← members.assign path name value
      match skipBlanks rest with
      | ',' :: rest => readPairs readItem members steps rest
      | '\x7d' :: rest => some (members, rest)
      | _ => none

/-- A value with at most as many levels of arrays and inline tables as given. -/
def readValue : Nat → Reader TomlValue
  | levels, text =>
      match text with
      | '"' :: _ | '\'' :: _ => do
          let (contents, rest) ← readString text
          some (.text contents, rest)
      | '[' :: rest =>
          match levels with
          | 0 => none
          | levels + 1 => do
              let (items, rest) ← readItems (readValue levels) (rest.length + 1) rest
              some (.array items, rest)
      | '\x7b' :: rest =>
          match levels with
          | 0 => none
          | levels + 1 =>
              match skipBlanks rest with
              | '\x7d' :: rest => some (.table [], rest)
              | rest => do
                  let (members, rest) ← readPairs (readValue levels) [] (rest.length + 1) rest
                  some (.table (membersToValues members), rest)
      | 't' :: 'r' :: 'u' :: 'e' :: rest => some (.boolean true, rest)
      | 'f' :: 'a' :: 'l' :: 's' :: 'e' :: rest => some (.boolean false, rest)
      | _ => readNumber text

inductive Statement
  | openTable (path : List String) (name : String)
  | openTables (path : List String) (name : String)
  | assign (path : List String) (name : String) (value : TomlValue)

/-- A statement and the end of its line. -/
def readStatement (text : List Char) : Option (Statement × List Char) :=
  match text with
  | '[' :: '[' :: rest => do
      let (path, name, rest) ← readKeyPath rest
      let rest ← expect ']' rest
      let rest ← expect ']' rest
      let rest ← afterLine? rest
      some (.openTables path name, rest)
  | '[' :: rest => do
      let (path, name, rest) ← readKeyPath rest
      let rest ← expect ']' rest
      let rest ← afterLine? rest
      some (.openTable path name, rest)
  | _ => do
      let ((path, name, value), rest) ← readPair (readValue nestingLimit) text
      let rest ← afterLine? rest
      some (.assign path name value, rest)

/-- The statements of a text, up to a number of lines. -/
def readStatements : Nat → List Char → Option (List Statement)
  | 0, _ => none
  | lines + 1, text =>
      match afterLine? text with
      | some [] => some []
      | some rest => readStatements lines rest
      | none => do
          let (statement, rest) ← readStatement (skipBlanks text)
          let statements ← readStatements lines rest
          some (statement :: statements)

/-- The document so far, and the header under which statements stand. -/
structure Draft where
  members : Members
  header : List String

namespace Draft

def empty : Draft := ⟨[], []⟩

def add (draft : Draft) : Statement → Option Draft
  | .openTable path name => do
      let members ← Members.extend .implied (fun _ => Members.openTable name) path .header
        draft.members
      some ⟨members, path ++ [name]⟩
  | .openTables path name => do
      let members ← Members.extend .implied (fun _ => Members.openTables name) path .header
        draft.members
      some ⟨members, path ++ [name]⟩
  | .assign path name value => do
      let members ← Members.extend .implied (fun _ => Members.assign path name value)
        draft.header .header draft.members
      some { draft with members }

end Draft

/-- The members of the table that a document stands for.  A byte order mark may
precede the document. -/
def ofText? (text : String) : Option (List (String × TomlValue)) := do
  let characters :=
    match text.toList with
    | '\ufeff' :: rest => rest
    | characters => characters
  let statements ← readStatements (characters.length + 1) characters
  let draft ← statements.foldlM Draft.add .empty
  some (membersToValues draft.members)

end VehicleRelay.Toml
