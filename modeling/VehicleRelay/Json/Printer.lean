import VehicleRelay.Json.Value

/-!
# Writing JSON

JSON is written without blanks.  In strings only quotes, backslashes and control
characters are escaped.
-/

namespace VehicleRelay

namespace JsonText

def hexDigit (number : Nat) : Char :=
  Nat.digitChar (number % 16)

def escape (character : Char) : List Char :=
  match character with
  | '"' => ['\\', '"']
  | '\\' => ['\\', '\\']
  | '\x08' => ['\\', 'b']
  | '\t' => ['\\', 't']
  | '\n' => ['\\', 'n']
  | '\x0c' => ['\\', 'f']
  | '\r' => ['\\', 'r']
  | other =>
      if other.toNat < 0x20 then
        ['\\', 'u', '0', '0', hexDigit (other.toNat / 16), hexDigit other.toNat]
      else [other]

/-- A string without contents is written as one lone surrogate. -/
def quote (contents : Option String) : List Char :=
  let inner :=
    match contents with
    | some contents => contents.toList.flatMap escape
    | none => ['\\', 'u', 'd', '8', '0', '0']
  '"' :: inner ++ ['"']

end JsonText

namespace JsonValue

mutual

def print : JsonValue → List Char
  | .null => ['n', 'u', 'l', 'l']
  | .bool true => ['t', 'r', 'u', 'e']
  | .bool false => ['f', 'a', 'l', 's', 'e']
  | .number literal => literal.text
  | .text contents => JsonText.quote contents
  | .array items => '[' :: printItems items ++ [']']
  | .object members => '\x7b' :: printMembers members ++ ['\x7d']

def printItems : List JsonValue → List Char
  | [] => []
  | [item] => item.print
  | item :: items => item.print ++ ',' :: printItems items

def printMembers : List (Option String × JsonValue) → List Char
  | [] => []
  | [(name, value)] => JsonText.quote name ++ ':' :: value.print
  | (name, value) :: members =>
      JsonText.quote name ++ ':' :: value.print ++ ',' :: printMembers members

end

def toText (value : JsonValue) : String :=
  String.ofList value.print

end JsonValue

end VehicleRelay
