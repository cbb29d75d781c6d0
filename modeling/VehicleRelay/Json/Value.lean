import VehicleRelay.Json.Literal

/-!
# JSON values

A JSON value keeps numbers as they are written.  A string that escapes half of
a surrogate pair has no contents; such a string may stand where nobody reads
it.
-/

namespace VehicleRelay

inductive JsonValue
  | null
  | bool (value : Bool)
  | number (literal : NumberLiteral)
  | text (contents : Option String)
  | array (items : List JsonValue)
  | object (members : List (Option String × JsonValue))
deriving Inhabited

end VehicleRelay
