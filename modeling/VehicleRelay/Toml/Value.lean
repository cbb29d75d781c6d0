/-!
# TOML values

The values of a document.  Floating point numbers and times are kept as they
are written.
-/

namespace VehicleRelay

inductive TomlValue
  | text (contents : String)
  | integer (number : Int)
  | float (literal : String)
  | boolean (value : Bool)
  | time (literal : String)
  | array (items : List TomlValue)
  | table (members : List (String × TomlValue))
deriving Inhabited

end VehicleRelay
