import VehicleRelay.Property.Value

/-!
# Property configurations

The configuration of a property says how it is accessed, how it changes and
which limits hold in each of its areas.
-/

namespace VehicleRelay

inductive Access
  | none
  | read
  | write
  | readWrite
deriving DecidableEq, Repr, Inhabited

instance : Coded Access where
  cases := [.none, .read, .write, .readWrite]
  name
    | .none => "none"
    | .read => "read"
    | .write => "write"
    | .readWrite => "read_write"
  code
    | .none => 0
    | .read => 1
    | .write => 2
    | .readWrite => 3
  fallback := .none

@[simp] theorem Access.ofCode_code (access : Access) :
    Coded.ofCode (Coded.code access) = access := by
  cases access <;> rfl

inductive ChangeMode
  | static
  | onChange
  | continuous
deriving DecidableEq, Repr, Inhabited

instance : Coded ChangeMode where
  cases := [.static, .onChange, .continuous]
  name
    | .static => "static"
    | .onChange => "on_change"
    | .continuous => "continuous"
  code
    | .static => 0
    | .onChange => 1
    | .continuous => 2
  fallback := .static

@[simp] theorem ChangeMode.ofCode_code (changeMode : ChangeMode) :
    Coded.ofCode (Coded.code changeMode) = changeMode := by
  cases changeMode <;> rfl

structure AreaConfig where
  area : Int32 := 0
  access : Access := .none
  minInt32 : Int32 := 0
  maxInt32 : Int32 := 0
  minInt64 : Int64 := 0
  maxInt64 : Int64 := 0
  minSingle : Single := .zero
  maxSingle : Single := .zero
  supportedEnumValues : List Int64 := []
  variableUpdateRate : Bool := false
deriving DecidableEq, Repr, Inhabited

structure PropertyConfig where
  property : Int32 := 0
  access : Access := .none
  changeMode : ChangeMode := .static
  areas : List AreaConfig := []
  numbers : List Int32 := []
  text : String := ""
  /-- In hertz, for continuous properties only. -/
  minSampleRate : Single := .zero
  maxSampleRate : Single := .zero
deriving DecidableEq, Repr, Inhabited

namespace PropertyConfig

/-- The first configuration of an area. -/
def area? (config : PropertyConfig) (area : Int32) : Option AreaConfig :=
  config.areas.find? fun candidate => candidate.area == area

/-- The areas that the property has values in; a property without areas has
values in area zero. -/
def areaIds (config : PropertyConfig) : List Int32 :=
  if config.areas.isEmpty then [0] else config.areas.map AreaConfig.area

def keys (config : PropertyConfig) : List PropertyKey :=
  config.areaIds.map fun area => ⟨config.property, area⟩

/-- The first configuration of a property in a list. -/
def find? (configs : List PropertyConfig) (property : Int32) : Option PropertyConfig :=
  configs.find? fun candidate => candidate.property == property

end PropertyConfig

end VehicleRelay
