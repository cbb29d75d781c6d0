import VehicleRelay.Toml.Value

/-!
# Tables under construction

Statements of a document extend one tree of tables.  A table remembers how it
came to be, because that decides which statements may extend it: a table with a
header of its own has no second header and no dotted keys from outside, and a
table made by dotted keys has no header.
-/

namespace VehicleRelay.Toml

inductive TableOrigin
  /-- Named on the way to a table with a header. -/
  | implied
  /-- Named on the way to a value. -/
  | dotted
  | header
deriving DecidableEq, Repr

inductive Item
  | value (value : TomlValue)
  | table (origin : TableOrigin) (members : List (String × Item))
  /-- Tables with a repeated header, the latest one first. -/
  | tables (latest : List (String × Item)) (earlier : List (List (String × Item)))

abbrev Members := List (String × Item)

namespace Members

/-- Replaces the item of a name, or adds one. -/
def put (name : String) (item : Item) : Members → Members
  | [] => [(name, item)]
  | (other, stored) :: rest =>
      if other = name then (name, item) :: rest else (other, stored) :: put name item rest

/-- Extends the table at the end of a path, with tables of one origin for the
names that are new.  A dotted path does not pass a table that has a header. -/
def extend (origin : TableOrigin) (change : TableOrigin → Members → Option Members) :
    List String → TableOrigin → Members → Option Members
  | [], reached, members => change reached members
  | name :: path, _, members =>
      match members.lookup name with
      | none => do
          let inner ← extend origin change path origin []
          some (members.put name (.table origin inner))
      | some (.value _) => none
      | some (.table stored inner) =>
          if origin = .dotted ∧ stored = .header then none
          else do
            let inner ← extend origin change path stored inner
            some (members.put name (.table stored inner))
      | some (.tables latest earlier) => do
          let latest ← extend origin change path .header latest
          some (members.put name (.tables latest earlier))

/-- Adds a value under a dotted key.  The table that gets it is either the one
in which the key is written or one made by dotted keys. -/
def assign (path : List String) (name : String) (value : TomlValue) (members : Members) :
    Option Members :=
  let add (reached : TableOrigin) (members : Members) : Option Members :=
    if (path = [] ∨ reached = .dotted) ∧ (members.lookup name).isNone then
      some (members.put name (.value value))
    else none
  extend .dotted add path .header members

/-- Gives a header to the table of a name. -/
def openTable (name : String) (members : Members) : Option Members :=
  match members.lookup name with
  | none => some (members.put name (.table .header []))
  | some (.table .implied inner) => some (members.put name (.table .header inner))
  | some _ => none

/-- Starts one more table of a repeated header. -/
def openTables (name : String) (members : Members) : Option Members :=
  match members.lookup name with
  | none => some (members.put name (.tables [] []))
  | some (.tables latest earlier) => some (members.put name (.tables [] (latest :: earlier)))
  | some _ => none

end Members

mutual

def Item.toValue : Item → TomlValue
  | .value value => value
  | .table _ members => .table (membersToValues members)
  | .tables latest earlier =>
      .array ((tablesToValues earlier).reverse ++ [.table (membersToValues latest)])

def membersToValues : List (String × Item) → List (String × TomlValue)
  | [] => []
  | (name, item) :: rest => (name, item.toValue) :: membersToValues rest

def tablesToValues : List (List (String × Item)) → List TomlValue
  | [] => []
  | members :: rest => .table (membersToValues members) :: tablesToValues rest

end

end VehicleRelay.Toml
