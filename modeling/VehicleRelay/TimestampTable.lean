import VehicleRelay.FiniteMap
import VehicleRelay.Property.Value

/-!
# Timestamp table

Values of one key reach the relay on several ways and in any order.  The table
remembers, for each key, the latest time that its source gave and the local
time at which that was first seen.  A value older than the table is stale; any
other is admitted and restamped with the local time of its key.  Local times of
one key grow with the times that the source gave, even when the clock does not.
-/

namespace VehicleRelay

structure Stamp where
  external : Int64
  localTime : Int64
deriving DecidableEq, Repr, Inhabited

inductive Admission
  | accepted (localTime : Int64)
  | stale
deriving DecidableEq, Repr

/-- The next later time, or the same at the end of time. -/
def laterTime (time : Int64) : Int64 :=
  if time = Int64.maxValue then time else time + 1

/-- The stamp after a time that the source gave, unless that time is stale. -/
def Stamp.advance? (stored : Option Stamp) (external clock : Int64) : Option Stamp :=
  match stored with
  | none => some ⟨external, clock⟩
  | some stamp =>
      if stamp.external < external then some ⟨external, max clock (laterTime stamp.localTime)⟩
      else if stamp.external = external then some stamp
      else none

structure TimestampTable where
  stamps : FiniteMap PropertyKey Stamp

namespace TimestampTable

def empty : TimestampTable := ⟨.empty⟩

instance : Inhabited TimestampTable := ⟨empty⟩

def stamp? (table : TimestampTable) (key : PropertyKey) : Option Stamp :=
  table.stamps.get? key

/-- The number of keys that were ever presented. -/
def size (table : TimestampTable) : Nat :=
  table.stamps.size

def isEmpty (table : TimestampTable) : Bool :=
  table.stamps.isEmpty

/-- Presents the time that the source gave for a key, at a reading of the clock. -/
def present (table : TimestampTable) (key : PropertyKey) (external clock : Int64) :
    Admission × TimestampTable :=
  match Stamp.advance? (table.stamp? key) external clock with
  | some stamp => (.accepted stamp.localTime, ⟨table.stamps.insert key stamp⟩)
  | none => (.stale, table)

@[simp] theorem stamp?_empty (key : PropertyKey) : empty.stamp? key = none := rfl

theorem present_of_advance {table : TimestampTable} {key : PropertyKey}
    {external clock : Int64} {stamp : Stamp}
    (advanced : Stamp.advance? (table.stamp? key) external clock = some stamp) :
    table.present key external clock =
      (.accepted stamp.localTime, ⟨table.stamps.insert key stamp⟩) := by
  simp [present, advanced]

theorem present_of_stale {table : TimestampTable} {key : PropertyKey}
    {external clock : Int64}
    (stale : Stamp.advance? (table.stamp? key) external clock = none) :
    table.present key external clock = (.stale, table) := by
  simp [present, stale]

theorem stamp?_present_self (table : TimestampTable) (key : PropertyKey)
    (external clock : Int64) :
    (table.present key external clock).2.stamp? key =
      (Stamp.advance? (table.stamp? key) external clock).or (table.stamp? key) := by
  cases advanced : Stamp.advance? (table.stamp? key) external clock with
  | none => simp [present_of_stale advanced]
  | some stamp => simp [present_of_advance advanced, stamp?]

theorem stamp?_present_of_ne (table : TimestampTable) {key other : PropertyKey}
    (different : other ≠ key) (external clock : Int64) :
    (table.present key external clock).2.stamp? other = table.stamp? other := by
  cases advanced : Stamp.advance? (table.stamp? key) external clock with
  | none => simp [present_of_stale advanced]
  | some stamp =>
      simp [present_of_advance advanced, stamp?,
        FiniteMap.get?_insert_of_ne table.stamps different]

/-- Presents a value; an admitted value comes back restamped. -/
def restamp (table : TimestampTable) (clock : Int64) (value : PropertyValue) :
    Option PropertyValue × TimestampTable :=
  match table.present value.key value.timestamp clock with
  | (.accepted localTime, table) => (some (value.withTimestamp localTime), table)
  | (.stale, table) => (none, table)

end TimestampTable

/-- The readings of the local clock during one uninterrupted piece of work, in
order. -/
abbrev ClockReadings := Nat → Int64

namespace ClockReadings

def first (readings : ClockReadings) : Int64 := readings 0

def rest (readings : ClockReadings) : ClockReadings := fun index => readings (index + 1)

/-- The readings after some of them. -/
def drop (readings : ClockReadings) (count : Nat) : ClockReadings :=
  fun index => readings (index + count)

/-- A clock that stands still. -/
def still (time : Int64) : ClockReadings := fun _ => time

end ClockReadings

/-- Presents a list of values, one reading of the clock for each, and gives
the admitted ones. -/
def TimestampTable.restampAll (table : TimestampTable) (readings : ClockReadings) :
    List PropertyValue → List PropertyValue × TimestampTable
  | [] => ([], table)
  | value :: values =>
      let (admitted, next) := table.restamp readings.first value
      let (others, last) := next.restampAll readings.rest values
      (admitted.toList ++ others, last)

end VehicleRelay
