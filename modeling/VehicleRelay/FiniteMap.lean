/-!
# Finite maps

A finite map is the list of its entries, in the order in which their keys were
first written.  No key occurs twice, so the number of entries is the number of
keys.
-/

namespace VehicleRelay

namespace Entries

variable {Key Value : Type} [DecidableEq Key]

/-- Writes one entry, in the place of the entry that has the key already. -/
def write (key : Key) (value : Value) : List (Key × Value) → List (Key × Value)
  | [] => [(key, value)]
  | (other, stored) :: rest =>
      if other = key then (key, value) :: rest
      else (other, stored) :: write key value rest

/-- Reads the value that is stored for a key. -/
def read? (key : Key) : List (Key × Value) → Option Value
  | [] => none
  | (other, stored) :: rest => if other = key then some stored else read? key rest

theorem keys_write_of_mem {key : Key} (value : Value) {entries : List (Key × Value)}
    (member : key ∈ entries.map Prod.fst) :
    (write key value entries).map Prod.fst = entries.map Prod.fst := by
  induction entries with
  | nil => simp at member
  | cons entry rest ih =>
      obtain ⟨other, stored⟩ := entry
      by_cases same : other = key
      · simp [write, same]
      · have later : key ∈ rest.map Prod.fst := by
          simpa [Ne.symm same] using member
        simp [write, same, ih later]

theorem keys_write_of_not_mem {key : Key} (value : Value) {entries : List (Key × Value)}
    (absent : key ∉ entries.map Prod.fst) :
    (write key value entries).map Prod.fst = entries.map Prod.fst ++ [key] := by
  induction entries with
  | nil => simp [write]
  | cons entry rest ih =>
      obtain ⟨other, stored⟩ := entry
      have different : other ≠ key := by
        intro same
        exact absent (by simp [same])
      have later : key ∉ rest.map Prod.fst := by
        intro member
        exact absent (by simp only [List.map_cons, List.mem_cons]; exact .inr member)
      simp [write, different, ih later]

theorem keys_write_nodup {key : Key} {value : Value} {entries : List (Key × Value)}
    (distinct : (entries.map Prod.fst).Nodup) :
    ((write key value entries).map Prod.fst).Nodup := by
  by_cases member : key ∈ entries.map Prod.fst
  · rw [keys_write_of_mem value member]
    exact distinct
  · rw [keys_write_of_not_mem value member, List.nodup_append]
    refine ⟨distinct, by simp, ?_⟩
    intro other otherMember last lastMember same
    have lastKey : last = key := by simpa using lastMember
    exact member (lastKey ▸ same ▸ otherMember)

theorem read?_write_self (key : Key) (value : Value) (entries : List (Key × Value)) :
    read? key (write key value entries) = some value := by
  induction entries with
  | nil => simp [write, read?]
  | cons entry rest ih =>
      obtain ⟨other, stored⟩ := entry
      by_cases same : other = key <;> simp [write, read?, same, ih]

theorem read?_write_of_ne {key other : Key} (different : other ≠ key) (value : Value)
    (entries : List (Key × Value)) :
    read? other (write key value entries) = read? other entries := by
  induction entries with
  | nil => simp [write, read?, Ne.symm different]
  | cons entry rest ih =>
      obtain ⟨first, stored⟩ := entry
      by_cases same : first = key
      · subst same
        simp [write, read?, Ne.symm different]
      · by_cases found : first = other
        · subst found
          simp [write, read?, same]
        · simp [write, read?, same, found, ih]

/-- Writing what is there already changes nothing. -/
theorem write_of_read? {key : Key} {value : Value} {entries : List (Key × Value)}
    (stored : read? key entries = some value) : write key value entries = entries := by
  induction entries with
  | nil => simp [read?] at stored
  | cons entry rest ih =>
      obtain ⟨other, found⟩ := entry
      by_cases same : other = key
      · simp only [read?, same, if_true, Option.some.injEq] at stored
        simp [write, same, stored]
      · simp only [read?, same, if_false] at stored
        simp [write, same, ih stored]

theorem read?_isSome_iff {key : Key} {entries : List (Key × Value)} :
    (read? key entries).isSome ↔ key ∈ entries.map Prod.fst := by
  induction entries with
  | nil => simp [read?]
  | cons entry rest ih =>
      obtain ⟨other, stored⟩ := entry
      by_cases same : other = key
      · simp [read?, same]
      · simp only [read?, same, if_false, ih, List.map_cons, List.mem_cons]
        exact ⟨.inr, fun member => member.resolve_left (Ne.symm same)⟩

end Entries

/-- Values by key, each key with one value. -/
structure FiniteMap (Key Value : Type) where
  entries : List (Key × Value)
  distinct : (entries.map Prod.fst).Nodup

namespace FiniteMap

variable {Key Value : Type} [DecidableEq Key]

def empty : FiniteMap Key Value where
  entries := []
  distinct := List.nodup_nil

instance : Inhabited (FiniteMap Key Value) := ⟨empty⟩

def get? (map : FiniteMap Key Value) (key : Key) : Option Value :=
  Entries.read? key map.entries

def insert (map : FiniteMap Key Value) (key : Key) (value : Value) : FiniteMap Key Value where
  entries := Entries.write key value map.entries
  distinct := Entries.keys_write_nodup map.distinct

/-- The number of keys that have a value. -/
def size (map : FiniteMap Key Value) : Nat :=
  map.entries.length

def isEmpty (map : FiniteMap Key Value) : Bool :=
  map.entries.isEmpty

@[simp] theorem get?_empty (key : Key) : (empty : FiniteMap Key Value).get? key = none := rfl

@[simp] theorem get?_insert_self (map : FiniteMap Key Value) (key : Key) (value : Value) :
    (map.insert key value).get? key = some value :=
  Entries.read?_write_self key value map.entries

theorem get?_insert_of_ne (map : FiniteMap Key Value) {key other : Key}
    (different : other ≠ key) (value : Value) :
    (map.insert key value).get? other = map.get? other :=
  Entries.read?_write_of_ne different value map.entries

theorem insert_of_get? (map : FiniteMap Key Value) {key : Key} {value : Value}
    (stored : map.get? key = some value) : map.insert key value = map := by
  obtain ⟨entries, distinct⟩ := map
  have unchanged := Entries.write_of_read? stored
  simp only [insert, unchanged]

theorem size_insert_of_isSome (map : FiniteMap Key Value) {key : Key} (value : Value)
    (stored : (map.get? key).isSome) : (map.insert key value).size = map.size := by
  have keys := Entries.keys_write_of_mem value (Entries.read?_isSome_iff.1 stored)
  simpa [size, insert] using congrArg List.length keys

theorem size_insert_of_eq_none (map : FiniteMap Key Value) {key : Key} (value : Value)
    (absent : map.get? key = none) : (map.insert key value).size = map.size + 1 := by
  have unknown : key ∉ map.entries.map Prod.fst := by
    intro member
    have stored := Entries.read?_isSome_iff.2 member
    rw [show Entries.read? key map.entries = none from absent] at stored
    exact absurd stored (by simp)
  have keys := Entries.keys_write_of_not_mem value unknown
  simpa [size, insert] using congrArg List.length keys

end FiniteMap

end VehicleRelay
