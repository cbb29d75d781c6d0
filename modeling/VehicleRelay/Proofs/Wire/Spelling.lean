import VehicleRelay.Wire.RawField

/-!
# Spellings of raw fields

A number has more than one spelling, because its last groups may be empty.  `Spells` says
which bytes spell a number, a value and a raw field, whoever wrote them.  All spellings
are read back, whatever follows them, and what is written is a spelling.
-/

namespace VehicleRelay.Wire

namespace Varint

/-- Groups of seven bits, the lowest first.  Every byte but the last has its high bit
set. -/
inductive Groups : Nat → List UInt8 → Prop
  | last {byte : UInt8} : byte.toNat < 128 → Groups byte.toNat [byte]
  | more {byte : UInt8} {number : Nat} {bytes : List UInt8} :
      128 ≤ byte.toNat → Groups number bytes →
      Groups (byte.toNat % 128 + 128 * number) (byte :: bytes)

/-- At most ten bytes that spell a number of 64 bits. -/
structure Spells (number : Nat) (bytes : List UInt8) : Prop where
  groups : Groups number bytes
  short : bytes.length ≤ 10
  fits : number < UInt64.size

variable {number count : Nat} {bytes : List UInt8}

theorem readGroups_of_groups (groups : Groups number bytes) (short : bytes.length ≤ count)
    (rest : List UInt8) : readGroups count (bytes ++ rest) = some (number, rest) := by
  induction groups generalizing count with
  | @last byte small =>
      cases count with
      | zero => exact absurd short (by simp)
      | succ count => simp [readGroups, small]
  | @more byte number bytes large groups induction =>
      cases count with
      | zero => exact absurd short (by simp)
      | succ count =>
          have shorter : bytes.length ≤ count := Nat.le_of_succ_le_succ short
          rw [List.cons_append, readGroups, if_neg (Nat.not_lt.mpr large), induction shorter]
          rfl

theorem read_of_spells (spells : Spells number bytes) (rest : List UInt8) :
    read (bytes ++ rest) = some (number, rest) := by
  rw [read, readGroups_of_groups spells.groups spells.short rest]
  exact if_pos spells.fits

theorem groups_write (number : Nat) : Groups number (write number) := by
  fun_induction write number with
  | case1 number small =>
      have same : (UInt8.ofNat number).toNat = number := Nat.mod_eq_of_lt (by omega)
      have last : Groups (UInt8.ofNat number).toNat [UInt8.ofNat number] :=
        .last (same.symm ▸ small)
      rwa [same] at last
  | case2 number large induction =>
      have same : (UInt8.ofNat (number % 128 + 128)).toNat = number % 128 + 128 :=
        Nat.mod_eq_of_lt (by omega)
      have high : 128 ≤ (UInt8.ofNat (number % 128 + 128)).toNat := by omega
      have more := Groups.more high induction
      have whole : (number % 128 + 128) % 128 + 128 * (number / 128) = number := by omega
      rwa [same, whole] at more

/-- What is written for a number is its shortest spelling. -/
theorem spells_write (fits : number < UInt64.size) : Spells number (write number) where
  groups := groups_write number
  short := by
    rw [length_write]
    exact size_le_ten fits
  fits := fits

theorem spells_byte {byte : UInt8} (same : byte.toNat = number) (small : number < 128) :
    Spells number [byte] := by
  subst same
  exact ⟨.last small, by simp, Nat.lt_trans small (by decide)⟩

theorem Spells.ne_nil (spells : Spells number bytes) : bytes ≠ [] := by
  cases spells.groups with
  | last | more => exact List.cons_ne_nil _ _

end Varint

theorem cut_append (bytes rest : List UInt8) :
    cut bytes.length (bytes ++ rest) = some (bytes, rest) := by
  simp [cut]

namespace WireValue

/-- Bytes that spell a value that is written in a given way. -/
inductive Spells : WireType → WireValue → List UInt8 → Prop
  | varint {number : Nat} {bytes : List UInt8} :
      Varint.Spells number bytes → Spells .varint (.varint number) bytes
  | fixed64 {bytes : List UInt8} :
      bytes.length = 8 → Spells .fixed64 (.fixed64 bytes) bytes
  | delimited {bytes length : List UInt8} :
      Varint.Spells bytes.length length → Spells .delimited (.delimited bytes) (length ++ bytes)
  | fixed32 {bytes : List UInt8} :
      bytes.length = 4 → Spells .fixed32 (.fixed32 bytes) bytes

variable {wireType : WireType} {value : WireValue} {bytes : List UInt8}

theorem read_of_spells (spells : Spells wireType value bytes) (rest : List UInt8) :
    read wireType (bytes ++ rest) = some (value, rest) := by
  cases spells with
  | varint spells => rw [read, Varint.read_of_spells spells]; rfl
  | fixed64 length => rw [read, ← length, cut_append]; rfl
  | @delimited bytes length spells =>
      have opened : cutDelimited (length ++ bytes ++ rest) = some (bytes, rest) := by
        rw [cutDelimited, List.append_assoc, Varint.read_of_spells spells]
        exact cut_append bytes rest
      rw [read, opened]
      rfl
  | fixed32 length => rw [read, ← length, cut_append]; rfl

theorem Spells.ne_nil (spells : Spells wireType value bytes) : bytes ≠ [] := by
  cases spells with
  | varint spells => exact spells.ne_nil
  | fixed64 length | fixed32 length => exact List.ne_nil_of_length_pos (by omega)
  | delimited spells => exact fun empty => spells.ne_nil (List.append_eq_nil_iff.mp empty).1

theorem spells_delimited (fits : bytes.length < UInt64.size) :
    Spells .delimited (.delimited bytes) (WireValue.delimited bytes).write :=
  .delimited (Varint.spells_write fits)

theorem spells_varint_byte {number : Nat} {byte : UInt8} (same : byte.toNat = number)
    (small : number < 128) : Spells .varint (.varint number) [byte] :=
  .varint (Varint.spells_byte same small)

theorem spells_delimited_byte {byte : UInt8} (same : byte.toNat = bytes.length)
    (small : bytes.length < 128) : Spells .delimited (.delimited bytes) (byte :: bytes) := by
  have length := Varint.spells_byte same small
  exact .delimited length

end WireValue

/-- One more than the highest field number. -/
def fieldNumberBound : Nat := 0x20000000

namespace RawField

/-- Bytes that spell a field that is no group. -/
inductive Spells : RawField → List UInt8 → Prop
  | intro {number : Nat} {wireType : WireType} {value : WireValue} {key bytes : List UInt8} :
      0 < number → number < fieldNumberBound →
      Varint.Spells (number * 8 + wireType.code) key → value.Spells wireType bytes →
      Spells ⟨number, value⟩ (key ++ bytes)

/-- Bytes that spell fields one after the other. -/
inductive SpellsAll : List RawField → List UInt8 → Prop
  | nil : SpellsAll [] []
  | cons {field : RawField} {fields : List RawField} {first rest : List UInt8} :
      field.Spells first → SpellsAll fields rest → SpellsAll (field :: fields) (first ++ rest)

end RawField

theorem WireType.code_lt (wireType : WireType) : wireType.code < 8 := by
  cases wireType <;> decide

theorem Announced.ofCode?_code (wireType : WireType) :
    ofCode? wireType.code = some (.value wireType) := by
  cases wireType <;> rfl

theorem readKey_of_spells {number : Nat} {wireType : WireType} {key : List UInt8}
    (positive : 0 < number) (bounded : number < fieldNumberBound)
    (spells : Varint.Spells (number * 8 + wireType.code) key) (rest : List UInt8) :
    readKey (key ++ rest) = some (number, .value wireType, rest) := by
  have code := wireType.code_lt
  have inRange : number * 8 + wireType.code < UInt32.size ∧ 8 ≤ number * 8 + wireType.code := by
    rw [fieldNumberBound] at bounded
    rw [UInt32.size]
    omega
  have low : (number * 8 + wireType.code) % 8 = wireType.code := by omega
  have high : (number * 8 + wireType.code) / 8 = number := by omega
  rw [readKey, Varint.read_of_spells spells]
  simp [inRange, low, high, Announced.ofCode?_code]

namespace RawField

variable {field : RawField} {fields others : List RawField} {bytes more : List UInt8}
  {limit count : Nat}

theorem read_of_spells (spells : field.Spells bytes) (rest : List UInt8) :
    read limit (bytes ++ rest) = some (field, rest) := by
  cases spells with
  | @intro number wireType value key bytes positive bounded keySpells valueSpells =>
      rw [read, List.append_assoc, readKey_of_spells positive bounded keySpells]
      change (WireValue.read wireType (bytes ++ rest)).bind _ = _
      rw [WireValue.read_of_spells valueSpells]
      rfl

theorem Spells.ne_nil (spells : field.Spells bytes) : bytes ≠ [] := by
  cases spells with
  | intro positive bounded keySpells valueSpells =>
      exact fun empty => keySpells.ne_nil (List.append_eq_nil_iff.mp empty).1

theorem readUpTo_of_spells (spells : SpellsAll fields bytes) (enough : bytes.length ≤ count) :
    readUpTo limit count bytes = some fields := by
  induction spells generalizing count with
  | nil => simp [readUpTo]
  | @cons field fields first rest spells others induction =>
      obtain ⟨byte, bytes, rfl⟩ := List.exists_cons_of_ne_nil spells.ne_nil
      cases count with
      | zero => exact absurd enough (by simp)
      | succ count =>
          have shorter : rest.length ≤ count := by
            simp only [List.cons_append, List.length_cons, List.length_append] at enough
            omega
          have first : read limit (byte :: bytes ++ rest) = some (field, rest) :=
            read_of_spells spells rest
          rw [List.cons_append] at first ⊢
          simp [readUpTo, first, induction shorter]

/-- The key of a field with a number below sixteen has a spelling of one byte. -/
theorem spells_of_byte_key {number : Nat} {wireType : WireType} {value : WireValue}
    {key : UInt8} (spells : value.Spells wireType bytes) (positive : 0 < number)
    (small : number < 16) (same : key.toNat = number * 8 + wireType.code) :
    Spells ⟨number, value⟩ (key :: bytes) := by
  have code := wireType.code_lt
  have bounded : number < fieldNumberBound := Nat.lt_trans small (by decide)
  have keySpells := Varint.spells_byte same (by omega)
  exact .intro positive bounded keySpells spells

/-- The fields of a message are read back from all their spellings. -/
theorem readAll_of_spells (spells : SpellsAll fields bytes) :
    readAll limit bytes = some fields :=
  readUpTo_of_spells spells (Nat.le_refl _)

theorem SpellsAll.append (first : SpellsAll fields bytes) (second : SpellsAll others more) :
    SpellsAll (fields ++ others) (bytes ++ more) := by
  induction first with
  | nil => exact second
  | cons spells rest induction =>
      rw [List.cons_append, List.append_assoc]
      exact .cons spells induction

end RawField

end VehicleRelay.Wire
