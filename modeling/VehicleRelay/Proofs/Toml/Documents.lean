import Mathlib.Data.List.Nodup
import VehicleRelay.Toml.Document

/-!
# What documents hold

No two members of one table of a document have the same name, and the integers of a document
have 64 bits.  Statements keep both of the tables that are under construction.
-/

namespace VehicleRelay

/-- Names are distinct in each table, and integers have 64 bits. -/
inductive TomlValue.Sound : TomlValue → Prop
  | text (contents : String) : Sound (.text contents)
  | integer {number : Int} (least : Int64.minValue.toInt ≤ number)
      (greatest : number ≤ Int64.maxValue.toInt) : Sound (.integer number)
  | float (literal : String) : Sound (.float literal)
  | boolean (value : Bool) : Sound (.boolean value)
  | time (literal : String) : Sound (.time literal)
  | array {items : List TomlValue} (each : ∀ item ∈ items, Sound item) : Sound (.array items)
  | table {members : List (String × TomlValue)} (distinct : (members.map Prod.fst).Nodup)
      (each : ∀ member ∈ members, Sound member.2) : Sound (.table members)

namespace Toml

/-! ## Tables under construction -/

inductive Item.Sound : Item → Prop
  | value {value : TomlValue} (sound : value.Sound) : Sound (.value value)
  | table {origin : TableOrigin} {members : Members} (distinct : (members.map Prod.fst).Nodup)
      (each : ∀ member ∈ members, Sound member.2) : Sound (.table origin members)
  | tables {latest : Members} {earlier : List Members}
      (distinct : ∀ members ∈ latest :: earlier, (members.map Prod.fst).Nodup)
      (each : ∀ members ∈ latest :: earlier, ∀ member ∈ members, Sound member.2) :
      Sound (.tables latest earlier)

namespace Members

structure Sound (members : Members) : Prop where
  distinct : (members.map Prod.fst).Nodup
  each : ∀ member ∈ members, member.2.Sound

theorem sound_nil : Sound [] where
  distinct := List.nodup_nil
  each := List.forall_mem_nil _

theorem Sound.lookup {members : Members} (sound : members.Sound) {name : String} {item : Item}
    (found : List.lookup name members = some item) : item.Sound := by
  obtain ⟨before, after, rfl, -⟩ := List.lookup_eq_some_iff.mp found
  apply sound.each (name, item)
  exact List.mem_append_right before List.mem_cons_self

theorem map_fst_put (name : String) (item : Item) (members : Members) :
    (members.put name item).map Prod.fst =
      if name ∈ members.map Prod.fst then members.map Prod.fst
      else members.map Prod.fst ++ [name] := by
  induction members with
  | nil => simp [put]
  | cons member rest induction =>
      obtain ⟨other, stored⟩ := member
      by_cases same : other = name
      · simp [put, same]
      · have different : name ≠ other := Ne.symm same
        simp only [put, same, if_false, List.map_cons, induction, List.mem_cons, different,
          false_or]
        split <;> rfl

theorem mem_put {name : String} {item : Item} {members : Members} {member : String × Item}
    (listed : member ∈ members.put name item) : member = (name, item) ∨ member ∈ members := by
  induction members with
  | nil => exact .inl (List.mem_singleton.mp listed)
  | cons first rest induction =>
      obtain ⟨other, stored⟩ := first
      rw [put] at listed
      split at listed
      · rcases List.mem_cons.mp listed with rfl | kept
        · exact .inl rfl
        · exact .inr (List.mem_cons_of_mem _ kept)
      · rcases List.mem_cons.mp listed with rfl | later
        · exact .inr List.mem_cons_self
        · exact (induction later).imp_right (List.mem_cons_of_mem _)

theorem Sound.put {members : Members} (sound : members.Sound) {item : Item}
    (itemSound : item.Sound) (name : String) : (members.put name item).Sound where
  distinct := by
    rw [map_fst_put]
    split
    case isTrue => exact sound.distinct
    case isFalse absent =>
      rw [← List.concat_eq_append]
      exact sound.distinct.concat absent
  each member listed := by
    rcases mem_put listed with rfl | kept
    · exact itemSound
    · exact sound.each member kept

theorem Sound.item {members : Members} (sound : members.Sound) (origin : TableOrigin) :
    (Item.table origin members).Sound :=
  .table sound.distinct sound.each

theorem Sound.ofItem {origin : TableOrigin} {members : Members}
    (sound : (Item.table origin members).Sound) : members.Sound := by
  cases sound with
  | table distinct each => exact ⟨distinct, each⟩

/-- A change deep in a tree of tables keeps the tree sound if it keeps the one table that it
is made to. -/
theorem Sound.extend {origin : TableOrigin} {change : TableOrigin → Members → Option Members}
    (keeps : ∀ reached members changed, Members.Sound members →
      change reached members = some changed → Members.Sound changed)
    {path : List String} {reached : TableOrigin} {members changed : Members}
    (sound : members.Sound) (extended : extend origin change path reached members = some changed) :
    changed.Sound := by
  induction path generalizing reached members changed with
  | nil => exact keeps reached members changed sound extended
  | cons name path induction =>
      rw [Members.extend] at extended
      split at extended
      case h_1 =>
        obtain ⟨inner, made, ⟨⟩⟩ := Option.bind_eq_some_iff.mp extended
        exact sound.put ((induction sound_nil made).item origin) name
      case h_2 => contradiction
      case h_3 stored members found =>
        split at extended
        · contradiction
        · obtain ⟨inner, made, ⟨⟩⟩ := Option.bind_eq_some_iff.mp extended
          exact sound.put ((induction (Sound.ofItem (sound.lookup found)) made).item stored) name
      case h_4 latest earlier found =>
        obtain ⟨inner, made, ⟨⟩⟩ := Option.bind_eq_some_iff.mp extended
        cases sound.lookup found with
        | tables distinct each =>
          obtain ⟨latestDistinct, earlierDistinct⟩ := List.forall_mem_cons.mp distinct
          obtain ⟨latestEach, earlierEach⟩ := List.forall_mem_cons.mp each
          have latestSound := induction ⟨latestDistinct, latestEach⟩ made
          apply sound.put
          apply Item.Sound.tables
          · exact List.forall_mem_cons.mpr ⟨latestSound.distinct, earlierDistinct⟩
          · exact List.forall_mem_cons.mpr ⟨latestSound.each, earlierEach⟩

theorem Sound.assign {members changed : Members} (sound : members.Sound) {path : List String}
    {name : String} {value : TomlValue} (valueSound : value.Sound)
    (assigned : members.assign path name value = some changed) : changed.Sound := by
  refine sound.extend ?_ assigned
  intro reached members changed sound added
  split at added
  · cases added
    exact sound.put (.value valueSound) name
  · contradiction

theorem Sound.openTable {name : String} {members changed : Members} (sound : members.Sound)
    (opened : members.openTable name = some changed) : changed.Sound := by
  unfold Members.openTable at opened
  split at opened
  case h_1 =>
    cases opened
    exact sound.put (sound_nil.item .header) name
  case h_2 inner found =>
    cases opened
    exact sound.put ((Sound.ofItem (sound.lookup found)).item .header) name
  case h_3 => contradiction

theorem Sound.openTables {name : String} {members changed : Members} (sound : members.Sound)
    (opened : members.openTables name = some changed) : changed.Sound := by
  unfold Members.openTables at opened
  split at opened
  case h_1 =>
    cases opened
    apply sound.put
    apply Item.Sound.tables <;> simp
  case h_2 latest earlier found =>
    cases opened
    cases sound.lookup found with
    | tables distinct each =>
      apply sound.put
      apply Item.Sound.tables
      · exact List.forall_mem_cons.mpr ⟨List.nodup_nil, distinct⟩
      · exact List.forall_mem_cons.mpr ⟨by simp, each⟩
  case h_3 => contradiction

end Members

/-! ## Tables that are finished -/

theorem map_fst_membersToValues (members : List (String × Item)) :
    (membersToValues members).map Prod.fst = members.map Prod.fst := by
  induction members with
  | nil => rfl
  | cons member rest induction =>
      rw [membersToValues, List.map_cons, List.map_cons, induction]

theorem sound_table {members : Members} (distinct : (members.map Prod.fst).Nodup)
    (each : ∀ member ∈ membersToValues members, member.2.Sound) :
    (TomlValue.table (membersToValues members)).Sound := by
  refine .table ?_ each
  rwa [map_fst_membersToValues]

mutual

theorem Item.Sound.toValue {item : Item} (sound : item.Sound) : item.toValue.Sound := by
  cases sound with
  | value sound => exact sound
  | table distinct each =>
      rw [Item.toValue]
      exact sound_table distinct (membersToValues_sound each)
  | @tables latest earlier distinct each =>
      obtain ⟨latestDistinct, earlierDistinct⟩ := List.forall_mem_cons.mp distinct
      obtain ⟨latestEach, earlierEach⟩ := List.forall_mem_cons.mp each
      rw [Item.toValue]
      apply TomlValue.Sound.array
      intro item listed
      rcases List.mem_append.mp listed with before | last
      · exact tablesToValues_sound earlierDistinct earlierEach item (List.mem_reverse.mp before)
      · cases List.mem_singleton.mp last
        exact sound_table latestDistinct (membersToValues_sound latestEach)

theorem membersToValues_sound {members : List (String × Item)}
    (each : ∀ member ∈ members, member.2.Sound) :
    ∀ member ∈ membersToValues members, member.2.Sound := by
  cases members with
  | nil => exact List.forall_mem_nil _
  | cons member rest =>
      obtain ⟨sound, restSound⟩ := List.forall_mem_cons.mp each
      rw [membersToValues, List.forall_mem_cons]
      exact ⟨Item.Sound.toValue sound, membersToValues_sound restSound⟩

theorem tablesToValues_sound {tables : List (List (String × Item))}
    (distinct : ∀ members ∈ tables, (members.map Prod.fst).Nodup)
    (each : ∀ members ∈ tables, ∀ member ∈ members, member.2.Sound) :
    ∀ value ∈ tablesToValues tables, value.Sound := by
  cases tables with
  | nil => exact List.forall_mem_nil _
  | cons members rest =>
      obtain ⟨membersDistinct, restDistinct⟩ := List.forall_mem_cons.mp distinct
      obtain ⟨membersEach, restEach⟩ := List.forall_mem_cons.mp each
      rw [tablesToValues, List.forall_mem_cons]
      constructor
      · exact sound_table membersDistinct (membersToValues_sound membersEach)
      · exact tablesToValues_sound restDistinct restEach

end

theorem Members.Sound.toTable {members : Members} (sound : members.Sound) :
    (TomlValue.table (membersToValues members)).Sound :=
  sound_table sound.distinct (membersToValues_sound sound.each)

/-! ## Readers -/

/-- Whatever a reader gives has a property. -/
def Reader.Gives {α : Type} (read : Reader α) (property : α → Prop) : Prop :=
  ∀ {text value rest}, read text = some (value, rest) → property value

theorem integer?_sound {number : Int} {value : TomlValue} (made : integer? number = some value) :
    value.Sound := by
  unfold integer? at made
  split at made
  case isTrue bounds =>
    cases made
    exact .integer bounds.1 bounds.2
  case isFalse => contradiction

theorem based_gives (base : Nat) : Reader.Gives (readInteger.based base) TomlValue.Sound := by
  intro text value rest read
  obtain ⟨_, _, read⟩ := Option.bind_eq_some_iff.mp read
  obtain ⟨_, made, ⟨⟩⟩ := Option.bind_eq_some_iff.mp read
  exact integer?_sound made

theorem readInteger_gives : Reader.Gives readInteger TomlValue.Sound := by
  intro text value rest read
  unfold readInteger at read
  split at read
  case h_4 =>
    obtain ⟨_, _, read⟩ := Option.bind_eq_some_iff.mp read
    obtain ⟨_, made, ⟨⟩⟩ := Option.bind_eq_some_iff.mp read
    exact integer?_sound made
  all_goals exact based_gives _ read

theorem readFloat_gives : Reader.Gives readFloat TomlValue.Sound := by
  intro text value rest read
  unfold readFloat at read
  split at read
  split at read
  · cases read
    exact .float _
  · cases read
    exact .float _
  · obtain ⟨⟨whole, after⟩, _, read⟩ := Option.bind_eq_some_iff.mp read
    simp only at read
    split at read
    · obtain ⟨⟨fraction, after⟩, _, read⟩ := Option.bind_eq_some_iff.mp read
      simp only at read
      split at read
      · obtain ⟨_, ⟨⟩⟩ := Option.ite_none_right_eq_some.mp read
        exact .float _
      · obtain ⟨_, ⟨⟩⟩ := Option.ite_none_right_eq_some.mp read
        exact .float _
    · obtain ⟨⟨exponent, after⟩, _, read⟩ := Option.bind_eq_some_iff.mp read
      obtain ⟨_, ⟨⟩⟩ := Option.ite_none_right_eq_some.mp read
      exact .float _

theorem readTime_gives : Reader.Gives readTime TomlValue.Sound := by
  intro text value rest read
  unfold readTime at read
  split at read
  · cases read
    exact .time _
  · contradiction

theorem readNumber_gives : Reader.Gives readNumber TomlValue.Sound := by
  intro text value rest read
  simp only [readNumber, Option.orElse_eq_orElse, Option.orElse_eq_or, Option.or_eq_some_iff]
    at read
  rcases read with time | ⟨_, float | ⟨_, integer⟩⟩
  · exact readTime_gives time
  · exact readFloat_gives float
  · exact readInteger_gives integer

theorem readItems_gives {readItem : Reader TomlValue}
    (itemSound : readItem.Gives TomlValue.Sound) (steps : Nat) :
    Reader.Gives (readItems readItem steps) fun items => ∀ item ∈ items, item.Sound := by
  induction steps with
  | zero =>
      intro text items rest read
      contradiction
  | succ steps induction =>
      intro text items rest read
      rw [readItems] at read
      split at read
      · cases read
        exact List.forall_mem_nil _
      · obtain ⟨⟨item, after⟩, first, read⟩ := Option.bind_eq_some_iff.mp read
        have sound := itemSound first
        simp only at read
        split at read
        · obtain ⟨⟨more, final⟩, later, ⟨⟩⟩ := Option.bind_eq_some_iff.mp read
          exact List.forall_mem_cons.mpr ⟨sound, induction later⟩
        · cases read
          exact List.forall_mem_cons.mpr ⟨sound, List.forall_mem_nil _⟩
        · contradiction

theorem readPair_gives {readItem : Reader TomlValue} (itemSound : readItem.Gives TomlValue.Sound) :
    Reader.Gives (readPair readItem) fun pair => pair.2.2.Sound := by
  intro text pair rest read
  obtain ⟨⟨path, name, after⟩, _, read⟩ := Option.bind_eq_some_iff.mp read
  obtain ⟨after, _, read⟩ := Option.bind_eq_some_iff.mp read
  obtain ⟨⟨value, after⟩, found, ⟨⟩⟩ := Option.bind_eq_some_iff.mp read
  exact itemSound found

theorem readPairs_gives {readItem : Reader TomlValue} (itemSound : readItem.Gives TomlValue.Sound)
    {members : Members} (sound : members.Sound) (steps : Nat) :
    Reader.Gives (readPairs readItem members steps) Members.Sound := by
  induction steps generalizing members with
  | zero =>
      intro text read rest read
      contradiction
  | succ steps induction =>
      intro text result rest read
      rw [readPairs] at read
      obtain ⟨⟨⟨path, name, value⟩, after⟩, pair, read⟩ := Option.bind_eq_some_iff.mp read
      obtain ⟨changed, assigned, read⟩ := Option.bind_eq_some_iff.mp read
      have changedSound := sound.assign (readPair_gives itemSound pair) assigned
      split at read
      · exact induction changedSound read
      · cases read
        exact changedSound
      · contradiction

theorem readValue_gives (levels : Nat) : Reader.Gives (readValue levels) TomlValue.Sound := by
  intro text value rest read
  unfold readValue at read
  split at read
  case h_1 | h_2 =>
    obtain ⟨⟨contents, after⟩, _, ⟨⟩⟩ := Option.bind_eq_some_iff.mp read
    exact .text contents
  case h_3 =>
    cases levels with
    | zero => contradiction
    | succ levels =>
        obtain ⟨⟨items, after⟩, items, ⟨⟩⟩ := Option.bind_eq_some_iff.mp read
        exact .array (readItems_gives (readValue_gives levels) _ items)
  case h_4 =>
    cases levels with
    | zero => contradiction
    | succ levels =>
        simp only at read
        split at read
        · cases read
          exact Members.sound_nil.toTable
        · obtain ⟨⟨members, after⟩, pairs, ⟨⟩⟩ := Option.bind_eq_some_iff.mp read
          have sound := readPairs_gives (readValue_gives levels) Members.sound_nil _ pairs
          exact sound.toTable
  case h_5 | h_6 =>
    cases read
    exact .boolean _
  case h_7 => exact readNumber_gives read

/-! ## Documents -/

def Statement.Sound : Statement → Prop
  | .openTable _ _ | .openTables _ _ => True
  | .assign _ _ value => value.Sound

theorem readStatement_gives : Reader.Gives readStatement Statement.Sound := by
  intro text statement rest read
  unfold readStatement at read
  split at read
  · obtain ⟨⟨path, name, after⟩, _, read⟩ := Option.bind_eq_some_iff.mp read
    obtain ⟨after, _, read⟩ := Option.bind_eq_some_iff.mp read
    obtain ⟨after, _, read⟩ := Option.bind_eq_some_iff.mp read
    obtain ⟨after, _, ⟨⟩⟩ := Option.bind_eq_some_iff.mp read
    exact trivial
  · obtain ⟨⟨path, name, after⟩, _, read⟩ := Option.bind_eq_some_iff.mp read
    obtain ⟨after, _, read⟩ := Option.bind_eq_some_iff.mp read
    obtain ⟨after, _, ⟨⟩⟩ := Option.bind_eq_some_iff.mp read
    exact trivial
  · obtain ⟨⟨⟨path, name, value⟩, after⟩, pair, read⟩ := Option.bind_eq_some_iff.mp read
    obtain ⟨after, _, ⟨⟩⟩ := Option.bind_eq_some_iff.mp read
    exact readPair_gives (readValue_gives nestingLimit) pair

theorem readStatements_sound {lines : Nat} {text : List Char} {statements : List Statement}
    (read : readStatements lines text = some statements) :
    ∀ statement ∈ statements, statement.Sound := by
  induction lines generalizing text statements with
  | zero => contradiction
  | succ lines induction =>
      rw [readStatements] at read
      split at read
      · cases read
        exact List.forall_mem_nil _
      · exact induction read
      · obtain ⟨⟨statement, after⟩, first, read⟩ := Option.bind_eq_some_iff.mp read
        obtain ⟨more, later, ⟨⟩⟩ := Option.bind_eq_some_iff.mp read
        exact List.forall_mem_cons.mpr ⟨readStatement_gives first, induction later⟩

theorem Draft.add_sound {draft next : Draft} {statement : Statement}
    (draftSound : draft.members.Sound) (sound : statement.Sound)
    (added : draft.add statement = some next) : next.members.Sound := by
  cases statement with
  | openTable path name =>
      obtain ⟨members, made, ⟨⟩⟩ := Option.bind_eq_some_iff.mp added
      exact draftSound.extend (fun _ _ _ sound => sound.openTable) made
  | openTables path name =>
      obtain ⟨members, made, ⟨⟩⟩ := Option.bind_eq_some_iff.mp added
      exact draftSound.extend (fun _ _ _ sound => sound.openTables) made
  | assign path name value =>
      obtain ⟨members, made, ⟨⟩⟩ := Option.bind_eq_some_iff.mp added
      exact draftSound.extend (fun _ _ _ table => table.assign sound) made

theorem Draft.foldlM_add_sound {statements : List Statement} {draft final : Draft}
    (draftSound : draft.members.Sound) (sound : ∀ statement ∈ statements, statement.Sound)
    (added : statements.foldlM Draft.add draft = some final) : final.members.Sound := by
  induction statements generalizing draft with
  | nil =>
      cases added
      exact draftSound
  | cons statement statements induction =>
      obtain ⟨first, later⟩ := List.forall_mem_cons.mp sound
      rw [List.foldlM_cons] at added
      obtain ⟨next, step, added⟩ := Option.bind_eq_some_iff.mp added
      exact induction (Draft.add_sound draftSound first step) later added

theorem ofText?_sound {text : String} {members : List (String × TomlValue)}
    (read : ofText? text = some members) : (TomlValue.table members).Sound := by
  obtain ⟨statements, lines, read⟩ := Option.bind_eq_some_iff.mp read
  obtain ⟨draft, added, ⟨⟩⟩ := Option.bind_eq_some_iff.mp read
  have sound := Draft.foldlM_add_sound Members.sound_nil (readStatements_sound lines) added
  exact sound.toTable

end Toml

end VehicleRelay
