import Mathlib
import VehicleRelay.Proofs.Settings.Requirements
import VehicleRelay.Proofs.Toml.Texts
import VehicleRelay.Proofs.Wire.Scalars
import VehicleRelay.Settings.Document

/-!
# Loading settings

What a document gives is laid over the defaults, field by field, and the result has to meet
four requirements.  A text that is no document, or that gives a field something else than the
field takes, is malformed; otherwise the first requirement that is not met is reported.
-/

namespace VehicleRelay

/-! ## What fields take -/

inductive TomlValue.IsText : TomlValue → String → Prop
  | text (contents : String) : IsText (.text contents) contents

inductive TomlValue.IsBoolean : TomlValue → Bool → Prop
  | boolean (value : Bool) : IsBoolean (.boolean value) value

/-- An integer of 64 bits without a sign. -/
inductive TomlValue.IsCount : TomlValue → UInt64 → Prop
  | integer (count : UInt64) : IsCount (.integer count.toNat) count

namespace TomlValue

theorem text?_eq_some_iff {value : TomlValue} {contents : String} :
    value.text? = some contents ↔ value.IsText contents := by
  constructor
  · intro read
    cases value with
    | text contents =>
        cases read
        exact .text contents
    | _ => contradiction
  · rintro ⟨⟩
    rfl

theorem boolean?_eq_some_iff {value : TomlValue} {contents : Bool} :
    value.boolean? = some contents ↔ value.IsBoolean contents := by
  constructor
  · intro read
    cases value with
    | boolean contents =>
        cases read
        exact .boolean contents
    | _ => contradiction
  · rintro ⟨⟩
    rfl

/-- The integers of a document are so small that none is cut off. -/
theorem count?_eq_some_iff {value : TomlValue} (sound : value.Sound) {count : UInt64} :
    value.count? = some count ↔ value.IsCount count := by
  constructor
  · intro read
    cases value with
    | integer number =>
        cases sound with
        | integer least greatest =>
          obtain ⟨nonnegative, ⟨⟩⟩ := Option.ite_none_right_eq_some.mp read
          have fits : number.toNat < UInt64.size := by
            have bound : number ≤ 2 ^ 63 - 1 := greatest
            simp only [UInt64.size]
            omega
          have whole : number = (UInt64.ofNat number.toNat).toNat := by
            rw [UInt64.toNat_ofNat_of_lt' fits, Int.toNat_of_nonneg nonnegative]
          have isCount := IsCount.integer (UInt64.ofNat number.toNat)
          rwa [← whole] at isCount
    | _ => contradiction
  · rintro ⟨⟩
    simp [count?]

end TomlValue

/-! ## Documents over defaults -/

/-- A document has a value for a field of a section. -/
def Gives (members : List (String × TomlValue)) (part field : String) (value : TomlValue) : Prop :=
  ∃ fields, (part, .table fields) ∈ members ∧ (field, value) ∈ fields

/-- What a field is: its default if the document has nothing for it, and otherwise what it
takes of the value that the document has. -/
inductive Overlaid {α : Type} (members : List (String × TomlValue)) (part field : String)
    (takes : TomlValue → α → Prop) (default : α) : α → Prop
  | absent (nothing : ∀ value, ¬ Gives members part field value) :
      Overlaid members part field takes default default
  | present {value : TomlValue} {contents : α} (given : Gives members part field value)
      (taken : takes value contents) : Overlaid members part field takes default contents

/-- Each field for itself is what the document has for it, or its default. -/
structure Settings.Overlay (members : List (String × TomlValue)) (settings : Settings) : Prop where
  address : Overlaid members "server" "address" TomlValue.IsText "http://127.0.0.1:50051"
    settings.server.address
  connectTimeout : Overlaid members "server" "connect_timeout_ms" TomlValue.IsCount 5000
    settings.server.connectTimeout
  reconnect : Overlaid members "stream" "reconnect" TomlValue.IsBoolean true
    settings.stream.reconnect
  initialBackoff : Overlaid members "stream" "initial_backoff_ms" TomlValue.IsCount 100
    settings.stream.initialBackoff
  maxBackoff : Overlaid members "stream" "max_backoff_ms" TomlValue.IsCount 10000
    settings.stream.maxBackoff
  maxAttempts : Overlaid members "get_values" "max_attempts" TomlValue.IsCount 5
    settings.getValues.maxAttempts

/-- A section that is there is a table. -/
def Sectioned (members : List (String × TomlValue)) : Prop :=
  ∀ part ∈ ["server", "stream", "get_values"], ∀ value, (part, value) ∈ members →
    ∃ fields, value = .table fields

theorem lookup_eq_some_iff_mem {members : List (String × TomlValue)}
    (distinct : (members.map Prod.fst).Nodup) {name : String} {value : TomlValue} :
    members.lookup name = some value ↔ (name, value) ∈ members := by
  constructor
  · intro found
    obtain ⟨before, after, rfl, -⟩ := List.lookup_eq_some_iff.mp found
    exact List.mem_append_right before List.mem_cons_self
  · intro listed
    obtain ⟨before, after, rfl⟩ := List.append_of_mem listed
    apply List.lookup_eq_some_iff.mpr
    refine ⟨before, after, rfl, ?_⟩
    intro other earlier
    rw [List.map_append, List.map_cons, List.nodup_append] at distinct
    have different := distinct.2.2 other.1 (List.mem_map_of_mem earlier) name List.mem_cons_self
    exact bne_iff_ne.mpr different.symm

/-- The fields of a section, none if it is absent. -/
def fieldsOf (members : List (String × TomlValue)) (part : String) : List (String × TomlValue) :=
  match members.lookup part with
  | some (.table fields) => fields
  | _ => []

variable {members : List (String × TomlValue)}

theorem sound_fieldsOf (sound : (TomlValue.table members).Sound) (part : String) :
    (TomlValue.table (fieldsOf members part)).Sound := by
  cases sound with
  | table distinct each =>
    unfold fieldsOf
    split
    case h_1 fields found =>
      exact each (part, .table fields) ((lookup_eq_some_iff_mem distinct).mp found)
    case h_2 => exact .table List.nodup_nil (List.forall_mem_nil _)

theorem lookup_fieldsOf_eq_some_iff (sound : (TomlValue.table members).Sound)
    {part field : String} {value : TomlValue} :
    (fieldsOf members part).lookup field = some value ↔ Gives members part field value := by
  have fieldsSound := sound_fieldsOf sound part
  cases fieldsSound with
  | table fieldsDistinct _ =>
  cases sound with
  | table distinct each =>
    rw [lookup_eq_some_iff_mem fieldsDistinct]
    simp only [Gives, ← lookup_eq_some_iff_mem distinct, fieldsOf]
    split
    case h_1 fields found => simp [found]
    case h_2 noTable =>
      constructor
      · intro absent
        exact absurd absent List.not_mem_nil
      · rintro ⟨fields, found, _⟩
        exact (noTable fields found).elim

theorem Gives.sound (sound : (TomlValue.table members).Sound) {part field : String}
    {value : TomlValue} (given : Gives members part field value) : value.Sound := by
  obtain ⟨fields, listed, found⟩ := given
  cases sound with
  | table _ each =>
    cases each (part, .table fields) listed with
    | table _ eachField => exact eachField (field, value) found

/-- A section that is absent is read as one without fields. -/
theorem readMember_section {α : Type} {read? : TomlValue → Option α} {default : α}
    (empty : read? (.table []) = some default) {part : String}
    (isTable : ∀ value, (part, value) ∈ members → ∃ fields, value = .table fields) :
    readMember members part read? default = read? (.table (fieldsOf members part)) := by
  unfold readMember fieldsOf
  split
  case h_1 value found =>
    obtain ⟨before, after, rfl, -⟩ := List.lookup_eq_some_iff.mp found
    obtain ⟨fields, rfl⟩ := isTable value (List.mem_append_right before List.mem_cons_self)
    rw [found]
  case h_2 missing => rw [missing, empty]

theorem readMember_field_eq_some_iff (sound : (TomlValue.table members).Sound) {α : Type}
    {read? : TomlValue → Option α} {takes : TomlValue → α → Prop}
    (reads : ∀ {value : TomlValue} {contents}, value.Sound →
      (read? value = some contents ↔ takes value contents))
    {part field : String} {default contents : α} :
    readMember (fieldsOf members part) field read? default = some contents ↔
      Overlaid members part field takes default contents := by
  unfold readMember
  split
  case h_1 value found =>
    have given := (lookup_fieldsOf_eq_some_iff sound).mp found
    rw [reads (given.sound sound)]
    constructor
    · exact .present given
    · rintro (nothing | ⟨other, taken⟩)
      · exact absurd given (nothing value)
      · have same := (lookup_fieldsOf_eq_some_iff sound).mpr other
        rw [found] at same
        cases same
        exact taken
  case h_2 missing =>
    have nothing : ∀ value, ¬ Gives members part field value := by
      intro value given
      have found := (lookup_fieldsOf_eq_some_iff sound).mpr given
      rw [missing] at found
      contradiction
    constructor
    · rintro ⟨⟩
      exact .absent nothing
    · rintro (_ | ⟨given, _⟩)
      · rfl
      · exact absurd given (nothing _)

theorem ServerSettings.ofToml?_eq_some_iff {fields : List (String × TomlValue)}
    {settings : ServerSettings} :
    ofToml? (.table fields) = some settings ↔
      readMember fields "address" TomlValue.text? "http://127.0.0.1:50051" =
        some settings.address ∧
      readMember fields "connect_timeout_ms" TomlValue.count? 5000 =
        some settings.connectTimeout := by
  cases settings
  simp [ofToml?, TomlValue.fields?, Option.bind_eq_some_iff]

theorem StreamSettings.ofToml?_eq_some_iff {fields : List (String × TomlValue)}
    {settings : StreamSettings} :
    ofToml? (.table fields) = some settings ↔
      readMember fields "reconnect" TomlValue.boolean? true = some settings.reconnect ∧
      readMember fields "initial_backoff_ms" TomlValue.count? 100 =
        some settings.initialBackoff ∧
      readMember fields "max_backoff_ms" TomlValue.count? 10000 = some settings.maxBackoff := by
  cases settings
  simp only [ofToml?, TomlValue.fields?, Option.bind_eq_bind, Option.bind_some,
    Option.bind_eq_some_iff, Option.some.injEq, StreamSettings.mk.injEq]
  grind

theorem GetSettings.ofToml?_eq_some_iff {fields : List (String × TomlValue)}
    {settings : GetSettings} :
    ofToml? (.table fields) = some settings ↔
      readMember fields "max_attempts" TomlValue.count? 5 = some settings.maxAttempts := by
  cases settings
  simp [ofToml?, TomlValue.fields?, Option.bind_eq_some_iff]

namespace Settings

theorem ofMembers?_eq_some_iff (sound : (TomlValue.table members).Sound)
    (sectioned : Sectioned members) {settings : Settings} :
    ofMembers? members = some settings ↔ Overlay members settings := by
  have server : readMember members "server" ServerSettings.ofToml? {} =
      ServerSettings.ofToml? (.table (fieldsOf members "server")) :=
    readMember_section (by rfl) (sectioned "server" (by simp))
  have stream : readMember members "stream" StreamSettings.ofToml? {} =
      StreamSettings.ofToml? (.table (fieldsOf members "stream")) :=
    readMember_section (by rfl) (sectioned "stream" (by simp))
  have getValues : readMember members "get_values" GetSettings.ofToml? {} =
      GetSettings.ofToml? (.table (fieldsOf members "get_values")) :=
    readMember_section (by rfl) (sectioned "get_values" (by simp))
  have parts : ofMembers? members = some settings ↔
      ServerSettings.ofToml? (.table (fieldsOf members "server")) = some settings.server ∧
      StreamSettings.ofToml? (.table (fieldsOf members "stream")) = some settings.stream ∧
      GetSettings.ofToml? (.table (fieldsOf members "get_values")) = some settings.getValues := by
    cases settings
    simp [ofMembers?, server, stream, getValues, Option.bind_eq_some_iff]
  rw [parts, ServerSettings.ofToml?_eq_some_iff, StreamSettings.ofToml?_eq_some_iff,
    GetSettings.ofToml?_eq_some_iff]
  simp only [readMember_field_eq_some_iff sound fun _ => TomlValue.text?_eq_some_iff,
    readMember_field_eq_some_iff sound fun _ => TomlValue.boolean?_eq_some_iff,
    readMember_field_eq_some_iff sound fun small => TomlValue.count?_eq_some_iff small]
  constructor
  · rintro ⟨⟨address, connectTimeout⟩, ⟨reconnect, initialBackoff, maxBackoff⟩, maxAttempts⟩
    exact ⟨address, connectTimeout, reconnect, initialBackoff, maxBackoff, maxAttempts⟩
  · intro overlay
    exact ⟨⟨overlay.address, overlay.connectTimeout⟩,
      ⟨overlay.reconnect, overlay.initialBackoff, overlay.maxBackoff⟩, overlay.maxAttempts⟩

section

variable {text : String} (document : Toml.ofText? text = some members)
  (sectioned : Sectioned members)
include document sectioned

theorem ofMembers?_eq_some_iff_overlay {settings : Settings} :
    ofMembers? members = some settings ↔ Overlay members settings :=
  ofMembers?_eq_some_iff (Toml.ofText?_sound document) sectioned

theorem Overlay.unique {first second : Settings} (firstOverlay : Overlay members first)
    (secondOverlay : Overlay members second) : first = second := by
  have read := (ofMembers?_eq_some_iff_overlay document sectioned).mpr firstOverlay
  rw [(ofMembers?_eq_some_iff_overlay document sectioned).mpr secondOverlay] at read
  exact (Option.some.inj read).symm

theorem ofText_of_overlay {settings : Settings} (overlay : Overlay members settings) :
    ofText text = settings.validate := by
  have read := (ofMembers?_eq_some_iff_overlay document sectioned).mpr overlay
  simp only [ofText, document, read]

theorem ofText_of_no_overlay (none : ∀ settings, ¬ Overlay members settings) :
    ofText text = .error .malformed := by
  have unread : ofMembers? members = Option.none := by
    apply Option.eq_none_iff_forall_not_mem.mpr
    intro settings read
    apply none settings
    exact (ofMembers?_eq_some_iff_overlay document sectioned).mp read
  simp only [ofText, document, unread]

theorem ofText_eq_ok_iff {settings : Settings} :
    ofText text = .ok settings ↔
      Overlay members settings ∧ ∀ requirement : Requirement, requirement.Holds settings := by
  by_cases overlays : ∃ overlaid, Overlay members overlaid
  · obtain ⟨overlaid, overlay⟩ := overlays
    rw [ofText_of_overlay document sectioned overlay, validate_eq_ok_iff]
    constructor
    · rintro ⟨rfl, holds⟩
      exact ⟨overlay, holds⟩
    · rintro ⟨other, holds⟩
      cases Overlay.unique document sectioned overlay other
      exact ⟨rfl, holds⟩
  · have none : ∀ settings, ¬ Overlay members settings :=
      fun settings overlay => overlays ⟨settings, overlay⟩
    rw [ofText_of_no_overlay document sectioned none]
    constructor
    · intro read
      contradiction
    · rintro ⟨overlay, -⟩
      exact absurd overlay (none settings)

end

theorem ofFile_toUTF8 (text : String) : ofFile (some text.toUTF8) = ofText text := by
  simp only [ofFile, Option.bind_some, Wire.fromUTF8?_toUTF8]

theorem ofFile_of_no_text {bytes : ByteArray} (none : ∀ text : String, text.toUTF8 ≠ bytes) :
    ofFile (some bytes) = .error .unreadable := by
  have undecoded : String.fromUTF8? bytes = Option.none := by
    apply Option.eq_none_iff_forall_not_mem.mpr
    intro text read
    apply none text
    obtain ⟨valid, ⟨⟩⟩ := Option.dite_none_right_eq_some.mp read
    rfl
  simp only [ofFile, Option.bind_some, undecoded]

/-- How a text and a file are loaded.  What spells a document is read as that document.
Whatever else a document holds, its settings are the overlay if that meets all requirements;
if it does not, the first that it breaks is reported. -/
theorem ofText_ofFile_outcome (text : String) :
    (Toml.ofText? text = none → ofText text = .error .malformed) ∧
    (∀ members, Toml.SpellsDocument text members → Toml.ofText? text = some members) ∧
    (∀ members, Toml.ofText? text = some members → Sectioned members →
      (∀ settings, ofText text = .ok settings ↔
        Overlay members settings ∧ ∀ requirement : Requirement, requirement.Holds settings) ∧
      (∀ first second, Overlay members first → Overlay members second → first = second) ∧
      (∀ settings (requirement : Requirement), Overlay members settings →
        requirement.FirstBroken settings →
        ∃ error, ofText text = .error error ∧
          error.message = "Invalid configuration: " ++ requirement.message settings) ∧
      ((∀ settings, ¬ Overlay members settings) → ofText text = .error .malformed)) ∧
    ofFile (some text.toUTF8) = ofText text ∧
    ∀ bytes, (∀ other : String, other.toUTF8 ≠ bytes) →
      ofFile (some bytes) = .error .unreadable := by
  refine ⟨?_, fun members => Toml.ofText?_of_spells, ?_, ofFile_toUTF8 text,
    fun bytes => ofFile_of_no_text⟩
  · intro undocumented
    simp only [ofText, undocumented]
  · intro members document sectioned
    refine ⟨fun settings => ofText_eq_ok_iff document sectioned, ?_, ?_,
      ofText_of_no_overlay document sectioned⟩
    · intro first second
      exact Overlay.unique document sectioned
    · intro settings requirement overlay first
      refine ⟨.invalid (requirement.fault settings), ?_, ?_⟩
      · rw [ofText_of_overlay document sectioned overlay, first.validate_eq]
      · exact congrArg ("Invalid configuration: " ++ ·) (requirement.message_fault)

/-- A section with one integer, each on a line of its own. -/
theorem spells_reconnect : Toml.SpellsDocument "[stream]\nreconnect = 1\n"
    [("stream", .table [("reconnect", .integer 1)])] := by
  have noBlanks : Toml.Blanks [] := List.forall_mem_nil _
  have blank : Toml.Blanks [' '] := List.forall_mem_singleton.mpr (.inl rfl)
  have stream : Toml.SpellsName "stream".toList "stream" :=
    .bare (by simp) (by simp [Toml.Bare])
  have reconnect : Toml.SpellsName "reconnect".toList "reconnect" :=
    .bare (by simp) (by simp [Toml.Bare])
  have header : Toml.SpellsStatement "[stream]".toList (.openTable [] "stream") :=
    .openTable noBlanks noBlanks stream noBlanks
  have number : Toml.SpellsValue 79 ['1'] (.integer 1) :=
    .scalar (.integer (.unsigned (.last '1')) (by decide) (by decide))
  have member : Toml.SpellsStatement "reconnect = 1".toList
      (.assign [] "reconnect" (.integer 1)) :=
    .assign (.pair noBlanks reconnect blank blank number)
  have statements : Toml.SpellsStatements "[stream]\nreconnect = 1\n".toList
      (Toml.assignments [] ++
        [("stream", [("reconnect", .integer 1)])].flatMap Toml.sectionStatements) :=
    .next header .nil .lineFeed (.next member .nil .lineFeed (.rest .nil))
  exact .document (.inl rfl) (List.nil_append _).symm statements (by decide) (by decide)

/-- A first wait that is given alone is compared with the longest wait by default; what
belongs to no setting is of no account. -/
theorem ofText_ofFile_outcome_of_texts :
    ofText "[stream" = .error .malformed ∧
    ofText "[stream]\nreconnect = 1\n" = .error .malformed ∧
    ofText "stream.initial_backoff_ms = 9999\n[metrics]\nport = -1\n" =
      .ok { stream := { initialBackoff := 9999 } } ∧
    (∃ error, ofText "[stream]\ninitial_backoff_ms = 10001\n" = .error error ∧
      error.message = "Invalid configuration: " ++
        "stream.initial_backoff_ms (10001) exceeds stream.max_backoff_ms (10000)") ∧
    ofFile (some ⟨#[0xff]⟩) = .error .unreadable := by
  obtain ⟨noDocument, -, -, -, noText⟩ := ofText_ofFile_outcome "[stream"
  obtain ⟨-, reads, mistyped, -⟩ := ofText_ofFile_outcome "[stream]\nreconnect = 1\n"
  obtain ⟨-, -, below, -⟩ := ofText_ofFile_outcome
    "stream.initial_backoff_ms = 9999\n[metrics]\nport = -1\n"
  obtain ⟨-, -, above, -⟩ := ofText_ofFile_outcome "[stream]\ninitial_backoff_ms = 10001\n"
  refine ⟨noDocument (by cbv), ?_, ?_, ?_, ?_⟩
  · have document := reads _ spells_reconnect
    have sectioned : Sectioned [("stream", .table [("reconnect", .integer 1)])] := by
      simp [Sectioned]
    obtain ⟨-, -, -, malformed⟩ := mistyped _ document sectioned
    apply malformed
    intro settings overlay
    have read := (ofMembers?_eq_some_iff_overlay document sectioned).mpr overlay
    contradiction
  · have document : Toml.ofText? "stream.initial_backoff_ms = 9999\n[metrics]\nport = -1\n" =
        some [("stream", .table [("initial_backoff_ms", .integer 9999)]),
          ("metrics", .table [("port", .integer (-1))])] := by cbv
    have sectioned : Sectioned [("stream", .table [("initial_backoff_ms", .integer 9999)]),
        ("metrics", .table [("port", .integer (-1))])] := by simp [Sectioned]
    obtain ⟨loads, -⟩ := below _ document sectioned
    apply (loads _).mpr
    constructor
    · exact (ofMembers?_eq_some_iff_overlay document sectioned).mp (by rfl)
    · exact Requirement.fault?_eq_none_iff.mp (by rfl)
  · have document : Toml.ofText? "[stream]\ninitial_backoff_ms = 10001\n" =
        some [("stream", .table [("initial_backoff_ms", .integer 10001)])] := by cbv
    have sectioned : Sectioned [("stream", .table [("initial_backoff_ms", .integer 10001)])] := by
      simp [Sectioned]
    obtain ⟨-, -, reported, -⟩ := above _ document sectioned
    obtain ⟨error, failed, message⟩ := reported { stream := { initialBackoff := 10001 } }
      .backoffOrder
      ((ofMembers?_eq_some_iff_overlay document sectioned).mp (by rfl))
      (Requirement.firstBroken_iff_fault?.mpr (by rfl))
    have shown : Requirement.message { stream := { initialBackoff := 10001 } } .backoffOrder =
        "stream.initial_backoff_ms (10001) exceeds stream.max_backoff_ms (10000)" := by
      decide +kernel
    rw [shown] at message
    exact ⟨error, failed, message⟩
  · apply noText
    intro text same
    have read := Wire.fromUTF8?_toUTF8 text
    rw [same] at read
    contradiction

end Settings

end VehicleRelay
