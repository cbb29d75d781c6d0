import Mathlib.Data.List.DropRight
import Mathlib.Tactic.MkIffOfInductiveProp
import VehicleRelay.Settings.Basic

/-!
# What settings have to meet

Settings have to meet four requirements, which are checked in a fixed order.  Settings that meet
them all are valid as they are; of others the first requirement that they break is reported.
-/

namespace VehicleRelay

namespace Text

/-- What is left of a text without the blanks at both of its ends. -/
def trimmed (text : String) : List Char :=
  (text.toList.dropWhile isBlank).rdropWhile isBlank

theorem allBlank_iff_trimmed_eq_nil (text : String) : allBlank text ↔ trimmed text = [] := by
  rw [allBlank, List.all_eq_true, trimmed, List.rdropWhile_eq_nil_iff]
  constructor
  · intro blank character kept
    exact blank character ((List.dropWhile_sublist isBlank).mem kept)
  · intro blank character listed
    rw [← List.takeWhile_append_dropWhile (p := isBlank) (l := text.toList)] at listed
    rcases List.mem_append.mp listed with taken | kept
    · exact List.mem_takeWhile_imp taken
    · exact blank character kept

end Text

theorem Decimal.text_ofNat (number : Nat) : Decimal.text number = toString number := by
  have natural : ¬ (number : Int) < 0 := by omega
  rw [text, ofInt, if_neg natural]
  rfl

theorem SettingsFault.message_backoffAboveMaximum (initial maximum : UInt64) :
    (backoffAboveMaximum initial maximum).message =
      "stream.initial_backoff_ms (" ++ Decimal.text initial.toNat
        ++ ") exceeds stream.max_backoff_ms (" ++ Decimal.text maximum.toNat ++ ")" :=
  rfl

namespace Settings

inductive Requirement
  | address
  | attempts
  | backoff
  | backoffOrder
deriving DecidableEq, Repr

namespace Requirement

/-- The place among the requirements in the order in which they are checked. -/
def place : Requirement → Nat
  | .address => 0
  | .attempts => 1
  | .backoff => 2
  | .backoffOrder => 3

def Holds (settings : Settings) : Requirement → Prop
  | .address => Text.trimmed settings.server.address ≠ []
  | .attempts => 1 ≤ settings.getValues.maxAttempts
  | .backoff => 1 ≤ settings.stream.initialBackoff
  | .backoffOrder => settings.stream.initialBackoff ≤ settings.stream.maxBackoff

def message (settings : Settings) : Requirement → String
  | .address => "server.address must not be empty"
  | .attempts => "get_values.max_attempts must be at least 1"
  | .backoff => "stream.initial_backoff_ms must be at least 1"
  | .backoffOrder =>
      "stream.initial_backoff_ms (" ++ toString settings.stream.initialBackoff.toNat
        ++ ") exceeds stream.max_backoff_ms (" ++ toString settings.stream.maxBackoff.toNat ++ ")"

/-- The fault of settings that break a requirement. -/
def fault (settings : Settings) : Requirement → SettingsFault
  | .address => .blankAddress
  | .attempts => .noAttempts
  | .backoff => .noBackoff
  | .backoffOrder =>
      .backoffAboveMaximum settings.stream.initialBackoff settings.stream.maxBackoff

/-- A requirement is broken, and all that are checked before it hold. -/
@[mk_iff]
structure FirstBroken (settings : Settings) (requirement : Requirement) : Prop where
  broken : ¬ requirement.Holds settings
  earlier : ∀ other : Requirement, other.place < requirement.place → other.Holds settings

variable {settings : Settings}

theorem message_fault (requirement : Requirement) :
    (requirement.fault settings).message = requirement.message settings := by
  cases requirement with
  | address => rfl
  | attempts => rfl
  | backoff => rfl
  | backoffOrder =>
      have shown := SettingsFault.message_backoffAboveMaximum settings.stream.initialBackoff
        settings.stream.maxBackoff
      rw [Decimal.text_ofNat, Decimal.text_ofNat] at shown
      exact shown

theorem holds_address_iff : Holds settings .address ↔ ¬ Text.allBlank settings.server.address := by
  rw [Text.allBlank_iff_trimmed_eq_nil]
  rfl

theorem one_le_iff {count : UInt64} : 1 ≤ count ↔ ¬ count = 0 := by
  rw [UInt64.le_iff_toNat_le, ← UInt64.toNat_inj]
  exact Nat.one_le_iff_ne_zero

theorem holds_attempts_iff : Holds settings .attempts ↔ ¬ settings.getValues.maxAttempts = 0 :=
  one_le_iff

theorem holds_backoff_iff : Holds settings .backoff ↔ ¬ settings.stream.initialBackoff = 0 :=
  one_le_iff

theorem holds_backoffOrder_iff :
    Holds settings .backoffOrder ↔ ¬ settings.stream.maxBackoff < settings.stream.initialBackoff :=
  UInt64.not_lt.symm

theorem forall_iff {property : Requirement → Prop} :
    (∀ requirement, property requirement) ↔
      property .address ∧ property .attempts ∧ property .backoff ∧ property .backoffOrder := by
  constructor
  · intro all
    exact ⟨all _, all _, all _, all _⟩
  · rintro ⟨address, attempts, backoff, backoffOrder⟩ (_ | _ | _ | _)
    all_goals assumption

theorem fault?_eq_none_iff :
    settings.fault? = none ↔ ∀ requirement, Holds settings requirement := by
  rw [forall_iff, holds_address_iff, holds_attempts_iff, holds_backoff_iff,
    holds_backoffOrder_iff, fault?]
  grind

/-- The fault that is found belongs to the requirement that is broken first. -/
theorem firstBroken_iff_fault? {requirement : Requirement} :
    requirement.FirstBroken settings ↔ settings.fault? = some (requirement.fault settings) := by
  rw [firstBroken_iff, forall_iff, holds_address_iff, holds_attempts_iff, holds_backoff_iff,
    holds_backoffOrder_iff, Settings.fault?]
  cases requirement with
  | address =>
      simp only [holds_address_iff, place, fault]
      grind
  | attempts =>
      simp only [holds_attempts_iff, place, fault]
      grind
  | backoff =>
      simp only [holds_backoff_iff, place, fault]
      grind
  | backoffOrder =>
      simp only [holds_backoffOrder_iff, place, fault]
      grind

end Requirement

theorem validate_eq_ok_iff {settings valid : Settings} :
    settings.validate = .ok valid ↔
      valid = settings ∧ ∀ requirement : Requirement, requirement.Holds settings := by
  rw [← Requirement.fault?_eq_none_iff, validate]
  cases settings.fault? with
  | none => simp [eq_comm]
  | some fault => simp

theorem Requirement.FirstBroken.validate_eq {settings : Settings} {requirement : Requirement}
    (first : requirement.FirstBroken settings) :
    settings.validate = .error (.invalid (requirement.fault settings)) := by
  rw [validate, Requirement.firstBroken_iff_fault?.mp first]

end Settings

end VehicleRelay
