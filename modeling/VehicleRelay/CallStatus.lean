import VehicleRelay.Coded
import VehicleRelay.Decimal.Integer

/-!
# Call statuses

Every call of the vehicle contract ends with one status.  A peer sends a status
as a number; a number outside the vocabulary is an error where it has to be
known, and an internal error where a status has to be reported anyway.
-/

namespace VehicleRelay

inductive CallStatus
  | ok
  /-- The caller may try the same call again. -/
  | tryAgain
  | invalidArg
  | notAvailable
  | accessDenied
  | internalError
  | notAvailableDisabled
  | notAvailableSpeedLow
  | notAvailableSpeedHigh
  | notAvailablePoorVisibility
  | notAvailableSafety
deriving DecidableEq, Repr, Inhabited

/-- A number that is no status. -/
structure UnknownStatus where
  number : Int32
deriving DecidableEq, Repr

def UnknownStatus.message (unknown : UnknownStatus) : String :=
  "Unknown status code: " ++ Decimal.text unknown.number.toInt

namespace CallStatus

instance : Coded CallStatus where
  cases := [.ok, .tryAgain, .invalidArg, .notAvailable, .accessDenied, .internalError,
    .notAvailableDisabled, .notAvailableSpeedLow, .notAvailableSpeedHigh,
    .notAvailablePoorVisibility, .notAvailableSafety]
  name
    | .ok => "OK"
    | .tryAgain => "TRY_AGAIN"
    | .invalidArg => "INVALID_ARG"
    | .notAvailable => "NOT_AVAILABLE"
    | .accessDenied => "ACCESS_DENIED"
    | .internalError => "INTERNAL_ERROR"
    | .notAvailableDisabled => "NOT_AVAILABLE_DISABLED"
    | .notAvailableSpeedLow => "NOT_AVAILABLE_SPEED_LOW"
    | .notAvailableSpeedHigh => "NOT_AVAILABLE_SPEED_HIGH"
    | .notAvailablePoorVisibility => "NOT_AVAILABLE_POOR_VISIBILITY"
    | .notAvailableSafety => "NOT_AVAILABLE_SAFETY"
  code
    | .ok => 0
    | .tryAgain => 1
    | .invalidArg => 2
    | .notAvailable => 3
    | .accessDenied => 4
    | .internalError => 5
    | .notAvailableDisabled => 6
    | .notAvailableSpeedLow => 7
    | .notAvailableSpeedHigh => 8
    | .notAvailablePoorVisibility => 9
    | .notAvailableSafety => 10
  fallback := .internalError

@[simp] theorem ofCode_code (status : CallStatus) :
    Coded.ofCode (Coded.code status) = status := by
  cases status <;> rfl

def decode (number : Int32) : Except UnknownStatus CallStatus :=
  match Coded.ofCode? number with
  | some status => .ok status
  | none => .error ⟨number⟩

theorem decode_eq_ok_iff {number : Int32} {status : CallStatus} :
    decode number = .ok status ↔ Coded.ofCode? number = some status := by
  cases found : (Coded.ofCode? number : Option CallStatus) <;> simp [decode, found]

def isOk (status : CallStatus) : Bool :=
  status == .ok

end CallStatus

end VehicleRelay
