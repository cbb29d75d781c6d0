import VehicleRelay.Coded

/-!
# Outcomes of remote calls

A call to the vehicle server either answers or fails with a code and a message.
-/

namespace VehicleRelay

inductive RpcCode
  | ok
  | cancelled
  | unknown
  | invalidArgument
  | deadlineExceeded
  | notFound
  | alreadyExists
  | permissionDenied
  | resourceExhausted
  | failedPrecondition
  | aborted
  | outOfRange
  | unimplemented
  | internal
  | unavailable
  | dataLoss
  | unauthenticated
deriving DecidableEq, Repr, Inhabited

instance : Coded RpcCode where
  cases := [.ok, .cancelled, .unknown, .invalidArgument, .deadlineExceeded, .notFound,
    .alreadyExists, .permissionDenied, .resourceExhausted, .failedPrecondition, .aborted,
    .outOfRange, .unimplemented, .internal, .unavailable, .dataLoss, .unauthenticated]
  name
    | .ok => "Ok"
    | .cancelled => "Cancelled"
    | .unknown => "Unknown"
    | .invalidArgument => "InvalidArgument"
    | .deadlineExceeded => "DeadlineExceeded"
    | .notFound => "NotFound"
    | .alreadyExists => "AlreadyExists"
    | .permissionDenied => "PermissionDenied"
    | .resourceExhausted => "ResourceExhausted"
    | .failedPrecondition => "FailedPrecondition"
    | .aborted => "Aborted"
    | .outOfRange => "OutOfRange"
    | .unimplemented => "Unimplemented"
    | .internal => "Internal"
    | .unavailable => "Unavailable"
    | .dataLoss => "DataLoss"
    | .unauthenticated => "Unauthenticated"
  code
    | .ok => 0
    | .cancelled => 1
    | .unknown => 2
    | .invalidArgument => 3
    | .deadlineExceeded => 4
    | .notFound => 5
    | .alreadyExists => 6
    | .permissionDenied => 7
    | .resourceExhausted => 8
    | .failedPrecondition => 9
    | .aborted => 10
    | .outOfRange => 11
    | .unimplemented => 12
    | .internal => 13
    | .unavailable => 14
    | .dataLoss => 15
    | .unauthenticated => 16
  fallback := .unknown

@[simp] theorem RpcCode.ofCode_code (code : RpcCode) :
    Coded.ofCode (Coded.code code) = code := by
  cases code <;> rfl

structure RpcError where
  code : RpcCode
  message : String
deriving DecidableEq, Repr, Inhabited

namespace RpcError

def text (error : RpcError) : String :=
  Coded.name error.code ++ ": " ++ error.message

/-- The server does not know the call at all. -/
def isUnimplemented (error : RpcError) : Bool :=
  error.code == .unimplemented

end RpcError

abbrev RpcResult (Answer : Type) := Except RpcError Answer

end VehicleRelay
