import VehicleRelay.Property.Value

/-!
# Callbacks

A relay keeps the first handler that is registered for changes of properties,
and the first one for failures of set requests.  Once the callbacks are closed
no handler runs.
-/

namespace VehicleRelay

/-- Handlers are told apart by a number. -/
abbrev Handler := Nat

/-- A handler has been given some values. -/
structure ChangeEvent where
  handler : Handler
  values : List PropertyValue
deriving DecidableEq, Repr

structure Callbacks where
  change : Option Handler := none
  setFailure : Option Handler := none
  closed : Bool := false
deriving DecidableEq, Repr, Inhabited

namespace Callbacks

def registerChange (callbacks : Callbacks) (handler : Handler) : Callbacks :=
  { callbacks with change := callbacks.change.or (some handler) }

def registerSetFailure (callbacks : Callbacks) (handler : Handler) : Callbacks :=
  { callbacks with setFailure := callbacks.setFailure.or (some handler) }

def close (callbacks : Callbacks) : Callbacks :=
  { callbacks with closed := true }

/-- The event of giving values to the handler of changes, if there is any
value and a handler that may run. -/
def dispatch (callbacks : Callbacks) (values : List PropertyValue) : List ChangeEvent :=
  if callbacks.closed || values.isEmpty then []
  else (callbacks.change.map fun handler => ⟨handler, values⟩).toList

@[simp] theorem dispatch_close (callbacks : Callbacks) (values : List PropertyValue) :
    callbacks.close.dispatch values = [] := by
  simp [close, dispatch]

@[simp] theorem dispatch_nil (callbacks : Callbacks) : callbacks.dispatch [] = [] := by
  simp [dispatch]

theorem registerChange_of_isSome {callbacks : Callbacks}
    (registered : callbacks.change.isSome) (handler : Handler) :
    callbacks.registerChange handler = callbacks := by
  obtain ⟨first, stored⟩ := Option.isSome_iff_exists.1 registered
  cases callbacks
  simp_all [registerChange]

end Callbacks

end VehicleRelay
