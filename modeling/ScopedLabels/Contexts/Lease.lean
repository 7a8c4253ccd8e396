import ScopedLabels.World

/-!
# Leases — context values for a limited time

A lease puts a value on a key for as long as the lease lasts. When it ends it takes off whatever is
innermost then, which is its own value as long as everything above has gone; if the key holds
nothing any more, that is reported.
-/

namespace ScopedLabels

/-- The key that a lease is on. -/
structure Lease where
  stack : Text
  key : Text
deriving DecidableEq

namespace Lease

/-- Push the value. -/
def start (lease : Lease) (value : Value) : Action Unit :=
  modify (·.modifyStack lease.stack (·.push lease.key value))

/-- Take off the innermost value. -/
def finish (lease : Lease) : Action Unit := do
  if ((← get).stack lease.stack).isEmpty lease.key then
    modify (·.report .error (.alreadyPopped lease.key))
  else
    modify (·.modifyStack lease.stack (·.dropTop lease.key))

end Lease

end ScopedLabels
