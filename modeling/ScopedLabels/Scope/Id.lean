import ScopedLabels.Text

/-!
# Scope identities

A scope is an object with a life of its own: it is entered and left many times, and the stack of
active scopes refers to it. It is identified by who holds it, so that making a scope needs no
supply of fresh numbers and two independent tasks never interfere through one.
-/

namespace ScopedLabels

/-- Who holds a scope. -/
inductive ScopeId
  /-- A scope held by the caller under a name. -/
  | held (name : Text)
  /-- The scope that a script runner opened when `depth` scopes were open. -/
  | opened (runner : Text) (depth : Nat)
  /-- The scope that lives while one automatic label is made. -/
  | transient
deriving DecidableEq

end ScopedLabels
