import ScopedLabels.Text

/-!
# Environments — what one labeling task works against

An environment names the counter registry it draws numbers from and the context stack its scopes
are active on. Both may be shared with other environments; the binding never changes. What may be
changed, its options, is state and is kept under the environment's name.
-/

namespace ScopedLabels

/-- The name that every default goes by: environment, registry, stack and counter. -/
def defaultName : Text := "default"

/-- A binding of a counter registry and a context stack. -/
structure Environment where
  name : Text
  /-- The registry that numbers are drawn from. -/
  counters : Text
  /-- The stack that scopes are active on. -/
  contexts : Text
deriving DecidableEq

/-- The environment of everyone who names none. -/
def Environment.default : Environment :=
  ⟨defaultName, defaultName, defaultName⟩

end ScopedLabels
