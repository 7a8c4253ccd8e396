import ScopedLabels.Scope.Lifetime

/-!
# Making labels — the label of the place where one is asked for

A label is asked for with a name, without one, or with a label that exists already; the last comes
back unchanged, so asking twice does no harm.

Under an explicit scope the label is the path of the scope with one more segment: the name, or the
next number of the scope. Otherwise a scope of that name is entered for a moment, in the
environment, and the label is the path it got. As every entry does, this sets the counter named by
the new label back to zero.
-/

namespace ScopedLabels

/-- What a label is asked for with. -/
inductive Naming
  /-- A name for its last segment, or none. -/
  | fresh (name : Option Text)
  /-- A label that exists already. -/
  | ready (label : Label)
deriving DecidableEq

/-! ## Below the innermost active scope -/

/-- The label of a scope that is made, entered and destroyed on the spot. -/
def Environment.momentaryLabel (environment : Environment) (name : Option Text) : Action Label := do
  ScopeId.transient.create (.ofName? environment name)
  let label := ScopeId.transient.guarded do
    modify (·.count .labelsGenerated)
    return ⟨← ScopeId.transient.path⟩
  label.ensuring ScopeId.transient.destroy

/-- A label below the innermost active scope of an environment. -/
def Environment.labelFor (environment : Environment) : Naming → Action Label
  | .fresh name => environment.momentaryLabel name
  | .ready label => return label

/-! ## Below an explicit scope -/

/-- The last segment of a label below a scope: the name, or else the next number. -/
def ScopeId.segment (id : ScopeId) : Option Text → Action Text
  | some name => do
    let scope ← id.fetch
    ofExcept (requireName ((← get).optionsOf scope.environment) name)
    return name
  | none => id.nextSegment

/-- The label of one more segment below a scope, which must be resolved. -/
def ScopeId.labelBelow (id : ScopeId) (name : Option Text) : Action Label := do
  let path ← id.path
  let segment ← id.segment name
  modify (·.count .labelsGenerated)
  return ⟨path ++ [segment]⟩

/-- A label below a scope. -/
def ScopeId.labelFor (id : ScopeId) : Naming → Action Label
  | .fresh name => id.labelBelow name
  | .ready label => return label

end ScopedLabels
