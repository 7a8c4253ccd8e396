import ScopedLabels.Contexts.Basic
import ScopedLabels.Counters
import ScopedLabels.Log
import ScopedLabels.Metrics
import ScopedLabels.Roster
import ScopedLabels.Scope.Basic

/-!
# The world — all state that labeling works on

One record holds the counter registries and context stacks by name, the options of every
environment, the scopes that are alive, the log and the metrics. A registry or stack that was never
touched is empty, and an environment that was never told otherwise has the default options, so
every lookup is total.

An `Action` is an operation on the world that may fail. When it fails the world it had reached is
kept, not rolled back: that a failed operation changed nothing is something to be proved of it.
-/

namespace ScopedLabels

/-- All state that labeling works on. -/
@[ext]
structure World where
  registries : Std.ExtTreeMap Text Counters := ∅
  contexts : Std.ExtTreeMap Text Contexts := ∅
  options : Std.ExtTreeMap Text Options := ∅
  scopes : Roster ScopeId Scope := {}
  log : Log := {}
  metrics : Metrics := {}

namespace World

/-! ## Registries, stacks and options by name -/

/-- The counter registry of a name. -/
def registry (w : World) (name : Text) : Counters :=
  w.registries.getD name {}

/-- Change the counter registry of a name. -/
def modifyRegistry (w : World) (name : Text) (f : Counters → Counters) : World :=
  { w with registries := w.registries.insert name (f (w.registry name)) }

/-- The context stack of a name. -/
def stack (w : World) (name : Text) : Contexts :=
  w.contexts.getD name ∅

/-- Change the context stack of a name. -/
def modifyStack (w : World) (name : Text) (f : Contexts → Contexts) : World :=
  { w with contexts := w.contexts.insert name (f (w.stack name)) }

/-- The options of an environment. -/
def optionsOf (w : World) (environment : Environment) : Options :=
  w.options.getD environment.name {}

/-- Set the options of an environment. -/
def setOptions (w : World) (environment : Environment) (options : Options) : World :=
  { w with options := w.options.insert environment.name options }

theorem registry_modifyRegistry (w : World) (name other : Text) (f : Counters → Counters) :
    (w.modifyRegistry name f).registry other =
      if name = other then f (w.registry name) else w.registry other := by
  simp [registry, modifyRegistry, Std.ExtTreeMap.getD_insert]

theorem stack_modifyStack (w : World) (name other : Text) (f : Contexts → Contexts) :
    (w.modifyStack name f).stack other =
      if name = other then f (w.stack name) else w.stack other := by
  simp [stack, modifyStack, Std.ExtTreeMap.getD_insert]

/-- Changing a stack twice is changing it by one change after the other. -/
theorem modifyStack_modifyStack (w : World) (name : Text) (f g : Contexts → Contexts) :
    (w.modifyStack name f).modifyStack name g = w.modifyStack name (g ∘ f) := by
  refine World.ext rfl (Std.ExtTreeMap.ext_getElem? fun other => ?_) rfl rfl rfl rfl
  show ((w.contexts.insert name _).insert name _)[other]? = (w.contexts.insert name _)[other]?
  rw [Std.ExtTreeMap.getElem?_insert, Std.ExtTreeMap.getElem?_insert,
    Std.ExtTreeMap.getElem?_insert, stack_modifyStack, if_pos rfl]
  split <;> rfl

/-- The active scopes of an environment and whatever else stands under their key, innermost
first. -/
def activeValues (w : World) (environment : Environment) : List Value :=
  (w.stack environment.contexts).values Scope.contextKey

/-- The innermost active scope of an environment, if any. It is an error if the innermost value is
no scope. -/
def current (w : World) (environment : Environment) : Except Error (Option ScopeId) :=
  let stack := w.stack environment.contexts
  if stack.isEmpty Scope.contextKey then .ok none
  else some <$> stack.topAs .scope Scope.contextKey

/-! ## Scopes, log and metrics -/

/-- The scope under an identity. -/
def scope? (w : World) (id : ScopeId) : Option Scope :=
  w.scopes.get? id

/-- Add a scope under an identity. -/
def addScope (w : World) (id : ScopeId) (scope : Scope) : World :=
  { w with scopes := w.scopes.insert id scope }

/-- Forget the scope under an identity. -/
def dropScope (w : World) (id : ScopeId) : World :=
  { w with scopes := w.scopes.erase id }

/-- Replace the scope under an identity. -/
def putScope (w : World) (id : ScopeId) (scope : Scope) : World :=
  { w with scopes := w.scopes.modify id fun _ => scope }

/-- Write a record to the log. -/
def report (w : World) (level : Level) (notice : Notice) : World :=
  { w with log := w.log.write level notice }

/-- Count an event. -/
def count (w : World) (metric : Metric) : World :=
  { w with metrics := w.metrics.count metric }

end World

/-! ## Actions -/

/-- An operation on the world that may fail. -/
abbrev Action := EStateM Error World

namespace Action

/-- Run `body`, then `cleanup` whether or not `body` failed, and end as `body` did. -/
def ensuring {α : Type} (body : Action α) (cleanup : Action Unit) : Action α := fun w =>
  match body w with
  | .ok a w => (do cleanup; return a : Action α) w
  | .error e w => (do cleanup; throw e : Action α) w

/-- Run `body`, and `cleanup` only if `body` failed, and end as `body` did. -/
def onFailure {α : Type} (body : Action α) (cleanup : Action Unit) : Action α := fun w =>
  match body w with
  | .ok a w => .ok a w
  | .error e w => (do cleanup; throw e : Action α) w

/-- Draw the next number of a counter of a registry. -/
def draw (registry name : Text) : Action UInt64 :=
  modifyGet fun w =>
    (((w.registry registry).draw name).1, w.modifyRegistry registry fun c => (c.draw name).2)

/-- Read a context stack, or fail as the reading does. -/
def readStack {α : Type} (name : Text) (read : Contexts → Except Error α) : Action α := do
  ofExcept (read ((← get).stack name))

/-- Take something off a context stack, or fail as the taking does. -/
def takeFromStack {α : Type} (name : Text)
    (take : Contexts → Except Error (α × Contexts)) : Action α := do
  let (a, rest) ← readStack name take
  modify (·.modifyStack name fun _ => rest)
  return a

end Action

end ScopedLabels
