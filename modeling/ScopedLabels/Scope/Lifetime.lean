import ScopedLabels.World

/-!
# The life of a scope — making, entering, leaving and destroying it

Entering a scope pushes it onto the active-scope list of its environment and sets the counter named
by its path back to zero, so a scope that is entered again numbers from one again. The first entry
also decides where the scope stands: below the innermost active scope, or at the top if there is
none. A scope without a name of its own takes the next number of its parent, and the next global
number if it has no parent.

There are two ways to leave. `exit` insists that the scope is the innermost one, and fails
otherwise. `release` is what happens at the end of a guarded block: it only reports it when the
scope is not the innermost one, and leaves the list as it is then. Destroying a scope
that is still active takes all its entries off the list.
-/

namespace ScopedLabels

/-! ## Looking scopes up -/

/-- The scope under an identity, which must be alive. -/
def ScopeId.fetch (id : ScopeId) : Action Scope := do
  match (← get).scope? id with
  | some scope => return scope
  | none => throw (.misuse .unknownHandle)

/-- The path of a scope, which must be resolved. -/
def ScopeId.path (id : ScopeId) : Action Path := do
  ofExcept (← id.fetch).path

/-- The innermost active scope of an environment, if any. -/
def Environment.current (environment : Environment) : Action (Option ScopeId) := do
  ofExcept ((← get).current environment)

/-! ## Drawing numbers -/

/-- Draw the next number of a counter of an environment. -/
def Environment.draw (environment : Environment) (name : Text) : Action UInt64 :=
  Action.draw environment.counters name

/-- Draw the next number of a scope, which must be resolved. -/
def ScopeId.nextNumber (id : ScopeId) : Action UInt64 := do
  let scope ← id.fetch
  scope.environment.draw (← ofExcept scope.fullName)

/-- Draw the next number of a scope as a segment. -/
def ScopeId.nextSegment (id : ScopeId) : Action Text := do
  return Text.ofCount (← id.nextNumber)

/-! ## Making scopes -/

/-- What a new scope is made from. -/
inductive Origin
  /-- A name, checked against the options of the environment. -/
  | basename (environment : Environment) (name : Text)
  /-- Nothing; the scope will be numbered. -/
  | unnamed (environment : Environment)
  /-- The segments of a label. -/
  | path (environment : Environment) (segments : Path)
  /-- The place of global numbering. -/
  | global (environment : Environment)
  /-- The place and environment of another scope, which must be resolved. -/
  | existing (source : ScopeId)
deriving DecidableEq

/-- The origin of a scope that may or may not be given a name. -/
def Origin.ofName? (environment : Environment) : Option Text → Origin
  | some name => .basename environment name
  | none => .unnamed environment

/-- The scope that an origin describes. -/
def Origin.scope (w : World) : Origin → Except Error Scope
  | .basename environment name => Scope.named (w.optionsOf environment) environment name
  | .unnamed environment => .ok (Scope.unnamed environment)
  | .path environment segments => Scope.ofPath environment segments
  | .global environment => .ok (Scope.global environment)
  | .existing source =>
    match w.scope? source with
    | some scope => scope.alike
    | none => .error (.misuse .unknownHandle)

/-- Make a scope under an identity that is not in use. -/
def ScopeId.create (id : ScopeId) (origin : Origin) : Action Unit := do
  let scope ← ofExcept (origin.scope (← get))
  if (← get).scopes.contains id then
    throw (.misuse .handleInUse)
  else
    modify (·.addScope id scope)

/-! ## Entering -/

/-- Report that a scope falls back to global numbering, if its environment wants that reported, and
count it. -/
def World.fallBack (w : World) (environment : Environment) : World :=
  let w :=
    if (w.optionsOf environment).warnOnGlobalFallback then w.report .warning .globalFallback else w
  w.count .globalFallbacks

/-- Where a scope will stand once entered: its parents and its own segment. This is the only step
of an entry that can fail, and it fails before it draws or counts anything. -/
def Scope.settle (scope : Scope) : Action (Path × Text) :=
  match scope.place with
  | .resolved parents basename => return (parents, basename)
  | .unresolved basename? => do
    match ← scope.environment.current, basename? with
    | some parent, some basename => return (← parent.path, basename)
    | some parent, none => do
      let parents ← parent.path
      return (parents, ← parent.nextSegment)
    | none, some basename => return ([], basename)
    | none, none => do
      modify (·.fallBack scope.environment)
      let number ← scope.environment.draw Scope.globalPath.text
      return (Scope.globalPath, Text.ofCount number)

/-- What an entry does to the world once it is known where the scope stands. -/
def World.activate (w : World) (id : ScopeId) (scope : Scope) (parents : Path) (basename : Text) :
    World :=
  let settled : Scope :=
    { scope with place := .resolved parents basename, entries := scope.entries + 1 }
  w.putScope id settled
    |>.modifyStack scope.environment.contexts (·.push Scope.contextKey (.scope id))
    |>.modifyRegistry scope.environment.counters (·.zero (Path.text (parents ++ [basename])))
    |>.count .scopesEntered
    |>.report .debug (.entered settled.display)

/-- Enter a scope. -/
def ScopeId.enter (id : ScopeId) : Action Unit := do
  let scope ← id.fetch
  let (parents, basename) ← scope.settle
  modify (·.activate id scope parents basename)

/-! ## Leaving -/

/-- What leaving does to the world when the scope is the innermost one. -/
def World.deactivate (w : World) (id : ScopeId) (scope : Scope) : World :=
  w.putScope id { scope with entries := scope.entries - 1 }
    |>.modifyStack scope.environment.contexts (·.dropTop Scope.contextKey)
    |>.count .scopesExited
    |>.report .debug (.exited scope.display)

/-- Give up one entry of a scope. There has to be one: the count of entries never goes below
zero. -/
def ScopeId.leave (id : ScopeId) (scope : Scope) : Action Unit :=
  if scope.entries = 0 then throw (.misuse .notEntered)
  else modify (·.deactivate id scope)

/-- Leave a scope, which must be the innermost one. -/
def ScopeId.exit (id : ScopeId) : Action Unit := do
  let scope ← id.fetch
  let stack := (← get).stack scope.environment.contexts
  let top ← ofExcept (stack.topAs .scope Scope.contextKey)
  if top = id then
    id.leave scope
  else
    throw (.scopeOrder scope.display (← top.fetch).display)

/-- Leave a scope if it is the innermost one, and only report it otherwise. -/
def ScopeId.release (id : ScopeId) : Action Unit := do
  let scope ← id.fetch
  match (← get).activeValues scope.environment with
  | [] => modify (·.report .error (.releasedInactive scope.display))
  | top :: _ =>
    if top = .scope id then
      id.leave scope
    else
      modify (·.report .error (.releasedOutOfOrder scope.display))

/-- Run `body` with the scope entered. -/
def ScopeId.guarded {α : Type} (id : ScopeId) (body : Action α) : Action α := do
  id.enter
  Action.ensuring body id.release

/-! ## Destroying -/

/-- Take every entry of a scope off the active-scope list, and report it if there was any. -/
def World.evict (w : World) (id : ScopeId) (scope : Scope) : World :=
  let removed := ((w.stack scope.environment.contexts).eraseAll .scope Scope.contextKey id).1
  let w := w.modifyStack scope.environment.contexts fun stack =>
    (stack.eraseAll .scope Scope.contextKey id).2
  if removed = 0 then w else w.report .error (.destroyedActive scope.display removed)

/-- End the life of a scope. A scope that knows of no entry of its own is not looked for. -/
def ScopeId.destroy (id : ScopeId) : Action Unit := do
  let scope ← id.fetch
  modify fun w => (if scope.entries = 0 then w else w.evict id scope).dropScope id

/-! ## Resetting an environment -/

/-- Clear the registry and the whole stack of an environment. Its scopes stay alive. -/
def Environment.reset (environment : Environment) : Action Unit :=
  modify fun w =>
    w.modifyRegistry environment.counters (fun _ => {})
      |>.modifyStack environment.contexts (fun _ => ∅)

end ScopedLabels
