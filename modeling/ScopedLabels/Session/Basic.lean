import ScopedLabels.Contexts.Lease
import ScopedLabels.Program
import ScopedLabels.Session.Request

/-!
# Sessions — a world and the objects a caller holds in it

A `Session` is the world together with the caller's objects by name. Requests that would leave an
object referring to a dropped one, or that name objects which do not exist, are refused as misuse,
so the states that a session reaches are those of callers who keep to the rules.

A `Procedure` is an operation on a session. Like an action it keeps the state it had reached when
it fails.
-/

namespace ScopedLabels

/-- A world and the objects a caller holds in it. -/
structure Session where
  world : World := { log := { sink := .capture } }
  environments : Roster Text Environment := ⟨[(defaultName, .default)]⟩
  /-- The scope that a guard keeps entered. -/
  guards : Roster Text Text := {}
  leases : Roster Text Lease := {}
  runners : Roster Text Script.Runner := {}
  labels : Roster Text Label := {}

namespace Session

/-- A context value as it is displayed. -/
inductive Shown
  | int (n : Int64)
  | bool (b : Bool)
  | text (t : Text)
  | empty
  /-- A scope, as displayed. -/
  | scope (display : Text)
deriving DecidableEq

/-- A context value as it is displayed in a world. -/
def Shown.ofValue (w : World) : Value → Shown
  | .int n => .int n
  | .bool b => .bool b
  | .text t => .text t
  | .empty => .empty
  | .scope id => .scope ((w.scope? id).elim [] Scope.display)

/-- What a request is answered with. -/
inductive Answer
  | nothing
  | flag (b : Bool)
  | number (n : Nat)
  | count (n : UInt64)
  | text (t : Text)
  | label (value : Label)
  | options (value : Options)
  | scope (value : Scope)
  | level (value : Level)
  | tally (value : Tally)
  | value (shown : Shown)
  | values (shown : List Shown)
  /-- Where a runner is. -/
  | position (line depth : Nat)
  /-- How a script ended, what it printed, and where its runner is. -/
  | ran (error? : Option Error) (output : Text) (line depth : Nat)
deriving DecidableEq

/-- An operation on a session that may fail. -/
abbrev Procedure := EStateM Error Session

/-! ## The world of a session -/

/-- Do an action on the world. -/
def act {α : Type} (action : Action α) : Procedure α := fun s =>
  match action s.world with
  | .ok a w => .ok a { s with world := w }
  | .error e w => .error e { s with world := w }

/-- Change the world. -/
def modifyWorld (f : World → World) : Procedure Unit :=
  modify fun s => { s with world := f s.world }

/-- Look at the world. -/
def getWorld : Procedure World := do
  return (← get).world

/-! ## Objects by name -/

/-- The object under a name, which must exist. -/
def held {ν : Type} (roster : Roster Text ν) (name : Text) : Procedure ν :=
  match roster.get? name with
  | some object => return object
  | none => throw (.misuse .unknownHandle)

/-- Refuse a name that is in use. -/
def requireFree {ν : Type} (roster : Roster Text ν) (name : Text) : Procedure Unit :=
  if roster.contains name then throw (.misuse .handleInUse) else return ()

/-- The environment of a name. -/
def environmentOf (name : Text) : Procedure Environment := do
  held (← get).environments name

/-- The runner of a name. -/
def runnerOf (name : Text) : Procedure Script.Runner := do
  held (← get).runners name

/-- The scope of a name, as it is. -/
def scopeOf (name : Text) : Procedure Scope :=
  act (ScopeId.held name).fetch

/-- The label that the caller means. -/
def labelOf : LabelSource → Procedure Label
  | .literal label => return label
  | .saved name => do held (← get).labels name

/-- The name that the caller means. -/
def nameOf : NameSource → Procedure Naming
  | .fresh name => return .fresh name
  | .label source => return .ready (← labelOf source)

/-- The origin that the caller means. -/
def originOf : ScopeSource → Procedure Origin
  | .basename environment name => return .basename (← environmentOf environment) name
  | .unnamed environment => return .unnamed (← environmentOf environment)
  | .label environment source => do
    let environment ← environmentOf environment
    return .path environment (← labelOf source).parts
  | .global environment => return .global (← environmentOf environment)
  | .existing scope => return .existing (.held scope)

end Session

end ScopedLabels
