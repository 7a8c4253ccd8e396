import ScopedLabels.Session.Perform

/-!
# Steps — requests and what is seen of them

`step` carries out a request and also reports what was logged meanwhile and what stands on the
active-scope list of the environment it concerns; `steps` does so for a list of requests. `closing`
lists the requests that drop whatever is left: guards, leases, runners, then scopes, and of each
kind the newest first.
-/

namespace ScopedLabels.Session

/-- The environment of a scope that the caller holds. -/
def environmentOfScope? (s : Session) (name : Text) : Option Environment :=
  (s.world.scope? (.held name)).map (·.environment)

/-- The environment whose active scopes are shown after a request, if there is one. -/
def watched? (s : Session) : Request → Option Environment
  | .options name _ | .resetEnvironment name | .current name => s.environments.get? name
  | .makeLabel _ (.current name) _ => s.environments.get? name
  | .makeLabel _ (.below scope) _ => s.environmentOfScope? scope
  | .newScope _ source =>
    match source with
    | .basename name _ | .unnamed name | .label name _ | .global name => s.environments.get? name
    | .existing scope => s.environmentOfScope? scope
  | .inspectScope name | .enterScope name | .exitScope name | .scopeName name | .nextSegment name
  | .nextNumber name | .checkScope name | .sameScope name _ | .dropScope name =>
    s.environmentOfScope? name
  | .newGuard _ scope => s.environmentOfScope? scope
  | .dropGuard name => do s.environmentOfScope? (← s.guards.get? name)
  | .newRunner _ name => s.environments.get? name
  | .runScript _ _ watch | .closeRunner _ watch | .inspectRunner _ watch | .dropRunner _ watch => do
    s.environments.get? (← watch)
  | _ => none

/-- What can be seen of a request that was carried out. -/
structure Reply where
  result : Except Error Answer
  /-- What was logged to the capture. -/
  log : Text
  /-- What was logged to standard error. -/
  stderr : Text
  /-- The values under the key of active scopes, outermost first. -/
  active? : Option (List Shown)

/-- The reply to a result in the world it led to. -/
def Reply.of (result : Except Error Answer) (watched? : Option Environment) (w : World) : Reply :=
  { result
    log := w.log.text .capture
    stderr := w.log.text .standardError
    active? := watched?.map fun environment =>
      (w.activeValues environment).reverse.map (.ofValue w) }

/-- The session with an empty log. -/
def drained (s : Session) : Session :=
  { s with world := { s.world with log := s.world.log.drained } }

/-- Carry out a request and report on it. -/
def step (s : Session) (request : Request) : Reply × Session :=
  match perform request s.drained with
  | .ok answer t => (.of (.ok answer) (s.watched? request) t.world, t)
  | .error e t => (.of (.error e) (s.watched? request) t.world, t)

/-- Carry out requests and report on each. -/
def steps (s : Session) : List Request → List Reply × Session
  | [] => ([], s)
  | request :: rest =>
    let (reply, s) := s.step request
    let (replies, s) := s.steps rest
    (reply :: replies, s)

/-- The requests that drop whatever the caller holds, the newest of each kind first. -/
def closing (s : Session) : List Request :=
  s.guards.keys.map .dropGuard ++
  s.leases.keys.map .dropLease ++
  s.runners.keys.map (.dropRunner · none) ++
  s.world.scopes.keys.filterMap fun
    | .held name => some (.dropScope name)
    | _ => none

end ScopedLabels.Session
