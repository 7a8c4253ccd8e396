import ScopedLabels.Session.Basic

/-!
# Carrying out requests

`perform` carries out one request. Where a request takes more than one line it is a procedure of its
own, under a name that says what it does.
-/

namespace ScopedLabels.Session

/-! ## Requests by kind of object -/

/-- Make an environment. -/
def newEnvironment (name counters contexts : Text) (options : Options) : Procedure Answer := do
  requireFree (← get).environments name
  let environment : Environment := ⟨name, counters, contexts⟩
  modify fun s =>
    { s with
      environments := s.environments.insert name environment
      world := s.world.setOptions environment options }
  return .options ((← getWorld).optionsOf environment)

/-- Change the options of an environment, if a change is given, and answer what they are. -/
def changeOptions (name : Text) (change : Option Options) : Procedure Answer := do
  let environment ← environmentOf name
  modifyWorld fun w => change.elim w (w.setOptions environment)
  return .options ((← getWorld).optionsOf environment)

/-- The innermost active scope of an environment. -/
def currentScope (name : Text) : Procedure Answer := do
  let environment ← environmentOf name
  act do
    match ← environment.current with
    | some id => return .scope (← id.fetch)
    | none => return .nothing

/-- Make an automatic label at a location. -/
def labelAt (name : Naming) : Location → Procedure Label
  | .current environment => do act ((← environmentOf environment).labelFor name)
  | .below scope => act ((ScopeId.held scope).labelFor name)

/-- Make an automatic label, and save it if a name for it is given. -/
def makeLabel (name : NameSource) (location : Location) (save : Option Text) :
    Procedure Answer := do
  let label ← labelAt (← nameOf name) location
  modify fun s =>
    save.elim s fun key => { s with labels := (s.labels.erase key).insert key label }
  return .label label

/-- Make a scope. -/
def newScope (name : Text) (source : ScopeSource) : Procedure Answer := do
  let origin ← originOf source
  act ((ScopeId.held name).create origin)
  return .scope (← scopeOf name)

/-- Destroy a scope, unless a guard keeps it entered. -/
def dropScope (name : Text) : Procedure Answer := do
  if (← get).guards.entries.any fun entry => entry.2 == name then
    throw (.misuse .stillReferred)
  else
    act (ScopeId.held name).destroy
    return .nothing

/-- Enter a scope under a guard. If it cannot be entered no guard is kept. -/
def newGuard (name scope : Text) : Procedure Answer := do
  requireFree (← get).guards name
  act (ScopeId.held scope).enter
  modify fun s => { s with guards := s.guards.insert name scope }
  return .scope (← scopeOf scope)

/-- Drop a guard. -/
def dropGuard (name : Text) : Procedure Answer := do
  let scope ← held (← get).guards name
  act (ScopeId.held scope).release
  modify fun s => { s with guards := s.guards.erase name }
  return .scope (← scopeOf scope)

/-- Make a runner. -/
def newRunner (name environment : Text) : Procedure Answer := do
  let environment ← environmentOf environment
  requireFree (← get).runners name
  modify fun s => { s with runners := s.runners.insert name { name, environment } }
  return .nothing

/-- Take over what a run left. -/
def adopt (name : Text) (outcome : Script.Outcome) : Procedure Unit :=
  modify fun s =>
    { s with
      world := outcome.state.world
      runners := s.runners.modify name fun _ => outcome.state.runner }

/-- Run a script on a runner. That the script failed is part of the answer. -/
def runScript (name script : Text) : Procedure Answer := do
  let outcome := (← runnerOf name).run script (← getWorld)
  adopt name outcome
  let runner := outcome.state.runner
  return .ran outcome.error? outcome.state.output runner.line runner.depth

/-- Where a runner is. -/
def inspectRunner (name : Text) : Procedure Answer := do
  let runner ← runnerOf name
  return .position runner.line runner.depth

/-- Close the scopes of a runner. -/
def closeRunner (name : Text) : Procedure Answer := do
  adopt name ((← runnerOf name).close (← getWorld))
  inspectRunner name

/-- Close the scopes of a runner and drop it. -/
def dropRunner (name : Text) : Procedure Answer := do
  adopt name ((← runnerOf name).close (← getWorld))
  modify fun s => { s with runners := s.runners.erase name }
  return .nothing

/-- Erase the values of a key that are equal to a value. -/
def eraseAll (stack key : Text) (type : ValueType) (data : type.Carrier) : Procedure Answer := do
  let removed ← act <| Action.takeFromStack stack fun s => .ok (s.eraseAll type key data)
  return .number removed

/-- Start a lease. -/
def newLease (name : Text) (lease : Lease) (value : Value) : Procedure Answer := do
  requireFree (← get).leases name
  act (lease.start value)
  modify fun s => { s with leases := s.leases.insert name lease }
  return .text lease.key

/-- End a lease. -/
def dropLease (name : Text) : Procedure Answer := do
  let lease ← held (← get).leases name
  act lease.finish
  modify fun s => { s with leases := s.leases.erase name }
  return .nothing

/-- A context value as it is displayed now. -/
def displayed (value : Value) : Procedure Answer := do
  return .value (.ofValue (← getWorld) value)

/-- The data of a type as it is displayed now; a scope is displayed as a text. -/
def displayedData : (type : ValueType) → type.Carrier → Procedure Answer
  | .int, n => return .value (.int n)
  | .bool, b => return .value (.bool b)
  | .text, t => return .text t
  | .scope, id => do return .text (← act id.fetch).display

/-! ## All requests -/

/-- Carry out a request. -/
def perform : Request → Procedure Answer
  | .newEnvironment name counters contexts options => newEnvironment name counters contexts options
  | .options name change => changeOptions name change
  | .resetEnvironment name => do
    act (← environmentOf name).reset
    return .nothing
  | .current name => currentScope name
  | .makeLabel name location save => makeLabel name location save
  | .newScope name source => newScope name source
  | .inspectScope name => return .scope (← scopeOf name)
  | .enterScope name => do
    act (ScopeId.held name).enter
    return .scope (← scopeOf name)
  | .exitScope name => do
    act (ScopeId.held name).exit
    return .scope (← scopeOf name)
  | .scopeName name => return .text (← act (ScopeId.held name).path).text
  | .nextSegment name => return .text (← act (ScopeId.held name).nextSegment)
  | .nextNumber name => return .count (← act (ScopeId.held name).nextNumber)
  | .checkScope name => do
    let _ ← act (ScopeId.held name).path
    return .flag true
  | .sameScope name other => return .flag ((← scopeOf name).sameNode (← scopeOf other))
  | .dropScope name => dropScope name
  | .newGuard name scope => newGuard name scope
  | .dropGuard name => dropGuard name
  | .newRunner name environment => newRunner name environment
  | .runScript name script _ => runScript name script
  | .closeRunner name _ => closeRunner name
  | .inspectRunner name _ => inspectRunner name
  | .dropRunner name _ => dropRunner name
  | .drawCount registry counter => return .count (← act (Action.draw registry counter))
  | .readCount registry counter => return .count (((← getWorld).registry registry).get counter)
  | .zeroCount registry counter => do
    modifyWorld (·.modifyRegistry registry (·.zero counter))
    return .nothing
  | .clearCounts registry => do
    modifyWorld (·.modifyRegistry registry fun _ => {})
    return .nothing
  | .countersHeld registry => return .number ((← getWorld).registry registry).size
  | .push stack key datum => do
    modifyWorld (·.modifyStack stack (·.push key (Datum.value datum)))
    return .number (((← getWorld).stack stack).size key)
  | .pop stack key => do displayed (← act (Action.takeFromStack stack (·.pop key)))
  | .top stack key => do displayed (← act (Action.readStack stack (·.top key)))
  | .popAs type stack key => do
    displayedData type (← act (Action.takeFromStack stack (·.popAs type key)))
  | .topAs type stack key => do
    displayedData type (← act (Action.readStack stack (·.topAs type key)))
  | .listing stack key => do
    let w ← getWorld
    return .values (((w.stack stack).toList key).map (.ofValue w))
  | .stackSize stack key => return .number (((← getWorld).stack stack).size key)
  | .isEmpty stack key => return .flag (((← getWorld).stack stack).isEmpty key)
  | .clearStack stack => do
    modifyWorld (·.modifyStack stack fun _ => ∅)
    return .nothing
  | .removeData stack key datum => eraseAll stack key datum.type datum.data
  | .removeScope stack key scope => eraseAll stack key .scope (.held scope)
  | .newLease name stack key datum => newLease name ⟨stack, key⟩ (Datum.value datum)
  | .dropLease name => dropLease name
  | .setThreshold level => do
    modifyWorld fun w => { w with log := { w.log with threshold := level } }
    return .nothing
  | .threshold => return .level (← getWorld).log.threshold
  | .write level message => do
    modifyWorld (·.report level (.custom message))
    return .nothing
  | .redirect sink => do
    modifyWorld fun w => { w with log := { w.log with sink } }
    return .nothing
  | .countEvents on => do
    modifyWorld fun w => { w with metrics := { w.metrics with enabled := on } }
    return .nothing
  | .tally => return .tally (← getWorld).metrics.tally
  | .resetTally => do
    modifyWorld fun w => { w with metrics := { w.metrics with tally := {} } }
    return .tally (← getWorld).metrics.tally
  | .countOne metric => do
    modifyWorld (·.count metric)
    return .tally (← getWorld).metrics.tally
  | .setMetric metric value => do
    modifyWorld fun w =>
      { w with metrics := { w.metrics with tally := w.metrics.tally.set metric value } }
    return .tally (← getWorld).metrics.tally
  | .report settings => return .text (metricsReport settings (← getWorld).metrics)

end ScopedLabels.Session
