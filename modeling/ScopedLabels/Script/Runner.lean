import ScopedLabels.Label.Making
import ScopedLabels.Script.Parser

/-!
# Running a script

A runner executes commands in one environment. The scopes it has open are a stack of its own: the
scope it opened when `depth` scopes were open is `ScopeId.opened name depth`, each entered under a
guard, so that closing one releases it and then destroys it.

A run works on a `RunState`: the world, the runner, and what was printed. Like an action it keeps
the state it had reached when it fails, so a runner whose script went wrong still has its scopes
open and may go on with another script.
-/

namespace ScopedLabels.Script

/-- A runner: its environment, how many scopes it has open, and the line it is at. -/
structure Runner where
  name : Text
  environment : Environment
  depth : Nat := 0
  /-- The line of the command being executed, or executed last; zero before the first. -/
  line : Nat := 0
deriving DecidableEq

/-- What a run works on. -/
structure RunState where
  world : World
  runner : Runner
  /-- The printed lines, newest first. -/
  printed : List Text := []

/-- An operation of a running script that may fail. -/
abbrev Run := EStateM Error RunState

/-- The printed lines as text. -/
def RunState.output (state : RunState) : Text :=
  Text.unlines state.printed.reverse

namespace Run

/-- Do an action on the world. -/
def act {α : Type} (action : Action α) : Run α := fun state =>
  match action state.world with
  | .ok a w => .ok a { state with world := w }
  | .error e w => .error e { state with world := w }

/-- Print a line. -/
def print (line : Text) : Run Unit :=
  modify fun state => { state with printed := line :: state.printed }

/-- Change the runner. -/
def modifyRunner (f : Runner → Runner) : Run Unit :=
  modify fun state => { state with runner := f state.runner }

/-! ## Opening and closing scopes -/

/-- Open a scope. If it cannot be entered it does not stay. -/
def openScope (name : Option Text) : Run Unit := do
  let runner := (← get).runner
  let id := ScopeId.opened runner.name runner.depth
  act do
    id.create (.ofName? runner.environment name)
    id.enter.onFailure id.destroy
  modifyRunner fun r => { r with depth := r.depth + 1 }

/-- Close the scope that was opened when `depth` scopes were open. -/
def closeScope (depth : Nat) : Run Unit := do
  let id := ScopeId.opened (← get).runner.name depth
  act do
    id.release
    id.destroy
  modifyRunner fun r => { r with depth }

/-- Close the scopes opened when fewer than `depth` were open, innermost first. -/
def closeScopes : (depth : Nat) → Run Unit
  | 0 => return ()
  | depth + 1 => do
    closeScope depth
    closeScopes depth

/-- Close every open scope, innermost first. -/
def unwind : Run Unit := do
  closeScopes (← get).runner.depth

/-! ## Executing commands -/

/-- Execute one command. -/
def execute (command : Command) : Run Unit := do
  let runner := (← get).runner
  let environment := runner.environment
  match command.verb with
  | .scope name => openScope name
  | .leave =>
    match runner.depth with
    | 0 => throw (.script ⟨command.line, .endWithoutScope⟩)
    | depth + 1 => closeScope depth
  | .label name => do
    let label ← act (environment.labelFor (.fresh name))
    print label.text
  | .uid counter => do
    let value ← act (environment.draw (counter.getD defaultName))
    print (Text.ofCount value)
  | .reset counter =>
    act (modify (·.modifyRegistry environment.counters (·.zero (counter.getD defaultName))))
  | .current => do
    match ← act environment.current with
    | some id => print (← act id.path).text
    | none => print "<none>"

/-- Close what is open at the end of a script, with a warning if anything is. -/
def finish : Run Unit := do
  let depth := (← get).runner.depth
  if depth = 0 then
    return ()
  else
    act (modify (·.report .warning (.leftOpen depth)))
    unwind

/-- Execute commands in order, and close what is open at the end. -/
def run : List Command → Run Unit
  | [] => finish
  | command :: rest => do
    modifyRunner fun r => { r with line := command.line }
    execute command
    run rest

/-- Read a script and run it. -/
def runText (text : Text) : Run Unit :=
  match parse text with
  | .error fault => throw (.script fault)
  | .ok commands => run commands

end Run

/-! ## Runs seen from outside -/

/-- How a run ended and what it left. -/
structure Outcome where
  error? : Option Error
  state : RunState

/-- The outcome of a run from a state. -/
def Run.outcome (run : Run Unit) (state : RunState) : Outcome :=
  match run state with
  | .ok () state => ⟨none, state⟩
  | .error e state => ⟨some e, state⟩

/-- Run a script on a runner, from a world. -/
def Runner.run (runner : Runner) (text : Text) (w : World) : Outcome :=
  (Run.runText text).outcome { world := w, runner }

/-- Close every scope a runner has open. -/
def Runner.close (runner : Runner) (w : World) : Outcome :=
  Run.unwind.outcome { world := w, runner }

end ScopedLabels.Script
