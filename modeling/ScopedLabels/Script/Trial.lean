import ScopedLabels.Script.Runner

/-!
# Trying a script out

A trial runs one script in a fresh environment with a registry and a stack of its own, then drops
the runner, and records everything that can be seen: what was printed and logged, where the run
stopped, what dropping the runner logged, and what is left in the registry, the stack and the
metrics.
-/

namespace ScopedLabels.Script

/-- The environment of a single script. -/
def scriptEnvironment : Environment :=
  ⟨"script", "script", "script"⟩

/-- The runner of a single script. -/
def scriptRunner : Runner :=
  { name := "script", environment := scriptEnvironment }

/-- A world for a single script: nothing in it yet but options, a log and metrics. -/
def freshWorld (options : Options) (log : Log) (metrics : Metrics) : World :=
  ({ log, metrics } : World).setOptions scriptEnvironment options

/-- What can be seen of a script that was tried out. -/
structure Trial where
  error? : Option Error
  output : Text
  line : Nat
  depth : Nat
  /-- What the run logged. -/
  log : Text
  /-- What dropping the runner logged. -/
  unwindLog : Text
  /-- How many values are left under the key of active scopes. -/
  stackSize : Nat
  /-- How many counters the registry holds. -/
  counterCount : Nat
  /-- The values of the counters that were asked for. -/
  readings : List UInt64
  tally : Tally

/-- Try a script out. -/
def Trial.ofText (options : Options) (threshold : Level) (countEvents : Bool) (text : Text)
    (counters : List Text) : Trial :=
  let log : Log := { threshold, sink := .capture }
  let w := freshWorld options log { enabled := countEvents }
  let ran := scriptRunner.run text w
  let state := ran.state
  let closed := state.runner.close { state.world with log := state.world.log.drained }
  let left := closed.state.world
  { error? := ran.error?
    output := state.output
    line := state.runner.line
    depth := state.runner.depth
    log := state.world.log.text .capture
    unwindLog := left.log.text .capture
    stackSize := (left.activeValues scriptEnvironment).length
    counterCount := (left.registry scriptEnvironment.counters).size
    readings := counters.map (left.registry scriptEnvironment.counters).get
    tally := left.metrics.tally }

end ScopedLabels.Script
