import ScopedLabels.Proofs.Lifetime
import ScopedLabels.Script.Runner

/-!
# Attempts — a run taken apart into its commands

Some properties of a script are about what happened during the run and not about how it ended.
`Run.attempts` lists the commands that a run got to, each with the state before it and its outcome.
The last of them may have failed, and the run then ends as that one did; if none failed the run
ends by closing what is open (`outcome_eq_last`). The last section reads off an attempt what a
caller can see of it: the names it gave, the path it visited, the line it printed for a label.
-/

namespace ScopedLabels.Script

/-- A command that a run got to: the state before it, and its outcome. -/
structure Attempt where
  command : Command
  before : RunState
  outcome : Outcome

/-- The state in which the runner has gone on to a line. -/
def RunState.goTo (s : RunState) (line : Nat) : RunState :=
  { s with runner := { s.runner with line } }

namespace Run

/-- Go on to a command and execute it. -/
def attempt (command : Command) (s : RunState) : Attempt :=
  { command
    before := s.goTo command.line
    outcome := (execute command).outcome (s.goTo command.line) }

/-- The commands that a run from a state gets to, up to the first that fails. -/
def attempts : List Command → RunState → List Attempt
  | [], _ => []
  | command :: rest, s =>
    attempt command s ::
      match (attempt command s).outcome with
      | ⟨none, t⟩ => attempts rest t
      | ⟨some _, _⟩ => []

/-- A run goes on after a command that succeeded, and ends with one that failed. -/
theorem outcome_cons (command : Command) (rest : List Command) (s : RunState) :
    (run (command :: rest)).outcome s =
      match (attempt command s).outcome with
      | ⟨none, t⟩ => (run rest).outcome t
      | ⟨some e, t⟩ => ⟨some e, t⟩ := by
  rw [outcome, run, attempt, outcome]
  simp only [bind_apply, modifyRunner, modify_apply, RunState.goTo]
  cases execute command { s with runner := { s.runner with line := command.line } } with
  | ok u t => rfl
  | error e t => rfl

/-- A run ends as its last attempt did if that failed, and otherwise closes what is open. -/
theorem outcome_eq_last (commands : List Command) (s : RunState) :
    (run commands).outcome s =
      match (attempts commands s).getLast? with
      | none => finish.outcome s
      | some last => match last.outcome with
        | ⟨none, t⟩ => finish.outcome t
        | ⟨some e, t⟩ => ⟨some e, t⟩ := by
  induction commands generalizing s with
  | nil => rfl
  | cons command rest ih =>
      rw [outcome_cons, attempts]
      cases houtcome : (attempt command s).outcome with
      | mk error? t =>
          cases error? with
          | some e =>
              rw [List.getLast?_singleton]
              simp only [houtcome]
          | none =>
              simp only [ih t]
              cases hrest : attempts rest t with
              | nil =>
                  rw [List.getLast?_singleton]
                  simp only [houtcome, List.getLast?_nil]
              | cons next others =>
                  rw [List.getLast?_cons_cons, List.getLast?_eq_some_getLast (List.cons_ne_nil _ _)]

/-- What a run gets to are commands of the script. -/
theorem command_mem_of_attempts {commands : List Command} {s : RunState} {a : Attempt}
    (h : a ∈ attempts commands s) : a.command ∈ commands := by
  induction commands generalizing s with
  | nil => exact absurd h List.not_mem_nil
  | cons command rest ih =>
      rw [attempts] at h
      rcases List.mem_cons.mp h with rfl | hlater
      · exact List.mem_cons_self
      · split at hlater
        · exact List.mem_cons_of_mem command (ih hlater)
        · exact absurd hlater List.not_mem_nil

/-- What every command that succeeds keeps up holds in the state that a run goes on to each of its
    commands from. -/
theorem attempts_invariant {P : RunState → Prop}
    (hstep : ∀ {command s t}, P s → (attempt command s).outcome = ⟨none, t⟩ → P t)
    {commands : List Command} {s : RunState} (h : P s) {a : Attempt}
    (ha : a ∈ attempts commands s) : ∃ t, P t ∧ a = attempt a.command t := by
  induction commands generalizing s with
  | nil => exact absurd ha List.not_mem_nil
  | cons command rest ih =>
      rw [attempts] at ha
      rcases List.mem_cons.mp ha with rfl | hlater
      · exact ⟨s, h, rfl⟩
      · split at hlater
        · next t houtcome => exact ih (hstep h houtcome) hlater
        · exact absurd hlater List.not_mem_nil

end Run

/-! ## Two runs in step -/

/-- Two outcomes have the same error or none, and leave states that are related by `R`. -/
structure Outcome.InStep (R : RunState → RunState → Prop) (one two : Outcome) : Prop where
  error? : one.error? = two.error?
  state : R one.state two.state

/-- Two runs that are in step at every command, and when they close what is open, are in step at the
    end, and get to the same commands. `P` is what is known of the attempts of the first run. -/
theorem Run.inStep {R : RunState → RunState → Prop} {P : Attempt → Prop}
    (hattempt : ∀ command s t, R s t → P (attempt command s) →
      (attempt command s).outcome.InStep R (attempt command t).outcome)
    (hfinish : ∀ s t, R s t → (finish.outcome s).InStep R (finish.outcome t))
    {commands : List Command} {s t : RunState} (h : R s t)
    (hattempts : ∀ a ∈ attempts commands s, P a) :
    ((run commands).outcome s).InStep R ((run commands).outcome t) ∧
      (attempts commands s).map Attempt.command = (attempts commands t).map Attempt.command := by
  induction commands generalizing s t with
  | nil => exact ⟨hfinish s t h, rfl⟩
  | cons command rest ih =>
      have hfirst := hattempt command s t h (hattempts _ List.mem_cons_self)
      have hlater := fun a ha => hattempts a (List.mem_cons_of_mem (attempt command s) ha)
      rw [outcome_cons, outcome_cons, attempts, attempts]
      cases hone : (attempt command s).outcome with
      | mk error? s' =>
          cases htwo : (attempt command t).outcome with
          | mk error?' t' =>
              rw [hone] at hfirst hlater
              rw [htwo] at hfirst
              obtain ⟨herror, hstate⟩ := hfirst
              cases herror
              cases error? with
              | some e => exact ⟨⟨rfl, hstate⟩, rfl⟩
              | none =>
                  obtain ⟨houtcome, hcommands⟩ := ih hstate hlater
                  exact ⟨houtcome, congrArg (command :: ·) hcommands⟩

/-! ## What is seen of an attempt -/

namespace RunState

/-- The path of the innermost active scope in the environment of the runner. -/
def activePath? (s : RunState) : Option Path :=
  match s.world.current s.runner.environment with
  | .ok (some id) => (s.world.scope? id).bind Scope.path?
  | _ => none

/-- The path of the label that is made in the environment of the runner for a name. -/
def labelPath? (s : RunState) (name : Option Text) : Option Path :=
  match s.runner.environment.labelFor (.fresh name) s.world with
  | .ok label _ => some label.parts
  | .error _ _ => none

end RunState

namespace Attempt

/-- The name that a command gave to a scope or to a label, with the path that it was given under.
    Outside every scope that is the empty path. -/
def given? (a : Attempt) : Option (Path × Text) :=
  match a.command.verb, a.outcome.error? with
  | .scope name, none | .label name, none => name.map (a.before.activePath?.getD [], ·)
  | _, _ => none

/-- The path of the scope that a command entered, or of the label that it printed. -/
def visited? (a : Attempt) : Option Path :=
  match a.command.verb, a.outcome.error? with
  | .scope _, none => a.outcome.state.activePath?
  | .label name, none => a.before.labelPath? name
  | _, _ => none

/-- The line that a command printed for a label. -/
def labelLine? (a : Attempt) : Option Text :=
  match a.command.verb, a.outcome.error? with
  | .label _, none => a.outcome.state.printed.head?
  | _, _ => none

end Attempt

namespace Run

/-- The names that the commands of a run gave, each with the path that it was given under. -/
def given (commands : List Command) (s : RunState) : List (Path × Text) :=
  (attempts commands s).filterMap Attempt.given?

/-- The paths of the scopes that a run entered and of the labels that it printed. -/
def visited (commands : List Command) (s : RunState) : List Path :=
  (attempts commands s).filterMap Attempt.visited?

/-- The lines that a run printed for labels. -/
def labelLines (commands : List Command) (s : RunState) : List Text :=
  (attempts commands s).filterMap Attempt.labelLine?

end Run

end ScopedLabels.Script
