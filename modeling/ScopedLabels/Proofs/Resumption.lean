import ScopedLabels.Proofs.Attempts
import ScopedLabels.Proofs.Parallel
import ScopedLabels.Proofs.Visits

/-!
# Resumption — a script goes on after an error as if nothing had happened

A command that fails leaves the run as it found it (`execute_error`): a scope that cannot be entered
is dropped again, a label gives up its scope, and what is refused is refused before anything is
drawn, counted or written. So a runner whose script went wrong stands where the last good command
left it, and may be given the rest of the script.

The run of that rest differs from one without the interruption in two things only: it begins with
nothing printed, and the runner may be at another line. No command looks at either, which is what
`Resumes` says; the two runs end alike.
-/

namespace ScopedLabels

/-! ## Failing without a trace -/

/-- Closing a scope fails only before anything has been done. -/
theorem ScopeId.close_error {id : ScopeId} {w v : World} {e : Error}
    (h : (do id.release; id.destroy : Action Unit) w = .error e v) : v = w := by
  rw [bind_apply] at h
  cases hscope : w.scope? id with
  | none =>
      rw [release, bind_apply, fetch_apply, hscope] at h
      cases h
      rfl
  | some scope =>
      -- a scope that was released is still alive, so it can be destroyed
      rcases id.release_cases w with
        ⟨e, hfailed, -⟩ | ⟨notice, hreported⟩ | ⟨scope', rest, hscope', -, hleft⟩
      · rw [hfailed] at h
        cases h
        rfl
      · have halive : (w.report .error notice).scope? id = some scope := hscope
        rw [hreported] at h
        simp only [destroy_apply halive] at h
        cases h
      · have halive : (w.deactivate id scope').scope? id =
            some { scope' with entries := scope'.entries - 1 } := by
          rw [World.scope?_deactivate, if_pos rfl, hscope']
          rfl
        rw [hleft] at h
        simp only [destroy_apply halive] at h
        cases h

namespace Script.Run

/-- An action that takes back what it did when it fails leaves a run as it was. -/
theorem act_error {α : Type} {action : Action α} {s t : RunState} {e : Error}
    (hback : ∀ v, action s.world = .error e v → v = s.world) (h : act action s = .error e t) :
    t = s := by
  rw [act] at h
  cases hresult : action s.world with
  | ok a w =>
      rw [hresult] at h
      cases h
  | error e' v =>
      rw [hresult] at h
      cases h
      rw [hback v hresult]

/-- What is done and then printed fails as what is done. -/
theorem act_print_error {α : Type} {action : Action α} {s t : RunState} {e : Error}
    (line : α → Text) (hback : ∀ v, action s.world = .error e v → v = s.world)
    (h : (do print (line (← act action)) : Run Unit) s = .error e t) : t = s := by
  rw [bind_apply] at h
  cases hresult : act action s with
  | ok a u =>
      rw [hresult] at h
      cases h
  | error e' u =>
      rw [hresult] at h
      cases h
      exact act_error hback hresult

/-- Closing a scope that cannot be closed changes nothing. -/
theorem closeScope_error {depth : Nat} {s t : RunState} {e : Error}
    (h : closeScope depth s = .error e t) : t = s := by
  let id := ScopeId.opened s.runner.name depth
  have hclose : closeScope depth s =
      (do act (do id.release; id.destroy); modifyRunner fun r => { r with depth } : Run Unit) s :=
    rfl
  rw [hclose, bind_apply] at h
  cases hresult : act (do id.release; id.destroy) s with
  | ok u v =>
      rw [hresult] at h
      cases h
  | error e' v =>
      rw [hresult] at h
      cases h
      exact act_error (fun v => ScopeId.close_error) hresult

/-- Asking for the active scope changes nothing. -/
theorem current_error {environment : Environment} {s t : RunState} {e : Error}
    (h : (do match ← act environment.current with
             | some id => print (← act id.path).text
             | none => print "<none>" : Run Unit) s = .error e t) : t = s := by
  -- both actions only read the world
  have hcurrent : ∀ w : World, after environment.current w = w := by
    intro w
    rw [after, Environment.current_apply]
    cases w.current environment <;> rfl
  have hpath : ∀ (id : ScopeId) (w : World), after id.path w = w := by
    intro id w
    rw [after, ScopeId.path_apply]
    cases w.scope? id with
    | none => rfl
    | some scope => cases hscope : scope.path <;> simp only [hscope]
  rw [bind_apply] at h
  cases hresult : act environment.current s with
  | error e' u =>
      rw [hresult] at h
      cases h
      exact act_error (fun v hfailed => (after_error hfailed).symm.trans (hcurrent _)) hresult
  | ok id? u =>
      have hu : u = s := by
        rw [← after_ok hresult, after_act, hcurrent]
      subst hu
      rw [hresult] at h
      cases id? with
      | none => cases h
      | some id =>
          exact act_print_error Path.text
            (fun v hfailed => (after_error hfailed).symm.trans (hpath id _)) h

/-- A command that fails leaves the run as it found it. -/
theorem execute_error {command : Command} {s t : RunState} {e : Error}
    (h : execute command s = .error e t) : t = s := by
  -- a scope or label that fails is taken back, and the other verbs fail before they change anything
  cases hverb : command.verb with
  | scope name =>
      rw [execute_scope hverb] at h
      rcases openScope_cases name s with
        ⟨e, hfailed⟩ | ⟨scope, parents, basename, v, -, -, -, hopened⟩
      · cases hfailed.symm.trans h
        rfl
      · cases hopened.symm.trans h
  | label name =>
      rw [execute_label hverb] at h
      rcases label_cases name s with
        ⟨e, hfailed⟩ | ⟨scope, parents, basename, v, -, -, -, hprinted⟩
      · cases hfailed.symm.trans h
        rfl
      · cases hprinted.symm.trans h
  | leave =>
      rw [execute, bind_apply, get_apply] at h
      simp only [hverb] at h
      cases hdepth : s.runner.depth with
      | zero =>
          simp only [hdepth] at h
          cases h
          rfl
      | succ depth =>
          simp only [hdepth] at h
          exact closeScope_error h
  | uid counter | reset counter =>
      rw [execute, bind_apply, get_apply] at h
      simp only [hverb] at h
      cases h
  | current =>
      rw [execute, bind_apply, get_apply] at h
      simp only [hverb] at h
      exact current_error h

/-! ## The commands before an error -/

/-- A run without error led to the state of its outcome. -/
theorem apply_of_outcome {x : Run Unit} {s : RunState} (h : (x.outcome s).error? = none) :
    x s = .ok () (x.outcome s).state := by
  rw [outcome] at h ⊢
  cases hresult : x s with
  | ok u t => rfl
  | error e t =>
      rw [hresult] at h
      cases h

/-- Execute commands in order, and leave open what is open at the end. -/
def executeAll : List Command → Run Unit
  | [] => return ()
  | command :: rest => do
    modifyRunner fun r => { r with line := command.line }
    execute command
    executeAll rest

/-- Commands are executed one after the other, each at its line. -/
theorem executeAll_cons (command : Command) (rest : List Command) (s : RunState) :
    executeAll (command :: rest) s = match execute command (s.goTo command.line) with
      | .ok () t => executeAll rest t
      | .error e t => .error e t := by
  rw [executeAll]
  simp only [bind_apply, modifyRunner, modify_apply, RunState.goTo]
  cases execute command { s with runner := { s.runner with line := command.line } } <;> rfl

/-- A run in two parts. -/
theorem run_append (first second : List Command) (s : RunState) :
    run (first ++ second) s = match executeAll first s with
      | .ok () t => run second t
      | .error e t => .error e t := by
  induction first generalizing s with
  | nil => rfl
  | cons command rest ih =>
      rw [List.cons_append, run, executeAll]
      simp only [bind_apply, modifyRunner, modify_apply]
      cases execute command { s with runner := { s.runner with line := command.line } } with
      | ok u t => exact ih t
      | error e t => rfl

/-- Executing more commands goes on from where the first led. -/
theorem executeAll_append (first second : List Command) (s : RunState) :
    executeAll (first ++ second) s = match executeAll first s with
      | .ok () t => executeAll second t
      | .error e t => .error e t := by
  induction first generalizing s with
  | nil => rfl
  | cons command rest ih =>
      rw [List.cons_append, executeAll_cons, executeAll_cons]
      cases execute command (s.goTo command.line) with
      | ok u t => exact ih t
      | error e t => rfl

/-- One more command is attempted where the others led. -/
theorem executeAll_concat {before : List Command} {s t : RunState}
    (h : (executeAll before).outcome s = ⟨none, t⟩) (command : Command) :
    (executeAll (before ++ [command])).outcome s = (attempt command t).outcome := by
  have hbefore : executeAll before s = .ok () t := by
    rw [apply_of_outcome (congrArg Outcome.error? h), h]
  rw [outcome, executeAll_append, hbefore, attempt, outcome]
  simp only [executeAll_cons]
  cases execute command (t.goTo command.line) with
  | ok u v => rfl
  | error e v => rfl

/-- After commands that succeeded, a run goes on from where they led. -/
theorem outcome_append {first : List Command} {s : RunState}
    (h : ((executeAll first).outcome s).error? = none) (second : List Command) :
    (run (first ++ second)).outcome s =
      (run second).outcome ((executeAll first).outcome s).state := by
  have hfirst := apply_of_outcome h
  rw [outcome, run_append, hfirst]
  rfl

/-- An attempt that fails leaves the runner at the line of its command, and all else as it was. -/
theorem attempt_error {command : Command} {s : RunState} {e : Error}
    (h : (attempt command s).outcome.error? = some e) :
    (attempt command s).outcome = ⟨some e, s.goTo command.line⟩ := by
  rw [attempt, outcome] at h ⊢
  cases hresult : execute command (s.goTo command.line) with
  | ok u t =>
      rw [hresult] at h
      cases h
  | error e' t =>
      rw [hresult] at h
      cases h
      rw [execute_error hresult]

end Script.Run

/-! ## Going on from there -/

/-- Worlds that are the same stay the same. -/
theorem Parallel.ofEq : Parallel (fun w v : World => v = w) (fun _ => True) fun _ => True where
  scope? h _ := by rw [h]
  home _ _ _ := trivial
  stack h _ := by rw [h]
  active _ _ _ := trivial
  registry h _ := by rw [h]
  modifyRegistry _ h _ := by rw [h]
  push h _ _ := by rw [h]
  dropTop h _ := by rw [h]
  eraseAll _ h _ := by rw [h]
  addScope h _ _ := by rw [h]
  dropScope h _ := by rw [h]
  putScope h _ _ := by rw [h]
  report h _ := by rw [h]
  count _ h := by rw [h]
  fallBack h _ := by rw [h]

theorem Origin.alike_ofEq (origin : Origin) :
    origin.Alike (fun w v : World => v = w) fun _ => True :=
  fun _ _ h => ⟨by rw [h], fun _ _ => trivial⟩

namespace Script

theorem Command.alike_ofEq (command : Command) :
    command.Alike (fun w v : World => v = w) fun _ => True where
  scope _ _ _ _ := Origin.alike_ofEq _
  label _ _ _ _ := Parallel.ofEq.momentaryLabel_twinned trivial (Origin.alike_ofEq _)

/-- A run that goes on, and one that begins where the first is, on the same runner: the second has
    not printed what was printed before, and may have come from another line. -/
structure Resumes (before : List Text) (s t : RunState) : Prop where
  world : t.world = s.world
  runner : ∃ line, t.runner = { s.runner with line }
  printed : s.printed = t.printed ++ before

namespace Resumes

variable {before : List Text}

/-- No command looks at what was printed, or at the line of the runner. -/
theorem coupled (before : List Text) :
    Coupled (Resumes before) (fun w v => v = w) (fun _ => True) fun _ => True where
  parallel := .ofEq
  worlds h := h.world
  name h := by
    obtain ⟨line, hline⟩ := h.runner
    rw [hline]
  environment h := by
    obtain ⟨line, hline⟩ := h.runner
    rw [hline]
  depth h := by
    obtain ⟨line, hline⟩ := h.runner
    rw [hline]
  home _ := trivial
  opened _ _ := trivial
  act h hworld := ⟨hworld, h.runner, h.printed⟩
  print line h := ⟨h.world, h.runner, congrArg (line :: ·) h.printed⟩
  goTo line h := by
    obtain ⟨old, hline⟩ := h.runner
    refine ⟨h.world, ⟨line, ?_⟩, h.printed⟩
    rw [RunState.goTo, RunState.goTo, hline]
  setDepth depth h := by
    obtain ⟨line, hline⟩ := h.runner
    refine ⟨h.world, ⟨line, ?_⟩, h.printed⟩
    rw [hline]

/-- A run that resumes another ends as it does. -/
theorem outcome {s t : RunState} (h : Resumes before s t) (commands : List Command) :
    ((Run.run commands).outcome t).error? = ((Run.run commands).outcome s).error? ∧
      Resumes before ((Run.run commands).outcome s).state ((Run.run commands).outcome t).state := by
  refine Run.outcome_of_twinned ((coupled before).run_twinned ?_) h
  intro command _
  exact command.alike_ofEq

/-- All that was printed, before and since. -/
theorem output {s t : RunState} (h : Resumes before s t) :
    s.output = Text.unlines before.reverse ++ t.output := by
  rw [RunState.output, h.printed, List.reverse_append, RunState.output]
  exact List.flatMap_append

end Resumes

namespace Run

/-- A script that fails at a command, resumed after it on the same runner, comes to what the script
    without that command comes to. The command itself changes nothing but the line the runner is
    at. -/
theorem resumed_after_error {first rest : List Command} {bad : Command} {s : RunState} {e : Error}
    (hfirst : ((executeAll first).outcome s).error? = none)
    (hbad : (attempt bad ((executeAll first).outcome s).state).outcome.error? = some e) :
    let reached := ((executeAll first).outcome s).state
    let failed := (run (first ++ bad :: rest)).outcome s
    let resumed := (run rest).outcome { world := failed.state.world, runner := failed.state.runner }
    let single := (run (first ++ rest)).outcome s
    (attempt bad reached).outcome.state = reached.goTo bad.line ∧
      failed = ⟨some e, reached.goTo bad.line⟩ ∧ resumed.error? = single.error? ∧
      failed.state.output ++ resumed.state.output = single.state.output ∧
      resumed.state.world = single.state.world ∧
      ∃ line, resumed.state.runner = { single.state.runner with line } := by
  intro reached failed resumed single
  have hstopped : (attempt bad reached).outcome = ⟨some e, reached.goTo bad.line⟩ :=
    attempt_error hbad
  have hfailed : failed = ⟨some e, reached.goTo bad.line⟩ := by
    show (run (first ++ bad :: rest)).outcome s = _
    rw [outcome_append hfirst, outcome_cons, hstopped]
  have hsingle : single = (run rest).outcome reached := outcome_append hfirst rest
  -- the resumed run starts where the failing command was reached, but for the line
  have hresumes : Resumes reached.printed reached
      { world := failed.state.world, runner := failed.state.runner } := by
    rw [hfailed]
    exact ⟨rfl, ⟨bad.line, rfl⟩, rfl⟩
  obtain ⟨herror, hends⟩ := hresumes.outcome rest
  rw [← hsingle] at herror hends
  refine ⟨congrArg Outcome.state hstopped, hfailed, herror, ?_, hends.world, hends.runner⟩
  have houtput : failed.state.output = Text.unlines reached.printed.reverse := by
    rw [hfailed]
    rfl
  rw [houtput, hends.output]

/-- A world in which a scope is active, and on top of it a number that the caller put there. -/
def foreignWorld : World :=
  after (do
    (ScopeId.held "a").create (.basename .default "a")
    (ScopeId.held "a").enter
    modify fun w => w.modifyStack Environment.default.contexts fun c =>
      c.push Scope.contextKey (.int 7)) {}

/-- Nothing can be labeled on top of that number. A script that tries has its number drawn, and the
    rest of it draws the next and fails in the same way. -/
theorem resumed_after_error_foreign :
    let s : RunState :=
      { world := foreignWorld, runner := { name := "r", environment := .default } }
    let rest : List Command := [⟨.uid none, 3⟩, ⟨.scope (some "b"), 4⟩, ⟨.uid none, 5⟩]
    let failed := (run (⟨.uid none, 1⟩ :: ⟨.label none, 2⟩ :: rest)).outcome s
    let resumed := (run rest).outcome { world := failed.state.world, runner := failed.state.runner }
    failed.error? = some (.contextType Scope.contextKey) ∧ failed.state.runner.line = 2 ∧
      resumed.error? = some (.contextType Scope.contextKey) ∧
      failed.state.output ++ resumed.state.output = Text.unlines ["1", "2"] := by
  intro s rest failed resumed
  have hfirst : ((executeAll [⟨.uid none, 1⟩]).outcome s).error? = none := by decide +kernel
  have hbad : (attempt ⟨.label none, 2⟩
      ((executeAll [⟨.uid none, 1⟩]).outcome s).state).outcome.error? =
        some (.contextType Scope.contextKey) := by decide +kernel
  obtain ⟨-, hfailed, herror, houtput, -, -⟩ := @resumed_after_error _ rest _ _ _ hfirst hbad
  refine ⟨congrArg Outcome.error? hfailed, ?_, herror.trans ?_, houtput.trans ?_⟩
  · exact congrArg (·.state.runner.line) hfailed
  · decide +kernel
  · decide +kernel

end Run

end Script

end ScopedLabels
