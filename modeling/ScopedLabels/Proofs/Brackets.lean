import ScopedLabels.Proofs.Attempts
import ScopedLabels.Proofs.Blocks

/-!
# Brackets — a runner puts its scopes on top of what it found and takes them off again

A script opens scopes one by one and may fail with some of them open. `Runner.Brackets` says how
the active-scope list then looks: what was there before is still there, unchanged, and on top of it
stand the scopes that the runner has open, in the order in which it opened them. Each of them counts
its one entry.

Every command keeps this, also one that fails. A label and a scope that cannot be entered restore
the world (`labelFor_restores`, `open_cases`), opening puts one scope on top, and closing always
finds the scope that was opened last on top, so it takes it off without a complaint
(`closeScope_apply`). Between two calls the rest of the program may do what it likes with the world
as long as it leaves the list and the runner's own scopes alone (`Runner.Undisturbed`); the whole
life of a runner is then one induction over `Runner.Reaches`.
-/

namespace ScopedLabels

namespace Script

/-! ## Brackets -/

/-- The scopes that a runner has open, as values on a stack, innermost first. -/
def Runner.openValues (r : Runner) : List Value :=
  ((List.range r.depth).map fun i => .scope (.opened r.name i)).reverse

/-- The scopes that a runner has open stand on top of what it found, each with one entry. -/
structure Runner.Brackets (r : Runner) (w : World) (found : List Value) : Prop where
  active : w.activeValues r.environment = r.openValues ++ found
  standing : ∀ i < r.depth,
    (w.scope? (.opened r.name i)).map Scope.standing = some (r.environment, 1)

namespace Runner.Brackets

variable {r : Runner} {w v : World} {found : List Value} {depth : Nat}

/-- A runner that has nothing open brackets whatever there is. -/
theorem start (hdepth : r.depth = 0) (w : World) :
    r.Brackets w (w.activeValues r.environment) where
  active := by
    rw [openValues, hdepth]
    rfl
  standing i hi := by
    rw [hdepth] at hi
    exact absurd hi (Nat.not_lt_zero i)

/-- A runner that has nothing open leaves what it found. -/
theorem active_of_depth (h : r.Brackets w found) (hdepth : r.depth = 0) :
    w.activeValues r.environment = found := by
  rw [h.active, openValues, hdepth]
  rfl

/-- One more open scope stands on top of the others. -/
theorem openValues_succ (r : Runner) (depth : Nat) :
    openValues { r with depth := depth + 1 } =
      .scope (.opened r.name depth) :: openValues { r with depth } := by
  show ((List.range (depth + 1)).map _).reverse = _
  rw [List.range_succ, List.map_append, List.reverse_append]
  rfl

/-- What restores the world leaves the bracket as it is. -/
theorem restores (h : r.Brackets w found) (hrestores : w.Restores v) : r.Brackets v found where
  active := by
    rw [World.activeValues, hrestores.stack]
    exact h.active
  standing i hi := by
    rw [hrestores.standing]
    exact h.standing i hi

/-- Activating a new scope adds it to the open ones. -/
theorem opened (h : r.Brackets w found) {scope : Scope} {parents : Path} {basename : Text}
    (hscope : scope.environment = r.environment) (hentries : scope.entries = 0)
    (hsettles : scope.Settles (w.addScope (.opened r.name r.depth) scope) parents basename v) :
    Brackets { r with depth := r.depth + 1 }
      (v.activate (.opened r.name r.depth) scope parents basename) found where
  active := by
    show ((v.activate _ scope parents basename).stack r.environment.contexts).values
      Scope.contextKey = _
    rw [World.values_activate, hscope, if_pos ⟨rfl, rfl⟩, hsettles.sameScopes.stack_eq,
      openValues_succ]
    show _ :: w.activeValues r.environment = _
    rw [h.active]
    rfl
  standing i hi := by
    show ((v.activate _ scope parents basename).scope? (.opened r.name i)).map _ = _
    rw [World.scope?_activate, hsettles.sameScopes.scope?_eq, World.scope?_addScope]
    by_cases heq : ScopeId.opened r.name r.depth = .opened r.name i
    · rw [if_pos heq, if_pos heq]
      show some (scope.environment, scope.entries + 1) = _
      rw [hscope, hentries]
    · rw [if_neg heq, if_neg heq]
      refine h.standing i ?_
      have hne : r.depth ≠ i := fun hi => heq (by rw [hi])
      have hle : i < r.depth + 1 := hi
      omega

/-- The scope that was opened last is innermost, and counts its one entry. -/
theorem innermost (h : Brackets { r with depth := depth + 1 } w found) :
    ∃ scope, w.scope? (.opened r.name depth) = some scope ∧
      scope.environment = r.environment ∧ scope.entries = 1 ∧
      w.activeValues r.environment =
        .scope (.opened r.name depth) :: (openValues { r with depth } ++ found) := by
  have hstanding := h.standing depth (Nat.lt_succ_self depth)
  obtain ⟨scope, hscope, heq⟩ := Option.map_eq_some_iff.mp hstanding
  refine ⟨scope, hscope, congrArg Prod.fst heq, congrArg Prod.snd heq, h.active.trans ?_⟩
  rw [openValues_succ]
  rfl

/-- The scope that was opened last can be closed, which takes it off the open ones. -/
theorem closed (h : Brackets { r with depth := depth + 1 } w found) :
    ∃ v, (do (ScopeId.opened r.name depth).release
             (ScopeId.opened r.name depth).destroy : Action Unit) w = .ok () v ∧
      Brackets { r with depth } v found ∧ w.log.Quiet v.log := by
  obtain ⟨scope, hscope, henvironment, hentries, hactive⟩ := h.innermost
  have hclose := ScopeId.close_apply hscope hentries (henvironment ▸ hactive)
  refine ⟨_, hclose, ⟨?_, ?_⟩, ?_⟩
  · show ((w.deactivate (.opened r.name depth) scope).stack r.environment.contexts).values
      Scope.contextKey = _
    rw [World.values_deactivate, henvironment, if_pos ⟨rfl, rfl⟩]
    show (w.activeValues r.environment).tail = _
    rw [hactive]
    rfl
  · intro i hi
    have hne : ScopeId.opened r.name depth ≠ .opened r.name i := by
      intro heq
      cases heq
      exact absurd hi (Nat.lt_irrefl _)
    rw [World.scope?_dropScope, if_neg hne, World.scope?_deactivate, if_neg hne]
    exact h.standing i (Nat.lt_succ_of_lt hi)
  · exact .write w.log (by simp) _

end Runner.Brackets

/-- What a running script keeps up from one state to another. -/
structure Kept (found : List Value) (s t : RunState) : Prop where
  name : t.runner.name = s.runner.name
  environment : t.runner.environment = s.runner.environment
  brackets : t.runner.Brackets t.world found
  quiet : s.world.log.Quiet t.world.log

/-- From a state where the runner brackets what it found, all is kept up. -/
def Stays (found : List Value) (s t : RunState) : Prop :=
  s.runner.Brackets s.world found → Kept found s t

/-- What two stretches of a run keep up is kept up by both together. -/
theorem Kept.trans {found : List Value} {s t u : RunState} (h : Kept found s t)
    (h' : Kept found t u) : Kept found s u where
  name := h'.name.trans h.name
  environment := h'.environment.trans h.environment
  brackets := h'.brackets
  quiet := h.quiet.trans h'.quiet

instance (found : List Value) : IsPreorder RunState (Stays found) where
  refl _ h := ⟨rfl, rfl, h, .refl _⟩
  trans _ _ _ h h' hs := (h hs).trans (h' (h hs).brackets)

namespace Run

variable {found : List Value} {α : Type}

theorem act_stays {action : Action α} (h : Keeps World.Restores action) :
    Keeps (Stays found) (act action) := by
  intro s hs
  rw [after_act]
  exact ⟨rfl, rfl, hs.restores (h s.world), (h s.world).quiet⟩

theorem print_stays (line : Text) : Keeps (Stays found) (print line) :=
  .modify fun _ hs => ⟨rfl, rfl, hs, .refl _⟩

/-- Opening a scope puts it on top of the others, or fails with the bracket as it was. -/
theorem openScope_stays (name : Option Text) : Keeps (Stays found) (openScope name) := by
  intro s hs
  rcases openScope_cases name s with
    ⟨e, hfailed⟩ | ⟨scope, parents, basename, v, hmade, -, hsettles, hopened⟩
  · rw [after_error hfailed]
    exact ⟨rfl, rfl, hs, .refl _⟩
  · have hnew := Origin.scope_ofName? hmade
    have henvironment : scope.environment = s.runner.environment := by rw [hnew]
    have hentries : scope.entries = 0 := by rw [hnew]
    rw [after_ok hopened]
    refine ⟨rfl, rfl, hs.opened henvironment hentries hsettles, ?_⟩
    exact hsettles.quiet.trans (.write v.log (by simp) _)

/-- Closing the scope that was opened last succeeds. -/
theorem closeScope_apply {s : RunState} {depth : Nat} (hs : s.runner.Brackets s.world found)
    (hdepth : s.runner.depth = depth + 1) :
    ∃ t, closeScope depth s = .ok () t ∧ Kept found s t ∧ t.runner.depth = depth := by
  have hrunner : s.runner = { s.runner with depth := depth + 1 } := by rw [← hdepth]
  rw [hrunner] at hs
  obtain ⟨v, hclosed, hv, hquiet⟩ := hs.closed
  refine ⟨{ s with world := v, runner := { s.runner with depth } }, ?_, ⟨rfl, rfl, hv, hquiet⟩, rfl⟩
  have hclose : closeScope depth s =
      (do act (do (ScopeId.opened s.runner.name depth).release
                  (ScopeId.opened s.runner.name depth).destroy)
          modifyRunner fun r => { r with depth } : Run Unit) s := rfl
  rw [hclose, bind_apply]
  simp only [act]
  rw [hclosed]
  rfl

/-- Closing all open scopes succeeds. -/
theorem closeScopes_apply {s : RunState} {depth : Nat} (hs : s.runner.Brackets s.world found)
    (hdepth : s.runner.depth = depth) :
    ∃ t, closeScopes depth s = .ok () t ∧ Kept found s t ∧ t.runner.depth = 0 := by
  induction depth generalizing s with
  | zero => exact ⟨s, rfl, ⟨rfl, rfl, hs, .refl _⟩, hdepth⟩
  | succ depth ih =>
      obtain ⟨t, hclose, ht, htdepth⟩ := closeScope_apply hs hdepth
      obtain ⟨u, hrest, hu, hudepth⟩ := ih ht.brackets htdepth
      refine ⟨u, ?_, ht.trans hu, hudepth⟩
      rw [closeScopes, bind_apply, hclose]
      exact hrest

theorem unwind_apply {s : RunState} (hs : s.runner.Brackets s.world found) :
    ∃ t, unwind s = .ok () t ∧ Kept found s t ∧ t.runner.depth = 0 :=
  closeScopes_apply hs rfl

/-- The end of a script closes what is open, with no more than a warning. -/
theorem finish_apply {s : RunState} (hs : s.runner.Brackets s.world found) :
    ∃ t, finish s = .ok () t ∧ Kept found s t ∧ t.runner.depth = 0 := by
  by_cases hdepth : s.runner.depth = 0
  · refine ⟨s, ?_, ⟨rfl, rfl, hs, .refl _⟩, hdepth⟩
    simp only [finish, bind_apply, get_apply, if_pos hdepth, pure_apply]
  · let warned : RunState :=
      { s with world := s.world.report .warning (.leftOpen s.runner.depth) }
    have hwarned : Kept found s warned :=
      ⟨rfl, rfl, ⟨hs.active, hs.standing⟩, .write s.world.log (by simp) _⟩
    obtain ⟨t, hunwind, ht, htdepth⟩ := unwind_apply hwarned.brackets
    refine ⟨t, ?_, hwarned.trans ht, htdepth⟩
    simp only [finish, bind_apply, get_apply, if_neg hdepth, act, modify_apply]
    exact hunwind

theorem current_restores (environment : Environment) :
    Keeps World.Restores environment.current :=
  .bind .get fun _ => .ofExcept _

/-- Whether it succeeds or fails, a command keeps up the bracket. -/
theorem execute_stays (command : Command) : Keeps (Stays found) (execute command) := by
  intro s
  rw [execute, after_bind, get_apply]
  simp only
  cases command.verb with
  | scope name => exact openScope_stays name s
  | leave =>
      simp only
      cases hdepth : s.runner.depth with
      | zero => exact refl_of (Stays found) s
      | succ depth =>
          intro hs
          obtain ⟨t, hclose, ht, -⟩ := closeScope_apply hs hdepth
          simp only [after_ok hclose]
          exact ht
  | label name =>
      refine Keeps.bind (act_stays (Environment.labelFor_restores _ _)) (fun label => ?_) s
      exact print_stays label.text
  | uid counter =>
      refine Keeps.bind (act_stays fun w => .of_eq rfl rfl rfl) (fun value => ?_) s
      exact print_stays _
  | reset counter =>
      refine act_stays (.modify fun w => ?_) s
      exact .of_eq rfl rfl rfl
  | current =>
      refine Keeps.bind (act_stays (current_restores _)) (fun id? => ?_) s
      cases id? with
      | none => exact print_stays _
      | some id => exact .bind (act_stays id.path_restores) fun path => print_stays path.text

/-! ## Runs -/

/-- A command that a run got to keeps up the bracket. -/
theorem attempt_kept {s : RunState} (command : Command) (hs : s.runner.Brackets s.world found) :
    Kept found s (attempt command s).outcome.state := by
  have hgone : Kept found s (s.goTo command.line) :=
    ⟨rfl, rfl, ⟨hs.active, hs.standing⟩, .refl _⟩
  rw [attempt, state_outcome]
  exact hgone.trans (execute_stays command _ hgone.brackets)

/-- So does every command of a run, one after the other. -/
theorem attempts_kept {s : RunState} (commands : List Command)
    (hs : s.runner.Brackets s.world found) :
    ∀ a ∈ attempts commands s, Kept found s a.outcome.state := by
  induction commands generalizing s with
  | nil => exact fun a hmem => absurd hmem List.not_mem_nil
  | cons command rest ih =>
      have hfirst := attempt_kept command hs
      intro a hmem
      rw [attempts] at hmem
      rcases List.mem_cons.mp hmem with rfl | hmem
      · exact hfirst
      · cases houtcome : (attempt command s).outcome with
        | mk error? t =>
            rw [houtcome] at hmem hfirst
            cases error? with
            | none => exact hfirst.trans (ih hfirst.brackets a hmem)
            | some e => exact absurd hmem List.not_mem_nil

/-- A run keeps up the bracket, and one that succeeds leaves nothing open. -/
theorem run_kept {s : RunState} (commands : List Command)
    (hs : s.runner.Brackets s.world found) :
    Kept found s ((run commands).outcome s).state ∧
      (((run commands).outcome s).error? = none →
        ((run commands).outcome s).state.runner.depth = 0) := by
  induction commands generalizing s with
  | nil =>
      obtain ⟨t, hfinish, ht, hdepth⟩ := finish_apply hs
      have houtcome : (run []).outcome s = ⟨none, t⟩ := by
        rw [outcome, run, hfinish]
      rw [houtcome]
      exact ⟨ht, fun _ => hdepth⟩
  | cons command rest ih =>
      have hfirst := attempt_kept command hs
      rw [outcome_cons]
      cases houtcome : (attempt command s).outcome with
      | mk error? t =>
          rw [houtcome] at hfirst
          cases error? with
          | none =>
              obtain ⟨hrest, hdepth⟩ := ih hfirst.brackets
              exact ⟨hfirst.trans hrest, hdepth⟩
          | some e => exact ⟨hfirst, fun hnone => absurd hnone (Option.some_ne_none e)⟩

/-- Closing all that is open succeeds and leaves nothing open. -/
theorem close_kept {r : Runner} {w : World} (h : r.Brackets w found) :
    Kept found { world := w, runner := r } (r.close w).state ∧
      (r.close w).error? = none ∧ (r.close w).state.runner.depth = 0 := by
  have hs : Runner.Brackets (RunState.runner { world := w, runner := r }) w found := h
  obtain ⟨t, hunwind, ht, hdepth⟩ := unwind_apply (s := { world := w, runner := r }) hs
  have houtcome : r.close w = ⟨none, t⟩ := by
    rw [Runner.close, outcome, hunwind]
  rw [houtcome]
  exact ⟨ht, rfl, hdepth⟩

end Run

/-! ## The life of a runner -/

/-- What the rest of the program may do to the world between two calls of a runner: it leaves the
    runner's stack and the runner's own scopes as they are. -/
structure Runner.Undisturbed (r : Runner) (w v : World) : Prop where
  active : v.activeValues r.environment = w.activeValues r.environment
  own : ∀ i < r.depth, v.scope? (.opened r.name i) = w.scope? (.opened r.name i)

/-- The worlds that are reached by using a runner, with the runner as it then is: it runs commands,
    successfully or not, and closes what is open, and in between other things happen. -/
inductive Runner.Reaches (r : Runner) (found : World) : Runner → World → Prop
  | start : Reaches r found r found
  | run {s : Runner} {w : World} {t : RunState} (h : Reaches r found s w)
      (commands : List Command)
      (hrun : ((Run.run commands).outcome { world := w, runner := s }).state = t) :
      Reaches r found t.runner t.world
  | close {s : Runner} {w : World} {t : RunState} (h : Reaches r found s w)
      (hclose : (s.close w).state = t) : Reaches r found t.runner t.world
  | elsewhere {s : Runner} {w v : World} (h : Reaches r found s w) (hother : s.Undisturbed w v) :
      Reaches r found s v

/-- Whatever is done with a runner and around it, its scopes stay on top of what it found, by
    induction on what was done. -/
theorem Runner.Reaches.brackets {r s : Runner} {found w : World} (h : r.Reaches found s w)
    (hdepth : r.depth = 0) :
    s.environment = r.environment ∧ s.Brackets w (found.activeValues r.environment) := by
  induction h with
  | start => exact ⟨rfl, .start hdepth found⟩
  | run h commands hrun ih =>
      subst hrun
      obtain ⟨hkept, -⟩ := Run.run_kept (s := { world := _, runner := _ }) commands ih.2
      exact ⟨hkept.environment.trans ih.1, hkept.brackets⟩
  | close h hclose ih =>
      subst hclose
      obtain ⟨hkept, -⟩ := Run.close_kept ih.2
      exact ⟨hkept.environment.trans ih.1, hkept.brackets⟩
  | elsewhere h hother ih =>
      refine ⟨ih.1, hother.active.trans ih.2.active, ?_⟩
      intro i hi
      rw [hother.own i hi]
      exact ih.2.standing i hi

/-- Take a runner that has nothing open, and use it in any way in a world with any scopes active.
    At every time its open scopes stand on top of what it found, in the order in which it opened
    them. This is also so after each command of a run, and after one that fails. A run that
    succeeds leaves what was found, and so does closing the runner, which never fails; and neither
    logs an error. -/
theorem Runner.bracketed {r s : Runner} {found w : World} (hdepth : r.depth = 0)
    (h : r.Reaches found s w) :
    let base := found.activeValues r.environment
    let stands (q : Runner) (v : World) : Prop :=
      q.environment = r.environment ∧ q.Brackets v base
    stands s w ∧
    (∀ commands,
      let ran := (Run.run commands).outcome { world := w, runner := s }
      (∀ a ∈ Run.attempts commands { world := w, runner := s },
        stands a.outcome.state.runner a.outcome.state.world) ∧
      stands ran.state.runner ran.state.world ∧
      (ran.error? = none → ran.state.runner.depth = 0 ∧
        ran.state.world.activeValues r.environment = base) ∧
      w.log.Quiet ran.state.world.log) ∧
    (s.close w).error? = none ∧ (s.close w).state.runner.depth = 0 ∧
      (s.close w).state.world.activeValues r.environment = base ∧
      w.log.Quiet (s.close w).state.world.log := by
  intro base stands
  obtain ⟨henvironment, hbrackets⟩ := h.brackets hdepth
  refine ⟨⟨henvironment, hbrackets⟩, ?runs, ?closes⟩
  case runs =>
    intro commands ran
    have hstart : Brackets (RunState.runner { world := w, runner := s }) w base := hbrackets
    have hattempts := Run.attempts_kept (s := { world := w, runner := s }) commands hstart
    obtain ⟨hran, hempty⟩ := Run.run_kept (s := { world := w, runner := s }) commands hstart
    have hsame : ran.state.runner.environment = r.environment := hran.environment.trans henvironment
    refine ⟨?_, ⟨hsame, hran.brackets⟩, ?_, hran.quiet⟩
    · intro a hmem
      exact ⟨(hattempts a hmem).environment.trans henvironment, (hattempts a hmem).brackets⟩
    · intro hsucceeded
      refine ⟨hempty hsucceeded, ?_⟩
      rw [← hsame]
      exact hran.brackets.active_of_depth (hempty hsucceeded)
  case closes =>
    obtain ⟨hclosed, herror, hempty⟩ := Run.close_kept hbrackets
    refine ⟨herror, hempty, ?_, hclosed.quiet⟩
    have hsame : (s.close w).state.runner.environment = r.environment :=
      hclosed.environment.trans henvironment
    rw [← hsame]
    exact hclosed.brackets.active_of_depth hempty

/-- A world in which a scope is active. -/
def occupiedWorld : World :=
  after (do (ScopeId.held "a").create (.basename .default "a"); (ScopeId.held "a").enter) {}

/-- A script that fails with two scopes open. -/
def abandonedScript : List Command :=
  [⟨.scope (some "b"), 1⟩, ⟨.label none, 2⟩, ⟨.scope none, 3⟩, ⟨.scope (some ""), 4⟩]

/-- The script leaves its two scopes on top of the one that was active, and closing takes both off
    again. -/
theorem Runner.bracketed_abandoned :
    let r : Runner := { name := "r", environment := .default }
    let t := ((Run.run abandonedScript).outcome { world := occupiedWorld, runner := r }).state
    t.runner.depth = 2 ∧ r.Reaches occupiedWorld t.runner t.world ∧
      t.world.activeValues .default = t.runner.openValues ++ [.scope (.held "a")] ∧
      (t.runner.close t.world).state.world.activeValues .default = [.scope (.held "a")] := by
  intro r t
  have hfound : occupiedWorld.activeValues .default = [.scope (.held "a")] := by decide +kernel
  have hreaches : r.Reaches occupiedWorld t.runner t.world := .run .start abandonedScript rfl
  obtain ⟨⟨henvironment, hstands⟩, -, -, -, hclosed, -⟩ := Runner.bracketed rfl hreaches
  refine ⟨by decide +kernel, hreaches, ?_, hclosed.trans hfound⟩
  have hactive := hstands.active
  rw [henvironment] at hactive
  exact hactive.trans (congrArg _ hfound)

end Script

end ScopedLabels
