import ScopedLabels.Proofs.Attempts
import ScopedLabels.Proofs.View

/-!
# Outlines — a running script without its world

What a script does depends on the spots of the scopes it has open, on the counters of its
environment, and on the path that was active before it began, its *ground*. An `Outline` holds the
first two, and `Outline.step` executes a command on it: no identities, no stacks, no entries to be
counted and nothing to go wrong with them.

`Stands` says that a run is where an outline says. The relation is kept by every command
(`execute_stands`): a command succeeds on a run exactly when it does on the outline, with the same
line printed, and when it fails, it fails with the same error and leaves both where they were. The
only commands for which nothing is said are nameless ones right above a ground, since the scope
there may draw its numbers from another registry.
-/

namespace ScopedLabels.Script

/-- The spots of the scopes that a script has open, innermost first, and the counters. -/
structure Outline where
  spots : List Spot
  counters : Counters

namespace Outline

/-- The path of the innermost active scope, whether the script opened it or not. -/
def above (o : Outline) (ground : Option Path) : Option Path :=
  match o.spots with
  | [] => ground
  | spot :: _ => some spot.path

/-- Where a new scope comes to stand, and the counters after its entry. -/
def enter (o : Outline) (options : Options) (ground : Option Path) (name : Option Text) :
    Except Error (Spot × Counters) :=
  match checkName options name with
  | .error e => .error e
  | .ok () =>
    let settled := o.counters.settle (o.above ground) name
    .ok (settled.1, settled.2.zero settled.1.path.text)

/-- Execute a command. The line that it prints, if any, is returned. -/
def step (o : Outline) (options : Options) (ground : Option Path) (command : Command) :
    Except Error (Option Text × Outline) :=
  match command.verb with
  | .scope name =>
    (o.enter options ground name).map fun (spot, counters) => (none, ⟨spot :: o.spots, counters⟩)
  | .leave =>
    match o.spots with
    | [] => .error (.script ⟨command.line, .endWithoutScope⟩)
    | _ :: spots => .ok (none, ⟨spots, o.counters⟩)
  | .label name =>
    (o.enter options ground name).map fun (spot, counters) =>
      (some spot.path.text, ⟨o.spots, counters⟩)
  | .uid counter =>
    let (value, counters) := o.counters.draw (counter.getD defaultName)
    .ok (some (Text.ofCount value), ⟨o.spots, counters⟩)
  | .reset counter => .ok (none, ⟨o.spots, o.counters.zero (counter.getD defaultName)⟩)
  | .current => .ok (some ((o.above ground).elim "<none>" Path.text), o)

/-- What a command does when it succeeds: the line it prints, and the outline that it leaves. -/
inductive Steps (o : Outline) (options : Options) (ground : Option Path) :
    Verb → Option Text → Outline → Prop
  | scope {name : Option Text} {spot : Spot} {counters : Counters}
      (henter : o.enter options ground name = .ok (spot, counters)) :
      Steps o options ground (.scope name) none ⟨spot :: o.spots, counters⟩
  | leave {spot : Spot} {spots : List Spot} (hspots : o.spots = spot :: spots) :
      Steps o options ground .leave none ⟨spots, o.counters⟩
  | label {name : Option Text} {spot : Spot} {counters : Counters}
      (henter : o.enter options ground name = .ok (spot, counters)) :
      Steps o options ground (.label name) (some spot.path.text) ⟨o.spots, counters⟩
  | uid {counter : Option Text} :
      Steps o options ground (.uid counter)
        (some (Text.ofCount (o.counters.draw (counter.getD defaultName)).1))
        ⟨o.spots, (o.counters.draw (counter.getD defaultName)).2⟩
  | reset {counter : Option Text} :
      Steps o options ground (.reset counter) none
        ⟨o.spots, o.counters.zero (counter.getD defaultName)⟩
  | current :
      Steps o options ground .current (some ((o.above ground).elim "<none>" Path.text)) o

/-- A command that succeeds on an outline does what `Steps` lists for its verb. -/
theorem step_cases {o o' : Outline} {options : Options} {ground : Option Path} {command : Command}
    {line? : Option Text} (h : o.step options ground command = .ok (line?, o')) :
    o.Steps options ground command.verb line? o' := by
  rw [step] at h
  cases hverb : command.verb with
  | scope name =>
      simp only [hverb] at h
      cases henter : o.enter options ground name with
      | error e => rw [henter] at h; cases h
      | ok entered => rw [henter] at h; cases h; exact .scope henter
  | leave =>
      simp only [hverb] at h
      cases hspots : o.spots with
      | nil => rw [hspots] at h; cases h
      | cons spot spots => rw [hspots] at h; cases h; exact .leave hspots
  | label name =>
      simp only [hverb] at h
      cases henter : o.enter options ground name with
      | error e => rw [henter] at h; cases h
      | ok entered => rw [henter] at h; cases h; exact .label henter
  | uid counter => rw [hverb] at h; cases h; exact .uid
  | reset counter => rw [hverb] at h; cases h; exact .reset
  | current => rw [hverb] at h; cases h; exact .current

end Outline

/-! ## The view of a run -/

/-- A view with scopes of a runner pushed onto it, the last of the list first. -/
def Runner.opened (r : Runner) (v : View) : List Spot → View
  | [] => v
  | spot :: spots =>
    (r.opened v spots).push (.opened r.name spots.length) (spot.scope r.environment)

/-- What a runner shows of the world that it found, once it stands where an outline says. -/
def Outline.view (o : Outline) (r : Runner) (found : World) : View :=
  { r.opened (found.view r.environment) o.spots with counters := o.counters }

/-- A runner has nothing open in a world, and no label is being made. -/
structure Runner.Idle (r : Runner) (found : World) : Prop where
  depth : r.depth = 0
  opened_free : ∀ i, found.scope? (.opened r.name i) = none
  transient_free : found.scope? .transient = none

/-- A run of a runner, which began in the world `found`, is where an outline says. -/
structure Stands (r : Runner) (found : World) (o : Outline) (s : RunState) : Prop where
  runner : s.runner = { r with depth := o.spots.length, line := s.runner.line }
  view : s.world.view r.environment = o.view r found

/-- A command is anchored if it names what it makes, unless the script has a scope open or nothing
    is active. -/
def Outline.Anchored (o : Outline) (ground : Option Path) (command : Command) : Prop :=
  o.spots = [] → ground ≠ none → command.verb ≠ .scope none ∧ command.verb ≠ .label none

namespace Runner

variable (r : Runner) (v : View)

/-- Scopes that the runner did not open are as they were. -/
theorem scope?_opened {id : ScopeId} {spots : List Spot}
    (h : ∀ i < spots.length, ScopeId.opened r.name i ≠ id) :
    (r.opened v spots).scope? id = v.scope? id := by
  induction spots with
  | nil => rfl
  | cons spot spots ih =>
      have hne : ScopeId.opened r.name spots.length ≠ id := h _ (Nat.lt_succ_self _)
      show (if _ = id then _ else (r.opened v spots).scope? id) = v.scope? id
      rw [if_neg hne]
      exact ih fun i hi => h i (Nat.lt_succ_of_lt hi)

theorem options_opened (spots : List Spot) : (r.opened v spots).options = v.options := by
  induction spots with
  | nil => rfl
  | cons spot spots ih => exact ih

end Runner

namespace Stands

variable {r : Runner} {found : World} {o : Outline} {s : RunState}

/-- Where a runner is when it begins. -/
theorem start (h : r.Idle found) (printed : List Text) :
    Stands r found ⟨[], found.registry r.environment.counters⟩
      { world := found, runner := r, printed } where
  runner := by
    show r = { r with depth := 0, line := r.line }
    rw [← h.depth]
  view := rfl

theorem goTo (h : Stands r found o s) (line : Nat) : Stands r found o (s.goTo line) where
  runner := by
    rw [RunState.goTo, h.runner]
  view := h.view

theorem environment (h : Stands r found o s) : s.runner.environment = r.environment := by
  rw [h.runner]

theorem depth (h : Stands r found o s) : s.runner.depth = o.spots.length := by
  rw [h.runner]

/-- The scope that would be opened next is not alive. -/
theorem next_free (h : Stands r found o s) (hidle : r.Idle found) :
    s.world.scope? (.opened r.name o.spots.length) = none := by
  have hscope := congrFun (congrArg View.scope? h.view) (.opened r.name o.spots.length)
  refine (hscope.trans ?_).trans (hidle.opened_free o.spots.length)
  refine r.scope?_opened (found.view r.environment) ?_
  intro i hi heq
  cases heq
  exact absurd hi (Nat.lt_irrefl _)

/-- Between commands no label is being made. -/
theorem transient_free (h : Stands r found o s) (hidle : r.Idle found) :
    s.world.scope? .transient = none := by
  have hscope := congrFun (congrArg View.scope? h.view) .transient
  refine (hscope.trans ?_).trans hidle.transient_free
  exact r.scope?_opened (found.view r.environment) fun i hi => nofun

theorem options (h : Stands r found o s) :
    s.world.optionsOf r.environment = found.optionsOf r.environment :=
  (congrArg View.options h.view).trans (r.options_opened (found.view r.environment) o.spots)

theorem counters (h : Stands r found o s) :
    s.world.registry r.environment.counters = o.counters :=
  congrArg View.counters h.view

/-- The innermost active scope is the innermost one that the script opened, or the ground. -/
theorem active {ground : Option Path} (h : Stands r found o s)
    (hground : (found.view r.environment).Active ground) :
    (s.world.view r.environment).Active (o.above ground) := by
  rw [h.view]
  cases hspots : o.spots with
  | nil =>
      rw [Outline.view, Outline.above, hspots]
      exact hground.of_scope?_eq rfl fun id scope hscope => hscope
  | cons spot spots =>
      rw [Outline.view, Outline.above, hspots]
      exact View.active_push _ _ _ _

/-- A nameless scope is numbered in the registry of the runner, if the script has a scope open or
    nothing is active. -/
theorem numbers {ground : Option Path} (h : Stands r found o s)
    (hground : (found.view r.environment).Active ground) (hopen : o.spots = [] → ground = none) :
    (s.world.view r.environment).Numbers r.environment := by
  cases hspots : o.spots with
  | nil =>
      have hactive := h.active hground
      rw [Outline.above, hspots, hopen hspots] at hactive
      exact hactive.numbers_of_none _
  | cons spot spots =>
      rw [h.view, Outline.view, hspots]
      exact View.numbers_push _ _ _ _

end Stands

/-! ## Executing a command -/

/-- What came of a command on an outline and on a run: they end alike, and if they fail the run is
    left as it was. -/
inductive Agrees (r : Runner) (found : World) (s : RunState) :
    Except Error (Option Text × Outline) → EStateM.Result Error RunState Unit → Prop
  | ok {line? : Option Text} {o : Outline} {t : RunState} (hstands : Stands r found o t)
      (hprinted : t.printed = line?.toList ++ s.printed) (hline : t.runner.line = s.runner.line) :
      Agrees r found s (.ok (line?, o)) (.ok () t)
  | error {e : Error} : Agrees r found s (.error e) (.error e s)

namespace Run

variable {r : Runner} {found : World} {o : Outline} {s : RunState}

/-- An action is done on the world of a run, and changes nothing else about it. -/
theorem act_apply {α : Type} (action : Action α) (s : RunState) :
    act action s = match action s.world with
      | .ok a w => .ok a { s with world := w }
      | .error e w => .error e { s with world := w } := rfl

section Opening

variable {ground : Option Path} {name : Option Text} (hidle : r.Idle found)
  (hground : (found.view r.environment).Active ground) (h : Stands r found o s)
  (hnumbers : name = none → o.spots = [] → ground = none)
include hidle hground h hnumbers

/-- Opening a scope puts its spot onto the outline. -/
theorem openScope_agrees :
    Agrees r found s
      ((o.enter (found.optionsOf r.environment) ground name).map fun (spot, counters) =>
        (none, ⟨spot :: o.spots, counters⟩))
      (openScope name s) := by
  have hcreate := ScopeId.create_ofName? r.environment name (h.next_free hidle)
  rw [h.options] at hcreate
  have hname : s.runner.name = r.name := by rw [h.runner]
  rw [Outline.enter]
  -- the name is checked before anything is made, and after that nothing can go wrong
  cases hcheck : checkName (found.optionsOf r.environment) name with
  | error e =>
      rw [hcheck] at hcreate
      have hopen : openScope name s = .error e s := by
        simp only [openScope, bind_apply, get_apply, act_apply, h.depth, hname, h.environment,
          hcreate]
      rw [hopen]
      exact .error
  | ok u =>
      cases u
      rw [hcheck] at hcreate
      obtain ⟨w, henter, hw⟩ := ScopeId.enter_view (h.next_free hidle) (h.active hground)
        fun hnone => h.numbers hground (hnumbers hnone)
      have hopen : openScope name s =
          .ok () { s with
            world := w
            runner := { s.runner with depth := o.spots.length + 1 } } := by
        simp only [openScope, bind_apply, get_apply, act_apply, h.depth, hname, h.environment,
          hcreate, Action.onFailure, henter, modifyRunner, modify_apply]
      rw [hopen]
      refine .ok ⟨?_, ?_⟩ rfl rfl
      · rw [h.runner]
        rfl
      · rw [hw, h.view]
        rfl

/-- Making a label prints the path of the spot where a scope of its name would come to stand. -/
theorem label_agrees :
    Agrees r found s
      ((o.enter (found.optionsOf r.environment) ground name).map fun (spot, counters) =>
        (some spot.path.text, ⟨o.spots, counters⟩))
      ((do print (← act (r.environment.labelFor (.fresh name))).text : Run Unit) s) := by
  have hfree := h.transient_free hidle
  rw [Outline.enter]
  -- as with a scope, only the name can be refused
  cases hcheck : checkName (found.optionsOf r.environment) name with
  | error e =>
      have hlabel := Environment.momentaryLabel_refused hfree (h.options ▸ hcheck)
      simp only [bind_apply, act_apply, Environment.labelFor, hlabel]
      exact .error
  | ok u =>
      obtain ⟨w, hlabel, hw⟩ := Environment.momentaryLabel_view hfree (h.active hground)
        (fun hnone => h.numbers hground (hnumbers hnone)) (h.options ▸ hcheck)
      simp only [bind_apply, act_apply, Environment.labelFor, hlabel, print, modify_apply]
      refine .ok ⟨h.runner, ?_⟩ ?_ rfl
      · rw [hw, h.view]
        rfl
      · rw [h.view]
        rfl

end Opening

/-- Closing the innermost open scope takes its spot off the outline. -/
theorem closeScope_stands {spot : Spot} {spots : List Spot} {counters : Counters}
    (hidle : r.Idle found) (h : Stands r found ⟨spot :: spots, counters⟩ s) :
    ∃ t, closeScope spots.length s = .ok () t ∧ Stands r found ⟨spots, counters⟩ t ∧
      t.printed = s.printed ∧ t.runner.line = s.runner.line := by
  have hname : s.runner.name = r.name := by rw [h.runner]
  have hfree : (Outline.view ⟨spots, counters⟩ r found).scope? (.opened r.name spots.length) =
      none := by
    -- the scopes below were opened at smaller depths
    refine (r.scope?_opened (found.view r.environment) ?_).trans (hidle.opened_free spots.length)
    intro i hi heq
    cases heq
    exact absurd hi (Nat.lt_irrefl _)
  have hview : s.world.view r.environment =
      (Outline.view ⟨spots, counters⟩ r found).push (.opened r.name spots.length)
        (spot.scope r.environment) := h.view
  obtain ⟨released, closed, hrelease, hdestroy, hclosed⟩ := ScopeId.close_view hview hfree
  refine ⟨{ s with world := closed, runner := { s.runner with depth := spots.length } }, ?_,
    ⟨?_, hclosed⟩, rfl, rfl⟩
  · simp only [closeScope, bind_apply, get_apply, act_apply, hname, hrelease, hdestroy,
      modifyRunner, modify_apply]
  · rw [h.runner]

/-- An `end` closes the innermost open scope, and is an error if there is none. -/
theorem leave_agrees {command : Command} (hverb : command.verb = .leave) (hidle : r.Idle found)
    (h : Stands r found o s) :
    Agrees r found s (match o.spots with
        | [] => .error (.script ⟨command.line, .endWithoutScope⟩)
        | _ :: spots => .ok (none, ⟨spots, o.counters⟩))
      (execute command s) := by
  cases hspots : o.spots with
  | nil =>
      have hexecute : execute command s = .error (.script ⟨command.line, .endWithoutScope⟩) s := by
        simp only [execute, bind_apply, get_apply, hverb, h.depth, hspots, List.length_nil,
          throw_apply]
      rw [hexecute]
      exact .error
  | cons spot spots =>
      have ho : o = ⟨spot :: spots, o.counters⟩ := by rw [← hspots]
      rw [ho] at h
      obtain ⟨t, hclose, hstands, hprinted, hline⟩ := closeScope_stands hidle h
      have hexecute : execute command s = .ok () t := by
        simp only [execute, bind_apply, get_apply, hverb, h.depth, List.length_cons, hclose]
      rw [hexecute]
      exact .ok hstands hprinted hline

/-- Printing a number draws it from the counters of the outline. -/
theorem uid_agrees {command : Command} {counter : Option Text}
    (hverb : command.verb = .uid counter) (h : Stands r found o s) :
    Agrees r found s
      (.ok (some (Text.ofCount (o.counters.draw (counter.getD defaultName)).1),
        ⟨o.spots, (o.counters.draw (counter.getD defaultName)).2⟩))
      (execute command s) := by
  have hexecute : execute command s =
      .ok () { s with
        world := s.world.drawn r.environment.counters (counter.getD defaultName)
        printed := Text.ofCount (o.counters.draw (counter.getD defaultName)).1 :: s.printed } := by
    simp only [execute, bind_apply, get_apply, hverb, h.environment, act_apply,
      Environment.draw_apply, h.counters, print, modify_apply]
  rw [hexecute]
  refine .ok ⟨h.runner, ?_⟩ rfl rfl
  rw [World.drawn, World.view_modifyRegistry, h.view]
  rfl

/-- Setting a counter back prints nothing. -/
theorem reset_agrees {command : Command} {counter : Option Text}
    (hverb : command.verb = .reset counter) (h : Stands r found o s) :
    Agrees r found s (.ok (none, ⟨o.spots, o.counters.zero (counter.getD defaultName)⟩))
      (execute command s) := by
  have hexecute : execute command s =
      .ok () { s with
        world := s.world.modifyRegistry r.environment.counters
          (·.zero (counter.getD defaultName)) } := by
    simp only [execute, bind_apply, get_apply, hverb, h.environment, act_apply, modify_apply]
  rw [hexecute]
  refine .ok ⟨h.runner, ?_⟩ rfl rfl
  rw [World.view_modifyRegistry, h.view]
  rfl

/-- The path of the innermost active scope is printed, if there is one. -/
theorem current_agrees {command : Command} {ground : Option Path}
    (hverb : command.verb = .current) (hground : (found.view r.environment).Active ground)
    (h : Stands r found o s) :
    Agrees r found s (.ok (some ((o.above ground).elim "<none>" Path.text), o))
      (execute command s) := by
  have hactive := h.active hground
  have hexecute : execute command s =
      .ok () { s with printed := (o.above ground).elim "<none>" Path.text :: s.printed } := by
    cases habove : o.above ground with
    | none =>
        rw [habove] at hactive
        have hcurrent := s.world.current_of_inactive r.environment hactive
        simp only [execute, bind_apply, get_apply, hverb, h.environment, act_apply,
          Environment.current_apply, hcurrent, print, modify_apply]
        rfl
    | some path =>
        rw [habove] at hactive
        obtain ⟨id, scope, hcurrent, hscope, hpath⟩ :=
          s.world.current_of_active r.environment hactive
        simp only [execute, bind_apply, get_apply, hverb, h.environment, act_apply,
          Environment.current_apply, hcurrent, ScopeId.path_apply, hscope, hpath, print,
          modify_apply]
        rfl
  rw [hexecute]
  exact .ok ⟨h.runner, h.view⟩ rfl rfl

/-- A command does to a run what it does to its outline. -/
theorem execute_agrees {ground : Option Path} {command : Command} (hidle : r.Idle found)
    (hground : (found.view r.environment).Active ground) (h : Stands r found o s)
    (hanchored : o.Anchored ground command) :
    Agrees r found s (o.step (found.optionsOf r.environment) ground command)
      (execute command s) := by
  -- a nameless scope or label is numbered by a scope of the script, or globally
  have hnumbers : command.verb = .scope none ∨ command.verb = .label none → o.spots = [] →
      ground = none := by
    intro hverb hspots
    by_cases hnone : ground = none
    · exact hnone
    · obtain ⟨hscope, hlabel⟩ := hanchored hspots hnone
      rcases hverb with hverb | hverb
      · exact absurd hverb hscope
      · exact absurd hverb hlabel
  rw [Outline.step]
  -- each verb by its own lemma
  cases hverb : command.verb with
  | scope name =>
      have hexecute : execute command s = openScope name s := by
        rw [execute, bind_apply, get_apply]
        simp only [hverb]
      rw [hexecute]
      refine openScope_agrees hidle hground h ?_
      rintro rfl
      exact hnumbers (.inl hverb)
  | leave => exact leave_agrees hverb hidle h
  | label name =>
      have hexecute : execute command s =
          (do print (← act (r.environment.labelFor (.fresh name))).text : Run Unit) s := by
        simp only [execute, bind_apply, get_apply, hverb, h.environment]
      rw [hexecute]
      refine label_agrees hidle hground h ?_
      rintro rfl
      exact hnumbers (.inr hverb)
  | uid counter => exact uid_agrees hverb h
  | reset counter => exact reset_agrees hverb h
  | current => exact current_agrees hverb hground h

/-- The outcome of going on to a command is that of the step on the outline. -/
theorem attempt_stands {ground : Option Path} {command : Command} (hidle : r.Idle found)
    (hground : (found.view r.environment).Active ground) (h : Stands r found o s)
    (hanchored : o.Anchored ground command) :
    match o.step (found.optionsOf r.environment) ground command with
    | .error e => (attempt command s).outcome = ⟨some e, s.goTo command.line⟩
    | .ok (line?, o') => ∃ t, (attempt command s).outcome = ⟨none, t⟩ ∧ Stands r found o' t ∧
        t.printed = line?.toList ++ s.printed ∧ t.runner.line = command.line := by
  have hagrees := execute_agrees hidle hground (h.goTo command.line) hanchored
  simp only [attempt, outcome]
  generalize o.step (found.optionsOf r.environment) ground command = stepped at hagrees ⊢
  generalize execute command (s.goTo command.line) = ran at hagrees ⊢
  cases hagrees with
  | ok hstands hprinted hline => exact ⟨_, rfl, hstands, hprinted, hline⟩
  | error => rfl

/-- Every command that a run gets to is executed where some outline stands, if nothing was active
    when the run began. Whatever the steps of outlines keep holds of it. -/
theorem attempt_of_attempts (hidle : r.Idle found)
    (hground : (found.view r.environment).Active none) {I : Outline → Prop}
    (hstep : ∀ {o o' command line?}, I o →
      o.step (found.optionsOf r.environment) none command = .ok (line?, o') → I o')
    {commands : List Command} (h : Stands r found o s) (ho : I o) {a : Attempt}
    (ha : a ∈ attempts commands s) :
    ∃ o t, Stands r found o t ∧ I o ∧ a = attempt a.command t := by
  -- what is kept along the run: some outline stands, and it has the property
  let P (t : RunState) : Prop := ∃ o, Stands r found o t ∧ I o
  have hkeeps : ∀ {command s t}, P s → (attempt command s).outcome = ⟨none, t⟩ → P t := by
    rintro command s t ⟨o, hstands, ho⟩ houtcome
    have hanchored : o.Anchored none command := fun _ hne => absurd rfl hne
    have hattempt := attempt_stands hidle hground hstands hanchored
    cases hresult : o.step (found.optionsOf r.environment) none command with
    | error e =>
        rw [hresult] at hattempt
        cases hattempt.symm.trans houtcome
    | ok result =>
        rw [hresult] at hattempt
        obtain ⟨u, hu, hstands', -, -⟩ := hattempt
        cases hu.symm.trans houtcome
        exact ⟨_, hstands', hstep ho hresult⟩
  obtain ⟨t, ⟨o, hstands, hI⟩, heq⟩ := attempts_invariant hkeeps ⟨o, h, ho⟩ ha
  exact ⟨o, t, hstands, hI, heq⟩

/-! ## Ending a run -/

/-- Closing all scopes that a run has open leaves an outline with none. -/
theorem closeScopes_stands (hidle : r.Idle found) {spots : List Spot} {counters : Counters}
    (h : Stands r found ⟨spots, counters⟩ s) :
    ∃ t, closeScopes spots.length s = .ok () t ∧ Stands r found ⟨[], counters⟩ t ∧
      t.printed = s.printed ∧ t.runner.line = s.runner.line := by
  induction spots generalizing s with
  | nil => exact ⟨s, rfl, h, rfl, rfl⟩
  | cons spot spots ih =>
      obtain ⟨t, hclose, ht, hprinted, hline⟩ := closeScope_stands hidle h
      obtain ⟨u, hrest, hu, hprinted', hline'⟩ := ih ht
      refine ⟨u, ?_, hu, hprinted'.trans hprinted, hline'.trans hline⟩
      simp only [List.length_cons, closeScopes, bind_apply, hclose, hrest]

/-- At its end a run closes what it has open, and prints nothing. -/
theorem finish_stands (hidle : r.Idle found) (h : Stands r found o s) :
    ∃ t, finish s = .ok () t ∧ Stands r found ⟨[], o.counters⟩ t ∧ t.printed = s.printed ∧
      t.runner.line = s.runner.line := by
  by_cases hdepth : s.runner.depth = 0
  · have hspots : o.spots = [] := List.eq_nil_of_length_eq_zero (h.depth ▸ hdepth)
    refine ⟨s, ?_, ?_, rfl, rfl⟩
    · simp only [finish, bind_apply, get_apply, hdepth, if_pos, pure_apply]
    · rw [← hspots]
      exact h
  · -- the warning goes to the log, which outlines do not see
    have hreported : Stands r found o
        { s with world := s.world.report .warning (.leftOpen s.runner.depth) } := ⟨h.runner, h.view⟩
    obtain ⟨t, hclose, ht⟩ := closeScopes_stands hidle hreported
    refine ⟨t, ?_, ht⟩
    rw [← h.depth] at hclose
    simp only [finish, bind_apply, get_apply, if_neg hdepth, act_apply, modify_apply, unwind,
      hclose]

end Run

end ScopedLabels.Script
