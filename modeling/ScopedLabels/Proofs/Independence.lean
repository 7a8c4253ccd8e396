import ScopedLabels.Proofs.Outline
import ScopedLabels.Script.Trial

/-!
# Independence — what a script prints does not depend on what was counted before

A script that draws from no counter by name, and makes nothing nameless unless it has a scope open
itself, runs the same whatever the counters say when it begins. The reason is that every entry sets
the counter of the path that it enters to zero. From then on, for as long as that scope is open, two
runs agree on this counter, and this is the only one that a nameless child draws from.

`Alike` says so of two outlines with the same spots: their counters agree on the paths of these
spots. Each step keeps it, whatever else it draws or sets back, and it shows nothing in which the
two differ.
-/

namespace ScopedLabels

/-! ## Counters that agree on a name -/

namespace Counters

variable {a b : Counters} {name : Text}

theorem get_zero_congr (h : a.get name = b.get name) (other : Text) :
    (a.zero other).get name = (b.zero other).get name := by
  rw [get_zero, get_zero]
  split
  · rfl
  · exact h

/-- Counts that agree go on agreeing when a counter is drawn from that agrees as well. -/
theorem get_draw_congr (h : a.get name = b.get name) {other : Text}
    (hother : a.get other = b.get other) :
    (a.draw other).2.get name = (b.draw other).2.get name := by
  rw [get_draw, get_draw]
  split
  · rw [draw, draw, hother]
  · exact h

end Counters

namespace Script

/-! ## Outlines that differ in what was counted before -/

namespace Outline

/-- Two outlines have the same spots, and their counters agree on the paths of these. -/
structure Alike (o p : Outline) : Prop where
  spots : o.spots = p.spots
  agree : ∀ spot ∈ o.spots, o.counters.get spot.path.text = p.counters.get spot.path.text

/-- A command that makes nothing nameless while no scope is open. -/
def Named (o : Outline) (command : Command) : Prop :=
  o.spots = [] → command.verb ≠ .scope none ∧ command.verb ≠ .label none

variable {o p : Outline}

/-- A command that names what it makes outside is anchored on any ground. -/
theorem Named.anchored {command : Command} (h : o.Named command) (ground : Option Path) :
    o.Anchored ground command :=
  fun hspots _ => h hspots

/-- Outside every scope of its own a run has no spots that could differ. -/
theorem Alike.outside (ho : o.spots = []) (hp : p.spots = []) : o.Alike p where
  spots := ho.trans hp.symm
  agree _ hspot := absurd (ho ▸ hspot) List.not_mem_nil

theorem Alike.above (h : o.Alike p) (ground : Option Path) : o.above ground = p.above ground := by
  rw [Outline.above, h.spots, Outline.above]

/-- A new scope settles at the same spot, and the counters agree as before. -/
theorem Alike.settle (h : o.Alike p) (ground : Option Path) {name : Option Text}
    (hname : name = none → o.spots ≠ []) :
    (o.counters.settle (o.above ground) name).1 = (p.counters.settle (p.above ground) name).1 ∧
      ∀ spot ∈ o.spots, (o.counters.settle (o.above ground) name).2.get spot.path.text =
        (p.counters.settle (p.above ground) name).2.get spot.path.text := by
  rw [← h.above ground]
  cases name with
  | some name => exact ⟨rfl, h.agree⟩
  | none =>
      cases hspots : o.spots with
      | nil => exact absurd hspots (hname rfl)
      | cons top spots =>
          have htop := h.agree top (hspots ▸ List.mem_cons_self)
          have habove : o.above ground = some top.path := by
            rw [Outline.above, hspots]
          rw [habove]
          -- the number comes from the counter of an open scope, on which the two agree
          constructor
          · show Spot.mk top.path (Text.ofCount (o.counters.get top.path.text + 1)) =
              Spot.mk top.path (Text.ofCount (p.counters.get top.path.text + 1))
            rw [htop]
          · intro spot hspot
            exact Counters.get_draw_congr (h.agree spot (hspots ▸ hspot)) htop

/-- Entering fails alike, or leads to the same spot. Then the counters agree on that spot as well,
    whatever was counted there before. -/
theorem Alike.enter (h : o.Alike p) (options : Options) (ground : Option Path)
    {name : Option Text} (hname : name = none → o.spots ≠ []) :
    (∃ e, o.enter options ground name = .error e ∧ p.enter options ground name = .error e) ∨
      ∃ spot a b, o.enter options ground name = .ok (spot, a) ∧
        p.enter options ground name = .ok (spot, b) ∧
        ∀ other ∈ spot :: o.spots, a.get other.path.text = b.get other.path.text := by
  rw [Outline.enter, Outline.enter]
  cases checkName options name with
  | error e => exact .inl ⟨e, rfl, rfl⟩
  | ok u =>
      obtain ⟨hspot, hagree⟩ := h.settle ground hname
      simp only [← hspot]
      refine .inr ⟨_, _, _, rfl, rfl, ?_⟩
      intro other hother
      rcases List.mem_cons.mp hother with rfl | hold
      · -- the entry set the counter of its own path to zero in both
        rw [Counters.get_zero, Counters.get_zero, if_pos rfl, if_pos rfl]
      · exact Counters.get_zero_congr (hagree other hold) _

/-- A command fails alike, or prints the same and leaves outlines that are alike. -/
theorem Alike.step (h : o.Alike p) (options : Options) (ground : Option Path) {command : Command}
    (hplain : command.verb.keyword ≠ .uid) (hnamed : o.Named command) :
    (∃ e, o.step options ground command = .error e ∧ p.step options ground command = .error e) ∨
      ∃ line? o' p', o.step options ground command = .ok (line?, o') ∧
        p.step options ground command = .ok (line?, p') ∧ o'.Alike p' := by
  -- counters are read when something nameless is made, and then a scope is open whose count agrees
  rw [Outline.step, Outline.step]
  cases hverb : command.verb with
  | scope name =>
      have hname : name = none → o.spots ≠ [] := by
        rintro rfl hnil
        exact (hnamed hnil).1 hverb
      rcases h.enter options ground hname with ⟨e, ho, hp⟩ | ⟨spot, a, b, ho, hp, hagree⟩
      · simp only [ho, hp]
        exact .inl ⟨e, rfl, rfl⟩
      · simp only [ho, hp]
        refine .inr ⟨none, _, _, rfl, rfl, ?_, hagree⟩
        rw [h.spots]
  | leave =>
      rw [← h.spots]
      cases hspots : o.spots with
      | nil => exact .inl ⟨_, rfl, rfl⟩
      | cons spot spots =>
          refine .inr ⟨none, _, _, rfl, rfl, rfl, ?_⟩
          intro other hother
          exact h.agree other (hspots ▸ List.mem_cons_of_mem spot hother)
  | label name =>
      have hname : name = none → o.spots ≠ [] := by
        rintro rfl hnil
        exact (hnamed hnil).2 hverb
      rcases h.enter options ground hname with ⟨e, ho, hp⟩ | ⟨spot, a, b, ho, hp, hagree⟩
      · simp only [ho, hp]
        exact .inl ⟨e, rfl, rfl⟩
      · simp only [ho, hp]
        refine .inr ⟨_, _, _, rfl, rfl, h.spots, ?_⟩
        intro other hother
        exact hagree other (List.mem_cons_of_mem spot hother)
  | uid counter =>
      rw [hverb] at hplain
      exact absurd rfl hplain
  | reset counter =>
      refine .inr ⟨none, _, _, rfl, rfl, h.spots, ?_⟩
      intro other hother
      exact Counters.get_zero_congr (h.agree other hother) _
  | current =>
      refine .inr ⟨_, _, _, rfl, ?_, h⟩
      rw [h.above ground]

end Outline

/-! ## Runs in worlds that differ in what was counted before -/

/-- Two runs of a runner, from worlds of their own, are where outlines say that are alike, and
    printed the same. -/
def Alike (r : Runner) (w v : World) (s t : RunState) : Prop :=
  ∃ o p, Stands r w o s ∧ Stands r v p t ∧ o.Alike p ∧ s.printed = t.printed ∧
    s.runner.line = t.runner.line

section Runs

variable {r : Runner} {w : World} (others : Std.ExtTreeMap Text Counters)

/-- A world in which something else was counted. -/
abbrev recounted (w : World) (others : Std.ExtTreeMap Text Counters) : World :=
  { w with registries := others }

theorem Runner.Idle.recounted (h : r.Idle w) : r.Idle (recounted w others) :=
  ⟨h.depth, h.opened_free, h.transient_free⟩

/-- What a runner shows of the two worlds differs in the counters only. -/
theorem Runner.opened_recounted (r : Runner) (spots : List Spot) :
    r.opened ((recounted w others).view r.environment) spots =
      { r.opened (w.view r.environment) spots with
        counters := ((recounted w others).view r.environment).counters } := by
  induction spots with
  | nil => rfl
  | cons spot spots ih =>
      rw [Runner.opened, ih]
      rfl

variable {others} {s t : RunState}

/-- Two runs begin alike, since neither has a scope open whose counter could differ. -/
theorem Alike.start (h : r.Idle w) :
    Alike r w (recounted w others) { world := w, runner := r }
      { world := recounted w others, runner := r } := by
  have hone : Stands r w _ { world := w, runner := r } := .start h []
  have htwo : Stands r (recounted w others) _ { world := recounted w others, runner := r } :=
    .start (h.recounted others) []
  exact ⟨_, _, hone, htwo, .outside rfl rfl, rfl, rfl⟩

/-- Runs that are alike show the same. -/
theorem Alike.shows (h : Alike r w (recounted w others) s t) :
    s.output = t.output ∧ s.runner = t.runner ∧
      s.world.activeValues r.environment = t.world.activeValues r.environment ∧
      ∀ id, s.world.scope? id = t.world.scope? id := by
  obtain ⟨o, p, hs, ht, halike, hprinted, hline⟩ := h
  have hview : t.world.view r.environment =
      { s.world.view r.environment with counters := p.counters } := by
    rw [hs.view, ht.view, Outline.view, Outline.view, halike.spots, Runner.opened_recounted]
  refine ⟨?_, ?_, (congrArg View.active hview).symm, ?_⟩
  · rw [RunState.output, hprinted, RunState.output]
  · rw [hs.runner, ht.runner, halike.spots, hline]
  · intro id
    exact (congrFun (congrArg View.scope? hview) id).symm

/-- Runs that are alike fail alike at a command, or are alike after it. -/
theorem Alike.attempt {ground : Option Path} (hidle : r.Idle w)
    (hground : (w.view r.environment).Active ground)
    (h : Alike r w (recounted w others) s t) {command : Command}
    (hplain : command.verb.keyword ≠ .uid)
    (hnamed : s.runner.depth = 0 → command.verb ≠ .scope none ∧ command.verb ≠ .label none) :
    (Run.attempt command s).outcome.InStep (Alike r w (recounted w others))
      (Run.attempt command t).outcome := by
  obtain ⟨o, p, hs, ht, halike, hprinted, hline⟩ := h
  have hnamed' : o.Named command := by
    intro hspots
    refine hnamed ?_
    rw [hs.depth, hspots]
    rfl
  have hnamed'' : p.Named command := fun hspots => hnamed' (halike.spots.trans hspots)
  have hground' : ((recounted w others).view r.environment).Active ground :=
    hground.of_scope?_eq rfl fun id scope hscope => hscope
  have hone := Run.attempt_stands hidle hground hs (hnamed'.anchored ground)
  have htwo := Run.attempt_stands (hidle.recounted others) hground' ht (hnamed''.anchored ground)
  have hoptions : (recounted w others).optionsOf r.environment = w.optionsOf r.environment := rfl
  rw [hoptions] at htwo
  -- the outlines fail alike or go on alike, and the runs do as their outlines
  rcases halike.step (w.optionsOf r.environment) ground hplain hnamed' with
    ⟨e, ho, hp⟩ | ⟨line?, o', p', ho, hp, halike'⟩
  · rw [ho] at hone
    rw [hp] at htwo
    rw [hone, htwo]
    exact ⟨rfl, o, p, hs.goTo _, ht.goTo _, halike, hprinted, rfl⟩
  · rw [ho] at hone
    rw [hp] at htwo
    obtain ⟨s', hs', hstands, hs'printed, hs'line⟩ := hone
    obtain ⟨t', ht', htands, ht'printed, ht'line⟩ := htwo
    rw [hs', ht']
    refine ⟨rfl, o', p', hstands, htands, halike', ?_, ?_⟩
    · rw [hs'printed, ht'printed, hprinted]
    · rw [hs'line, ht'line]

/-- Two runs close the same scopes and stay alike. -/
theorem Alike.finish (hidle : r.Idle w) (h : Alike r w (recounted w others) s t) :
    (Run.finish.outcome s).InStep (Alike r w (recounted w others)) (Run.finish.outcome t) := by
  obtain ⟨o, p, hs, ht, halike, hprinted, hline⟩ := h
  obtain ⟨s', hs', hstands, hs'printed, hs'line⟩ := Run.finish_stands hidle hs
  obtain ⟨t', ht', htands, ht'printed, ht'line⟩ :=
    Run.finish_stands (hidle.recounted others) ht
  rw [Run.outcome, hs', Run.outcome, ht']
  refine ⟨rfl, _, _, hstands, htands, .outside rfl rfl, ?_, ?_⟩
  · rw [hs'printed, ht'printed, hprinted]
  · rw [hs'line, ht'line, hline]

/-- Runs that are alike end alike. -/
theorem Alike.run {ground : Option Path} (hidle : r.Idle w)
    (hground : (w.view r.environment).Active ground) {commands : List Command}
    (h : Alike r w (recounted w others) s t)
    (hplain : ∀ command ∈ commands, command.verb.keyword ≠ .uid)
    (hnamed : ∀ a ∈ Run.attempts commands s, a.before.runner.depth = 0 →
      a.command.verb ≠ .scope none ∧ a.command.verb ≠ .label none) :
    ((Run.run commands).outcome s).InStep (Alike r w (recounted w others))
      ((Run.run commands).outcome t) := by
  have hknown : ∀ a ∈ Run.attempts commands s, a.command.verb.keyword ≠ .uid ∧
      (a.before.runner.depth = 0 → a.command.verb ≠ .scope none ∧ a.command.verb ≠ .label none) :=
    fun a ha => ⟨hplain _ (Run.command_mem_of_attempts ha), hnamed a ha⟩
  exact (Run.inStep (fun command s t h known => h.attempt hidle hground known.1 known.2)
    (fun s t h => h.finish hidle) h hknown).1

end Runs

/-- Scripts are reproducible. Let a runner have nothing open, and let everything active in its
    environment be scopes that are alive and stand somewhere. If a script draws from no counter by
    name and executes nothing nameless while it has no scope open, then whatever was counted before,
    it prints the same, ends with the same error or success at the same line, and leaves the same
    scopes and the same active-scope list. -/
theorem run_independent {r : Runner} {w : World} (hidle : r.Idle w)
    (hactive : ∀ value ∈ w.activeValues r.environment, ∃ id scope, value = .scope id ∧
      w.scope? id = some scope ∧ scope.resolved = true)
    {commands : List Command} (hplain : ∀ command ∈ commands, command.verb.keyword ≠ .uid)
    (hnamed : ∀ a ∈ Run.attempts commands { world := w, runner := r },
      a.before.runner.depth = 0 → a.command.verb ≠ .scope none ∧ a.command.verb ≠ .label none)
    (others : Std.ExtTreeMap Text Counters) :
    let one := (Run.run commands).outcome { world := w, runner := r }
    let two := (Run.run commands).outcome { world := recounted w others, runner := r }
    one.error? = two.error? ∧ one.state.output = two.state.output ∧
      one.state.runner = two.state.runner ∧
      one.state.world.activeValues r.environment = two.state.world.activeValues r.environment ∧
      ∀ id, one.state.world.scope? id = two.state.world.scope? id := by
  intro one two
  -- the innermost active scope, if there is one, is the ground of the script
  have hground : ∃ ground, (w.view r.environment).Active ground := by
    cases hvalues : w.activeValues r.environment with
    | nil => exact ⟨none, hvalues⟩
    | cons value rest =>
        obtain ⟨id, scope, rfl, hscope, hresolved⟩ :=
          hactive value (hvalues ▸ List.mem_cons_self)
        cases hplace : scope.place with
        | unresolved name =>
            rw [Scope.resolved, Scope.path?, hplace] at hresolved
            cases hresolved
        | resolved parents basename =>
            refine ⟨some (parents ++ [basename]), id, scope, rest, hvalues, hscope, ?_⟩
            rw [Scope.path, hplace]
  obtain ⟨ground, hground⟩ := hground
  have hstart : Alike r w (recounted w others) _ _ := .start hidle
  have hrun := hstart.run hidle hground hplain hnamed
  exact ⟨hrun.error?, hrun.state.shows⟩

/-- A world in which the scope `a` is active in the environment of scripts. -/
def groundedWorld : World :=
  (freshWorld {} {} {}).addScope (.held "a")
      { environment := scriptEnvironment, place := .resolved [] "a", entries := 1 }
    |>.modifyStack scriptEnvironment.contexts (·.push Scope.contextKey (.scope (.held "a")))

/-- Labels below `a` and below a scope of the script, with the counter of that one set back, and one
    `end` too many. -/
def groundedScript : List Command :=
  [⟨.label (some "x"), 1⟩, ⟨.scope (some "b"), 2⟩, ⟨.label none, 3⟩, ⟨.reset (some "a/b"), 4⟩,
    ⟨.label none, 5⟩, ⟨.leave, 6⟩, ⟨.current, 7⟩, ⟨.leave, 8⟩]

/-- Counters that stand where the script will number. -/
def recount : Std.ExtTreeMap Text Counters :=
  (∅ : Std.ExtTreeMap Text Counters).insert scriptEnvironment.counters
    (({} : Counters).set "a/b" 5 |>.set "a" 7)

/-- Above a scope that is active, with counters that already stand elsewhere. -/
theorem run_independent_grounded :
    let one := (Run.run groundedScript).outcome { world := groundedWorld, runner := scriptRunner }
    let two := (Run.run groundedScript).outcome
      { world := recounted groundedWorld recount, runner := scriptRunner }
    (scriptRunner.Idle groundedWorld ∧
      groundedWorld.activeValues scriptEnvironment = [.scope (.held "a")] ∧
      (∀ command ∈ groundedScript, command.verb.keyword ≠ .uid) ∧
      ∀ a ∈ Run.attempts groundedScript { world := groundedWorld, runner := scriptRunner },
        a.before.runner.depth = 0 →
        a.command.verb ≠ .scope none ∧ a.command.verb ≠ .label none) ∧
    one.state.output = Text.unlines ["a/x", "a/b/1", "a/b/1", "a"] ∧
    one.error? = two.error? ∧ one.state.output = two.state.output ∧
    one.state.runner = two.state.runner ∧
    one.state.world.activeValues scriptRunner.environment =
      two.state.world.activeValues scriptRunner.environment ∧
    ∀ id, one.state.world.scope? id = two.state.world.scope? id := by
  have hidle : scriptRunner.Idle groundedWorld := ⟨rfl, fun _ => rfl, rfl⟩
  have hvalues : groundedWorld.activeValues scriptEnvironment = [.scope (.held "a")] := by
    decide +kernel
  have hscope : groundedWorld.scope? (.held "a") =
      some { environment := scriptEnvironment, place := .resolved [] "a", entries := 1 } := by
    decide +kernel
  have hplain : ∀ command ∈ groundedScript, command.verb.keyword ≠ .uid := by decide
  have hnamed : ∀ a ∈ Run.attempts groundedScript
      { world := groundedWorld, runner := scriptRunner }, a.before.runner.depth = 0 →
        a.command.verb ≠ .scope none ∧ a.command.verb ≠ .label none := by decide +kernel
  have hactive : ∀ value ∈ groundedWorld.activeValues scriptEnvironment, ∃ id scope,
      value = .scope id ∧ groundedWorld.scope? id = some scope ∧ scope.resolved = true := by
    intro value hvalue
    rw [hvalues] at hvalue
    exact ⟨_, _, List.mem_singleton.mp hvalue, hscope, rfl⟩
  have houtput : ((Run.run groundedScript).outcome
      { world := groundedWorld, runner := scriptRunner }).state.output =
      Text.unlines ["a/x", "a/b/1", "a/b/1", "a"] := by decide +kernel
  have hrun := run_independent hidle hactive hplain hnamed recount
  exact ⟨⟨hidle, hvalues, hplain, hnamed⟩, houtput, hrun⟩

end Script

end ScopedLabels
