import ScopedLabels.Proofs.Naming
import ScopedLabels.Proofs.Outline
import ScopedLabels.Script.Trial

/-!
# Relocation — below a scope a script prints what it prints alone, one path further down

A script that makes nothing nameless and asks for nothing outside its own scopes, and that names no
counter, may be moved below any active scope: each line that it prints then has the path of that
scope before it, and nothing else changes. `Path.qualify` is the translation, of printed lines and
of the names of counters alike. Since a path in two parts is written as the two with a separator
between them, it works for every base, also for one whose segments are empty or hold separators; and
since it is injective, counters that differ in one run differ in the other.

`Below` relates the outlines of the two runs. Their spots correspond, and so do the counters of
these spots, whatever the two registries held before: every entry sets the counter of its path back,
and nothing is drawn but below a scope that was entered by the script itself.
-/

namespace ScopedLabels

/-! ## Paths and counters below a base -/

/-- The text of a path as it reads when the path stands below a base. -/
def Path.qualify (base : Path) (text : Text) : Text :=
  base.text ++ Text.slash :: text

/-- Texts below the same base are equal just if they were before. -/
theorem Path.qualify_inj {base : Path} {a b : Text} : base.qualify a = base.qualify b ↔ a = b := by
  simp [qualify]

namespace Spot

/-- A spot moved below a base. -/
def below (base : Path) (spot : Spot) : Spot :=
  { spot with parents := base ++ spot.parents }

theorem path_below (base : Path) (spot : Spot) : (spot.below base).path = base ++ spot.path :=
  List.append_assoc base spot.parents [spot.basename]

/-- Below a base the text of a path is that of the base, a separator and its own. -/
theorem text_path_below {base : Path} (hbase : base ≠ []) (spot : Spot) :
    (spot.below base).path.text = base.qualify spot.path.text := by
  have hpath : spot.path ≠ [] := List.append_ne_nil_of_right_ne_nil _ (List.cons_ne_nil _ _)
  rw [path_below, Path.text_append hbase hpath, Path.qualify]

end Spot

namespace Counters

variable {a b : Counters} {base : Path} {name : Text}

/-- Setting back below the base agrees with setting back alone. -/
theorem get_zero_qualify (h : a.get (base.qualify name) = b.get name) (other : Text) :
    (a.zero (base.qualify other)).get (base.qualify name) = (b.zero other).get name := by
  rw [get_zero, get_zero]
  simp only [Path.qualify_inj, h]

/-- Drawing below the base agrees with drawing alone, if the counter that is drawn from agreed. -/
theorem get_draw_qualify (h : a.get (base.qualify name) = b.get name) {other : Text}
    (hother : a.get (base.qualify other) = b.get other) :
    (a.draw (base.qualify other)).2.get (base.qualify name) = (b.draw other).2.get name := by
  rw [get_draw, get_draw]
  simp only [Path.qualify_inj, h, draw, hother]

end Counters

namespace Script

/-! ## Outlines below a base -/

/-- A command that may be relocated when so many scopes are open: it names no counter, and where
    none is open, it makes nothing nameless and does not ask what is active. -/
structure Command.Movable (command : Command) (depth : Nat) : Prop where
  uid : command.verb.keyword ≠ .uid
  reset : command.verb.keyword ≠ .reset
  outside : depth = 0 →
    command.verb ≠ .scope none ∧ command.verb ≠ .label none ∧ command.verb ≠ .current

/-- A command that may be relocated makes nothing nameless where the script has no scope open. -/
theorem Command.Movable.anchored {command : Command} {o : Outline}
    (h : command.Movable o.spots.length) (ground : Option Path) : o.Anchored ground command := by
  intro hspots _
  obtain ⟨hscope, hlabel, -⟩ := h.outside (by rw [hspots, List.length_nil])
  exact ⟨hscope, hlabel⟩

namespace Outline

/-- The second outline is the first moved below a base: its spots are those of the first, and the
    counters of these stand where they do in the first. -/
structure Below (base : Path) (o p : Outline) : Prop where
  spots : p.spots = o.spots.map (Spot.below base)
  agree : ∀ spot ∈ o.spots,
    p.counters.get (base.qualify spot.path.text) = o.counters.get spot.path.text

namespace Below

variable {base : Path} {o p : Outline}

/-- Outside every scope of its own a run has no spots that could differ. -/
theorem outside (ho : o.spots = []) (hp : p.spots = []) : Below base o p where
  spots := by rw [ho, hp, List.map_nil]
  agree spot hspot := absurd (ho ▸ hspot) List.not_mem_nil

theorem length_spots (h : Below base o p) : p.spots.length = o.spots.length := by
  rw [h.spots, List.length_map]

/-- What is innermost below the base, where the base itself is the ground. -/
theorem above (h : Below base o p) :
    p.above (some base) = some (base ++ (o.above none).getD []) := by
  rw [Outline.above, h.spots, Outline.above]
  cases o.spots with
  | nil => exact congrArg some (List.append_nil base).symm
  | cons spot spots => exact congrArg some (spot.path_below base)

variable (hbase : base ≠ [])
include hbase

/-- A new scope settles at the spot below the base, by the same name or number, and the counters
    agree as before. -/
theorem settle (h : Below base o p) {name : Option Text} (hname : name = none → o.spots ≠ []) :
    (p.counters.settle (p.above (some base)) name).1 =
        (o.counters.settle (o.above none) name).1.below base ∧
      ∀ spot ∈ o.spots,
        (p.counters.settle (p.above (some base)) name).2.get (base.qualify spot.path.text) =
          (o.counters.settle (o.above none) name).2.get spot.path.text := by
  rw [h.above]
  cases name with
  | some name => exact ⟨rfl, h.agree⟩
  | none =>
      cases hspots : o.spots with
      | nil => exact absurd hspots (hname rfl)
      | cons top spots =>
          have htop := h.agree top (hspots ▸ List.mem_cons_self)
          have habove : o.above none = some top.path := by
            rw [Outline.above, hspots]
          have htext : Path.text (base ++ top.path) = base.qualify top.path.text := by
            rw [← Spot.path_below, Spot.text_path_below hbase]
          rw [habove]
          -- the number comes from the counter of an open scope, and these correspond
          simp only [Counters.settle, Option.getD_some, htext]
          constructor
          · rw [Counters.draw, htop]
            rfl
          · intro spot hspot
            exact Counters.get_draw_qualify (h.agree spot (hspots ▸ hspot)) htop

/-- Entering fails alike, or leads to the spot below the base. Then the counters agree on that spot
    as well, whatever was counted there before. -/
theorem enter (h : Below base o p) (options : Options) {name : Option Text}
    (hname : name = none → o.spots ≠ []) :
    (∃ e, o.enter options none name = .error e ∧ p.enter options (some base) name = .error e) ∨
      ∃ spot a b, o.enter options none name = .ok (spot, a) ∧
        p.enter options (some base) name = .ok (spot.below base, b) ∧
        ∀ other ∈ spot :: o.spots,
          b.get (base.qualify other.path.text) = a.get other.path.text := by
  rw [Outline.enter, Outline.enter]
  cases checkName options name with
  | error e => exact .inl ⟨e, rfl, rfl⟩
  | ok u =>
      obtain ⟨hspot, hagree⟩ := h.settle hbase hname
      simp only [hspot, Spot.text_path_below hbase]
      refine .inr ⟨_, _, _, rfl, rfl, ?_⟩
      intro other hother
      rcases List.mem_cons.mp hother with rfl | hold
      · -- the entry set the counter of its own path to zero in both
        rw [Counters.get_zero, Counters.get_zero, if_pos rfl, if_pos rfl]
      · exact Counters.get_zero_qualify (hagree other hold) _

/-- A command fails alike, or prints what it prints alone with the base before it, and leaves the
    one outline below the other. -/
theorem step (h : Below base o p) (options : Options) {command : Command}
    (hmovable : command.Movable o.spots.length) :
    (∃ e, o.step options none command = .error e ∧
        p.step options (some base) command = .error e) ∨
      ∃ line? o' p', o.step options none command = .ok (line?, o') ∧
        p.step options (some base) command = .ok (line?.map base.qualify, p') ∧
        Below base o' p' := by
  -- what the outside does not matter for is named, or is made below a scope of the script
  have houtside := fun hspots : o.spots = [] =>
    hmovable.outside (by rw [hspots, List.length_nil])
  rw [Outline.step, Outline.step]
  cases hverb : command.verb with
  | scope name =>
      have hname : name = none → o.spots ≠ [] := by
        rintro rfl hnil
        exact (houtside hnil).1 hverb
      rcases h.enter hbase options hname with ⟨e, ho, hp⟩ | ⟨spot, a, b, ho, hp, hagree⟩
      · simp only [ho, hp]
        exact .inl ⟨e, rfl, rfl⟩
      · simp only [ho, hp]
        refine .inr ⟨none, _, _, rfl, rfl, ?_, hagree⟩
        rw [h.spots, List.map_cons]
  | leave =>
      rw [h.spots]
      cases hspots : o.spots with
      | nil => exact .inl ⟨_, rfl, rfl⟩
      | cons spot spots =>
          refine .inr ⟨none, _, _, rfl, rfl, rfl, ?_⟩
          intro other hother
          exact h.agree other (hspots ▸ List.mem_cons_of_mem spot hother)
  | label name =>
      have hname : name = none → o.spots ≠ [] := by
        rintro rfl hnil
        exact (houtside hnil).2.1 hverb
      rcases h.enter hbase options hname with ⟨e, ho, hp⟩ | ⟨spot, a, b, ho, hp, hagree⟩
      · simp only [ho, hp]
        exact .inl ⟨e, rfl, rfl⟩
      · simp only [ho, hp]
        refine .inr ⟨some spot.path.text, ⟨o.spots, a⟩, ⟨p.spots, b⟩, rfl, ?_, h.spots, ?_⟩
        · simp only [Except.map, Option.map_some, Spot.text_path_below hbase]
        · intro other hother
          exact hagree other (List.mem_cons_of_mem spot hother)
  | uid counter =>
      have huid := hmovable.uid
      rw [hverb] at huid
      exact absurd rfl huid
  | reset counter =>
      have hreset := hmovable.reset
      rw [hverb] at hreset
      exact absurd rfl hreset
  | current =>
      cases hspots : o.spots with
      | nil => exact absurd hverb (houtside hspots).2.2
      | cons spot spots =>
          have habove : o.above none = some spot.path := by
            rw [Outline.above, hspots]
          refine .inr ⟨some spot.path.text, o, p, ?_, ?_, h⟩
          · rw [habove, Option.elim_some]
          · rw [h.above, habove, Option.elim_some, Option.getD_some, ← Spot.path_below,
              Spot.text_path_below hbase, Option.map_some]

end Below

end Outline

/-! ## Runs below a base -/

/-- Two runs, of runners and from worlds of their own, are where outlines say of which the second is
    below the first, and the second printed the lines of the first with the base before them. -/
structure Relocates (base : Path) (r : Runner) (w : World) (r' : Runner) (w' : World)
    (s t : RunState) : Prop where
  stands : ∃ o p, Stands r w o s ∧ Stands r' w' p t ∧ o.Below base p
  printed : t.printed = s.printed.map base.qualify

section Runs

variable {base : Path} {r r' : Runner} {w w' : World} {s t : RunState}

theorem Relocates.start (hidle : r.Idle w) (hidle' : r'.Idle w') :
    Relocates base r w r' w' { world := w, runner := r } { world := w', runner := r' } := by
  have hone : Stands r w _ { world := w, runner := r } := .start hidle []
  have htwo : Stands r' w' _ { world := w', runner := r' } := .start hidle' []
  exact ⟨⟨_, _, hone, htwo, .outside rfl rfl⟩, rfl⟩

variable (hbase : base ≠ []) (hidle : r.Idle w) (hidle' : r'.Idle w')
  (hground : (w.view r.environment).Active none)
  (hground' : (w'.view r'.environment).Active (some base))
  (hoptions : w'.optionsOf r'.environment = w.optionsOf r.environment)

include hbase hidle hidle' hground hground' hoptions in
/-- A command that may be relocated does to the run below what it does to the run alone. -/
theorem Relocates.attempt (h : Relocates base r w r' w' s t) {command : Command}
    (hmovable : command.Movable s.runner.depth) :
    (Run.attempt command s).outcome.InStep (Relocates base r w r' w')
      (Run.attempt command t).outcome := by
  obtain ⟨⟨o, p, hs, ht, hbelow⟩, hprinted⟩ := h
  rw [hs.depth] at hmovable
  have hmovable' : command.Movable p.spots.length := hbelow.length_spots ▸ hmovable
  have hone := Run.attempt_stands hidle hground hs (hmovable.anchored none)
  have htwo := Run.attempt_stands hidle' hground' ht (hmovable'.anchored (some base))
  rw [hoptions] at htwo
  -- the outlines fail alike or go on alike, and the runs do as their outlines
  rcases hbelow.step hbase (w.optionsOf r.environment) hmovable with
    ⟨e, ho, hp⟩ | ⟨line?, o', p', ho, hp, hbelow'⟩
  · rw [ho] at hone
    rw [hp] at htwo
    rw [hone, htwo]
    exact ⟨rfl, ⟨o, p, hs.goTo _, ht.goTo _, hbelow⟩, hprinted⟩
  · rw [ho] at hone
    rw [hp] at htwo
    obtain ⟨s', hs', hstands, hs'printed, -⟩ := hone
    obtain ⟨t', ht', htands, ht'printed, -⟩ := htwo
    rw [hs', ht']
    refine ⟨rfl, ⟨o', p', hstands, htands, hbelow'⟩, ?_⟩
    rw [ht'printed, hs'printed, hprinted, List.map_append]
    cases line? <;> rfl

include hidle hidle' in
/-- Both runs close as many scopes at their ends. -/
theorem Relocates.finish (h : Relocates base r w r' w' s t) :
    (Run.finish.outcome s).InStep (Relocates base r w r' w') (Run.finish.outcome t) := by
  obtain ⟨⟨o, p, hs, ht, hbelow⟩, hprinted⟩ := h
  obtain ⟨s', hs', hstands, hs'printed, -⟩ := Run.finish_stands hidle hs
  obtain ⟨t', ht', htands, ht'printed, -⟩ := Run.finish_stands hidle' ht
  rw [Run.outcome, hs', Run.outcome, ht']
  refine ⟨rfl, ⟨_, _, hstands, htands, .outside rfl rfl⟩, ?_⟩
  rw [ht'printed, hs'printed, hprinted]

end Runs

/-- Scripts can be relocated. Compare a run where nothing is active with one, of any runner, where a
    scope with the path `base` is innermost, above whatever else is active, and where the options
    are the same. What was counted before does not matter in either. If the script names no counter,
    and where it has no scope open makes nothing nameless and does not ask what is active, then the
    two get to the same commands and fail alike, if at all, and each line that the second prints is
    that of the first with the base and a separator before it. -/
theorem run_relocated {r r' : Runner} {w w' : World} (hidle : r.Idle w) (hidle' : r'.Idle w')
    (hoptions : w'.optionsOf r'.environment = w.optionsOf r.environment)
    (hnone : w.activeValues r.environment = []) {id : ScopeId} {scope : Scope} {rest : List Value}
    {base : Path} (htop : w'.activeValues r'.environment = .scope id :: rest)
    (hscope : w'.scope? id = some scope) (hpath : scope.path = .ok base)
    {commands : List Command}
    (hmovable : ∀ a ∈ Run.attempts commands { world := w, runner := r },
      a.command.Movable a.before.runner.depth) :
    let alone := (Run.run commands).outcome { world := w, runner := r }
    let below := (Run.run commands).outcome { world := w', runner := r' }
    below.error? = alone.error? ∧
      (Run.attempts commands { world := w', runner := r' }).map Attempt.command =
        (Run.attempts commands { world := w, runner := r }).map Attempt.command ∧
      below.state.printed = alone.state.printed.map fun line =>
        base.text ++ Text.slash :: line := by
  intro alone below
  have hbase : base ≠ [] := Scope.ne_nil_of_path hpath
  have hground' : (w'.view r'.environment).Active (some base) :=
    ⟨id, scope, rest, htop, hscope, hpath⟩
  have hstart : Relocates base r w r' w' _ _ := .start hidle hidle'
  obtain ⟨houtcome, hcommands⟩ := Run.inStep
    (fun command s t h => h.attempt hbase hidle hidle' hnone hground' hoptions)
    (fun s t h => h.finish hidle hidle') hstart hmovable
  exact ⟨houtcome.error?.symm, hcommands.symm, houtcome.state.printed⟩

/-- A world in which a scope that was made from the segments `x/` and nothing is active on top of a
    number, and in which some counters were drawn from already. -/
def crowdedWorld : World :=
  (freshWorld {} {} {}).addScope (.held "s")
      { environment := scriptEnvironment, place := .resolved ["x/"] [], entries := 1 }
    |>.modifyStack scriptEnvironment.contexts (·.push Scope.contextKey (.int 7))
    |>.modifyStack scriptEnvironment.contexts (·.push Scope.contextKey (.scope (.held "s")))
    |>.modifyRegistry scriptEnvironment.counters fun counters =>
      (counters.set "x///b" 5).set "b" 9

/-- Numbered and named labels and scopes, a scope that is opened a second time, and one `end` too
    many. -/
def movedScript : List Command :=
  [⟨.scope (some "b"), 1⟩, ⟨.label none, 2⟩, ⟨.scope none, 3⟩, ⟨.label (some "c"), 4⟩,
    ⟨.leave, 5⟩, ⟨.leave, 6⟩, ⟨.label (some "d"), 7⟩, ⟨.scope (some "b"), 8⟩, ⟨.label none, 9⟩,
    ⟨.current, 10⟩, ⟨.leave, 11⟩, ⟨.leave, 12⟩]

/-- The base has a separator and an empty segment, and something that is no scope is active below
    it. -/
theorem run_relocated_crowded :
    let alone := (Run.run movedScript).outcome
      { world := freshWorld {} {} {}, runner := scriptRunner }
    let below := (Run.run movedScript).outcome
      { world := crowdedWorld, runner := { scriptRunner with name := "other" } }
    crowdedWorld.activeValues scriptEnvironment = [.scope (.held "s"), .int 7] ∧
      (∀ a ∈ Run.attempts movedScript { world := freshWorld {} {} {}, runner := scriptRunner },
        a.command.Movable a.before.runner.depth) ∧
      alone.state.output = Text.unlines ["b/1", "b/2/c", "d", "b/1", "b"] ∧
      below.error? = some (.script ⟨12, .endWithoutScope⟩) ∧
      below.state.output =
        Text.unlines ["x///b/1", "x///b/2/c", "x///d", "x///b/1", "x///b"] := by
  intro alone below
  have hvalues : crowdedWorld.activeValues scriptEnvironment =
      [.scope (.held "s"), .int 7] := by decide +kernel
  have hscope : crowdedWorld.scope? (.held "s") = some
      { environment := scriptEnvironment, place := .resolved ["x/"] [], entries := 1 } := by
    decide +kernel
  have hmovable : ∀ a ∈ Run.attempts movedScript
      { world := freshWorld {} {} {}, runner := scriptRunner },
      a.command.Movable a.before.runner.depth := by
    have hall : ∀ a ∈ Run.attempts movedScript
        { world := freshWorld {} {} {}, runner := scriptRunner },
        a.command.verb.keyword ≠ .uid ∧ a.command.verb.keyword ≠ .reset ∧
          (a.before.runner.depth = 0 → a.command.verb ≠ .scope none ∧
            a.command.verb ≠ .label none ∧ a.command.verb ≠ .current) := by decide +kernel
    intro a ha
    obtain ⟨huid, hreset, houtside⟩ := hall a ha
    exact ⟨huid, hreset, houtside⟩
  have hidle : scriptRunner.Idle (freshWorld {} {} {}) := ⟨rfl, fun _ => rfl, rfl⟩
  have hidle' : Runner.Idle { scriptRunner with name := "other" } crowdedWorld :=
    ⟨rfl, fun _ => rfl, rfl⟩
  have hprinted : alone.state.printed = (["b", "b/1", "d", "b/2/c", "b/1"] : List Text) := by
    decide +kernel
  have herror : alone.error? = some (.script ⟨12, .endWithoutScope⟩) := by decide +kernel
  obtain ⟨hsame, -, hlines⟩ := run_relocated hidle hidle' (by decide +kernel) (by decide +kernel)
    hvalues hscope rfl hmovable
  refine ⟨hvalues, hmovable, ?_, hsame.trans herror, ?_⟩
  · rw [RunState.output, hprinted]
    rfl
  · rw [RunState.output, hlines, hprinted]
    decide +kernel

end Script

end ScopedLabels
