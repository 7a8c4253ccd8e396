import ScopedLabels.Contexts.Lease
import ScopedLabels.Proofs.Blocks
import ScopedLabels.Proofs.Parallel
import ScopedLabels.Proofs.Regions

/-!
# Twins — two runs in worlds that agree in a region

Two runs began in worlds of their own; by now their worlds agree in a region, which is closed, each
of them has changed nothing outside it, and both have counted the same events. `Twins.Abreast` says
so, and it is a `Parallel` relation: every operation of the library on scopes and environments of
the region keeps two runs abreast. That is both what makes a run independent of the world around
its region, as its twin may have another, and what leaves that world alone.
-/

namespace ScopedLabels

/-- A region, and the worlds in which two runs began. -/
structure Twins where
  region : Region
  first : World
  second : World

namespace Twins

/-- What two runs have come to: their worlds agree in the region and have the same log, neither run
    has changed anything else, and both have counted the same events. -/
structure Abreast (T : Twins) (w v : World) : Prop where
  agree : T.region.Agree w v
  closed : T.region.Closed w
  log : v.log = w.log
  first : T.region.Confined T.first w
  second : T.region.Confined T.second v
  enabled : v.metrics.enabled = w.metrics.enabled
  tally : ∀ metric, v.metrics.tally.get metric + T.first.metrics.tally.get metric =
    w.metrics.tally.get metric + T.second.metrics.tally.get metric

namespace Abreast

variable {T : Twins} {w v : World}

/-- Two runs begin abreast if their worlds agree in a closed region. -/
theorem start {K : Region} (hagree : K.Agree w v) (hclosed : K.Closed w) (hlog : v.log = w.log)
    (henabled : v.metrics.enabled = w.metrics.enabled) : (Twins.mk K w v).Abreast w v where
  agree := hagree
  closed := hclosed
  log := hlog
  first := .refl K w
  second := .refl K v
  enabled := henabled
  tally _ := UInt64.add_comm _ _

/-! ### What is seen of both worlds -/

/-- An active scope is one of the region. -/
theorem scopes_of_active (h : T.Abreast w v) {environment : Environment}
    (henvironment : T.region.Holds environment) {id : ScopeId}
    (hmem : .scope id ∈ w.activeValues environment) : T.region.scopes id :=
  h.closed.contexts _ henvironment.stack _ id hmem

/-! ### Changes -/

/-- A change of both worlds that leaves log and metrics alone. -/
theorem change {w' v' : World} (h : T.Abreast w v) (hagree : T.region.Agree w' v')
    (hclosed : T.region.Closed w') (hfirst : T.region.Confined w w')
    (hsecond : T.region.Confined v v') (hlog : v'.log = w'.log)
    (hcounted : w'.metrics = w.metrics) (hcounted' : v'.metrics = v.metrics) :
    T.Abreast w' v' where
  agree := hagree
  closed := hclosed
  log := hlog
  first := h.first.trans hfirst
  second := h.second.trans hsecond
  enabled := by rw [hcounted, hcounted', h.enabled]
  tally metric := by rw [hcounted, hcounted', h.tally metric]

/-- A registry of the region may be changed in both worlds. -/
theorem modifyRegistry (h : T.Abreast w v) {name : Text} (hname : T.region.registries name)
    (f : Counters → Counters) : T.Abreast (w.modifyRegistry name f) (v.modifyRegistry name f) := by
  have hagree := h.agree.modifyRegistry name f
  have hclosed : T.region.Closed (w.modifyRegistry name f) := h.closed.of_eq rfl rfl
  exact h.change hagree hclosed (.modifyRegistry w hname f) (.modifyRegistry v hname f) h.log
    rfl rfl

/-- A stack of the region may be changed as long as every scope that gets onto it is one of the
    region. -/
theorem modifyStack (h : T.Abreast w v) {name : Text} (hname : T.region.contexts name)
    {f : Contexts → Contexts} (hf : ∀ c, T.region.Owns c → T.region.Owns (f c)) :
    T.Abreast (w.modifyStack name f) (v.modifyStack name f) := by
  have hagree := h.agree.modifyStack name f
  have hclosed := h.closed.modifyStack name hf
  exact h.change hagree hclosed (.modifyStack w hname f) (.modifyStack v hname f) h.log rfl rfl

theorem setOptions (h : T.Abreast w v) {environment : Environment}
    (hname : T.region.options environment.name) (options : Options) :
    T.Abreast (w.setOptions environment options) (v.setOptions environment options) := by
  have hagree := h.agree.setOptions environment options
  have hclosed : T.region.Closed (w.setOptions environment options) := h.closed.of_eq rfl rfl
  exact h.change hagree hclosed (.setOptions w hname options) (.setOptions v hname options) h.log
    rfl rfl

/-- A scope of the region may be added to both worlds. -/
theorem addScope (h : T.Abreast w v) {id : ScopeId} (hid : T.region.scopes id) {scope : Scope}
    (hscope : T.region.Holds scope.environment) :
    T.Abreast (w.addScope id scope) (v.addScope id scope) := by
  have hagree := h.agree.addScope id scope
  have hclosed := h.closed.addScope id hscope
  exact h.change hagree hclosed (.addScope w hid scope) (.addScope v hid scope) h.log rfl rfl

theorem dropScope (h : T.Abreast w v) {id : ScopeId} (hid : T.region.scopes id) :
    T.Abreast (w.dropScope id) (v.dropScope id) := by
  have hagree := h.agree.dropScope id
  have hclosed := h.closed.dropScope id
  exact h.change hagree hclosed (.dropScope w hid) (.dropScope v hid) h.log rfl rfl

theorem putScope (h : T.Abreast w v) {id : ScopeId} (hid : T.region.scopes id) {scope : Scope}
    (hscope : T.region.Holds scope.environment) :
    T.Abreast (w.putScope id scope) (v.putScope id scope) := by
  have hagree := h.agree.putScope id scope
  have hclosed := h.closed.putScope id hscope
  exact h.change hagree hclosed (.putScope w hid scope) (.putScope v hid scope) h.log rfl rfl

/-- A record is written by both or dropped by both, as the logs are the same. -/
theorem report (h : T.Abreast w v) (level : Level) (notice : Notice) :
    T.Abreast (w.report level notice) (v.report level notice) := by
  have hlog : (v.report level notice).log = (w.report level notice).log := by
    rw [World.report, World.report, h.log]
  have hsame : T.region.Agree w (w.report level notice) := .of_eq rfl rfl rfl rfl
  have hsame' : T.region.Agree v (v.report level notice) := .of_eq rfl rfl rfl rfl
  have hagree := hsame.symm.trans (h.agree.trans hsame')
  have hclosed := h.closed.of_agree hsame
  exact h.change hagree hclosed (.report w level notice) (.report v level notice) hlog rfl rfl

/-- An event is counted by both or by neither. -/
theorem count (h : T.Abreast w v) (metric : Metric) :
    T.Abreast (w.count metric) (v.count metric) := by
  have hsame : T.region.Agree w (w.count metric) := .of_eq rfl rfl rfl rfl
  have hsame' : T.region.Agree v (v.count metric) := .of_eq rfl rfl rfl rfl
  have hcounted : ∀ other,
      (v.count metric).metrics.tally.get other + T.first.metrics.tally.get other =
      (w.count metric).metrics.tally.get other + T.second.metrics.tally.get other := by
    intro other
    simp only [World.count]
    cases henabled : w.metrics.enabled with
    | false =>
        rw [Metrics.count_disabled _ _ henabled,
          Metrics.count_disabled _ _ (h.enabled.trans henabled), h.tally]
    | true =>
        rw [Metrics.get_count _ _ _ henabled, Metrics.get_count _ _ _ (h.enabled.trans henabled)]
        by_cases heq : other = metric
        · -- both count one more, modulo 2^64
          subst heq
          have hold := h.tally other
          grind
        · rw [if_neg heq, if_neg heq]
          exact h.tally other
  exact {
    agree := hsame.symm.trans (h.agree.trans hsame')
    closed := h.closed.of_agree hsame
    log := h.log
    first := h.first.trans (.count w metric)
    second := h.second.trans (.count v metric)
    enabled := by
      rw [(Region.Confined.count (K := T.region) w metric).enabled,
        (Region.Confined.count (K := T.region) v metric).enabled, h.enabled]
    tally := hcounted }

/-- Both worlds fall back alike, since they have the same options. -/
theorem fallBack (h : T.Abreast w v) {environment : Environment}
    (henvironment : T.region.Holds environment) :
    T.Abreast (w.fallBack environment) (v.fallBack environment) := by
  rw [World.fallBack, World.fallBack, h.agree.options environment henvironment.options]
  split
  · exact (h.report _ _).count _
  · exact h.count _

end Abreast

/-- Two runs stay abreast under all operations on scopes and environments of the region. -/
theorem parallel (T : Twins) : Parallel T.Abreast T.region.Holds T.region.scopes where
  scope? h hid := h.agree.scope? _ hid
  home h hid := h.closed.environments _ _ hid
  stack h henvironment := h.agree.stack _ henvironment.stack
  active h henvironment := h.scopes_of_active henvironment
  registry h henvironment := h.agree.registry _ henvironment.registry
  modifyRegistry f h henvironment := h.modifyRegistry henvironment.registry f
  push h henvironment hid := by
    refine h.modifyStack henvironment.stack fun c hc => hc.push fun other heq => ?_
    cases heq
    exact hid
  dropTop h henvironment := h.modifyStack henvironment.stack fun _ hc => hc.dropTop
  eraseAll id h henvironment := h.modifyStack henvironment.stack fun _ hc => hc.eraseAll .scope id
  addScope h hid hscope := h.addScope hid hscope
  dropScope h hid := h.dropScope hid
  putScope h hid hscope := h.putScope hid hscope
  report h _ := h.report _ _
  count metric h := h.count metric
  fallBack h henvironment := h.fallBack henvironment

end Twins

/-! ## Scopes and labels -/

section Actions

variable {T : Twins}

/-- All that an origin is about is in a region. -/
def Origin.In (K : Region) : Origin → Prop
  | .basename environment _ | .unnamed environment | .path environment _ | .global environment =>
    K.Holds environment
  | .existing source => K.scopes source

/-- A name is taken in the environment that it is given for. -/
theorem Origin.in_ofName? {K : Region} {environment : Environment} (h : K.Holds environment)
    (name : Option Text) : (Origin.ofName? environment name).In K := by
  cases name <;> exact h

/-- A scope that is made from its path is made in the environment that it is made for. -/
theorem Scope.environment_ofPath {environment : Environment} {path : Path} {scope : Scope}
    (h : Scope.ofPath environment path = .ok scope) : scope.environment = environment := by
  rw [Scope.ofPath] at h
  split at h
  · cases h
    rfl
  · cases h

/-- An origin that is about the region describes the same scope in both worlds. -/
theorem Origin.In.alike {origin : Origin} (horigin : origin.In T.region) :
    origin.Alike T.Abreast T.region.Holds := by
  intro w v h
  cases origin with
  | basename environment name =>
      have hoptions := h.agree.options environment horigin.options
      refine ⟨?_, fun scope hscope => ?_⟩
      · rw [Origin.scope, Origin.scope, hoptions]
      · have hnamed : (Origin.ofName? environment (some name)).scope w = .ok scope := hscope
        have heq := Origin.scope_ofName? hnamed
        rw [heq]
        exact horigin
  | unnamed environment =>
      refine ⟨rfl, fun scope hscope => ?_⟩
      cases hscope
      exact horigin
  | path environment segments =>
      refine ⟨rfl, fun scope hscope => ?_⟩
      rw [Scope.environment_ofPath hscope]
      exact horigin
  | global environment =>
      refine ⟨rfl, fun scope hscope => ?_⟩
      cases hscope
      exact horigin
  | existing source =>
      simp only [Origin.scope, h.agree.scope? source horigin, true_and]
      intro scope hscope
      cases hsource : w.scope? source with
      | none => rw [hsource] at hscope; cases hscope
      | some found =>
          simp only [hsource, Scope.alike] at hscope
          cases hpath : found.path with
          | error e => rw [hpath] at hscope; cases hscope
          | ok path =>
              rw [hpath] at hscope
              rw [Scope.environment_ofPath hscope]
              exact h.closed.environments source found horigin hsource

/-- The same number is drawn from a registry of the region. -/
theorem draw_twinned {registry : Text} (hregistry : T.region.registries registry) (name : Text) :
    Twinned T.Abreast (fun _ => True) (Action.draw registry name) := by
  intro w v h
  have hdrawn := h.modifyRegistry hregistry fun c => (c.draw name).2
  have happly : ∀ u : World, Action.draw registry name u =
      .ok ((u.registry registry).draw name).1 (u.drawn registry name) := fun _ => rfl
  rw [happly, happly, h.agree.registry registry hregistry]
  exact .ok trivial hdrawn

namespace ScopeId

variable {id : ScopeId} (hid : T.region.scopes id)
include hid

/-- The segment below a scope of the region is the same on both sides. -/
theorem segment_twinned (name : Option Text) :
    Twinned T.Abreast (fun _ => True) (id.segment name) := by
  cases name with
  | none => exact T.parallel.nextSegment_twinned hid
  | some name =>
      refine (T.parallel.fetch_twinned hid).bind fun scope hscope => .of_get fun w v h => ?_
      rw [h.agree.options _ hscope.options]
      exact (Twinned.bind (.ofExcept fun _ _ => trivial) fun _ _ => .pure trivial) w v h

/-- A label below a scope of the region is the same on both sides. -/
theorem labelFor_twinned (naming : Naming) :
    Twinned T.Abreast (fun _ => True) (id.labelFor naming) := by
  cases naming with
  | ready label => exact .pure trivial
  | fresh name =>
      refine (T.parallel.path_twinned hid).bind fun _ _ => ?_
      refine (segment_twinned hid name).bind fun _ _ => ?_
      exact .bind (.modify fun w v h => h.count _) fun _ _ => .pure trivial

end ScopeId

namespace Twins

/-- The runs began while no label was being made, so the scope of the moment is new to them. -/
structure Fresh (T : Twins) : Prop where
  region : ¬ T.region.scopes .transient
  first : T.first.scope? .transient = none
  second : T.second.scope? .transient = none

/-- The same runs, looked at with the scope of the moment. -/
def withTransient (T : Twins) : Twins :=
  { T with region := T.region.withTransient }

namespace Abreast

variable {w v w' v' : World}

/-- Before a label is made, the scope of the moment may be taken into the region. -/
theorem widen (h : T.Abreast w v) (hfresh : T.Fresh) : T.withTransient.Abreast w v := by
  -- neither run has made the scope of the moment, which is none of the region's
  have hw := (h.first.others.scope? .transient hfresh.region).trans hfresh.first
  have hv := (h.second.others.scope? .transient hfresh.region).trans hfresh.second
  refine ⟨?agree, ?closed, h.log, ?first, ?second, h.enabled, h.tally⟩
  case agree =>
    refine ⟨h.agree.registry, h.agree.stack, h.agree.options, fun id hid => ?_⟩
    rcases hid with hid | rfl
    · exact h.agree.scope? id hid
    · rw [hv, hw]
  case closed =>
    refine ⟨fun id scope hid hscope => ?_, fun name hname key id hmem => ?_⟩
    · rcases hid with hid | rfl
      · exact Region.Holds.withTransient.mpr (h.closed.environments id scope hid hscope)
      · rw [hw] at hscope
        cases hscope
    · exact .inl (h.closed.contexts name hname key id hmem)
  case first => exact h.first.mono (Region.part_withTransient T.region)
  case second => exact h.second.mono (Region.part_withTransient T.region)

/-- After a label was made, the scope of the moment is gone again. -/
theorem narrow (h : T.Abreast w v) (hfresh : T.Fresh) (hwide : T.withTransient.Abreast w' v')
    (hw : w.Restores w') (hv : v.Restores v') : T.Abreast w' v' := by
  -- what was confined to the wider region is confined to the region once the world is restored
  have hconfined : ∀ {began before now : World}, began.scope? .transient = none →
      T.region.Confined began before → before.Restores now →
      T.region.withTransient.Confined began now → T.region.Confined began now := by
    intro began before now hbegan hbefore hrestores hnow
    refine ⟨⟨hnow.others.registry, hnow.others.stack, hnow.others.options, fun id hid => ?_⟩,
      hnow.log, hnow.enabled⟩
    by_cases heq : id = .transient
    · subst heq
      rw [hrestores.none_of_none ((hbefore.others.scope? _ hid).trans hbegan), hbegan]
    · exact hnow.others.scope? id fun hmem => hmem.elim hid heq
  refine ⟨?agree, ?closed, hwide.log, ?first, ?second, hwide.enabled, hwide.tally⟩
  case agree => exact hwide.agree.mono (Region.part_withTransient T.region)
  case closed =>
    refine ⟨fun id scope hid hscope => ?_, fun name hname => ?_⟩
    · exact Region.Holds.withTransient.mp (hwide.closed.environments id scope (.inl hid) hscope)
    · rw [hw.stack]
      exact h.closed.contexts name hname
  case first => exact hconfined hfresh.first h.first hw hwide.first
  case second => exact hconfined hfresh.second h.second hv hwide.second

end Abreast

end Twins

/-- A label in an environment of the region is the same on both sides. The scope of the moment is in
    the region while it is made. -/
theorem Environment.labelFor_twinned (hfresh : T.Fresh) {environment : Environment}
    (henvironment : T.region.Holds environment) (naming : Naming) :
    Twinned T.Abreast (fun _ => True) (environment.labelFor naming) := by
  intro w v h
  have hwide : Twinned T.withTransient.Abreast (fun _ => True) (environment.labelFor naming) := by
    cases naming with
    | ready label => exact .pure trivial
    | fresh name =>
        have hname := Origin.in_ofName? (Region.Holds.withTransient.mpr henvironment) name
        exact T.withTransient.parallel.momentaryLabel_twinned (Or.inr rfl) hname.alike
  refine (hwide w v (h.widen hfresh)).strengthen fun hafter => ?_
  exact h.narrow hfresh hafter (environment.labelFor_restores naming w)
    (environment.labelFor_restores naming v)

/-! ## Stacks -/

variable {α : Type}

theorem readStack_twinned {Q : α → Prop} {name : Text} (hname : T.region.contexts name)
    {read : Contexts → Except Error α} (hread : ∀ c a, T.region.Owns c → read c = .ok a → Q a) :
    Twinned T.Abreast Q (Action.readStack name read) := by
  refine .of_get fun w v h => ?_
  rw [h.agree.stack name hname]
  exact Twinned.ofExcept (fun a ha => hread _ a (h.closed.contexts name hname) ha) w v h

/-- Something is taken alike off a stack of the region, if what is left is the region's own. -/
theorem takeFromStack_twinned {Q : α → Prop} {name : Text} (hname : T.region.contexts name)
    {take : Contexts → Except Error (α × Contexts)}
    (htake : ∀ c a rest, T.region.Owns c → take c = .ok (a, rest) → Q a ∧ T.region.Owns rest) :
    Twinned T.Abreast Q (Action.takeFromStack name take) := by
  have hread : Twinned T.Abreast (fun taken => Q taken.1 ∧ T.region.Owns taken.2)
      (Action.readStack name take) :=
    readStack_twinned hname fun c (a, rest) => htake c a rest
  refine hread.bind fun (a, rest) htaken => ?_
  refine .bind (.modify fun w v h => ?_) fun _ _ => .pure htaken.1
  exact h.modifyStack hname fun _ _ => htaken.2

namespace Lease

variable {lease : Lease} (hlease : T.region.contexts lease.stack)
include hlease

/-- A lease on a stack of the region starts alike. -/
theorem start_twinned {value : Value} (hvalue : ∀ id, value = .scope id → T.region.scopes id) :
    Twinned T.Abreast (fun _ => True) (lease.start value) := by
  refine .modify ?_
  intro w v h
  exact h.modifyStack hlease fun c hc => hc.push hvalue

/-- A lease on a stack of the region ends alike, with the same report or none. -/
theorem finish_twinned : Twinned T.Abreast (fun _ => True) lease.finish := by
  refine .of_get fun w v h => ?_
  rw [h.agree.stack _ hlease]
  split
  · exact .ok trivial (h.report _ _)
  · exact .ok trivial (h.modifyStack hlease fun c hc => hc.dropTop)

end Lease

end Actions

/-! ## Runners -/

/-- A runner works in the region. -/
structure Twins.Serves (T : Twins) (r : Script.Runner) : Prop where
  environment : T.region.Holds r.environment
  opened : ∀ depth, T.region.scopes (.opened r.name depth)

namespace Script

/-- Two runs of a runner: their worlds are abreast, runner and output are the same, and it is still
    that runner. -/
structure Running (T : Twins) (r : Runner) (s t : RunState) : Prop where
  worlds : T.Abreast s.world t.world
  runner : t.runner = s.runner
  printed : t.printed = s.printed
  name : s.runner.name = r.name
  environment : s.runner.environment = r.environment

namespace Run

variable {T : Twins} {r : Runner} (hr : T.Serves r)
include hr

/-- The runs of a runner that works in the region go with their worlds. -/
theorem coupled : Coupled (Running T r) T.Abreast T.region.Holds T.region.scopes where
  parallel := T.parallel
  worlds h := h.worlds
  name h := congrArg Runner.name h.runner
  environment h := congrArg Runner.environment h.runner
  depth h := congrArg Runner.depth h.runner
  home h := h.environment ▸ hr.environment
  opened h := h.name ▸ hr.opened
  act h hworlds := ⟨hworlds, h.runner, h.printed, h.name, h.environment⟩
  print line h := ⟨h.worlds, h.runner, congrArg (line :: ·) h.printed, h.name, h.environment⟩
  goTo line h :=
    ⟨h.worlds, congrArg (fun r => { r with line }) h.runner, h.printed, h.name, h.environment⟩
  setDepth depth h :=
    ⟨h.worlds, congrArg (fun r => { r with depth }) h.runner, h.printed, h.name, h.environment⟩

theorem unwind_twinned : Twinned (Running T r) (fun _ => True) unwind :=
  (coupled hr).unwind_twinned

theorem runText_twinned (hfresh : T.Fresh) (text : Text) :
    Twinned (Running T r) (fun _ => True) (runText text) := by
  refine (coupled hr).runText_twinned (fun command => ⟨?_, ?_⟩) text
  · intro environment name henvironment _
    exact (Origin.in_ofName? henvironment name).alike
  · exact fun environment name henvironment _ =>
      environment.labelFor_twinned hfresh henvironment (.fresh name)

end Run

end Script

end ScopedLabels
