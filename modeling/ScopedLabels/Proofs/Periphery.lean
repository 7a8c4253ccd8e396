import ScopedLabels.Proofs.Parallel
import ScopedLabels.Proofs.Reports
import ScopedLabels.Proofs.Visits

/-!
# Periphery — what stands beside the labels

Labels are made of counters, stacks and scopes. Options, log and metrics stand beside them: they are
the `Periphery` of a world. Operations on scopes write to the log and count events, and read no more
of the options than whether to report a fall back to global numbering, and whether to accept a name.

So two worlds may differ in their peripheries by any relation that reporting, counting and falling
back keep (`Periphery.Kept`). Everything else in them stays the same, as long as they accept the
same names, and so does what a script prints, and how it ends.
-/

namespace ScopedLabels

/-- Options, log and metrics, as an environment sees them. -/
structure Periphery where
  options : Options
  log : Log
  metrics : Metrics

/-- What stands beside the labels of an environment. -/
def World.periphery (w : World) (environment : Environment) : Periphery :=
  ⟨w.optionsOf environment, w.log, w.metrics⟩

namespace Periphery

/-- A record is written. -/
def report (p : Periphery) (level : Level) (notice : Notice) : Periphery :=
  { p with log := p.log.write level notice }

/-- An event is counted. -/
def count (p : Periphery) (metric : Metric) : Periphery :=
  { p with metrics := p.metrics.count metric }

/-- Numbering falls back. -/
def fallBack (p : Periphery) : Periphery :=
  (if p.options.warnOnGlobalFallback then p.report .warning .globalFallback else p).count
    .globalFallbacks

/-- The log is begun anew. -/
def drained (p : Periphery) : Periphery :=
  { p with log := p.log.drained }

/-- A relation that is kept by all that operations on scopes do to a periphery, and by a new log. -/
structure Kept (D : Periphery → Periphery → Prop) : Prop where
  report {p q : Periphery} {level : Level} {notice : Notice} : D p q → notice ≠ .globalFallback →
    D (p.report level notice) (q.report level notice)
  count {p q : Periphery} (metric : Metric) : D p q → D (p.count metric) (q.count metric)
  fallBack {p q : Periphery} : D p q → D p.fallBack q.fallBack
  drained {p q : Periphery} : D p q → D p.drained q.drained

/-- A name, if there is one, is checked alike on both sides. -/
def Accepts (D : Periphery → Periphery → Prop) (name : Option Text) : Prop :=
  ∀ p q, D p q → ∀ n ∈ name, requireName q.options n = requireName p.options n

end Periphery

/-- A fallback does to the periphery of its environment what it does to the world. -/
theorem World.periphery_fallBack (w : World) (environment : Environment) :
    (w.fallBack environment).periphery environment = (w.periphery environment).fallBack := by
  rw [World.fallBack, Periphery.fallBack]
  show World.periphery (World.count (if (w.optionsOf environment).2 then _ else w) _) _ =
    Periphery.count (if (w.optionsOf environment).2 then _ else _) _
  split <;> rfl

/-- Two worlds are the same but for their peripheries, which are related by `D`. All scopes belong
    to one environment. -/
structure World.Beside (environment : Environment) (D : Periphery → Periphery → Prop)
    (w v : World) : Prop where
  registries : v.registries = w.registries
  contexts : v.contexts = w.contexts
  scopes : v.scopes = w.scopes
  home : ∀ id scope, w.scope? id = some scope → scope.environment = environment
  periphery : D (w.periphery environment) (v.periphery environment)

namespace World.Beside

variable {environment : Environment} {D : Periphery → Periphery → Prop} {w v : World}

/-- The registries are the same on both sides, so changing one keeps them so. -/
theorem modifyRegistry (h : Beside environment D w v) (name : Text) (f : Counters → Counters) :
    Beside environment D (w.modifyRegistry name f) (v.modifyRegistry name f) := by
  refine { h with registries := ?_ }
  rw [World.modifyRegistry, World.modifyRegistry, registry, registry, h.registries]

theorem modifyStack (h : Beside environment D w v) (name : Text) (f : Contexts → Contexts) :
    Beside environment D (w.modifyStack name f) (v.modifyStack name f) := by
  refine { h with contexts := ?_ }
  rw [World.modifyStack, World.modifyStack, stack, stack, h.contexts]

/-- The scopes are changed, and all of them still belong to the environment. -/
theorem changeScopes (h : Beside environment D w v)
    (f : Roster ScopeId Scope → Roster ScopeId Scope)
    (hhome : ∀ id scope, (f w.scopes).get? id = some scope → scope.environment = environment) :
    Beside environment D { w with scopes := f w.scopes } { v with scopes := f v.scopes } :=
  { h with scopes := congrArg f h.scopes, home := hhome }

/-- Nothing that scopes do depends on the periphery, and what they do to it, its relation keeps. -/
theorem parallel (environment : Environment) (hD : Periphery.Kept D) :
    Parallel (Beside environment D) (· = environment) fun _ => True where
  scope? h _ := by rw [scope?, h.scopes, scope?]
  home h _ hscope := h.home _ _ hscope
  stack h _ := by rw [stack, h.contexts, stack]
  active _ _ _ := trivial
  registry h _ := by rw [registry, h.registries, registry]
  modifyRegistry f h _ := h.modifyRegistry _ f
  push h _ _ := h.modifyStack _ _
  dropTop h _ := h.modifyStack _ _
  eraseAll _ h _ := h.modifyStack _ _
  addScope {w v id scope} h _ hscope := by
    refine h.changeScopes (·.insert id scope) fun other found hfound => ?_
    have hfound : (w.addScope id scope).scope? other = some found := hfound
    rw [scope?_addScope] at hfound
    split at hfound
    · cases hfound
      exact hscope
    · exact h.home other found hfound
  dropScope {w v id} h _ := by
    refine h.changeScopes (·.erase id) fun other found hfound => ?_
    have hfound : (w.dropScope id).scope? other = some found := hfound
    rw [scope?_dropScope] at hfound
    split at hfound
    · cases hfound
    · exact h.home other found hfound
  putScope {w v id scope} h _ hscope := by
    refine h.changeScopes (·.modify id fun _ => scope) fun other found hfound => ?_
    have hfound : (w.putScope id scope).scope? other = some found := hfound
    rw [scope?_putScope] at hfound
    split at hfound
    · obtain ⟨-, -, rfl⟩ := Option.map_eq_some_iff.mp hfound
      exact hscope
    · exact h.home other found hfound
  report h hnotice := { h with periphery := hD.report h.periphery hnotice }
  count metric h := { h with periphery := hD.count metric h.periphery }
  fallBack {w v other} h hother := by
    subst hother
    -- the fallback is the one operation that reads the options
    have hw := w.fallBack_sameScopes other
    have hv := v.fallBack_sameScopes other
    refine ⟨?_, ?_, ?_, fun id scope hscope => ?_, ?_⟩
    · have hregistries : ∀ u : World, (u.fallBack other).registries = u.registries := by
        intro u
        rw [World.fallBack]
        split <;> rfl
      rw [hregistries, hregistries, h.registries]
    · rw [hv.contexts, hw.contexts, h.contexts]
    · rw [hv.scopes, hw.scopes, h.scopes]
    · rw [hw.scope?_eq] at hscope
      exact h.home id scope hscope
    · rw [periphery_fallBack, periphery_fallBack]
      exact hD.fallBack h.periphery

/-- The scope of an accepted name is made alike. -/
theorem alike {name : Option Text} (hname : Periphery.Accepts D name) :
    (Origin.ofName? environment name).Alike (Beside environment D) (· = environment) := by
  intro w v h
  refine ⟨?_, fun scope hscope => ?_⟩
  · cases name with
    | none => rfl
    | some name =>
        show Scope.named (v.optionsOf environment) environment name =
          Scope.named (w.optionsOf environment) environment name
        have hchecked : requireName (v.optionsOf environment) name =
            requireName (w.optionsOf environment) name := hname _ _ h.periphery name rfl
        rw [Scope.named, hchecked, Scope.named]
  · rw [Origin.scope_ofName? hscope]

end World.Beside

/-! ## Runs -/

namespace Script

/-- The name that a command brings to a scope or a label. -/
def Command.name? (command : Command) : Option Text :=
  match command.verb with
  | .scope name | .label name => name
  | _ => none

/-- Two runs of one runner, in worlds that are the same but for their peripheries. -/
structure RunState.Beside (environment : Environment) (D : Periphery → Periphery → Prop)
    (s t : RunState) : Prop where
  worlds : World.Beside environment D s.world t.world
  runner : t.runner = s.runner
  printed : t.printed = s.printed
  environment : s.runner.environment = environment

namespace RunState.Beside

variable {environment : Environment} {D : Periphery → Periphery → Prop} (hD : Periphery.Kept D)
include hD

/-- Two runs beside one another have the same runner, and print the same. -/
theorem coupled (environment : Environment) :
    Coupled (Beside environment D) (World.Beside environment D) (· = environment)
      fun _ => True where
  parallel := World.Beside.parallel environment hD
  worlds h := h.worlds
  name h := congrArg Runner.name h.runner
  environment h := congrArg Runner.environment h.runner
  depth h := congrArg Runner.depth h.runner
  home h := h.environment
  opened _ _ := trivial
  act h hworlds := { h with worlds := hworlds }
  print line h := { h with printed := congrArg (line :: ·) h.printed }
  goTo line h := { h with runner := congrArg (fun r => { r with line }) h.runner }
  setDepth depth h := { h with runner := congrArg (fun r => { r with depth }) h.runner }

theorem command_alike {command : Command} (hname : Periphery.Accepts D command.name?) :
    command.Alike (World.Beside environment D) (· = environment) where
  scope _ name hheld hverb := by
    subst hheld
    rw [Command.name?, hverb] at hname
    exact World.Beside.alike hname
  label _ name hheld hverb := by
    subst hheld
    rw [Command.name?, hverb] at hname
    exact (World.Beside.parallel _ hD).momentaryLabel_twinned trivial (World.Beside.alike hname)

end RunState.Beside

/-! ## Scripts -/

/-- Two outcomes of one script, in worlds that are the same but for their peripheries. -/
structure Outcome.Beside (D : Periphery → Periphery → Prop) (ran ran' : Outcome) : Prop where
  error : ran'.error? = ran.error?
  state : RunState.Beside scriptEnvironment D ran.state ran'.state

namespace Outcome.Beside

variable {D : Periphery → Periphery → Prop} {ran ran' : Outcome}

theorem printed (h : ran.Beside D ran') (name : Text) :
    (ran'.progress name).printed = (ran.progress name).printed := by
  rw [progress, progress, RunState.output, RunState.output, h.state.printed]

theorem failed (h : ran.Beside D ran') (name : Text) :
    (ran'.progress name).failed = (ran.progress name).failed :=
  congrArg Option.isSome h.error

/-- Both runs complain alike about the script. -/
theorem complaints (h : ran.Beside D ran') (name : Text) :
    ran'.complaints name = ran.complaints name := by
  rw [Outcome.complaints, Outcome.complaints, h.error, h.state.runner]

/-- With the same log, two runs come to the same but for the metrics. -/
theorem progress_of_log (h : ran.Beside D ran')
    (hlog : ran'.state.world.log = ran.state.world.log) (hrest : ran'.closed.log = ran.closed.log)
    (name : Text) :
    ran'.progress name = { ran.progress name with metrics := ran'.closed.metrics } := by
  rw [progress, progress, hlog, hrest, h.complaints, h.error, RunState.output, RunState.output,
    h.state.printed]

/-- What is left open is closed alike. -/
theorem closed (hD : Periphery.Kept D) (h : ran.Beside D ran') :
    World.Beside scriptEnvironment D ran.closed ran'.closed := by
  let left : World := { ran.state.world with log := ran.state.world.log.drained }
  let left' : World := { ran'.state.world with log := ran'.state.world.log.drained }
  have hstart : RunState.Beside scriptEnvironment D { world := left, runner := ran.state.runner }
      { world := left', runner := ran'.state.runner } :=
    ⟨{ h.state.worlds with periphery := hD.drained h.state.worlds.periphery }, h.state.runner, rfl,
      h.state.environment⟩
  exact (Run.outcome_of_twinned
    (RunState.Beside.coupled hD scriptEnvironment).unwind_twinned hstart).2.worlds

end Outcome.Beside

end Script

open Script CommandLine

/-- What stands beside the labels when a script starts. -/
def Periphery.start (settings : Settings) (metrics : Metrics) : Periphery :=
  ⟨settings.labelOptions, { threshold := settings.logLevel }, metrics⟩

section Scripts

variable {D : Periphery → Periphery → Prop} {settings settings' : Settings}
  {metrics metrics' : Metrics} (hstart : D (.start settings metrics) (.start settings' metrics'))
include hstart

/-- A script starts alike at any settings, but for what stands beside the labels. -/
theorem startWorld_beside :
    RunState.Beside scriptEnvironment D
      { world := startWorld settings metrics, runner := scriptRunner }
      { world := startWorld settings' metrics', runner := scriptRunner } := by
  have hoptions : ∀ (settings : Settings) (metrics : Metrics),
      (startWorld settings metrics).optionsOf scriptEnvironment = settings.labelOptions :=
    fun _ _ => Std.ExtTreeMap.getD_insert_self
  refine ⟨⟨rfl, rfl, rfl, nofun, ?_⟩, rfl, rfl, rfl⟩
  rw [World.periphery, World.periphery, hoptions, hoptions]
  exact hstart

/-- A script runs alike at any settings that accept the same names. -/
theorem run_beside (hD : Periphery.Kept D) (hnames : ∀ name, Periphery.Accepts D name)
    (text : Text) :
    (scriptRunner.run text (startWorld settings metrics)).Beside D
      (scriptRunner.run text (startWorld settings' metrics')) := by
  obtain ⟨herror, hstate⟩ := Run.outcome_of_twinned
    ((RunState.Beside.coupled hD scriptEnvironment).runText_twinned
      (fun _ => RunState.Beside.command_alike hD (hnames _)) text) (startWorld_beside hstart)
  exact ⟨herror, hstate⟩

end Scripts

end ScopedLabels
