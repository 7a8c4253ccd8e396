import ScopedLabels.Label.Making
import ScopedLabels.Proofs.Attempts
import ScopedLabels.Proofs.Keeping

/-!
# Parallel runs — one computation from two states

`Twinned R Q x` says of a computation that, run from two states that are related by `R`, it ends
alike: with the same value or the same error, and in states that are related again. Values satisfy
`Q`. This passes through the operations of the monad, so it has to be shown of the single operations
only.

A relation of worlds is `Parallel` if it is kept by the single changes that operations on scopes are
made of, and a relation of run states is `Coupled` to it if it is also kept by what a runner does
besides. This is all that is needed for whole runs to end alike: two worlds may differ in any way
that no operation on scopes looks at.
-/

namespace ScopedLabels

/-! ## Running from two states -/

section Computations

variable {ε σ α β : Type}

/-- Two results are of one kind, with the same value or the same error. The value satisfies `Q`, and
    the states are related by `R`. -/
inductive Matched (R : σ → σ → Prop) (Q : α → Prop) :
    EStateM.Result ε σ α → EStateM.Result ε σ α → Prop
  | ok {a : α} {s t : σ} (hvalue : Q a) (hstates : R s t) : Matched R Q (.ok a s) (.ok a t)
  | error {e : ε} {s t : σ} (hstates : R s t) : Matched R Q (.error e s) (.error e t)

/-- From related states, a computation ends in matching results. -/
def Twinned (R : σ → σ → Prop) (Q : α → Prop) (x : EStateM ε σ α) : Prop :=
  ∀ s t, R s t → Matched R Q (x s) (x t)

/-- What is known of the states in which two computations end may be used to relate them better. -/
theorem Matched.strengthen {R R' : σ → σ → Prop} {Q : α → Prop} {x y : EStateM ε σ α} {s t : σ}
    (h : Matched R Q (x s) (y t)) (himp : R (after x s) (after y t) → R' (after x s) (after y t)) :
    Matched R' Q (x s) (y t) := by
  rw [after, after] at himp
  generalize x s = first at h himp
  generalize y t = second at h himp
  cases h with
  | ok hvalue hstates => exact .ok hvalue (himp hstates)
  | error hstates => exact .error (himp hstates)

namespace Twinned

variable {R : σ → σ → Prop} {Q : α → Prop} {P : β → Prop}

theorem pure {a : α} (ha : Q a) : Twinned R Q (pure a : EStateM ε σ α) :=
  fun _ _ h => .ok ha h

theorem throw (e : ε) : Twinned R Q (throw e : EStateM ε σ α) :=
  fun _ _ h => .error h

theorem modify {f : σ → σ} (hf : ∀ s t, R s t → R (f s) (f t)) :
    Twinned R (fun _ => True) (modify f : EStateM ε σ PUnit) :=
  fun s t h => .ok trivial (hf s t h)

theorem ofExcept {x : Except ε α} (hx : ∀ a, x = .ok a → Q a) :
    Twinned R Q (ofExcept x : EStateM ε σ α) := by
  cases x with
  | ok a => exact pure (hx a rfl)
  | error e => exact throw e

/-- A computation ends alike if its first part does, and what goes on from there does for every
    value. -/
theorem bind {x : EStateM ε σ β} {f : β → EStateM ε σ α} (hx : Twinned R P x)
    (hf : ∀ b, P b → Twinned R Q (f b)) : Twinned R Q (x >>= f) := by
  intro s t h
  have hfirst := hx s t h
  rw [bind_apply, bind_apply]
  generalize x s = first at hfirst
  generalize x t = second at hfirst
  cases hfirst with
  | ok hvalue hstates => exact hf _ hvalue _ _ hstates
  | error hstates => exact .error hstates

/-- A computation that looks at its state is judged by what it goes on with in either state. -/
theorem of_get {f : σ → EStateM ε σ α} (hf : ∀ s t, R s t → Matched R Q (f s s) (f t t)) :
    Twinned R Q (get >>= f) :=
  hf

/-- What is known of the value may be weakened. -/
theorem imp {Q' : α → Prop} {x : EStateM ε σ α} (h : Twinned R Q x) (himp : ∀ a, Q a → Q' a) :
    Twinned R Q' x := by
  intro s t hst
  have hmatched := h s t hst
  generalize x s = first at hmatched
  generalize x t = second at hmatched
  cases hmatched with
  | ok hvalue hstates => exact .ok (himp _ hvalue) hstates
  | error hstates => exact .error hstates

end Twinned

/-- Cleaning up after the body matches if both do. -/
theorem Twinned.ensuring {R : World → World → Prop} {Q : α → Prop} {P : Unit → Prop}
    {body : Action α} {cleanup : Action Unit} (hbody : Twinned R Q body)
    (hcleanup : Twinned R P cleanup) : Twinned R Q (body.ensuring cleanup) := by
  intro w v h
  have hfirst := hbody w v h
  simp only [Action.ensuring]
  generalize body w = first at hfirst
  generalize body v = second at hfirst
  -- after the cleanup the value is handed on, or the failure is
  cases hfirst with
  | ok hvalue hstates => exact (hcleanup.bind fun _ _ => .pure hvalue) _ _ hstates
  | error hstates => exact (hcleanup.bind fun _ _ => .throw _) _ _ hstates

/-- So does cleaning up after a body that failed. -/
theorem Twinned.onFailure {R : World → World → Prop} {Q : α → Prop} {P : Unit → Prop}
    {body : Action α} {cleanup : Action Unit} (hbody : Twinned R Q body)
    (hcleanup : Twinned R P cleanup) : Twinned R Q (body.onFailure cleanup) := by
  intro w v h
  have hfirst := hbody w v h
  simp only [Action.onFailure]
  generalize body w = first at hfirst
  generalize body v = second at hfirst
  cases hfirst with
  | ok hvalue hstates => exact .ok hvalue hstates
  | error hstates => exact (hcleanup.bind fun _ _ => .throw _) _ _ hstates

end Computations

/-! ## Relations that operations on scopes keep -/

/-- A relation of two worlds that is kept by every change which operations on scopes make. The
    operations are those on some of the scopes, in some of the environments. Of these the worlds
    hold the same. -/
structure Parallel (R : World → World → Prop) (environments : Environment → Prop)
    (scopes : ScopeId → Prop) : Prop where
  scope? {w v : World} {id : ScopeId} : R w v → scopes id → v.scope? id = w.scope? id
  /-- A scope belongs to one of the environments. -/
  home {w v : World} {id : ScopeId} {scope : Scope} : R w v → scopes id →
    w.scope? id = some scope → environments scope.environment
  stack {w v : World} {environment : Environment} : R w v → environments environment →
    v.stack environment.contexts = w.stack environment.contexts
  /-- An active scope is one of the scopes. -/
  active {w v : World} {environment : Environment} {id : ScopeId} : R w v →
    environments environment → .scope id ∈ w.activeValues environment → scopes id
  registry {w v : World} {environment : Environment} : R w v → environments environment →
    v.registry environment.counters = w.registry environment.counters
  modifyRegistry {w v : World} {environment : Environment} (f : Counters → Counters) : R w v →
    environments environment →
    R (w.modifyRegistry environment.counters f) (v.modifyRegistry environment.counters f)
  push {w v : World} {environment : Environment} {id : ScopeId} : R w v →
    environments environment → scopes id →
    R (w.modifyStack environment.contexts (·.push Scope.contextKey (.scope id)))
      (v.modifyStack environment.contexts (·.push Scope.contextKey (.scope id)))
  dropTop {w v : World} {environment : Environment} : R w v → environments environment →
    R (w.modifyStack environment.contexts (·.dropTop Scope.contextKey))
      (v.modifyStack environment.contexts (·.dropTop Scope.contextKey))
  eraseAll {w v : World} {environment : Environment} (id : ScopeId) : R w v →
    environments environment →
    R (w.modifyStack environment.contexts fun c => (c.eraseAll .scope Scope.contextKey id).2)
      (v.modifyStack environment.contexts fun c => (c.eraseAll .scope Scope.contextKey id).2)
  addScope {w v : World} {id : ScopeId} {scope : Scope} : R w v → scopes id →
    environments scope.environment → R (w.addScope id scope) (v.addScope id scope)
  dropScope {w v : World} {id : ScopeId} : R w v → scopes id → R (w.dropScope id) (v.dropScope id)
  putScope {w v : World} {id : ScopeId} {scope : Scope} : R w v → scopes id →
    environments scope.environment → R (w.putScope id scope) (v.putScope id scope)
  /-- That numbering falls back is not reported alike if only one side wants it reported. -/
  report {w v : World} {level : Level} {notice : Notice} : R w v → notice ≠ .globalFallback →
    R (w.report level notice) (v.report level notice)
  count {w v : World} (metric : Metric) : R w v → R (w.count metric) (v.count metric)
  fallBack {w v : World} {environment : Environment} : R w v → environments environment →
    R (w.fallBack environment) (v.fallBack environment)

/-- In both worlds an origin describes the same scope, and one of the environments. -/
def Origin.Alike (R : World → World → Prop) (environments : Environment → Prop) (origin : Origin) :
    Prop :=
  ∀ w v, R w v → origin.scope v = origin.scope w ∧
    ∀ scope, origin.scope w = .ok scope → environments scope.environment

namespace Parallel

variable {R : World → World → Prop} {environments : Environment → Prop} {scopes : ScopeId → Prop}
  {w v : World} (hR : Parallel R environments scopes)
include hR

theorem activeValues (h : R w v) {environment : Environment}
    (henvironment : environments environment) :
    v.activeValues environment = w.activeValues environment := by
  rw [World.activeValues, hR.stack h henvironment, World.activeValues]

/-- A scope is activated alike. -/
theorem activate (h : R w v) {id : ScopeId} (hid : scopes id) {scope : Scope}
    (hscope : environments scope.environment) (parents : Path) (basename : Text) :
    R (w.activate id scope parents basename) (v.activate id scope parents basename) := by
  -- the scope is settled, then pushed, its counter is zeroed, and the entry is counted and reported
  let settled := World.settled scope parents basename
  have hsettled : R (w.putScope id settled) (v.putScope id settled) := hR.putScope h hid hscope
  have hpushed := hR.push hsettled hscope hid
  have hzeroed := hR.modifyRegistry (·.zero (Path.text (parents ++ [basename]))) hpushed hscope
  exact hR.report (hR.count .scopesEntered hzeroed) (by simp)

theorem deactivate (h : R w v) {id : ScopeId} (hid : scopes id) {scope : Scope}
    (hscope : environments scope.environment) :
    R (w.deactivate id scope) (v.deactivate id scope) := by
  let left : Scope := { scope with entries := scope.entries - 1 }
  have hleft : R (w.putScope id left) (v.putScope id left) := hR.putScope h hid hscope
  have hdropped := hR.dropTop hleft hscope
  exact hR.report (hR.count .scopesExited hdropped) (by simp)

/-- A scope is evicted alike: as many entries are taken off, and as much is reported. -/
theorem evict (h : R w v) (id : ScopeId) {scope : Scope} (hscope : environments scope.environment) :
    R (w.evict id scope) (v.evict id scope) := by
  have herased := hR.eraseAll id h hscope
  simp only [World.evict, hR.stack h hscope]
  split
  · exact herased
  · exact hR.report herased (by simp)

/-! ### Reading and drawing -/

section Environments

variable {environment : Environment} (henvironment : environments environment)
include henvironment

theorem draw_twinned (name : Text) : Twinned R (fun _ => True) (environment.draw name) := by
  intro w v h
  have hdrawn := hR.modifyRegistry (fun c => (c.draw name).2) h henvironment
  have happly : ∀ u : World, environment.draw name u =
      .ok ((u.registry environment.counters).draw name).1 (u.drawn environment.counters name) :=
    fun _ => rfl
  rw [happly, happly, hR.registry h henvironment]
  exact .ok trivial hdrawn

/-- The innermost active scope is the same on both sides. -/
theorem current_twinned : Twinned R (fun id? => ∀ id ∈ id?, scopes id) environment.current := by
  intro w v h
  rw [Environment.current_apply, Environment.current_apply, World.current_eq, World.current_eq,
    hR.activeValues h henvironment]
  cases hvalues : w.activeValues environment with
  | nil => exact .ok nofun h
  | cons value rest =>
      cases value with
      | scope id =>
          refine .ok ?_ h
          intro other hother
          cases hother
          exact hR.active h henvironment (hvalues ▸ List.mem_cons_self)
      | int n => exact .error h
      | bool b => exact .error h
      | text t => exact .error h
      | empty => exact .error h

end Environments

section Scopes

variable {id : ScopeId} (hid : scopes id)
include hid

theorem fetch_twinned : Twinned R (fun scope => environments scope.environment) id.fetch := by
  intro w v h
  rw [ScopeId.fetch_apply, ScopeId.fetch_apply, hR.scope? h hid]
  cases hscope : w.scope? id with
  | none => exact .error h
  | some scope => exact .ok (hR.home h hid hscope) h

theorem path_twinned : Twinned R (fun _ => True) id.path := by
  refine (hR.fetch_twinned hid).bind ?_
  intro scope _
  exact .ofExcept fun _ _ => trivial

theorem nextNumber_twinned : Twinned R (fun _ => True) id.nextNumber := by
  refine (hR.fetch_twinned hid).bind fun scope hscope => ?_
  exact .bind (.ofExcept fun _ _ => trivial) fun name _ => hR.draw_twinned hscope name

theorem nextSegment_twinned : Twinned R (fun _ => True) id.nextSegment :=
  (hR.nextNumber_twinned hid).bind fun _ _ => .pure trivial

end Scopes

/-- It is decided alike where a scope will stand. -/
theorem settle_twinned {scope : Scope} (hscope : environments scope.environment) :
    Twinned R (fun _ => True) scope.settle := by
  rw [Scope.settle]
  cases scope.place with
  | resolved parents basename => exact .pure trivial
  | unresolved name? =>
      refine (hR.current_twinned hscope).bind fun parent? hparent => ?_
      cases parent? with
      | some parent =>
          have hpath := hR.path_twinned (hparent parent rfl)
          cases name? with
          | some name => exact hpath.bind fun _ _ => .pure trivial
          | none =>
              refine hpath.bind fun parents _ => ?_
              exact (hR.nextSegment_twinned (hparent parent rfl)).bind fun _ _ => .pure trivial
      | none =>
          cases name? with
          | some name => exact .pure trivial
          | none =>
              refine .bind (.modify fun w v h => hR.fallBack h hscope) fun _ _ => ?_
              exact (hR.draw_twinned hscope _).bind fun _ _ => .pure trivial

/-! ### The life of a scope -/

section Scopes

variable {id : ScopeId} (hid : scopes id)
include hid

/-- A scope is made alike if its origin describes the same in both worlds. -/
theorem create_twinned {origin : Origin} (horigin : origin.Alike R environments) :
    Twinned R (fun _ => True) (id.create origin) := by
  intro w v h
  obtain ⟨hsame, hholds⟩ := horigin w v h
  have hused : v.scopes.contains id = w.scopes.contains id :=
    congrArg Option.isSome (hR.scope? h hid)
  rw [ScopeId.create_apply, ScopeId.create_apply, hsame, hused]
  cases hscope : origin.scope w with
  | error e => exact .error h
  | ok scope =>
      simp only
      split
      · exact .error h
      · exact .ok trivial (hR.addScope h hid (hholds scope hscope))

theorem enter_twinned : Twinned R (fun _ => True) id.enter := by
  refine (hR.fetch_twinned hid).bind fun scope hscope => ?_
  refine (hR.settle_twinned hscope).bind fun (parents, basename) _ => ?_
  exact .modify fun w v h => hR.activate h hid hscope parents basename

theorem leave_twinned {scope : Scope} (hscope : environments scope.environment) :
    Twinned R (fun _ => True) (id.leave scope) := by
  rw [ScopeId.leave]
  split
  · exact .throw _
  · exact .modify fun w v h => hR.deactivate h hid hscope

/-- A scope is left alike, or refused with the same message. -/
theorem exit_twinned : Twinned R (fun _ => True) id.exit := by
  refine (hR.fetch_twinned hid).bind fun scope hscope => .of_get fun w v h => ?_
  rw [hR.stack h hscope]
  have htop : ∀ top, (w.stack scope.environment.contexts).topAs .scope Scope.contextKey = .ok top →
      scopes top := by
    intro top htop
    exact hR.active h hscope (Contexts.mem_of_topAs htop)
  refine (Twinned.bind (.ofExcept htop) fun top htop => ?_) w v h
  split
  · exact hR.leave_twinned hid hscope
  · -- it is refused, but the scope in the way is looked up for the message
    exact (hR.fetch_twinned htop).bind fun _ _ => .throw _

/-- A scope is released alike, or the same is reported. -/
theorem release_twinned : Twinned R (fun _ => True) id.release := by
  refine (hR.fetch_twinned hid).bind fun scope hscope => .of_get fun w v h => ?_
  rw [hR.activeValues h hscope]
  cases w.activeValues scope.environment with
  | nil => exact .ok trivial (hR.report h nofun)
  | cons top rest =>
      simp only
      split
      · exact hR.leave_twinned hid hscope w v h
      · exact .ok trivial (hR.report h nofun)

theorem guarded_twinned {α : Type} {Q : α → Prop} {body : Action α} (hbody : Twinned R Q body) :
    Twinned R Q (id.guarded body) := by
  refine (hR.enter_twinned hid).bind ?_
  intro u _
  exact hbody.ensuring (hR.release_twinned hid)

theorem destroy_twinned : Twinned R (fun _ => True) id.destroy := by
  refine (hR.fetch_twinned hid).bind fun scope hscope => .modify fun w v h => ?_
  refine hR.dropScope ?_ hid
  split
  · exact h
  · exact hR.evict h id hscope

end Scopes

/-- A label is made alike, with a scope for the moment. -/
theorem momentaryLabel_twinned {environment : Environment} {name : Option Text}
    (htransient : scopes .transient)
    (hname : (Origin.ofName? environment name).Alike R environments) :
    Twinned R (fun _ => True) (environment.momentaryLabel name) := by
  refine (hR.create_twinned htransient hname).bind fun _ _ => ?_
  refine (hR.guarded_twinned htransient ?_).ensuring (hR.destroy_twinned htransient)
  refine .bind (.modify fun w v h => hR.count _ h) fun _ _ => ?_
  exact (hR.path_twinned htransient).bind fun _ _ => .pure trivial

end Parallel

/-! ## Runs -/

namespace Script

/-- A relation of two runs that goes with one of their worlds. The runners stand alike, and work
    with what the relation of the worlds is about. -/
structure Coupled (S : RunState → RunState → Prop) (R : World → World → Prop)
    (environments : Environment → Prop) (scopes : ScopeId → Prop) : Prop where
  parallel : Parallel R environments scopes
  worlds {s t : RunState} : S s t → R s.world t.world
  name {s t : RunState} : S s t → t.runner.name = s.runner.name
  environment {s t : RunState} : S s t → t.runner.environment = s.runner.environment
  depth {s t : RunState} : S s t → t.runner.depth = s.runner.depth
  home {s t : RunState} : S s t → environments s.runner.environment
  opened {s t : RunState} : S s t → ∀ depth, scopes (.opened s.runner.name depth)
  act {s t : RunState} {w v : World} : S s t → R w v →
    S { s with world := w } { t with world := v }
  print {s t : RunState} (line : Text) : S s t →
    S { s with printed := line :: s.printed } { t with printed := line :: t.printed }
  goTo {s t : RunState} (line : Nat) : S s t → S (s.goTo line) (t.goTo line)
  setDepth {s t : RunState} (depth : Nat) : S s t →
    S { s with runner := { s.runner with depth } } { t with runner := { t.runner with depth } }

/-- The name that a command brings is taken alike by both runs. -/
structure Command.Alike (R : World → World → Prop) (environments : Environment → Prop)
    (command : Command) : Prop where
  scope : ∀ environment name, environments environment → command.verb = .scope name →
    (Origin.ofName? environment name).Alike R environments
  label : ∀ environment name, environments environment → command.verb = .label name →
    Twinned R (fun _ => True) (environment.momentaryLabel name)

namespace Coupled

open Run

variable {S : RunState → RunState → Prop} {R : World → World → Prop}
  {environments : Environment → Prop} {scopes : ScopeId → Prop} {α : Type}
  (hS : Coupled S R environments scopes)
include hS

/-- An action that ends alike in both worlds ends alike in both runs. -/
theorem act_twinned {Q : α → Prop} {action : Action α} (haction : Twinned R Q action) :
    Twinned S Q (Run.act action) := by
  intro s t h
  have hmatched := haction _ _ (hS.worlds h)
  simp only [Run.act]
  generalize action s.world = first at hmatched
  generalize action t.world = second at hmatched
  cases hmatched with
  | ok hvalue hworlds => exact .ok hvalue (hS.act h hworlds)
  | error hworlds => exact .error (hS.act h hworlds)

theorem print_twinned (line : Text) : Twinned S (fun _ => True) (Run.print line) :=
  .modify fun _ _ h => hS.print line h

theorem modifyDepth_twinned (f : Nat → Nat) :
    Twinned S (fun _ => True) (modifyRunner fun r => { r with depth := f r.depth }) := by
  refine .modify fun s t h => ?_
  show S { s with runner := { s.runner with depth := f s.runner.depth } }
    { t with runner := { t.runner with depth := f t.runner.depth } }
  rw [hS.depth h]
  exact hS.setDepth (f s.runner.depth) h

/-- Both runs open a scope at the same place, or fail alike. -/
theorem openScope_twinned {name : Option Text}
    (hname : ∀ environment, environments environment →
      (Origin.ofName? environment name).Alike R environments) :
    Twinned S (fun _ => True) (openScope name) := by
  refine .of_get fun s t h => ?_
  -- both runners open it under the same identity
  rw [hS.name h, hS.environment h, hS.depth h]
  have hid := hS.opened h s.runner.depth
  have henter := (hS.parallel.enter_twinned hid).onFailure (hS.parallel.destroy_twinned hid)
  have hopen := (hS.parallel.create_twinned hid (hname _ (hS.home h))).bind fun _ _ => henter
  exact (hS.act_twinned hopen).bind (fun _ _ => hS.modifyDepth_twinned (· + 1)) s t h

theorem closeScope_twinned (depth : Nat) : Twinned S (fun _ => True) (closeScope depth) := by
  refine .of_get fun s t h => ?_
  rw [hS.name h]
  have hid := hS.opened h depth
  have hclose := (hS.parallel.release_twinned hid).bind fun _ _ => hS.parallel.destroy_twinned hid
  exact (hS.act_twinned hclose).bind (fun _ _ => hS.modifyDepth_twinned fun _ => depth) s t h

/-- Both runs close their scopes alike, by induction on how many there are. -/
theorem closeScopes_twinned (depth : Nat) : Twinned S (fun _ => True) (closeScopes depth) := by
  induction depth with
  | zero => exact .pure trivial
  | succ depth ih => exact (hS.closeScope_twinned depth).bind fun _ _ => ih

theorem unwind_twinned : Twinned S (fun _ => True) unwind := by
  refine .of_get fun s t h => ?_
  rw [hS.depth h]
  exact hS.closeScopes_twinned s.runner.depth s t h

/-- A command whose name is taken alike is executed alike. -/
theorem execute_twinned {command : Command} (hcommand : command.Alike R environments) :
    Twinned S (fun _ => True) (execute command) := by
  refine .of_get fun s t h => ?_
  rw [hS.environment h, hS.depth h]
  have henvironment := hS.home h
  refine (?_ : Twinned S (fun _ => True) _) s t h
  cases hverb : command.verb with
  | scope name =>
      exact hS.openScope_twinned fun environment hheld =>
        hcommand.scope environment name hheld hverb
  | leave =>
      cases s.runner.depth with
      | zero => exact .throw _
      | succ depth => exact hS.closeScope_twinned depth
  | label name =>
      refine (hS.act_twinned (hcommand.label _ name henvironment hverb)).bind ?_
      intro label _
      exact hS.print_twinned label.text
  | uid counter =>
      refine (hS.act_twinned (hS.parallel.draw_twinned henvironment _)).bind ?_
      intro value _
      exact hS.print_twinned _
  | reset counter =>
      exact hS.act_twinned (.modify fun w v h => hS.parallel.modifyRegistry _ h henvironment)
  | current =>
      refine (hS.act_twinned (hS.parallel.current_twinned henvironment)).bind fun id? hid => ?_
      cases id? with
      | none => exact hS.print_twinned _
      | some id =>
          refine (hS.act_twinned (hS.parallel.path_twinned (hid id rfl))).bind ?_
          intro path _
          exact hS.print_twinned _

theorem finish_twinned : Twinned S (fun _ => True) finish := by
  refine .of_get fun s t h => ?_
  rw [hS.depth h]
  refine (?_ : Twinned S (fun _ => True) _) s t h
  split
  · exact .pure trivial
  · refine .bind (hS.act_twinned (.modify fun w v h => ?_)) fun _ _ => hS.unwind_twinned
    exact hS.parallel.report h nofun

/-- Whole runs end alike, by induction on the commands. -/
theorem run_twinned {commands : List Command}
    (hcommands : ∀ command ∈ commands, command.Alike R environments) :
    Twinned S (fun _ => True) (run commands) := by
  induction commands with
  | nil => exact hS.finish_twinned
  | cons command rest ih =>
      rw [run]
      refine .bind (.modify fun s t h => hS.goTo command.line h) fun _ _ => ?_
      refine (hS.execute_twinned (hcommands command List.mem_cons_self)).bind fun _ _ => ?_
      exact ih fun other hother => hcommands other (List.mem_cons_of_mem _ hother)

theorem runText_twinned (hcommands : ∀ command : Command, command.Alike R environments)
    (text : Text) : Twinned S (fun _ => True) (Run.runText text) := by
  rw [Run.runText]
  cases parse text with
  | error fault => exact .throw _
  | ok commands => exact hS.run_twinned fun command _ => hcommands command

end Coupled

/-- Seen from outside, two runs end with the same error or success. -/
theorem Run.outcome_of_twinned {S : RunState → RunState → Prop} {run : Run Unit}
    (hrun : Twinned S (fun _ => True) run) {s t : RunState} (h : S s t) :
    (run.outcome t).error? = (run.outcome s).error? ∧
      S (run.outcome s).state (run.outcome t).state := by
  have hmatched := hrun s t h
  simp only [outcome]
  generalize run s = first at hmatched
  generalize run t = second at hmatched
  cases hmatched with
  | ok _ hstates => exact ⟨rfl, hstates⟩
  | error hstates => exact ⟨rfl, hstates⟩

end Script

end ScopedLabels
