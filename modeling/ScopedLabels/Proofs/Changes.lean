import Mathlib.Logic.Relation
import ScopedLabels.Proofs.Lifetime
import ScopedLabels.Session.Step

/-!
# Changes — the elementary steps that every operation is made of

Whatever a caller asks for, the world goes through a sequence of elementary changes: a scope is
made, entered, left or destroyed, a counter is drawn or zeroed, something is logged or counted, and
where a caller works on context stacks directly, a value of the caller's is pushed or values are
taken off. `Change` lists them, each with what the library has checked when it makes the change.
An `Allowance` says which of them an operation may make: which keys of context stacks it works on
directly, which scopes it makes and enters, and which scopes of the caller it leaves. All other
scopes of the caller are at most destroyed.

`Orderly` says that a computation makes nothing but changes, also when it fails, and that it fails
for want of an entry (`Misuse.notEntered`) only if it came by a *stuck* world, one where the
innermost active scope knows of no entry of its own. The last section carries this through scopes,
labels, scripts and sessions. An invariant of all reachable states then only has to be kept by each
change.
-/

namespace ScopedLabels

/-- Is a scope one that the caller does not hold? Labels and runners make such scopes. -/
def ScopeId.Internal : ScopeId → Prop
  | .held _ => False
  | .opened _ _ | .transient => True

/-- The changes that not every operation may make. -/
structure Allowance where
  /-- May a key of a context stack be worked on directly, as callers do? -/
  direct : (stack key : Text) → Prop
  /-- May the scope under an identity be made and entered? -/
  grows : ScopeId → Prop
  /-- May an entry of the scope under an identity be given up, if the caller holds it? -/
  leaves : ScopeId → Prop

/-- Every change is allowed. -/
def Allowance.any : Allowance :=
  ⟨fun _ _ => True, fun _ => True, fun _ => True⟩

/-- No change is allowed that not every operation may make. -/
def Allowance.none : Allowance :=
  ⟨fun _ _ => False, fun _ => False, fun _ => False⟩

namespace World

/-- One elementary change of the world, as far as it is allowed. -/
inductive Change (allowed : Allowance) : World → World → Prop
  | make {w : World} {id : ScopeId} (hgrows : allowed.grows id) {origin : Origin} {scope : Scope}
      (hmade : origin.scope w = .ok scope) (hfree : w.scope? id = none) :
      Change allowed w (w.addScope id scope)
  | enter {w v : World} {id : ScopeId} (hgrows : allowed.grows id) {scope : Scope} {parents : Path}
      {basename : Text} (hscope : w.scope? id = some scope)
      (hsettles : scope.Settles w parents basename v) :
      Change allowed w (v.activate id scope parents basename)
  | leave {w : World} {id : ScopeId} (hleaves : id.Internal ∨ allowed.leaves id) {scope : Scope}
      {rest : List Value} (hscope : w.scope? id = some scope)
      (htop : w.activeValues scope.environment = .scope id :: rest)
      (hentries : scope.entries ≠ 0) : Change allowed w (w.deactivate id scope)
  | destroy {w : World} {id : ScopeId} {scope : Scope} (hscope : w.scope? id = some scope) :
      Change allowed w ((if scope.entries = 0 then w else w.evict id scope).dropScope id)
  | draw {w : World} (registry name : Text) : Change allowed w (w.drawn registry name)
  | zero {w : World} (registry name : Text) :
      Change allowed w (w.modifyRegistry registry (·.zero name))
  | clear {w : World} (registry : Text) :
      Change allowed w (w.modifyRegistry registry fun _ => {})
  | report {w : World} (level : Level) (notice : Notice) :
      Change allowed w (w.report level notice)
  | count {w : World} (metric : Metric) : Change allowed w (w.count metric)
  /-- The caller sets options, or how logging and counting go on. -/
  | configure {w v : World} (hscopes : v.scopes = w.scopes) (hcontexts : v.contexts = w.contexts)
      (hregistries : v.registries = w.registries) : Change allowed w v
  | push {w : World} (stack key : Text) (hdirect : allowed.direct stack key) {value : Value}
      (hvalue : ∀ id, value ≠ .scope id) :
      Change allowed w (w.modifyStack stack (·.push key value))
  | dropTop {w : World} (stack key : Text) (hdirect : allowed.direct stack key) :
      Change allowed w (w.modifyStack stack (·.dropTop key))
  | erase {w : World} (stack key : Text) (hdirect : allowed.direct stack key) (type : ValueType)
      (data : type.Carrier) :
      Change allowed w (w.modifyStack stack fun c => (c.eraseAll type key data).2)
  | clearStack {w : World} (stack : Text) (hdirect : ∀ key, allowed.direct stack key) :
      Change allowed w (w.modifyStack stack fun _ => ∅)

/-- Elementary changes one after another. -/
abbrev Changes (allowed : Allowance) : World → World → Prop :=
  Relation.ReflTransGen (Change allowed)

/-- The innermost active scope of some environment knows of no entry of its own. -/
def Stuck (w : World) : Prop :=
  ∃ id scope rest, w.scope? id = some scope ∧
    w.activeValues scope.environment = .scope id :: rest ∧ scope.entries = 0

end World

/-! ## Orderly computations -/

/-- A result that is reached from a world by elementary changes, where a failure for want of an
    entry is reached by way of a stuck world. -/
def Leads {σ α : Type} (allowed : Allowance) (world : σ → World) (w : World) :
    EStateM.Result Error σ α → Prop
  | .ok _ t => World.Changes allowed w (world t)
  | .error e t => World.Changes allowed w (world t) ∧
      (e = .misuse .notEntered → ∃ v, World.Changes allowed w v ∧ v.Stuck)

/-- What is led to after some changes is led to from before them. -/
theorem Leads.after {σ α : Type} {allowed : Allowance} {world : σ → World} {w v : World}
    (hwv : World.Changes allowed w v) {result : EStateM.Result Error σ α}
    (h : Leads allowed world v result) : Leads allowed world w result := by
  cases result with
  | ok a t => exact hwv.trans h
  | error e t =>
      refine ⟨hwv.trans h.1, ?_⟩
      intro he
      obtain ⟨u, hu, hstuck⟩ := h.2 he
      exact ⟨u, hwv.trans hu, hstuck⟩

/-- A failure on the spot. -/
theorem Leads.fail {σ α : Type} {allowed : Allowance} {world : σ → World} {s : σ} {e : Error}
    (he : e ≠ .misuse .notEntered) :
    Leads allowed world (world s) (.error e s : EStateM.Result Error σ α) :=
  ⟨.refl, fun h => absurd h he⟩

/-- From every state the computation makes nothing but elementary changes to the world, and it
    fails for want of an entry only by way of a stuck world. -/
def Orderly {σ α : Type} (allowed : Allowance) (world : σ → World) (x : EStateM Error σ α) : Prop :=
  ∀ s, Leads allowed world (world s) (x s)

namespace Orderly

variable {σ α β : Type} {allowed : Allowance} {world : σ → World}

theorem pure (a : α) : Orderly allowed world (pure a) :=
  fun _ => .refl

theorem get : Orderly allowed world (get : EStateM Error σ σ) :=
  fun _ => .refl

theorem throw {e : Error} (he : e ≠ .misuse .notEntered) :
    Orderly allowed world (throw e : EStateM Error σ α) :=
  fun _ => .fail he

theorem modify {f : σ → σ} (hf : ∀ s, World.Changes allowed (world s) (world (f s))) :
    Orderly allowed world (modify f) :=
  fun s => hf s

/-- A result is passed on in an orderly way unless it is the failure for want of an entry. -/
theorem ofExcept {x : Except Error α} (hx : x ≠ .error (.misuse .notEntered)) :
    Orderly allowed world (ofExcept x) := by
  cases x with
  | ok a => exact pure a
  | error e =>
      have he : e ≠ .misuse .notEntered := by
        intro heq
        exact hx (congrArg Except.error heq)
      exact throw he

/-- What is done after an orderly beginning leads on from where that ended. -/
theorem bind_leads {x : EStateM Error σ α} {f : α → EStateM Error σ β} {w : World} {s : σ}
    (hx : Leads allowed world w (x s)) (hf : ∀ a, Orderly allowed world (f a)) :
    Leads allowed world w ((x >>= f) s) := by
  rw [bind_apply]
  cases hresult : x s with
  | ok a t =>
      rw [hresult] at hx
      exact Leads.after hx (hf a t)
  | error e t =>
      rw [hresult] at hx
      exact hx

theorem bind {x : EStateM Error σ α} {f : α → EStateM Error σ β}
    (hx : Orderly allowed world x) (hf : ∀ a, Orderly allowed world (f a)) :
    Orderly allowed world (x >>= f) := by
  intro s
  exact bind_leads (hx s) hf

/-- Cleaning up after a failure leaves the failure as it was. -/
theorem thenThrow {x : EStateM Error σ Unit} (hx : Orderly allowed world x) {w : World} {t : σ}
    {e : Error} (hfailed : Leads allowed world w (.error e t : EStateM.Result Error σ α)) :
    Leads allowed world w ((do x; MonadExcept.throw e : EStateM Error σ α) t) := by
  have hclean := Leads.after hfailed.1 (hx t)
  rw [bind_apply]
  cases hresult : x t with
  | ok a u =>
      rw [hresult] at hclean
      exact ⟨hclean, hfailed.2⟩
  | error e' u =>
      rw [hresult] at hclean
      exact hclean

/-- An orderly computation on the world is orderly on a state that holds the world. -/
theorem lift {action : Action α} (h : Orderly allowed (fun w : World => w) action)
    {set : World → σ → σ} (hset : ∀ w s, world (set w s) = w) {x : EStateM Error σ α}
    (hx : ∀ s, x s = match action (world s) with
      | .ok a w => .ok a (set w s)
      | .error e w => .error e (set w s)) : Orderly allowed world x := by
  intro s
  have haction := h (world s)
  rw [hx]
  cases hresult : action (world s) with
  | ok a w =>
      rw [hresult] at haction
      show World.Changes allowed (world s) (world (set w s))
      rw [hset]
      exact haction
  | error e w =>
      rw [hresult] at haction
      show World.Changes allowed (world s) (world (set w s)) ∧ _
      rw [hset]
      exact haction

end Orderly

/-! ## Scopes -/

/-- A name is refused for what it is. -/
theorem requireName_ne_notEntered (options : Options) (name : Text) :
    requireName options name ≠ .error (.misuse .notEntered) := by
  rw [requireName]
  split <;> simp

/-- The path of a scope is refused if it has none yet. -/
theorem Scope.path_ne_notEntered (scope : Scope) :
    scope.path ≠ .error (.misuse .notEntered) := by
  rw [Scope.path]
  split <;> simp

/-- So is its path as text. -/
theorem Scope.fullName_ne_notEntered (scope : Scope) :
    scope.fullName ≠ .error (.misuse .notEntered) := by
  rw [Scope.fullName, Scope.path]
  split <;> simp [bind, Except.bind, pure, Except.pure]

/-- An orderly action, seen on the world itself. -/
abbrev Action.Orderly {α : Type} (allowed : Allowance) (action : Action α) : Prop :=
  ScopedLabels.Orderly allowed (fun w : World => w) action

section Scopes

variable {allowed : Allowance} {α : Type}

/-- Cleaning up after a body, however it ended, is orderly if both are. -/
theorem Action.Orderly.ensuring {body : Action α} {cleanup : Action Unit}
    (hbody : body.Orderly allowed) (hcleanup : cleanup.Orderly allowed) :
    (body.ensuring cleanup).Orderly allowed := by
  intro w
  have hfirst := hbody w
  rw [Action.ensuring]
  cases hresult : body w with
  | ok a v =>
      rw [hresult] at hfirst
      have hcleaned := (hcleanup.bind fun _ => .pure a) v
      exact Leads.after hfirst hcleaned
  | error e v =>
      rw [hresult] at hfirst
      exact hcleanup.thenThrow hfirst

/-- So is cleaning up after a body that failed. -/
theorem Action.Orderly.onFailure {body : Action α} {cleanup : Action Unit}
    (hbody : body.Orderly allowed) (hcleanup : cleanup.Orderly allowed) :
    (body.onFailure cleanup).Orderly allowed := by
  intro w
  have hfirst := hbody w
  rw [Action.onFailure]
  cases hresult : body w with
  | ok a v =>
      rw [hresult] at hfirst
      exact hfirst
  | error e v =>
      rw [hresult] at hfirst
      exact hcleanup.thenThrow hfirst

namespace ScopeId

theorem fetch_orderly (id : ScopeId) : id.fetch.Orderly allowed := by
  intro w
  rw [fetch_apply]
  cases w.scope? id with
  | some scope => exact .refl
  | none => exact .fail (by simp)

theorem path_orderly (id : ScopeId) : id.path.Orderly allowed := by
  refine id.fetch_orderly.bind ?_
  intro scope
  exact .ofExcept scope.path_ne_notEntered

/-- The next number below a scope is drawn from one counter. -/
theorem nextNumber_orderly (id : ScopeId) : id.nextNumber.Orderly allowed := by
  refine id.fetch_orderly.bind ?_
  intro scope
  refine .bind (.ofExcept scope.fullName_ne_notEntered) fun name => ?_
  intro w
  exact .single (.draw _ _)

theorem nextSegment_orderly (id : ScopeId) : id.nextSegment.Orderly allowed :=
  id.nextNumber_orderly.bind fun _ => .pure _

/-- Making a scope is one change, and changes nothing if the scope is refused or the identity is
    taken. -/
theorem create_orderly {id : ScopeId} (hgrows : allowed.grows id) (origin : Origin) :
    (id.create origin).Orderly allowed := by
  intro w
  rw [create_apply]
  cases hmade : origin.scope w with
  | error e => exact .fail (origin.fault_ne_notEntered hmade)
  | ok scope =>
      simp only
      split
      · exact .fail (by simp)
      · next hfree =>
          refine .single (.make hgrows hmade ?_)
          rwa [Roster.contains, Option.not_isSome_iff_eq_none] at hfree

/-- Entering a scope is one change: it is settled and activated at once, or not at all. -/
theorem enter_orderly {id : ScopeId} (hgrows : allowed.grows id) : id.enter.Orderly allowed := by
  intro w
  rw [enter_apply]
  cases hscope : w.scope? id with
  | none => exact .fail (by simp)
  | some scope =>
      rcases scope.settle_cases w with ⟨parents, basename, v, hsettle, hcase⟩ | ⟨e, hsettle, he⟩
      · simp only [hsettle]
        exact .single (.enter hgrows hscope hcase)
      · simp only [hsettle]
        exact .fail he

/-- Giving up an entry is orderly where the scope is the innermost one. -/
theorem leave_leads {id : ScopeId} (hleaves : id.Internal ∨ allowed.leaves id) {w : World}
    {scope : Scope} {rest : List Value} (hscope : w.scope? id = some scope)
    (htop : w.activeValues scope.environment = .scope id :: rest) :
    Leads allowed (fun v : World => v) w (id.leave scope w) := by
  rw [leave_apply]
  by_cases hentries : scope.entries = 0
  · -- the scope knows of no entry: the world is the stuck one that the failure came by
    have hstuck : w.Stuck := ⟨id, scope, rest, hscope, htop, hentries⟩
    rw [if_pos hentries]
    exact ⟨.refl, fun _ => ⟨w, .refl, hstuck⟩⟩
  · rw [if_neg hentries]
    exact .single (.leave hleaves hscope htop hentries)

/-- Leaving a scope gives up an entry, if the scope is the innermost one, and changes nothing
    otherwise. -/
theorem exit_orderly {id : ScopeId} (hleaves : id.Internal ∨ allowed.leaves id) :
    id.exit.Orderly allowed := by
  intro w
  cases hscope : w.scope? id with
  | none =>
      rw [exit, bind_apply, fetch_apply, hscope]
      exact .fail (by simp)
  | some scope =>
      rw [exit_apply hscope]
      cases hvalues : w.activeValues scope.environment with
      | nil => exact .fail (by simp)
      | cons value rest =>
          cases value with
          | scope top =>
              simp only
              split
              · next htop =>
                  subst htop
                  exact leave_leads hleaves hscope hvalues
              · split <;> exact .fail (by simp)
          -- the innermost value is no scope
          | int n => exact .fail (by simp)
          | bool b => exact .fail (by simp)
          | text t => exact .fail (by simp)
          | empty => exact .fail (by simp)

/-- Releasing a scope gives up an entry, or writes a record. -/
theorem release_orderly {id : ScopeId} (hleaves : id.Internal ∨ allowed.leaves id) :
    id.release.Orderly allowed := by
  intro w
  cases hscope : w.scope? id with
  | none =>
      rw [release, bind_apply, fetch_apply, hscope]
      exact .fail (by simp)
  | some scope =>
      rw [release_apply hscope]
      cases hvalues : w.activeValues scope.environment with
      | nil => exact .single (.report _ _)
      | cons top rest =>
          simp only
          split
          · next htop =>
              subst htop
              exact leave_leads hleaves hscope hvalues
          · exact .single (.report _ _)

/-- Destroying a scope is one change, also when entries of it are active. -/
theorem destroy_orderly (id : ScopeId) : id.destroy.Orderly allowed := by
  intro w
  cases hscope : w.scope? id with
  | none =>
      rw [destroy, bind_apply, fetch_apply, hscope]
      exact .fail (by simp)
  | some scope =>
      rw [destroy_apply hscope]
      exact .single (.destroy hscope)

/-- A body inside a guard is orderly if it is so on its own. -/
theorem guarded_orderly {id : ScopeId} (hgrows : allowed.grows id)
    (hleaves : id.Internal ∨ allowed.leaves id) {body : Action α} (hbody : body.Orderly allowed) :
    (id.guarded body).Orderly allowed := by
  refine (enter_orderly hgrows).bind ?_
  intro u
  exact hbody.ensuring (release_orderly hleaves)

end ScopeId

/-! ## Labels -/

/-- Looking for the innermost active scope changes nothing, and fails for no want of an entry. -/
theorem Environment.current_orderly (environment : Environment) :
    environment.current.Orderly allowed := by
  intro w
  rw [Environment.current_apply, World.current_eq]
  cases w.activeValues environment with
  | nil => exact .refl
  | cons value rest =>
      cases value with
      | scope id => exact .refl
      | int n => exact .fail (by simp)
      | bool b => exact .fail (by simp)
      | text t => exact .fail (by simp)
      | empty => exact .fail (by simp)

/-- A label in an environment is made by a transient scope, which is entered, left and destroyed. -/
theorem Environment.labelFor_orderly (hgrows : allowed.grows .transient) (environment : Environment)
    (naming : Naming) : (environment.labelFor naming).Orderly allowed := by
  cases naming with
  | ready label => exact .pure label
  | fresh name =>
      refine (ScopeId.create_orderly hgrows _).bind fun _ => ?_
      refine Action.Orderly.ensuring ?_ ScopeId.transient.destroy_orderly
      refine ScopeId.guarded_orderly hgrows (.inl trivial) ?_
      refine .bind (.modify fun w => .single (.count _)) fun _ => ?_
      exact ScopeId.transient.path_orderly.bind fun _ => .pure _

/-- A label below a scope draws a number at most, and counts one label. -/
theorem ScopeId.labelFor_orderly (id : ScopeId) (naming : Naming) :
    (id.labelFor naming).Orderly allowed := by
  cases naming with
  | ready label => exact .pure label
  | fresh name =>
      refine id.path_orderly.bind fun path => ?_
      refine .bind ?_ fun segment => ?_
      -- the last segment is drawn or given, and only a drawn one changes the world
      · cases name with
        | none => exact id.nextSegment_orderly
        | some name =>
            refine id.fetch_orderly.bind fun scope => .bind .get fun w => ?_
            exact .bind (.ofExcept (requireName_ne_notEntered _ name)) fun _ => .pure name
      · exact .bind (.modify fun w => .single (.count _)) fun _ => .pure _

end Scopes

/-! ## Scripts -/

/-- The scopes that a command may make and enter. -/
def Script.Verb.grows : Verb → ScopeId → Prop
  | .scope _, .opened _ _ => True
  | .label _, .transient => True
  | _, _ => False

namespace Script.Run

variable {allowed : Allowance} {α : Type}

/-- An orderly run, seen on the world of its state. -/
abbrev Orderly (allowed : Allowance) (run : Run α) : Prop :=
  ScopedLabels.Orderly allowed RunState.world run

theorem act_orderly {action : Action α} (h : action.Orderly allowed) :
    Orderly allowed (act action) :=
  .lift h (fun _ _ => rfl) fun _ => rfl

theorem print_orderly (line : Text) : Orderly allowed (print line) :=
  .modify fun _ => .refl

theorem modifyRunner_orderly (f : Runner → Runner) : Orderly allowed (modifyRunner f) :=
  .modify fun _ => .refl

/-- Opening a scope makes and enters it, and destroys it if it could not be entered. -/
theorem openScope_orderly (hgrows : ∀ runner depth, allowed.grows (.opened runner depth))
    (name : Option Text) : Orderly allowed (openScope name) := by
  refine .bind .get fun s => .bind (act_orderly ?_) fun _ => modifyRunner_orderly _
  refine (ScopeId.create_orderly (hgrows _ _) _).bind fun _ => ?_
  exact Action.Orderly.onFailure (ScopeId.enter_orderly (hgrows _ _)) (ScopeId.destroy_orderly _)

theorem closeScope_orderly (depth : Nat) : Orderly allowed (closeScope depth) := by
  refine .bind .get fun s => .bind (act_orderly ?_) fun _ => modifyRunner_orderly _
  exact (@ScopeId.release_orderly _ (.opened _ _) (.inl trivial)).bind fun _ =>
    ScopeId.destroy_orderly _

theorem closeScopes_orderly (depth : Nat) : Orderly allowed (closeScopes depth) := by
  induction depth with
  | zero => exact .pure ()
  | succ depth ih => exact (closeScope_orderly depth).bind fun _ => ih

theorem unwind_orderly : Orderly allowed unwind :=
  .bind .get fun s => closeScopes_orderly s.runner.depth

/-- Every command is orderly, if it may make and enter the scopes that its verb needs. -/
theorem execute_orderly {command : Command}
    (hgrows : ∀ id, command.verb.grows id → allowed.grows id) :
    Orderly allowed (execute command) := by
  refine .bind .get fun s => ?_
  cases hverb : command.verb with
  | scope name =>
      rw [hverb] at hgrows
      exact openScope_orderly (fun _ _ => hgrows _ trivial) name
  | leave =>
      simp only
      split
      · exact .throw (by simp)
      · exact closeScope_orderly _
  | label name =>
      rw [hverb] at hgrows
      refine .bind (act_orderly (Environment.labelFor_orderly (hgrows _ trivial) _ _)) ?_
      intro label
      exact print_orderly label.text
  | uid counter =>
      refine .bind (act_orderly fun w => .single (.draw _ _)) fun value => ?_
      exact print_orderly _
  | reset counter => exact act_orderly (.modify fun w => .single (.zero _ _))
  | current =>
      refine .bind (act_orderly (Environment.current_orderly _)) fun id? => ?_
      cases id? with
      | none => exact print_orderly _
      | some id => exact .bind (act_orderly id.path_orderly) fun path => print_orderly path.text

/-- The end of a script writes a record if something is open, and closes it. -/
theorem finish_orderly : Orderly allowed finish := by
  refine .bind .get fun s => ?_
  simp only
  split
  · exact .pure ()
  · refine .bind (act_orderly (.modify fun w => .single (.report _ _))) fun _ => ?_
    exact unwind_orderly

/-- A run is orderly, by induction on its commands. -/
theorem run_orderly (hgrows : ∀ (verb : Verb) id, verb.grows id → allowed.grows id)
    (commands : List Command) : Orderly allowed (run commands) := by
  induction commands with
  | nil => exact finish_orderly
  | cons command rest ih =>
      refine .bind (modifyRunner_orderly _) fun _ => ?_
      exact (execute_orderly (hgrows command.verb)).bind fun _ => ih

theorem runText_orderly (hgrows : ∀ (verb : Verb) id, verb.grows id → allowed.grows id)
    (text : Text) : Orderly allowed (runText text) := by
  rw [runText]
  split
  · exact .throw (by simp)
  · exact run_orderly hgrows _

/-- What an orderly run leaves, seen from outside. -/
theorem outcome_changes {run : Run Unit} (h : Orderly allowed run) (s : RunState) :
    World.Changes allowed s.world (run.outcome s).state.world ∧
      ((run.outcome s).error? = some (.misuse .notEntered) →
        ∃ v, World.Changes allowed s.world v ∧ v.Stuck) := by
  have hrun := h s
  rw [outcome]
  cases hresult : run s with
  | ok a t =>
      rw [hresult] at hrun
      refine ⟨hrun, ?_⟩
      intro he
      cases he
  | error e t =>
      rw [hresult] at hrun
      obtain ⟨hchanges, hstuck⟩ := hrun
      refine ⟨hchanges, ?_⟩
      intro he
      exact hstuck (Option.some.inj he)

end Script.Run

/-! ## Sessions -/

namespace Session

/-- The scopes that a request may make and enter. -/
def Request.grows : Request → ScopeId → Prop
  | .newScope name _, id | .enterScope name, id | .newGuard _ name, id => id = .held name
  | .makeLabel _ (.current _) _, id => id = .transient
  | .runScript _ _ _, id => ∃ verb : Script.Verb, verb.grows id
  | _, _ => False

/-- The scopes of the caller that a request may give up an entry of. Which one a guard lets go of is
    not said by the request. -/
def Request.leaves : Request → ScopeId → Prop
  | .exitScope name, id => id = .held name
  | .dropGuard _, _ => True
  | _, _ => False

/-- The keys of context stacks that a request may work on directly. Which stack an environment is
    reset on, and which key a lease ends on, is not said by the request. -/
def Request.direct : Request → (stack key : Text) → Prop
  | .push on at_ _, stack, key | .pop on at_, stack, key | .popAs _ on at_, stack, key
  | .removeData on at_ _, stack, key | .removeScope on at_ _, stack, key
  | .newLease _ on at_ _, stack, key => on = stack ∧ at_ = key
  | .clearStack on, stack, _ => on = stack
  | .resetEnvironment _, _, _ | .dropLease _, _, _ => True
  | _, _, _ => False

/-- The changes that a request may make. -/
def Request.allowance (request : Request) : Allowance :=
  ⟨request.direct, request.grows, request.leaves⟩

variable {α : Type} {allowed : Allowance}

/-- An orderly procedure, seen on the world of the session. -/
abbrev Orderly (allowed : Allowance) (procedure : Procedure α) : Prop :=
  ScopedLabels.Orderly allowed Session.world procedure

theorem act_orderly {action : Action α} (h : action.Orderly allowed) :
    Orderly allowed (act action) :=
  .lift h (fun _ _ => rfl) fun _ => rfl

theorem modifyWorld_orderly {f : World → World} (hf : ∀ w, World.Change allowed w (f w)) :
    Orderly allowed (modifyWorld f) :=
  .modify fun s => .single (hf s.world)

theorem getWorld_orderly : Orderly allowed getWorld :=
  .bind .get fun _ => .pure _

theorem held_orderly {ν : Type} (roster : Roster Text ν) (name : Text) :
    Orderly allowed (held roster name) := by
  rw [held]
  split
  · exact .pure _
  · exact .throw (by simp)

theorem requireFree_orderly {ν : Type} (roster : Roster Text ν) (name : Text) :
    Orderly allowed (requireFree roster name) := by
  rw [requireFree]
  split
  · exact .throw (by simp)
  · exact .pure _

theorem environmentOf_orderly (name : Text) : Orderly allowed (environmentOf name) :=
  .bind .get fun s => held_orderly s.environments name

theorem runnerOf_orderly (name : Text) : Orderly allowed (runnerOf name) :=
  .bind .get fun s => held_orderly s.runners name

/-- Finding a scope, a label or a name, and what a scope is made from, changes nothing. -/
theorem scopeOf_orderly (name : Text) : Orderly allowed (scopeOf name) :=
  act_orderly (ScopeId.fetch_orderly _)

theorem labelOf_orderly (source : LabelSource) : Orderly allowed (labelOf source) := by
  cases source with
  | literal label => exact .pure label
  | saved name => exact .bind .get fun s => held_orderly s.labels name

theorem nameOf_orderly (source : NameSource) : Orderly allowed (nameOf source) := by
  cases source with
  | fresh name => exact .pure _
  | label source => exact (labelOf_orderly source).bind fun _ => .pure _

theorem originOf_orderly (source : ScopeSource) : Orderly allowed (originOf source) := by
  cases source with
  | basename environment name => exact (environmentOf_orderly _).bind fun _ => .pure _
  | unnamed environment => exact (environmentOf_orderly _).bind fun _ => .pure _
  | label environment source =>
      refine (environmentOf_orderly _).bind fun _ => ?_
      exact (labelOf_orderly source).bind fun _ => .pure _
  | global environment => exact (environmentOf_orderly _).bind fun _ => .pure _
  | existing scope => exact .pure _

/-- Taking from a stack is orderly if what is left comes to one change of that stack. -/
theorem takeFromStack_orderly {stack : Text}
    {take : Contexts → Except Error (α × Contexts)}
    (hfault : ∀ c, take c ≠ .error (.misuse .notEntered))
    (htake : ∀ w : World, ∀ a c, take (w.stack stack) = .ok (a, c) →
      World.Change allowed w (w.modifyStack stack fun _ => c)) :
    (Action.takeFromStack stack take).Orderly allowed := by
  intro w
  cases hresult : take (w.stack stack) with
  | error e =>
      have he : e ≠ .misuse .notEntered := by
        rintro rfl
        exact hfault _ hresult
      simp only [Action.takeFromStack_apply, hresult]
      exact .fail he
  | ok p =>
      obtain ⟨a, c⟩ := p
      simp only [Action.takeFromStack_apply, hresult]
      exact .single (htake w a c hresult)

theorem readStack_orderly {stack : Text} {read : Contexts → Except Error α}
    (hfault : ∀ c, read c ≠ .error (.misuse .notEntered)) :
    (Action.readStack stack read).Orderly allowed :=
  .bind .get fun _ => .ofExcept (hfault _)

/-- Running a runner on the world as it is and taking over what it left is orderly. -/
theorem adopt_orderly {run : Script.Run Unit} (h : Script.Run.Orderly allowed run)
    (name : Text) (runner : Script.Runner) (rest : Script.Outcome → Procedure α)
    (hrest : ∀ outcome, Orderly allowed (rest outcome)) :
    Orderly allowed (getWorld >>= fun w =>
      adopt name (run.outcome { world := w, runner }) >>= fun _ =>
      rest (run.outcome { world := w, runner })) := by
  intro s
  have hleft : Leads allowed Session.world s.world
      (adopt name (run.outcome { world := s.world, runner }) s) :=
    (Script.Run.outcome_changes h { world := s.world, runner }).1
  show Leads allowed Session.world s.world
    ((adopt name (run.outcome { world := s.world, runner }) >>= fun _ =>
      rest (run.outcome { world := s.world, runner })) s)
  exact ScopedLabels.Orderly.bind_leads hleft fun _ => hrest _

/-- A new environment is given its options. -/
theorem newEnvironment_orderly (name counters contexts : Text) (options : Options) :
    Orderly allowed (newEnvironment name counters contexts options) := by
  refine .bind .get fun s => (requireFree_orderly _ _).bind fun _ => ?_
  refine .bind (.modify fun s => .single (.configure rfl rfl rfl)) fun _ => ?_
  exact getWorld_orderly.bind fun _ => .pure _

/-- Setting options changes nothing else. -/
theorem changeOptions_orderly (name : Text) (change : Option Options) :
    Orderly allowed (changeOptions name change) := by
  refine (environmentOf_orderly name).bind fun environment => ?_
  refine (modifyWorld_orderly fun w => ?_).bind fun _ => getWorld_orderly.bind fun _ => .pure _
  cases change <;> exact .configure rfl rfl rfl

theorem currentScope_orderly (name : Text) : Orderly allowed (currentScope name) := by
  refine (environmentOf_orderly name).bind fun environment => act_orderly ?_
  refine environment.current_orderly.bind fun id? => ?_
  cases id? with
  | none => exact .pure _
  | some id => exact id.fetch_orderly.bind fun _ => .pure _

/-- Making a label is orderly, below a scope and in an environment, whether it is saved or not. -/
theorem makeLabel_orderly (name : NameSource) {location : Location}
    (hgrows : ∀ environment, location = .current environment → allowed.grows .transient)
    (save : Option Text) : Orderly allowed (makeLabel name location save) := by
  refine (nameOf_orderly name).bind fun naming => ?_
  refine .bind ?_ fun label => .bind (.modify fun s => ?_) fun _ => .pure _
  · cases location with
    | current environment =>
        refine (environmentOf_orderly environment).bind fun environment => ?_
        exact act_orderly (Environment.labelFor_orderly (hgrows _ rfl) environment naming)
    | below scope => exact act_orderly ((ScopeId.held scope).labelFor_orderly naming)
  · cases save <;> exact .refl

/-- A new scope of the caller is made in one change. -/
theorem newScope_orderly {name : Text} (hgrows : allowed.grows (.held name))
    (source : ScopeSource) :
    Orderly allowed (newScope name source) := by
  refine (originOf_orderly source).bind fun origin => ?_
  refine (act_orderly (ScopeId.create_orderly hgrows _)).bind fun _ => ?_
  exact (scopeOf_orderly name).bind fun _ => .pure _

/-- A scope that a guard keeps entered is not dropped, and every other one is destroyed. -/
theorem dropScope_orderly (name : Text) : Orderly allowed (dropScope name) := by
  refine .bind .get fun s => ?_
  split
  · exact .throw (by simp)
  · exact (act_orderly (ScopeId.destroy_orderly _)).bind fun _ => .pure _

/-- A new guard enters its scope. -/
theorem newGuard_orderly (name : Text) {scope : Text} (hgrows : allowed.grows (.held scope)) :
    Orderly allowed (newGuard name scope) := by
  refine .bind .get fun s => (requireFree_orderly _ _).bind fun _ => ?_
  refine (act_orderly (ScopeId.enter_orderly hgrows)).bind fun _ => ?_
  refine .bind (.modify fun s => .refl) ?_
  exact fun _ => (scopeOf_orderly scope).bind fun _ => .pure _

/-- A guard that is dropped releases its scope. -/
theorem dropGuard_orderly (hleaves : ∀ id, allowed.leaves id) (name : Text) :
    Orderly allowed (dropGuard name) := by
  refine .bind .get fun s => (held_orderly _ _).bind fun scope => ?_
  refine (act_orderly (ScopeId.release_orderly (.inr (hleaves _)))).bind fun _ => ?_
  refine .bind (.modify fun s => .refl) ?_
  exact fun _ => (scopeOf_orderly scope).bind fun _ => .pure _

theorem newRunner_orderly (name environment : Text) :
    Orderly allowed (newRunner name environment) := by
  refine (environmentOf_orderly environment).bind fun environment => .bind .get fun s => ?_
  exact (requireFree_orderly _ _).bind fun _ => .bind (.modify fun s => .refl) fun _ => .pure _

theorem inspectRunner_orderly (name : Text) : Orderly allowed (inspectRunner name) :=
  (runnerOf_orderly name).bind fun _ => .pure _

/-- Running a script makes the changes that the script makes. -/
theorem runScript_orderly (hgrows : ∀ (verb : Script.Verb) id, verb.grows id → allowed.grows id)
    (name script : Text) : Orderly allowed (runScript name script) := by
  refine (runnerOf_orderly name).bind ?_
  intro runner
  have hrun : Script.Run.Orderly allowed (Script.Run.runText script) :=
    Script.Run.runText_orderly hgrows script
  refine adopt_orderly hrun name runner (fun outcome =>
    pure (Answer.ran outcome.error? outcome.state.output outcome.state.runner.line
      outcome.state.runner.depth)) ?_
  intro outcome
  exact .pure _

/-- Closing a runner closes the scopes that it has open. -/
theorem closeRunner_orderly (name : Text) : Orderly allowed (closeRunner name) := by
  refine (runnerOf_orderly name).bind ?_
  intro runner
  refine adopt_orderly Script.Run.unwind_orderly name runner (fun _ => inspectRunner name) ?_
  intro outcome
  exact inspectRunner_orderly name

/-- So does dropping it. -/
theorem dropRunner_orderly (name : Text) : Orderly allowed (dropRunner name) := by
  refine (runnerOf_orderly name).bind ?_
  intro runner
  refine adopt_orderly Script.Run.unwind_orderly name runner (fun _ => do
    modify fun s : Session => { s with runners := s.runners.erase name }
    return Answer.nothing) ?_
  intro outcome
  exact .bind (.modify fun _ => .refl) fun _ => .pure _

theorem displayed_orderly (value : Value) : Orderly allowed (displayed value) :=
  getWorld_orderly.bind fun _ => .pure _

/-- Displaying data changes nothing, and fails only if its scope is gone. -/
theorem displayedData_orderly (type : ValueType) (data : type.Carrier) :
    Orderly allowed (displayedData type data) := by
  cases type with
  | int => exact .pure _
  | bool => exact .pure _
  | text => exact .pure _
  | scope => exact (act_orderly (ScopeId.fetch_orderly _)).bind fun _ => .pure _

/-- Erasing a value is one change, wherever the value is. -/
theorem eraseAll_orderly {stack key : Text} (hdirect : allowed.direct stack key)
    (type : ValueType) (data : type.Carrier) : Orderly allowed (eraseAll stack key type data) := by
  refine .bind (act_orderly ?_) fun _ => .pure _
  refine takeFromStack_orderly ?_ ?_
  · intro c h
    cases h
  · intro w n c h
    cases h
    exact .erase stack key hdirect type data

/-- What a caller can put on a stack is no scope. -/
theorem datum_ne_scope (datum : Option Datum) (id : ScopeId) : Datum.value datum ≠ .scope id := by
  cases datum with
  | none => simp [Datum.value]
  | some datum => cases datum <;> simp [Datum.value, Datum.type, Datum.data, Value.of]

/-- A new lease pushes its value, which is no scope. -/
theorem newLease_orderly (name : Text) {lease : Lease}
    (hdirect : allowed.direct lease.stack lease.key) (datum : Option Datum) :
    Orderly allowed (newLease name lease (Datum.value datum)) := by
  refine .bind .get fun s => (requireFree_orderly _ _).bind fun _ => ?_
  refine .bind (act_orderly (.modify fun w => .single ?_)) fun _ => ?_
  · exact .push lease.stack lease.key hdirect (datum_ne_scope datum)
  · exact .bind (.modify fun s => .refl) fun _ => .pure _

/-- A lease that is dropped takes off the top, or writes a record if there is none. -/
theorem dropLease_orderly (hdirect : ∀ stack key, allowed.direct stack key) (name : Text) :
    Orderly allowed (dropLease name) := by
  refine .bind .get fun s => (held_orderly _ _).bind fun lease => ?_
  refine .bind (act_orderly (.bind .get fun w => ?_)) fun _ => ?_
  · split
    · exact .modify fun w => .single (.report _ _)
    · exact .modify fun w => .single (.dropTop _ _ (hdirect _ _))
  · exact .bind (.modify fun s => .refl) fun _ => .pure _

/-- Reading a stack fails for no want of an entry. -/
theorem top_ne_notEntered (c : Contexts) (key : Text) :
    c.top key ≠ .error (.misuse .notEntered) := by
  rw [Contexts.top]
  split <;> simp

/-- Nor does reading it as a value of one type. -/
theorem topAs_ne_notEntered (c : Contexts) (type : ValueType) (key : Text) :
    c.topAs type key ≠ .error (.misuse .notEntered) := by
  rw [Contexts.topAs, Contexts.top]
  cases c.values key with
  | nil => simp [bind, Except.bind]
  | cons value rest =>
      simp only [bind, Except.bind]
      split <;> simp

/-- Taking off the innermost value of a key is orderly, with whatever is read from it first. -/
theorem takeTop_orderly {read : Contexts → Except Error α} {stack key : Text}
    (hdirect : allowed.direct stack key) (hread : ∀ c, read c ≠ .error (.misuse .notEntered)) :
    (Action.takeFromStack stack fun c => do return (← read c, c.dropTop key)).Orderly
      allowed := by
  refine takeFromStack_orderly ?_ ?_
  · intro c h
    cases hresult : read c with
    | ok a => rw [hresult] at h; cases h
    | error e =>
        rw [hresult] at h
        cases h
        exact hread c hresult
  · intro w a c h
    cases hresult : read (w.stack stack) with
    | ok value => rw [hresult] at h; cases h; exact .dropTop stack key hdirect
    | error e => rw [hresult] at h; cases h

/-- Every request is orderly. It makes, enters and leaves only the scopes, and works directly only
    on the keys, that it may. -/
theorem perform_orderly (request : Request) :
    Orderly request.allowance (perform request) := by
  cases request with
  | newEnvironment name counters contexts options =>
      exact newEnvironment_orderly name counters contexts options
  | options name change => exact changeOptions_orderly name change
  | resetEnvironment name =>
      refine (environmentOf_orderly name).bind fun environment => ?_
      refine .bind (act_orderly (.modify fun w => ?_)) fun _ => .pure _
      exact .tail (.single (.clear _)) (.clearStack _ fun _ => trivial)
  | current name => exact currentScope_orderly name
  | makeLabel name location save =>
      refine makeLabel_orderly name ?_ save
      rintro environment rfl
      rfl
  -- scopes and guards: what is made, entered or left goes by the name in the request
  | newScope name source =>
      refine newScope_orderly ?_ source
      rfl
  | inspectScope name => exact (scopeOf_orderly name).bind fun _ => .pure _
  | enterScope name =>
      refine .bind (act_orderly (ScopeId.enter_orderly ?_)) fun _ => ?_
      · rfl
      · exact (scopeOf_orderly name).bind fun _ => .pure _
  | exitScope name =>
      refine (act_orderly (ScopeId.exit_orderly ?_)).bind fun _ => ?_
      · exact .inr rfl
      · exact (scopeOf_orderly name).bind fun _ => .pure _
  | scopeName name => exact (act_orderly (ScopeId.path_orderly _)).bind fun _ => .pure _
  | nextSegment name => exact (act_orderly (ScopeId.nextSegment_orderly _)).bind fun _ => .pure _
  | nextNumber name => exact (act_orderly (ScopeId.nextNumber_orderly _)).bind fun _ => .pure _
  | checkScope name => exact (act_orderly (ScopeId.path_orderly _)).bind fun _ => .pure _
  | sameScope name other =>
      exact (scopeOf_orderly name).bind fun _ => (scopeOf_orderly other).bind fun _ => .pure _
  | dropScope name => exact dropScope_orderly name
  | newGuard name scope =>
      refine newGuard_orderly name ?_
      rfl
  | dropGuard name => exact dropGuard_orderly (fun _ => trivial) name
  -- runners: a script enters what it opens, and closing leaves it
  | newRunner name environment => exact newRunner_orderly name environment
  | runScript name script watch =>
      refine runScript_orderly (fun verb id hgrows => ?_) name script
      exact ⟨verb, hgrows⟩
  | closeRunner name watch => exact closeRunner_orderly name
  | inspectRunner name watch => exact inspectRunner_orderly name
  | dropRunner name watch => exact dropRunner_orderly name
  -- counters: drawing and setting back are allowed to everyone
  | drawCount registry counter =>
      exact .bind (act_orderly fun w => .single (.draw _ _)) fun _ => .pure _
  | readCount registry counter => exact getWorld_orderly.bind fun _ => .pure _
  | zeroCount registry counter =>
      exact (modifyWorld_orderly fun w => .zero _ _).bind fun _ => .pure _
  | clearCounts registry => exact (modifyWorld_orderly fun w => .clear _).bind fun _ => .pure _
  | countersHeld registry => exact getWorld_orderly.bind fun _ => .pure _
  -- context stacks: what a caller pushes is no scope, so pointers are not made by hand
  | push stack key datum =>
      refine (modifyWorld_orderly fun w => ?_).bind fun _ => getWorld_orderly.bind fun _ => .pure _
      refine .push stack key ?_ (datum_ne_scope datum)
      exact ⟨rfl, rfl⟩
  | pop stack key =>
      refine (act_orderly (takeTop_orderly ?_ ?_)).bind fun _ => displayed_orderly _
      · exact ⟨rfl, rfl⟩
      · intro c
        exact top_ne_notEntered c key
  | top stack key =>
      refine (act_orderly (readStack_orderly ?_)).bind fun _ => displayed_orderly _
      intro c
      exact top_ne_notEntered c key
  | popAs type stack key =>
      refine (act_orderly (takeTop_orderly ?_ ?_)).bind fun _ => displayedData_orderly _ _
      · exact ⟨rfl, rfl⟩
      · intro c
        exact topAs_ne_notEntered c type key
  | topAs type stack key =>
      refine (act_orderly (readStack_orderly ?_)).bind fun _ => displayedData_orderly _ _
      intro c
      exact topAs_ne_notEntered c type key
  | listing stack key => exact getWorld_orderly.bind fun _ => .pure _
  | stackSize stack key => exact getWorld_orderly.bind fun _ => .pure _
  | isEmpty stack key => exact getWorld_orderly.bind fun _ => .pure _
  | clearStack stack =>
      exact (modifyWorld_orderly fun w => .clearStack stack fun _ => rfl).bind fun _ => .pure _
  | removeData stack key datum =>
      refine eraseAll_orderly ?_ datum.type datum.data
      exact ⟨rfl, rfl⟩
  | removeScope stack key scope =>
      refine eraseAll_orderly ?_ .scope (.held scope)
      exact ⟨rfl, rfl⟩
  | newLease name stack key datum =>
      refine newLease_orderly name ?_ datum
      exact ⟨rfl, rfl⟩
  | dropLease name => exact dropLease_orderly (fun _ _ => trivial) name
  -- log and metrics: scopes, stacks and registries stay as they are
  | setThreshold level =>
      refine (modifyWorld_orderly fun w => ?_).bind fun _ => .pure _
      exact .configure rfl rfl rfl
  | threshold => exact getWorld_orderly.bind fun _ => .pure _
  | write level message =>
      exact (modifyWorld_orderly fun w => .report _ _).bind fun _ => .pure _
  | redirect sink =>
      refine (modifyWorld_orderly fun w => ?_).bind fun _ => .pure _
      exact .configure rfl rfl rfl
  | countEvents on =>
      refine (modifyWorld_orderly fun w => ?_).bind fun _ => .pure _
      exact .configure rfl rfl rfl
  | tally => exact getWorld_orderly.bind fun _ => .pure _
  | resetTally =>
      refine (modifyWorld_orderly fun w => ?_).bind fun _ => getWorld_orderly.bind fun _ => .pure _
      exact .configure rfl rfl rfl
  | countOne metric =>
      refine (modifyWorld_orderly fun w => ?_).bind fun _ => getWorld_orderly.bind fun _ => .pure _
      exact .count metric
  | setMetric metric value =>
      refine (modifyWorld_orderly fun w => ?_).bind fun _ => getWorld_orderly.bind fun _ => .pure _
      exact .configure rfl rfl rfl
  | report settings => exact getWorld_orderly.bind fun _ => .pure _

end Session

end ScopedLabels
