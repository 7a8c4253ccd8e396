import ScopedLabels.Proofs.Readiness
import ScopedLabels.Proofs.View

/-!
# Faults — when an operation fails, and why

`Fails x s faults` says that from the state `s` the computation `x` fails with exactly the errors in
`faults`, and that it leaves the state as it was when it does. There is one such statement for every
operation that works with places and names. The errors come from three checks: a scope that has no
path yet (`Scope.Unplaced`), a text that is no name (`Refused`), and a value that is no scope where
the innermost active scope is looked for (`World.Obstructed`). Where an operation makes two of them,
the statement also says which comes first.

An entry looks for the innermost scope before it draws, pushes or counts anything, and no step that
comes after can fail. That the scope above is alive and has a path is what readiness is for: so the
statements hold in all worlds that a session goes through (`labeling_faults`), also where callers
have put values of their own among the active scopes.
-/

namespace ScopedLabels

/-! ## Computations that fail in known cases -/

section Computations

variable {σ α β : Type} {x : EStateM Error σ α} {f : α → EStateM Error σ β} {s t : σ} {a : α}
  {e : Error} {faults : Error → Prop}

/-- From a state, a computation fails with exactly these errors, and leaves the state as it was
    when it does. -/
def Fails (x : EStateM Error σ α) (s : σ) (faults : Error → Prop) : Prop :=
  ∀ e t, x s = .error e t ↔ t = s ∧ faults e

/-- A computation that succeeds fails with no error. -/
theorem Fails.of_ok (h : x s = .ok a t) (hnone : ∀ e, ¬ faults e) : Fails x s faults := by
  intro e u
  rw [h]
  constructor
  · rintro ⟨⟩
  · rintro ⟨-, hfault⟩
    exact absurd hfault (hnone e)

/-- A computation that fails on the spot fails with its error alone. -/
theorem Fails.of_error (h : x s = .error e s) (hfaults : ∀ other, faults other ↔ other = e) :
    Fails x s faults := by
  intro other u
  rw [h, hfaults]
  constructor
  · rintro ⟨⟩
    exact ⟨rfl, rfl⟩
  · rintro ⟨rfl, rfl⟩
    rfl

theorem Fails.congr {more : Error → Prop} (h : Fails x s faults)
    (hfaults : ∀ e, more e ↔ faults e) : Fails x s more := by
  intro e t
  rw [hfaults]
  exact h e t

/-- A computation that does not fail has a result. -/
theorem Fails.exists_ok (h : Fails x s faults) (hnone : ∀ e, ¬ faults e) :
    ∃ a t, x s = .ok a t := by
  cases hresult : x s with
  | ok a t => exact ⟨a, t, rfl⟩
  | error e t => exact absurd ((h e t).mp hresult).2 (hnone e)

/-- What only looks something up passes on to what comes after. -/
theorem Fails.of_bind (hx : x s = .ok a s) (hf : Fails (f a) s faults) :
    Fails (x >>= f) s faults := by
  intro e t
  rw [bind_apply, hx]
  exact hf e t

/-- What comes after does not fail. -/
theorem Fails.bind (hx : Fails x s faults)
    (hf : ∀ a t, x s = .ok a t → ∃ b u, f a t = .ok b u) : Fails (x >>= f) s faults := by
  intro e t
  have hfirst := hx e t
  rw [bind_apply]
  cases hresult : x s with
  | error e' u =>
      rw [hresult] at hfirst
      rw [← hfirst]
      constructor <;> rintro ⟨⟩ <;> rfl
  | ok a u =>
      rw [hresult] at hfirst
      obtain ⟨b, v, hlater⟩ := hf a u hresult
      simp only [hlater]
      constructor
      · rintro ⟨⟩
      · intro hfault
        cases hfirst.mpr hfault

/-- A check that is made on the spot. -/
theorem Fails.check {check : Except Error α} (h : ∀ e, check = .error e ↔ faults e) :
    Fails (ofExcept check) s faults := by
  cases hcheck : check with
  | ok a =>
      refine .of_ok rfl ?_
      intro e hfault
      cases hcheck.symm.trans ((h e).mpr hfault)
  | error e =>
      refine .of_error rfl ?_
      intro other
      rw [← h other, hcheck, Except.error.injEq, eq_comm]

end Computations

/-- An action fails in a session as it does on the world. -/
theorem Session.act_fails {α : Type} {action : Action α} {s : Session} {faults : Error → Prop}
    (h : Fails action s.world faults) : Fails (act action) s faults := by
  intro e t
  rw [act]
  cases hresult : action s.world with
  | ok a w =>
      constructor
      · rintro ⟨⟩
      · rintro ⟨-, hfault⟩
        cases hresult.symm.trans ((h e s.world).mpr ⟨rfl, hfault⟩)
  | error e' w =>
      obtain ⟨rfl, hfault⟩ := (h e' w).mp hresult
      constructor
      · rintro ⟨⟩
        exact ⟨rfl, hfault⟩
      · rintro ⟨rfl, hother⟩
        cases hresult.symm.trans ((h e _).mpr ⟨rfl, hother⟩)
        rfl

/-! ## The checks -/

/-- There is no path, and that is the error. -/
def Scope.Unplaced (scope : Scope) (e : Error) : Prop :=
  scope.resolved = false ∧ e = .unresolvedScope scope.place.basename?

/-- There is a name that breaks a rule, and that is the error. -/
def Refused (options : Options) (name? : Option Text) (e : Error) : Prop :=
  ∃ name fault, name? = some name ∧ nameFault? options name = some fault ∧ e = .invalidName fault

namespace World

/-- A value that is no scope stands innermost among the active scopes. -/
def Foreign (w : World) (environment : Environment) : Prop :=
  ∃ value rest, w.activeValues environment = value :: rest ∧ ∀ id, value ≠ .scope id

/-- A value that is no scope stands innermost, and that is the error. -/
def Obstructed (w : World) (environment : Environment) (e : Error) : Prop :=
  w.Foreign environment ∧ e = .contextType Scope.contextKey

/-- Nothing is active, or a scope is innermost, or a foreign value is. -/
theorem innermost_cases (w : World) (environment : Environment) :
    (w.activeValues environment = [] ∧ w.current environment = .ok none) ∨
      (∃ id rest, w.activeValues environment = .scope id :: rest ∧
        w.current environment = .ok (some id)) ∨
      (w.Foreign environment ∧ w.current environment = .error (.contextType Scope.contextKey)) := by
  rw [current_eq, Foreign]
  cases hvalues : w.activeValues environment with
  | nil => exact .inl ⟨rfl, rfl⟩
  | cons value rest =>
      cases value with
      | scope id => exact .inr (.inl ⟨id, rest, rfl, rfl⟩)
      | int n => exact .inr (.inr ⟨⟨_, rest, rfl, nofun⟩, rfl⟩)
      | bool b => exact .inr (.inr ⟨⟨_, rest, rfl, nofun⟩, rfl⟩)
      | text t => exact .inr (.inr ⟨⟨_, rest, rfl, nofun⟩, rfl⟩)
      | empty => exact .inr (.inr ⟨⟨_, rest, rfl, nofun⟩, rfl⟩)

/-- Where the innermost active scope is found, or none is active, no foreign value is innermost. -/
theorem not_foreign_of_current {w : World} {environment : Environment} {id? : Option ScopeId}
    (h : w.current environment = .ok id?) : ¬ w.Foreign environment := by
  rintro ⟨value, rest, hvalues, hforeign⟩
  rw [current_eq, hvalues] at h
  cases value with
  | scope id => exact hforeign id rfl
  | int n | bool b | text t | empty => cases h

/-- The innermost active scope is looked for in vain where a foreign value stands innermost. -/
theorem current_error_iff (w : World) (environment : Environment) (e : Error) :
    w.current environment = .error e ↔ w.Obstructed environment e := by
  rcases w.innermost_cases environment with
    ⟨-, hcurrent⟩ | ⟨id, rest, -, hcurrent⟩ | ⟨hforeign, hcurrent⟩
  · have hnone : ¬ w.Obstructed environment e := fun h => not_foreign_of_current hcurrent h.1
    rw [hcurrent]
    exact iff_of_false (by simp) hnone
  · have hnone : ¬ w.Obstructed environment e := fun h => not_foreign_of_current hcurrent h.1
    rw [hcurrent]
    exact iff_of_false (by simp) hnone
  · rw [hcurrent, Except.error.injEq, eq_comm]
    exact (and_iff_right hforeign).symm

end World

/-- The path of a scope is refused exactly if it has none. -/
theorem Scope.path_error_iff (scope : Scope) (e : Error) :
    scope.path = .error e ↔ scope.Unplaced e := by
  rw [path, Unplaced, resolved, path?]
  cases scope.place with
  | unresolved name => simp [Place.path?, Place.basename?, eq_comm]
  | resolved parents basename => simp [Place.path?]

/-- So is its path as text. -/
theorem Scope.fullName_error_iff (scope : Scope) (e : Error) :
    scope.fullName = .error e ↔ scope.Unplaced e := by
  rw [← path_error_iff, fullName]
  cases scope.path with
  | ok path => constructor <;> rintro ⟨⟩
  | error other => constructor <;> rintro ⟨⟩ <;> rfl

theorem Scope.resolved_of_path {scope : Scope} {path : Path} (h : scope.path = .ok path) :
    scope.resolved = true := by
  rw [resolved, path?_of_path h, Option.isSome_some]

/-- A scope is made from every path that is not empty. -/
theorem Scope.ofPath_error_iff (environment : Environment) (path : Path) (e : Error) :
    ofPath environment path = .error e ↔ path = [] ∧ e = .emptyPath := by
  rw [ofPath, Place.ofPath?]
  cases path with
  | nil => simp [eq_comm]
  | cons segment rest => simp [List.getLast?_cons]

/-- A scope is made from every scope that has a path. -/
theorem Scope.alike_error_iff (scope : Scope) (e : Error) :
    scope.alike = .error e ↔ scope.Unplaced e := by
  rw [← path_error_iff, alike]
  cases hpath : scope.path with
  | error other => constructor <;> rintro ⟨⟩ <;> rfl
  | ok path =>
      constructor
      · intro h
        have hnil := ((ofPath_error_iff scope.environment path e).mp h).1
        exact absurd hnil (ne_nil_of_path hpath)
      · rintro ⟨⟩

/-- A name is refused exactly if it breaks a rule. -/
theorem requireName_error_iff (options : Options) (name : Text) (e : Error) :
    requireName options name = .error e ↔ Refused options (some name) e := by
  rw [requireName, Refused]
  cases hfault : nameFault? options name with
  | none => simp [hfault]
  | some fault => simp [hfault, eq_comm]

/-- So is a name that need not be given. -/
theorem checkName_error_iff (options : Options) (name? : Option Text) (e : Error) :
    checkName options name? = .error e ↔ Refused options name? e := by
  cases name? with
  | none => simp [checkName, Refused]
  | some name => exact requireName_error_iff options name e

/-! ## Paths and numbers -/

section Scopes

variable {w : World} {id : ScopeId} {scope : Scope} (hscope : w.scope? id = some scope)
include hscope

namespace ScopeId

theorem fetch_alive : id.fetch w = .ok scope w := by
  rw [fetch_apply, hscope]

/-- Reading the path of a scope fails exactly if it has none. -/
theorem path_fails : Fails id.path w scope.Unplaced := by
  refine .of_bind (fetch_alive hscope) ?_
  exact .check scope.path_error_iff

/-- So does drawing the next number below it. -/
theorem nextNumber_fails : Fails id.nextNumber w scope.Unplaced := by
  refine .of_bind (fetch_alive hscope) ?_
  have hname : Fails (ofExcept scope.fullName) w scope.Unplaced := .check scope.fullName_error_iff
  -- a draw does not fail
  exact hname.bind fun name v _ => ⟨_, _, rfl⟩

/-- So does making the next numbered segment. -/
theorem nextSegment_fails : Fails id.nextSegment w scope.Unplaced := by
  refine (nextNumber_fails hscope).bind ?_
  intro number v _
  exact ⟨_, _, rfl⟩

/-! ## Labels below a scope -/

/-- Below a scope that has a path, a segment fails only for its name. -/
theorem segment_fails (hresolved : scope.resolved = true) (name? : Option Text) :
    Fails (id.segment name?) w (Refused (w.optionsOf scope.environment) name?) := by
  cases name? with
  | none =>
      refine (nextSegment_fails hscope).congr fun e => ⟨?_, ?_⟩
      · rintro ⟨name, fault, hname, -⟩
        cases hname
      · rintro ⟨hunresolved, -⟩
        cases hunresolved.symm.trans hresolved
  | some name =>
      refine .of_bind (fetch_alive hscope) (.of_bind (get_apply w) ?_)
      exact (Fails.check (requireName_error_iff _ name)).bind fun _ _ _ => ⟨_, _, rfl⟩

/-- The path is looked for first, then the name is checked. -/
theorem labelBelow_fails (name? : Option Text) :
    Fails (id.labelBelow name?) w fun e =>
      scope.Unplaced e ∨
        scope.resolved = true ∧ Refused (w.optionsOf scope.environment) name? e := by
  cases hpath : scope.path with
  | error e =>
      have hunplaced := (scope.path_error_iff e).mp hpath
      refine .of_error (e := e) ?_ fun other => ⟨?_, ?_⟩
      · simp only [labelBelow, bind_apply, path_apply, hscope, hpath]
      · rintro (⟨-, rfl⟩ | ⟨hresolved, -⟩)
        · exact hunplaced.2.symm
        · cases hresolved.symm.trans hunplaced.1
      · rintro rfl
        exact .inl hunplaced
  | ok path =>
      have hresolved := Scope.resolved_of_path hpath
      have hread : id.path w = .ok path w := by simp only [path_apply, hscope, hpath]
      have hsegment := segment_fails hscope hresolved name?
      refine .of_bind hread (Fails.bind (hsegment.congr fun e => ⟨?_, ?_⟩) fun _ _ _ => ⟨_, _, rfl⟩)
      · rintro (⟨hunresolved, -⟩ | ⟨-, hrefused⟩)
        · cases hunresolved.symm.trans hresolved
        · exact hrefused
      · intro hrefused
        exact .inr ⟨hresolved, hrefused⟩

end ScopeId

end Scopes

/-! ## Making scopes -/

namespace ScopeId

variable {w : World} {id : ScopeId}

/-- Under an identity that is not in use, making a scope fails as its origin does. -/
theorem create_fails (hfree : w.scope? id = none) {origin : Origin} {faults : Error → Prop}
    (h : ∀ e, origin.scope w = .error e ↔ faults e) : Fails (id.create origin) w faults := by
  have hcreate := create_free hfree origin
  cases hmade : origin.scope w with
  | error e =>
      simp only [hmade] at hcreate
      refine .of_error hcreate ?_
      intro other
      rw [← h, hmade, Except.error.injEq, eq_comm]
  | ok scope =>
      simp only [hmade] at hcreate
      refine .of_ok hcreate ?_
      intro e hfault
      cases hmade.symm.trans ((h e).mpr hfault)

/-- Making a scope from a path fails only if the path is empty. -/
theorem create_path_fails (hfree : w.scope? id = none) (environment : Environment)
    (segments : Path) :
    Fails (id.create (.path environment segments)) w fun e => segments = [] ∧ e = .emptyPath :=
  create_fails hfree (Scope.ofPath_error_iff environment segments)

/-- Making a scope from another fails only if that has no path. -/
theorem create_existing_fails (hfree : w.scope? id = none) {source : ScopeId} {scope : Scope}
    (hscope : w.scope? source = some scope) :
    Fails (id.create (.existing source)) w scope.Unplaced := by
  refine create_fails hfree fun e => ?_
  rw [Origin.scope, hscope]
  exact scope.alike_error_iff e

end ScopeId

/-! ## Entering and leaving -/

section Entering

variable {w : World} (h : w.Sound)
include h

/-- What is innermost is no scope, or it can be a parent. -/
theorem Scope.settle_fails (scope : Scope) :
    Fails scope.settle w fun e =>
      scope.resolved = false ∧ w.Obstructed scope.environment e := by
  cases hplace : scope.place with
  | resolved parents basename =>
      refine .of_ok (settle_resolved hplace w) ?_
      rintro e ⟨hunresolved, -⟩
      rw [resolved, path?, hplace] at hunresolved
      cases hunresolved
  | unresolved name =>
      have hunresolved : scope.resolved = false := by
        rw [resolved, path?, hplace]
        rfl
      have hlooked : ∀ id?, w.current scope.environment = .ok id? →
          ∀ e, ¬ (scope.resolved = false ∧ w.Obstructed scope.environment e) := by
        rintro id? hcurrent e ⟨-, hforeign, -⟩
        exact World.not_foreign_of_current hcurrent hforeign
      cases hcurrent : w.current scope.environment with
      | error e =>
          refine .of_error (e := e) ?_ fun other => ?_
          · simp only [settle, hplace, bind_apply, Environment.current_apply, hcurrent]
          · have hfault := w.current_error_iff scope.environment other
            rw [hcurrent, Except.error.injEq, eq_comm] at hfault
            rw [← hfault]
            exact and_iff_right hunresolved
      | ok top? =>
          cases top? with
          | none =>
              have hsettle := settle_top hplace hcurrent
              cases name <;> exact .of_ok hsettle (hlooked none hcurrent)
          | some top =>
              obtain ⟨above, path, habove, hpath⟩ := h.scope_of_current hcurrent
              have hsettle := settle_below hplace hcurrent habove hpath
              cases name <;> exact .of_ok hsettle (hlooked (some top) hcurrent)

variable {id : ScopeId} {scope : Scope} (hscope : w.scope? id = some scope)
include hscope

/-- Entering fails exactly if the scope has no place yet and a foreign value is innermost. -/
theorem ScopeId.enter_fails :
    Fails id.enter w fun e => scope.resolved = false ∧ w.Obstructed scope.environment e := by
  refine .of_bind (fetch_alive hscope) ?_
  -- once it is decided where the scope will stand, nothing fails any more
  refine (scope.settle_fails h).bind ?_
  intro place v _
  exact ⟨_, _, rfl⟩

omit h in
/-- A foreign value is not left. -/
theorem ScopeId.exit_foreign (hforeign : w.Foreign scope.environment) :
    id.exit w = .error (.contextType Scope.contextKey) w := by
  obtain ⟨value, rest, hvalues, hother⟩ := hforeign
  rw [exit_apply hscope, hvalues]
  cases value with
  | scope top => exact absurd rfl (hother top)
  | int n | bool b | text t | empty => rfl

/-- Leaving fails where nothing is active, where the innermost value is no scope, and where it is
    another scope. -/
theorem ScopeId.exit_fails :
    Fails id.exit w fun e =>
      (w.activeValues scope.environment = [] ∧ e = .noContext Scope.contextKey) ∨
      w.Obstructed scope.environment e ∨
      ∃ top other, w.current scope.environment = .ok (some top) ∧ top ≠ id ∧
        w.scope? top = some other ∧ e = .scopeOrder scope.display other.display := by
  have hexit := exit_apply hscope
  rcases w.innermost_cases scope.environment with
    ⟨hvalues, hcurrent⟩ | ⟨top, rest, hvalues, hcurrent⟩ | ⟨hforeign, hcurrent⟩
  · -- nothing is active
    rw [hvalues] at hexit
    refine .of_error hexit fun e => ⟨?_, fun he => .inl ⟨hvalues, he⟩⟩
    rintro (⟨-, rfl⟩ | ⟨hforeign, -⟩ | ⟨top, other, htop, -⟩)
    · rfl
    · exact absurd hforeign (World.not_foreign_of_current hcurrent)
    · cases htop.symm.trans hcurrent
  · rw [hvalues] at hexit
    by_cases htop : top = id
    · subst htop
      -- an innermost scope has an entry to give up
      have hentries : scope.entries ≠ 0 := fun hzero =>
        h.not_stuck ⟨top, scope, rest, hscope, hvalues, hzero⟩
      simp only [if_pos, leave_apply, if_neg hentries] at hexit
      refine .of_ok hexit ?_
      rintro e (⟨hnil, -⟩ | ⟨hforeign, -⟩ | ⟨other, _, hother, hne, -⟩)
      · cases hnil.symm.trans hvalues
      · exact World.not_foreign_of_current hcurrent hforeign
      · cases hother.symm.trans hcurrent
        exact hne rfl
    · -- another scope is innermost, and both are named
      obtain ⟨other, -, hother, -⟩ := h.scope_of_current hcurrent
      simp only [if_neg htop, hother] at hexit
      refine .of_error hexit fun e => ⟨?_, ?_⟩
      · rintro (⟨hnil, -⟩ | ⟨hforeign, -⟩ | ⟨top', other', hcurrent', -, hother', rfl⟩)
        · cases hnil.symm.trans hvalues
        · exact absurd hforeign (World.not_foreign_of_current hcurrent)
        · cases hcurrent'.symm.trans hcurrent
          cases hother'.symm.trans hother
          rfl
      · intro he
        exact .inr (.inr ⟨top, other, hcurrent, htop, hother, he⟩)
  · -- a foreign value is in the way
    have hexit := exit_foreign hscope hforeign
    refine .of_error hexit fun e => ⟨?_, fun he => .inr (.inl ⟨hforeign, he⟩)⟩
    rintro (⟨hnil, -⟩ | ⟨-, rfl⟩ | ⟨top, _, htop, -⟩)
    · obtain ⟨value, rest, hvalues, -⟩ := hforeign
      cases hnil.symm.trans hvalues
    · rfl
    · cases htop.symm.trans hcurrent

end Entering

/-! ## Labels on the spot -/

/-- The name is checked first, then the innermost active scope is looked for. -/
theorem Environment.momentaryLabel_fails {w : World} (h : w.Ready) (environment : Environment)
    (name? : Option Text) :
    Fails (environment.momentaryLabel name?) w fun e =>
      Refused (w.optionsOf environment) name? e ∨
        checkName (w.optionsOf environment) name? = .ok () ∧ w.Obstructed environment e := by
  cases hname : checkName (w.optionsOf environment) name? with
  | error e =>
      refine .of_error (momentaryLabel_refused h.idle hname) fun other => ?_
      rw [← checkName_error_iff, hname, Except.error.injEq]
      constructor
      · rintro (rfl | ⟨⟨⟩, -⟩)
        rfl
      · rintro rfl
        exact .inl rfl
  | ok u =>
      let scope : Scope := { environment, place := .unresolved name? }
      have hmade := Origin.scope_checkName environment name? w
      rw [hname] at hmade
      -- the new scope stands nowhere yet, so entering it is where a foreign value is found
      have hsound : (w.addScope .transient scope).Sound := h.toSound.addScope h.idle
      have hsettle := scope.settle_fails hsound
      rcases momentaryLabel_made hmade h.idle with
        ⟨e, hfailed, hlabel⟩ | ⟨parents, basename, v, hsettled, -, hlabel⟩
      · have hobstructed : w.Obstructed environment e := ((hsettle e _).mp hfailed).2.2
        refine .of_error hlabel fun other => ?_
        rw [← checkName_error_iff, hname]
        constructor
        · rintro (⟨⟨⟩⟩ | ⟨-, -, rfl⟩)
          exact hobstructed.2.symm
        · rintro rfl
          exact .inr ⟨rfl, hobstructed⟩
      · refine .of_ok hlabel fun e => ?_
        rw [← checkName_error_iff, hname]
        rintro (⟨⟨⟩⟩ | ⟨-, hobstructed⟩)
        cases hsettled.symm.trans ((hsettle e _).mpr ⟨rfl, rfl, hobstructed⟩)

/-! ## Along sessions -/

namespace Session

/-- A guard is kept exactly if the scope can be entered. -/
theorem newGuard_fails {s : Session} (h : s.world.Sound) {guard name : Text} {scope : Scope}
    (hfree : s.guards.get? guard = none) (hscope : s.world.scope? (.held name) = some scope) :
    Fails (perform (.newGuard guard name)) s fun e =>
      scope.resolved = false ∧ s.world.Obstructed scope.environment e := by
  have hrequire : requireFree s.guards guard s = .ok () s := by
    rw [requireFree, Roster.contains, hfree]
    rfl
  refine .of_bind (get_apply s) (.of_bind hrequire ?_)
  refine (act_fails (ScopeId.enter_fails h hscope)).bind fun _ t hentered => ?_
  rcases (ScopeId.held name).enter_cases s.world with
    ⟨e, hfailed⟩ | ⟨other, parents, basename, v, hother, hsettles, henter⟩
  · rw [act, hfailed] at hentered
    cases hentered
  · rw [act, henter] at hentered
    cases hentered
    -- the scope that was entered is there to be shown
    rw [bind_apply, modify_apply]
    simp only [bind_apply]
    rw [scopeOf_apply (hsettles.scope?_activate hother)]
    exact ⟨_, _, rfl⟩

/-- Whatever is requested, in every world that the session goes through, between two requests or
    between two commands of a script, and whatever stands among the active scopes there, each of
    the operations that work with scopes and labels fails with exactly the errors that are listed
    for it, and leaves the world as it was when it does: counters, stacks, scopes, options, log and
    metrics. Nothing else can go wrong with a scope that is alive. A guard is kept exactly if its
    scope can be entered. -/
theorem labeling_faults (requests : List Request) :
    let s := (Session.steps {} requests).2
    (∀ w ∈ Session.course {} requests,
      (∀ id scope, w.scope? id = some scope →
        Fails id.enter w
          (fun e => scope.resolved = false ∧ w.Obstructed scope.environment e) ∧
        Fails id.exit w
          (fun e =>
            (w.activeValues scope.environment = [] ∧ e = .noContext Scope.contextKey) ∨
            w.Obstructed scope.environment e ∨
            ∃ top other, w.current scope.environment = .ok (some top) ∧ top ≠ id ∧
              w.scope? top = some other ∧ e = .scopeOrder scope.display other.display) ∧
        (∀ name?, Fails (id.labelFor (.fresh name?)) w
          (fun e => scope.Unplaced e ∨
            scope.resolved = true ∧ Refused (w.optionsOf scope.environment) name? e)) ∧
        (∀ label, Fails (id.labelFor (.ready label)) w (fun _ => False)) ∧
        Fails id.nextNumber w scope.Unplaced ∧
        Fails id.nextSegment w scope.Unplaced ∧
        Fails id.path w scope.Unplaced ∧
        (∀ new, w.scope? new = none → Fails (new.create (.existing id)) w scope.Unplaced)) ∧
      (∀ environment,
        (∀ name?, Fails (environment.labelFor (.fresh name?)) w
          (fun e => Refused (w.optionsOf environment) name? e ∨
            checkName (w.optionsOf environment) name? = .ok () ∧ w.Obstructed environment e)) ∧
        (∀ label, Fails (environment.labelFor (.ready label)) w (fun _ => False)) ∧
        (∀ new segments, w.scope? new = none →
          Fails (new.create (.path environment segments)) w
            (fun e => segments = [] ∧ e = .emptyPath)))) ∧
    (∀ guard name scope, s.guards.get? guard = none → s.world.scope? (.held name) = some scope →
      Fails (perform (.newGuard guard name)) s
        (fun e => scope.resolved = false ∧ s.world.Obstructed scope.environment e)) := by
  intro s
  have hsound : s.world.Sound := steps_sound start_sound requests
  refine ⟨?worlds, fun guard name scope => newGuard_fails hsound⟩
  case worlds =>
    intro w hw
    have hready := course_ready requests w hw
    refine ⟨?scopes, ?environments⟩
    case scopes =>
      intro id scope hscope
      have henter := ScopeId.enter_fails hready.toSound hscope
      have hexit := ScopeId.exit_fails hready.toSound hscope
      refine ⟨henter, hexit, ScopeId.labelBelow_fails hscope, ?_, ScopeId.nextNumber_fails hscope,
        ScopeId.nextSegment_fails hscope, ScopeId.path_fails hscope, ?_⟩
      · intro label
        exact .of_ok rfl fun _ => not_false
      · intro new hfree
        exact ScopeId.create_existing_fails hfree hscope
    case environments =>
      intro environment
      refine ⟨environment.momentaryLabel_fails hready, ?_, ?_⟩
      · intro label
        exact .of_ok rfl fun _ => not_false
      · intro new segments hfree
        exact ScopeId.create_path_fails hfree environment segments

/-- A scope is active, another one waits for its first entry, and a number stands on top. -/
def obstructedRequests : List Request :=
  [.newScope "a" (.basename defaultName "a"), .enterScope "a",
    .newScope "b" (.unnamed defaultName), .push defaultName Scope.contextKey (some (.int 7))]

/-- There no guard is kept, and the session stays as it was. -/
theorem labeling_faults_obstructed :
    let s := (Session.steps {} obstructedRequests).2
    perform (.newGuard "g" "b") s = .error (.contextType Scope.contextKey) s := by
  intro s
  refine ((labeling_faults obstructedRequests).2 "g" "b" (.unnamed .default) ?_ ?_ _ _).mpr ?_
  · decide +kernel
  · decide +kernel
  · exact ⟨rfl, rfl, ⟨.int 7, [.scope (.held "a")], by decide +kernel, nofun⟩, rfl⟩

end Session

end ScopedLabels
