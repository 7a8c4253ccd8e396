import ScopedLabels.Proofs.Lifetime

/-!
# Views — what one environment shows of a world

Of all that a world holds, work in one environment depends on four things only: the scopes that are
alive, the values on the active-scope list, the options and the counters. `World.view` reads them
off, and two worlds with one view behave alike.

The life of a scope is short to tell on views. Entering a new scope pushes it onto the view, where
`Counters.settle` says at which spot it stands and what it draws; releasing and destroying the scope
that was pushed last restores the view as it was. A label is made by doing one after the other.
-/

namespace ScopedLabels

/-- What an environment shows of a world. -/
@[ext]
structure View where
  scope? : ScopeId → Option Scope
  /-- The active-scope list, innermost first. -/
  active : List Value
  options : Options
  counters : Counters

/-- What an environment shows of a world. -/
def World.view (w : World) (environment : Environment) : View :=
  { scope? := w.scope?
    active := w.activeValues environment
    options := w.optionsOf environment
    counters := w.registry environment.counters }

/-- A spot in the hierarchy: the segments of the parents and its own. -/
structure Spot where
  parents : Path
  basename : Text

namespace Spot

/-- The path of a spot. -/
def path (spot : Spot) : Path :=
  spot.parents ++ [spot.basename]

/-- The scope that stands at a spot and was entered once. -/
def scope (spot : Spot) (environment : Environment) : Scope :=
  { environment, place := .resolved spot.parents spot.basename, entries := 1 }

end Spot

/-- Where a new scope settles, by the path of the innermost active scope and its own name, and the
    counters that this leaves. A nameless scope outside every scope is numbered globally. -/
def Counters.settle (counters : Counters) (above : Option Path) : Option Text → Spot × Counters
  | some name => (⟨above.getD [], name⟩, counters)
  | none =>
    let base := above.getD Scope.globalPath
    let (number, counters) := counters.draw base.text
    (⟨base, Text.ofCount number⟩, counters)

/-- Check a name if there is one. -/
def checkName (options : Options) : Option Text → Except Error Unit
  | some name => requireName options name
  | none => .ok ()

/-! ## Reading views -/

namespace View

/-- A view with one more scope, which is the innermost active one. -/
def push (v : View) (id : ScopeId) (scope : Scope) : View :=
  { v with
    scope? := fun other => if id = other then some scope else v.scope? other
    active := .scope id :: v.active }

/-- The path of the innermost active scope, if anything is active. -/
def Active (v : View) : Option Path → Prop
  | none => v.active = []
  | some path => ∃ id scope rest, v.active = .scope id :: rest ∧ v.scope? id = some scope ∧
      scope.path = .ok path

/-- The innermost active scope draws its numbers from the counters of the environment. -/
def Numbers (v : View) (environment : Environment) : Prop :=
  ∀ id scope rest, v.active = .scope id :: rest → v.scope? id = some scope →
    scope.environment.counters = environment.counters

theorem scope?_push_self (v : View) (id : ScopeId) (scope : Scope) :
    (v.push id scope).scope? id = some scope :=
  if_pos rfl

/-- The scope that was pushed last is the innermost one. -/
theorem active_push (v : View) (id : ScopeId) (spot : Spot) (environment : Environment) :
    (v.push id (spot.scope environment)).Active (some spot.path) :=
  ⟨id, spot.scope environment, v.active, rfl, v.scope?_push_self id _, rfl⟩

/-- A scope of the environment that is innermost numbers in its registry. -/
theorem numbers_push (v : View) (id : ScopeId) (spot : Spot) (environment : Environment) :
    (v.push id (spot.scope environment)).Numbers environment := by
  intro other scope rest hactive hscope
  cases hactive
  rw [scope?_push_self] at hscope
  cases hscope
  rfl

/-- Outside every scope nothing draws from elsewhere. -/
theorem Active.numbers_of_none {v : View} (h : v.Active none) (environment : Environment) :
    v.Numbers environment := by
  intro id scope rest hactive
  have hnil : v.active = [] := h
  rw [hnil] at hactive
  cases hactive

/-- A scope that is not alive yet may be added without touching what is active. -/
theorem Active.of_scope?_eq {v u : View} {above : Option Path} (h : v.Active above)
    (hactive : u.active = v.active)
    (hscopes : ∀ id scope, v.scope? id = some scope → u.scope? id = some scope) :
    u.Active above := by
  cases above with
  | none => exact hactive.trans h
  | some path =>
      obtain ⟨id, scope, rest, htop, hscope, hpath⟩ := h
      exact ⟨id, scope, rest, hactive.trans htop, hscopes id scope hscope, hpath⟩

end View

namespace World

variable (w : World) (environment : Environment)

theorem view_count (metric : Metric) :
    (w.count metric).view environment = w.view environment := rfl

/-- Changing the registry of the environment changes the counters of the view. -/
theorem view_modifyRegistry (f : Counters → Counters) :
    (w.modifyRegistry environment.counters f).view environment =
      { w.view environment with counters := f (w.view environment).counters } := by
  have hcounters := registry_modifyRegistry w environment.counters environment.counters f
  rw [if_pos rfl] at hcounters
  exact View.ext rfl rfl rfl hcounters

/-- Falling back changes the metrics and the log, which a view does not hold. -/
theorem view_fallBack : (w.fallBack environment).view environment = w.view environment := by
  rw [fallBack]
  split <;> rfl

theorem current_of_inactive (h : (w.view environment).Active none) :
    w.current environment = .ok none := by
  have hnil : w.activeValues environment = [] := h
  rw [current_eq, hnil]

/-- The innermost active scope is current, alive and has the path. -/
theorem current_of_active {path : Path} (h : (w.view environment).Active (some path)) :
    ∃ id scope, w.current environment = .ok (some id) ∧ w.scope? id = some scope ∧
      scope.path = .ok path := by
  obtain ⟨id, scope, rest, hactive, hscope, hpath⟩ := h
  have htop : w.activeValues environment = .scope id :: rest := hactive
  refine ⟨id, scope, ?_, hscope, hpath⟩
  rw [current_eq, htop]

end World

/-! ## Entering a new scope -/

section Entering

variable {w : World} {environment : Environment} {id : ScopeId} {name : Option Text}
  {above : Option Path}

/-- A new scope settles where `Counters.settle` says, and this leaves the view as it was but for
    the counters. -/
theorem Scope.settle_view {scope : Scope} (hplace : scope.place = .unresolved name)
    (hscope : scope.environment = environment) (habove : (w.view environment).Active above)
    (hnumbers : name = none → (w.view environment).Numbers environment) :
    let settled := (w.view environment).counters.settle above name
    ∃ v, scope.settle w = .ok (settled.1.parents, settled.1.basename) v ∧
      v.view environment = { w.view environment with counters := settled.2 } := by
  subst hscope
  -- by what is innermost, and then by whether there is a name
  cases above with
  | none =>
      have hsettle := settle_top hplace (w.current_of_inactive scope.environment habove)
      cases name with
      | some name => exact ⟨w, hsettle, rfl⟩
      | none =>
          refine ⟨_, hsettle, ?_⟩
          rw [World.drawn, World.view_modifyRegistry, World.view_fallBack]
          rfl
  | some path =>
      obtain ⟨parent, scopeAbove, hcurrent, hparent, hpath⟩ :=
        w.current_of_active scope.environment habove
      have hsettle := settle_below hplace hcurrent hparent hpath
      cases name with
      | some name => exact ⟨w, hsettle, rfl⟩
      | none =>
          obtain ⟨top, topScope, rest, hactive, htop, -⟩ := habove
          have hcounters : scopeAbove.environment.counters = scope.environment.counters := by
            refine hnumbers rfl top scopeAbove rest hactive ?_
            have hvalues : w.activeValues scope.environment = .scope top :: rest := hactive
            rw [World.current_eq, hvalues] at hcurrent
            cases hcurrent
            exact hparent
          rw [hcounters] at hsettle
          refine ⟨_, hsettle, ?_⟩
          rw [World.drawn, World.view_modifyRegistry]
          rfl

/-- A scope that may or may not be given a name is refused by the check of the name, and else stands
    nowhere yet. -/
theorem Origin.scope_checkName (environment : Environment) (name : Option Text) (w : World) :
    (Origin.ofName? environment name).scope w =
      match checkName (w.optionsOf environment) name with
      | .error e => .error e
      | .ok () => .ok { environment, place := .unresolved name } := by
  cases name with
  | none => rfl
  | some name =>
      have hscope : Origin.scope w (.ofName? environment (some name)) =
          Scope.named (w.optionsOf environment) environment name := rfl
      rw [hscope, Scope.named, checkName]
      cases requireName (w.optionsOf environment) name <;> rfl

/-- Making a scope of a name that may be missing fails with the check of the name, and else adds a
    scope that stands nowhere yet. -/
theorem ScopeId.create_ofName? (environment : Environment) (name : Option Text)
    (hfree : w.scope? id = none) :
    id.create (.ofName? environment name) w =
      match checkName (w.optionsOf environment) name with
      | .error e => .error e w
      | .ok () => .ok () (w.addScope id { environment, place := .unresolved name }) := by
  rw [create_free hfree, Origin.scope_checkName]
  cases checkName (w.optionsOf environment) name <;> rfl

/-- Entering a scope that was just made pushes it onto the view at the spot where it settles, with
    the counter of its path set to zero. -/
theorem ScopeId.enter_view (hfree : w.scope? id = none)
    (habove : (w.view environment).Active above)
    (hnumbers : name = none → (w.view environment).Numbers environment) :
    let settled := (w.view environment).counters.settle above name
    ∃ v, id.enter (w.addScope id { environment, place := .unresolved name }) = .ok () v ∧
      v.view environment =
        View.push { w.view environment with counters := settled.2.zero settled.1.path.text } id
          (settled.1.scope environment) := by
  intro settled
  have hadded : ∀ other, (w.addScope id { environment, place := .unresolved name }).scope? other =
      if id = other then some { environment, place := .unresolved name } else w.scope? other :=
    fun other => World.scope?_addScope w id other _
  generalize hw : w.addScope id { environment, place := .unresolved name } = added at hadded ⊢
  have hview : added.view environment =
      { w.view environment with scope? := added.scope? } := by rw [← hw]; rfl
  -- the new scope stands nowhere yet, so what was active is so still
  have hkept : ∀ other scope, w.scope? other = some scope → added.scope? other = some scope := by
    intro other scope hother
    rw [hadded, if_neg]
    · exact hother
    · rintro rfl
      rw [hfree] at hother
      cases hother
  have habove' : (added.view environment).Active above := by
    rw [hview]
    exact habove.of_scope?_eq rfl hkept
  have hnumbers' : name = none → (added.view environment).Numbers environment := by
    intro hname other scope rest hactive hscope
    have hother : added.scope? other = some scope := hscope
    rw [hview] at hactive
    rw [hadded] at hother
    split at hother
    · cases hother
      rfl
    · exact hnumbers hname other scope rest hactive hother
  have hself : added.scope? id = some { environment, place := .unresolved name } := by
    rw [hadded, if_pos rfl]
  obtain ⟨u, hsettle, hu⟩ := Scope.settle_view
    (show Scope.place { environment, place := .unresolved name } = .unresolved name from rfl) rfl
    habove' hnumbers'
  rw [hview] at hsettle hu
  refine ⟨u.activate id { environment, place := .unresolved name } settled.1.parents
    settled.1.basename, ?_, ?_⟩
  · rw [enter_apply, hself]
    simp only
    rw [hsettle]
  · -- settling drew at most a number, so all but the counters is as it was
    have hscopes : u.scope? = added.scope? := congrArg View.scope? hu
    have hactive : u.activeValues environment = w.activeValues environment :=
      congrArg View.active hu
    have hcounters : u.registry environment.counters = settled.2 := congrArg View.counters hu
    have hoptions : u.optionsOf environment = w.optionsOf environment := congrArg View.options hu
    refine View.ext ?_ ?_ hoptions ?_
    · funext other
      show (u.activate id _ settled.1.parents settled.1.basename).scope? other =
        if id = other then some (settled.1.scope environment) else w.scope? other
      rw [World.scope?_activate, hscopes, hadded]
      split
      · rfl
      · rfl
    · show ((u.activate id _ settled.1.parents settled.1.basename).stack
        environment.contexts).values Scope.contextKey = .scope id :: w.activeValues environment
      rw [World.values_activate, if_pos ⟨rfl, rfl⟩, ← hactive]
      rfl
    · show (u.activate id _ settled.1.parents settled.1.basename).registry environment.counters =
        settled.2.zero settled.1.path.text
      rw [World.registry_activate, if_pos rfl]
      show (u.registry environment.counters).zero _ = _
      rw [hcounters]
      rfl

end Entering

/-! ## Closing the scope that was entered last -/

/-- Releasing and destroying the scope that was pushed last restores the view. -/
theorem ScopeId.close_view {w : World} {environment : Environment} {id : ScopeId} {spot : Spot}
    {v : View} (hview : w.view environment = v.push id (spot.scope environment))
    (hfree : v.scope? id = none) :
    ∃ released closed, id.release w = .ok () released ∧ id.destroy released = .ok () closed ∧
      closed.view environment = v := by
  -- the scope that was pushed is alive with one entry, and the rest is the view below
  have hscopes : ∀ other, w.scope? other =
      if id = other then some (spot.scope environment) else v.scope? other :=
    fun other => congrFun (congrArg View.scope? hview) other
  have hactive : w.activeValues environment = .scope id :: v.active := congrArg View.active hview
  have hscope : w.scope? id = some (spot.scope environment) := by rw [hscopes, if_pos rfl]
  have hleft : (w.deactivate id (spot.scope environment)).scope? id =
      some { spot.scope environment with entries := 0 } := by
    rw [World.scope?_deactivate, if_pos rfl, hscope]
    rfl
  refine ⟨w.deactivate id (spot.scope environment),
    (w.deactivate id (spot.scope environment)).dropScope id, ?_, ?_, ?_⟩
  · have hvalues : w.activeValues (spot.scope environment).environment = .scope id :: v.active :=
      hactive
    rw [release_apply hscope, hvalues]
    simp only [if_pos]
    rw [leave_apply]
    rfl
  · rw [destroy_apply hleft]
    rfl
  · have hoptions : w.optionsOf environment = v.options := congrArg View.options hview
    have hcounters : w.registry environment.counters = v.counters := congrArg View.counters hview
    refine View.ext ?_ ?_ hoptions hcounters
    · funext other
      show ((w.deactivate id _).dropScope id).scope? other = v.scope? other
      rw [World.scope?_dropScope]
      split
      · next heq =>
          rw [← heq, hfree]
      · next hne => rw [World.scope?_deactivate, if_neg hne, hscopes, if_neg hne]
    · show ((w.deactivate id (spot.scope environment)).stack environment.contexts).values
        Scope.contextKey = v.active
      rw [World.values_deactivate, if_pos ⟨rfl, rfl⟩]
      show (w.activeValues environment).tail = v.active
      rw [hactive]
      rfl

/-! ## Making a label -/

section Label

variable {w : World} {environment : Environment} {name : Option Text}
  (hfree : w.scope? .transient = none)
include hfree

/-- A label of a name that is refused is not made. -/
theorem Environment.momentaryLabel_refused {e : Error}
    (hname : checkName (w.optionsOf environment) name = .error e) :
    environment.momentaryLabel name w = .error e w := by
  have hcreate := ScopeId.create_ofName? environment name hfree
  rw [hname] at hcreate
  simp only [momentaryLabel, bind_apply, hcreate]

/-- A label is the path of the spot where a scope of its name settles. Making it leaves the view as
    it was but for the counters. -/
theorem Environment.momentaryLabel_view {above : Option Path}
    (habove : (w.view environment).Active above)
    (hnumbers : name = none → (w.view environment).Numbers environment)
    (hname : checkName (w.optionsOf environment) name = .ok ()) :
    let settled := (w.view environment).counters.settle above name
    ∃ v, environment.momentaryLabel name w = .ok ⟨settled.1.path⟩ v ∧
      v.view environment =
        { w.view environment with counters := settled.2.zero settled.1.path.text } := by
  intro settled
  have hcreate := ScopeId.create_ofName? environment name hfree
  rw [hname] at hcreate
  obtain ⟨entered, henter, hentered⟩ := ScopeId.enter_view hfree habove hnumbers
  have hscope : (entered.count .labelsGenerated).scope? .transient =
      some (settled.1.scope environment) :=
    (congrFun (congrArg View.scope? hentered) .transient).trans (View.scope?_push_self _ _ _)
  have hpath : ScopeId.transient.path (entered.count .labelsGenerated) =
      .ok settled.1.path (entered.count .labelsGenerated) := by
    simp only [ScopeId.path_apply, hscope]
    rfl
  have hcounted := (entered.view_count environment .labelsGenerated).trans hentered
  obtain ⟨released, closed, hrelease, hdestroy, hclosed⟩ := ScopeId.close_view hcounted hfree
  refine ⟨closed, ?_, hclosed⟩
  simp only [momentaryLabel, bind_apply, hcreate, Action.ensuring, ScopeId.guarded, henter,
    modify_apply, hpath, pure_apply, hrelease, hdestroy]

end Label

end ScopedLabels
