import ScopedLabels.Label.Making

/-!
# Lifetime — what each step in the life of a scope does to the world

Every operation of the library is a computation with state and failure. This file says once what
each operation on a single scope does: first as an equation for the result from a given world
(`enter_apply`, `release_apply`, ...), then as equations for what can be read off the world it
leads to: the scopes, the values of every key of every stack, and the counters. Later proofs use
these and do not open the operations again.

`settle` decides where a scope will stand. It reads the innermost active scope and draws at most
one number, so it leaves all scopes, stacks and options as they are, and changes nothing at all
when it fails.
-/

namespace ScopedLabels

/-! ## Computations from a given state -/

section Computation

variable {ε σ α β : Type}

/-- A computation goes on from the state that its first part leaves, and stops there if that fails.
    -/
theorem bind_apply (x : EStateM ε σ α) (f : α → EStateM ε σ β) (s : σ) :
    (x >>= f) s = match x s with
      | .ok a t => f a t
      | .error e t => .error e t := rfl

theorem map_apply (f : α → β) (x : EStateM ε σ α) (s : σ) :
    (f <$> x) s = match x s with
      | .ok a t => .ok (f a) t
      | .error e t => .error e t := rfl

theorem pure_apply (a : α) (s : σ) : (pure a : EStateM ε σ α) s = .ok a s := rfl

theorem get_apply (s : σ) : (get : EStateM ε σ σ) s = .ok s s := rfl

theorem modify_apply (f : σ → σ) (s : σ) :
    (modify f : EStateM ε σ PUnit) s = .ok () (f s) := rfl

theorem throw_apply (e : ε) (s : σ) : (throw e : EStateM ε σ α) s = .error e s := rfl

/-- A result is passed on with the state as it is. -/
theorem ofExcept_apply (x : Except ε α) (s : σ) :
    (ofExcept x : EStateM ε σ α) s = match x with
      | .ok a => .ok a s
      | .error e => .error e s := by
  cases x <;> rfl

end Computation

/-! ## Reading a stack and taking something off it -/

/-- Reading a stack leaves the world as it is, whether it succeeds or fails. -/
theorem Action.readStack_apply {α : Type} (name : Text) (read : Contexts → Except Error α)
    (w : World) : readStack name read w = match read (w.stack name) with
      | .ok a => .ok a w
      | .error e => .error e w := by
  simp only [readStack, bind_apply, get_apply, ofExcept_apply]
  cases read (w.stack name) <;> rfl

/-- Taking from a stack leaves what was not taken, and the world as it is if it fails. -/
theorem Action.takeFromStack_apply {α : Type} (name : Text)
    (take : Contexts → Except Error (α × Contexts)) (w : World) :
    takeFromStack name take w = match take (w.stack name) with
      | .ok (a, rest) => .ok a (w.modifyStack name fun _ => rest)
      | .error e => .error e w := by
  rw [takeFromStack, bind_apply, readStack_apply]
  cases take (w.stack name) <;> rfl

/-! ## Scopes and options read off a world -/

namespace World

/-- A scope that was added is found under its identity, and the others are found as before. -/
theorem scope?_addScope (w : World) (id other : ScopeId) (scope : Scope) :
    (w.addScope id scope).scope? other = if id = other then some scope else w.scope? other :=
  w.scopes.get?_insert id other scope

theorem scope?_dropScope (w : World) (id other : ScopeId) :
    (w.dropScope id).scope? other = if id = other then none else w.scope? other :=
  w.scopes.get?_erase id other

/-- A scope is replaced only if there is one under the identity. -/
theorem scope?_putScope (w : World) (id other : ScopeId) (scope : Scope) :
    (w.putScope id scope).scope? other =
      if id = other then (w.scope? other).map (fun _ => scope) else w.scope? other :=
  w.scopes.get?_modify id other fun _ => scope

/-- The innermost active scope is read off the values under the key of active scopes. -/
theorem current_eq (w : World) (environment : Environment) :
    w.current environment = match w.activeValues environment with
      | [] => .ok none
      | .scope id :: _ => .ok (some id)
      | _ :: _ => .error (.contextType Scope.contextKey) := by
  have hvalues : w.activeValues environment
      = (w.stack environment.contexts).values Scope.contextKey := rfl
  rw [hvalues]
  cases h : (w.stack environment.contexts).values Scope.contextKey with
  | nil =>
      have hempty : (w.stack environment.contexts).isEmpty Scope.contextKey = true := by
        rw [Contexts.isEmpty, h]
        rfl
      rw [current, if_pos hempty]
  | cons value rest =>
      have hempty : ¬ (w.stack environment.contexts).isEmpty Scope.contextKey = true := by
        rw [Contexts.isEmpty, h]
        exact Bool.false_ne_true
      rw [current, if_neg hempty, Contexts.topAs, Contexts.top, h]
      cases value <;> rfl

end World

/-- Changing the values of one key of one stack is seen there only. -/
theorem World.values_modifyStack_put (w : World) (stack key name other : Text)
    (change : List Value → List Value) :
    ((w.modifyStack stack fun c => c.put key (change (c.values key))).stack name).values other =
      if stack = name ∧ key = other then change ((w.stack name).values other)
      else (w.stack name).values other := by
  rw [stack_modifyStack]
  by_cases hname : stack = name
  · subst hname
    rw [if_pos rfl, Contexts.values_put]
    by_cases hkey : key = other
    · subst hkey
      rw [if_pos rfl, if_pos ⟨rfl, rfl⟩]
    · rw [if_neg hkey, if_neg fun h => hkey h.2]
  · rw [if_neg hname, if_neg fun h => hname h.1]

/-! ## Looking up and drawing -/

namespace ScopeId

/-- A scope is found, or the identity is unknown. -/
theorem fetch_apply (id : ScopeId) (w : World) :
    id.fetch w = match w.scope? id with
      | some scope => .ok scope w
      | none => .error (.misuse .unknownHandle) w := by
  rw [fetch, bind_apply, get_apply]
  cases h : w.scope? id with
  | none => simp only [h, throw_apply]
  | some scope => simp only [h, pure_apply]

/-- The path of a scope is read off the scope. -/
theorem path_apply (id : ScopeId) (w : World) :
    id.path w = match w.scope? id with
      | some scope => match scope.path with
        | .ok path => .ok path w
        | .error e => .error e w
      | none => .error (.misuse .unknownHandle) w := by
  cases h : w.scope? id with
  | none => simp only [path, bind_apply, fetch_apply, h]
  | some scope =>
      cases hp : scope.path <;>
        simp only [path, bind_apply, fetch_apply, h, ofExcept_apply, hp]

end ScopeId

/-- The innermost active scope is read off the world. -/
theorem Environment.current_apply (environment : Environment) (w : World) :
    environment.current w = match w.current environment with
      | .ok id? => .ok id? w
      | .error e => .error e w := by
  cases h : w.current environment <;>
    simp only [Environment.current, bind_apply, get_apply, ofExcept_apply, h]

/-- A path that a scope has is not empty. -/
theorem Scope.ne_nil_of_path {scope : Scope} {path : Path} (h : scope.path = .ok path) :
    path ≠ [] := by
  rw [Scope.path] at h
  split at h
  · cases h
  · cases h
    exact List.concat_ne_nil _ _

/-- A draw on a registry that a name stands for. -/
def World.drawn (w : World) (registry name : Text) : World :=
  w.modifyRegistry registry fun c => (c.draw name).2

theorem Environment.draw_apply (environment : Environment) (name : Text) (w : World) :
    environment.draw name w =
      .ok ((w.registry environment.counters).draw name).1 (w.drawn environment.counters name) :=
  rfl

/-- The next numbered segment below a scope is drawn under its path, from the registry of its
    environment. -/
theorem ScopeId.nextSegment_apply {id : ScopeId} {w : World} {scope : Scope} {path : Path}
    (hscope : w.scope? id = some scope) (hpath : scope.path = .ok path) :
    id.nextSegment w =
      .ok (Text.ofCount ((w.registry scope.environment.counters).draw path.text).1)
        (w.drawn scope.environment.counters path.text) := by
  have hname : scope.fullName = .ok path.text := by
    rw [Scope.fullName, hpath]
    rfl
  simp only [nextSegment, nextNumber, bind_apply, fetch_apply, hscope, ofExcept_apply, hname,
    Environment.draw_apply, pure_apply]

/-! ## Deciding where a scope will stand -/

namespace Scope

/-- A scope that stands somewhere stays there, and nothing is changed. -/
theorem settle_resolved {scope : Scope} {parents : Path} {basename : Text}
    (hplace : scope.place = .resolved parents basename) (w : World) :
    scope.settle w = .ok (parents, basename) w := by
  rw [settle, hplace]
  rfl

/-- Below an active scope, a named scope takes its own name and a nameless one the next number of
    the active scope, drawn from the registry of that scope. -/
theorem settle_below {scope : Scope} {name : Option Text} {w : World} {parent : ScopeId}
    {above : Scope} {path : Path} (hplace : scope.place = .unresolved name)
    (hcurrent : w.current scope.environment = .ok (some parent))
    (habove : w.scope? parent = some above) (hpath : above.path = .ok path) :
    scope.settle w = match name with
      | some name => .ok (path, name) w
      | none =>
          .ok (path, Text.ofCount ((w.registry above.environment.counters).draw path.text).1)
            (w.drawn above.environment.counters path.text) := by
  have hread : parent.path w = .ok path w := by
    simp only [ScopeId.path_apply, habove, hpath]
  cases name with
  | some name =>
      simp only [settle, hplace, bind_apply, Environment.current_apply, hcurrent, hread, pure_apply]
  | none =>
      simp only [settle, hplace, bind_apply, Environment.current_apply, hcurrent, hread,
        ScopeId.nextSegment_apply habove hpath, pure_apply]

/-- Outside every scope, a named scope stands alone and a nameless one below the place of global
    numbering. -/
theorem settle_top {scope : Scope} {name : Option Text} {w : World}
    (hplace : scope.place = .unresolved name)
    (hcurrent : w.current scope.environment = .ok none) :
    scope.settle w = match name with
      | some name => .ok ([], name) w
      | none =>
          .ok (globalPath, Text.ofCount
              ((w.registry scope.environment.counters).draw globalPath.text).1)
            ((w.fallBack scope.environment).drawn scope.environment.counters globalPath.text) := by
  cases name with
  | some name =>
      simp only [settle, hplace, bind_apply, Environment.current_apply, hcurrent, pure_apply]
  | none =>
      have hregistry : ((w.fallBack scope.environment).registry scope.environment.counters)
          = w.registry scope.environment.counters := by
        rw [World.fallBack]
        split <;> rfl
      simp only [settle, hplace, bind_apply, Environment.current_apply, hcurrent, modify_apply,
        Environment.draw_apply, hregistry, pure_apply]

/-- The ways in which it is decided where a scope will stand, each with the world that is left. -/
inductive Settles (scope : Scope) (w : World) : Path → Text → World → Prop
  /-- The scope stands somewhere already. -/
  | again {parents : Path} {basename : Text} (hplace : scope.place = .resolved parents basename) :
      Settles scope w parents basename w
  /-- A named scope below an active one. -/
  | named {parent : ScopeId} {above : Scope} {path : Path} {name : Text}
      (hplace : scope.place = .unresolved (some name))
      (hcurrent : w.current scope.environment = .ok (some parent))
      (habove : w.scope? parent = some above) (hpath : above.path = .ok path) :
      Settles scope w path name w
  /-- A nameless scope below an active one. -/
  | numbered {parent : ScopeId} {above : Scope} {path : Path}
      (hplace : scope.place = .unresolved none)
      (hcurrent : w.current scope.environment = .ok (some parent))
      (habove : w.scope? parent = some above) (hpath : above.path = .ok path) :
      Settles scope w path
        (Text.ofCount ((w.registry above.environment.counters).draw path.text).1)
        (w.drawn above.environment.counters path.text)
  /-- A named scope outside every scope. -/
  | alone {name : Text} (hplace : scope.place = .unresolved (some name))
      (hcurrent : w.current scope.environment = .ok none) : Settles scope w [] name w
  /-- A nameless scope outside every scope. -/
  | global (hplace : scope.place = .unresolved none)
      (hcurrent : w.current scope.environment = .ok none) :
      Settles scope w globalPath
        (Text.ofCount ((w.registry scope.environment.counters).draw globalPath.text).1)
        ((w.fallBack scope.environment).drawn scope.environment.counters globalPath.text)

/-- Where a scope will stand is decided in one of these ways, or it fails with the world as it was;
    then either the innermost value is no scope, or the scope it names cannot be a parent. -/
theorem settle_cases (scope : Scope) (w : World) :
    (∃ parents basename v, scope.settle w = .ok (parents, basename) v ∧
        scope.Settles w parents basename v) ∨
      ∃ e, scope.settle w = .error e w ∧ e ≠ .misuse .notEntered := by
  cases hplace : scope.place with
  | resolved parents basename =>
      exact Or.inl ⟨parents, basename, w, settle_resolved hplace w, .again hplace⟩
  | unresolved name =>
      cases hcurrent : w.current scope.environment with
      | error e =>
          -- the innermost value is no scope
          refine Or.inr ⟨e, ?_, ?_⟩
          · simp only [settle, hplace, bind_apply, Environment.current_apply, hcurrent]
          · rintro rfl
            rw [World.current_eq] at hcurrent
            split at hcurrent <;> cases hcurrent
      | ok parent? =>
          cases parent? with
          | none =>
              have h := settle_top hplace hcurrent
              cases name with
              | some name => exact Or.inl ⟨_, _, _, h, .alone hplace hcurrent⟩
              | none => exact Or.inl ⟨_, _, _, h, .global hplace hcurrent⟩
          | some parent =>
              cases habove : w.scope? parent with
              | none =>
                  -- the value points to a scope that is not alive
                  have hread : parent.path w = .error (.misuse .unknownHandle) w := by
                    simp only [ScopeId.path_apply, habove]
                  refine Or.inr ⟨.misuse .unknownHandle, ?_, nofun⟩
                  cases name <;>
                    simp only [settle, hplace, bind_apply, Environment.current_apply, hcurrent,
                      hread]
              | some above =>
                  cases hpath : above.path with
                  | error e =>
                      -- the scope above has no path
                      have hread : parent.path w = .error e w := by
                        simp only [ScopeId.path_apply, habove, hpath]
                      refine Or.inr ⟨e, ?_, ?_⟩
                      · cases name <;>
                          simp only [settle, hplace, bind_apply, Environment.current_apply,
                            hcurrent, hread]
                      · rintro rfl
                        rw [path] at hpath
                        split at hpath <;> cases hpath
                  | ok path =>
                      have h := settle_below hplace hcurrent habove hpath
                      cases name with
                      | some name =>
                          exact Or.inl ⟨_, _, _, h, .named hplace hcurrent habove hpath⟩
                      | none => exact Or.inl ⟨_, _, _, h, .numbered hplace hcurrent habove hpath⟩

end Scope

/-- Two worlds that differ in nothing but counters, log and metrics. -/
structure World.SameScopes (w v : World) : Prop where
  scopes : v.scopes = w.scopes
  contexts : v.contexts = w.contexts
  options : v.options = w.options

theorem World.SameScopes.refl (w : World) : w.SameScopes w := ⟨rfl, rfl, rfl⟩

theorem World.fallBack_sameScopes (w : World) (environment : Environment) :
    w.SameScopes (w.fallBack environment) := by
  rw [fallBack]
  split <;> exact ⟨rfl, rfl, rfl⟩

namespace World.SameScopes

variable {w v : World} (h : w.SameScopes v)
include h

theorem scope?_eq (id : ScopeId) : v.scope? id = w.scope? id := by
  rw [scope?, h.scopes, scope?]

theorem stack_eq (name : Text) : v.stack name = w.stack name := by
  rw [stack, h.contexts, stack]

theorem drawn (registry name : Text) : w.SameScopes (v.drawn registry name) :=
  ⟨h.scopes, h.contexts, h.options⟩

end World.SameScopes

/-- Deciding where a scope will stand leaves all scopes, stacks and options. -/
theorem Scope.Settles.sameScopes {scope : Scope} {w v : World} {parents : Path} {basename : Text}
    (h : scope.Settles w parents basename v) : w.SameScopes v := by
  cases h with
  | again hplace => exact .refl w
  | named hplace hcurrent habove hpath => exact .refl w
  | numbered hplace hcurrent habove hpath =>
      have hsame := World.SameScopes.refl w
      exact hsame.drawn _ _
  | alone hplace hcurrent => exact .refl w
  | global hplace hcurrent =>
      have hsame := w.fallBack_sameScopes scope.environment
      exact hsame.drawn _ _

/-! ## Making and entering -/

/-- Making a scope adds it, unless its origin refuses it or the identity is in use. -/
theorem ScopeId.create_apply (id : ScopeId) (origin : Origin) (w : World) :
    id.create origin w = match origin.scope w with
      | .error e => .error e w
      | .ok scope =>
          if w.scopes.contains id = true then .error (.misuse .handleInUse) w
          else .ok () (w.addScope id scope) := by
  cases h : origin.scope w with
  | error e => simp only [create, bind_apply, get_apply, ofExcept_apply, h]
  | ok scope =>
      simp only [create, bind_apply, get_apply, ofExcept_apply, h]
      split <;> rfl

/-- Under an identity that is not in use, making a scope fails only as its origin does. -/
theorem ScopeId.create_free {id : ScopeId} {w : World} (hfree : w.scope? id = none)
    (origin : Origin) :
    id.create origin w = match origin.scope w with
      | .error e => .error e w
      | .ok scope => .ok () (w.addScope id scope) := by
  have hcontains : ¬ w.scopes.contains id = true := by
    rw [Roster.contains, Option.not_isSome_iff_eq_none]
    exact hfree
  rw [create_apply]
  cases origin.scope w with
  | error e => rfl
  | ok scope => exact if_neg hcontains

/-- Making a scope either fails with the world as it was, or adds one that was not alive. -/
theorem ScopeId.create_cases (id : ScopeId) (origin : Origin) (w : World) :
    (∃ e, id.create origin w = .error e w) ∨
      ∃ scope, origin.scope w = .ok scope ∧ w.scope? id = none ∧
        id.create origin w = .ok () (w.addScope id scope) := by
  rw [create_apply]
  cases hmade : origin.scope w with
  | error e => exact Or.inl ⟨e, rfl⟩
  | ok scope =>
      by_cases hused : w.scopes.contains id = true
      · exact Or.inl ⟨.misuse .handleInUse, if_pos hused⟩
      · refine Or.inr ⟨scope, rfl, ?_, if_neg hused⟩
        rwa [Roster.contains, Option.not_isSome_iff_eq_none] at hused

/-- A scope is made with a name if the name is accepted, and it waits for its place. -/
theorem Scope.eq_of_named {options : Options} {environment : Environment} {name : Text}
    {scope : Scope} (h : Scope.named options environment name = .ok scope) :
    requireName options name = .ok () ∧
      scope = { environment, place := .unresolved (some name) } := by
  rw [Scope.named] at h
  cases hname : requireName options name with
  | error e =>
      rw [hname] at h
      cases h
  | ok u =>
      rw [hname] at h
      cases h
      exact ⟨rfl, rfl⟩

/-- A new scope counts no entry. It has a place, or it waits for one, with a name that was accepted
    or without a name. -/
theorem Origin.scope_cases {origin : Origin} {w : World} {scope : Scope}
    (h : origin.scope w = .ok scope) :
    scope.entries = 0 ∧
      (scope.resolved = true ∨ scope.place = .unresolved none ∨
        ∃ name, requireName (w.optionsOf scope.environment) name = .ok () ∧
          scope.place = .unresolved (some name)) := by
  -- a scope that is made from a path stands at that path
  have hpath : ∀ (environment : Environment) (path : Path),
      Scope.ofPath environment path = .ok scope → scope.entries = 0 ∧ scope.resolved = true := by
    intro environment path h
    rw [Scope.ofPath, Place.ofPath?] at h
    cases hlast : path.getLast? with
    | none =>
        rw [hlast] at h
        cases h
    | some basename =>
        rw [hlast] at h
        cases h
        exact ⟨rfl, rfl⟩
  cases origin with
  | basename environment name =>
      obtain ⟨hname, rfl⟩ := Scope.eq_of_named h
      exact ⟨rfl, .inr (.inr ⟨name, hname, rfl⟩)⟩
  | unnamed environment =>
      cases h
      exact ⟨rfl, .inr (.inl rfl)⟩
  | path environment segments =>
      obtain ⟨hentries, hresolved⟩ := hpath environment segments h
      exact ⟨hentries, .inl hresolved⟩
  | global environment =>
      cases h
      exact ⟨rfl, .inl rfl⟩
  | existing source =>
      simp only [Origin.scope] at h
      split at h
      · next other _ =>
          rw [Scope.alike] at h
          cases hother : other.path with
          | error e =>
              rw [hother] at h
              cases h
          | ok path =>
              rw [hother] at h
              obtain ⟨hentries, hresolved⟩ := hpath _ _ h
              exact ⟨hentries, .inl hresolved⟩
      · cases h

/-- A new scope counts no entry. -/
theorem Origin.entries_scope {origin : Origin} {w : World} {scope : Scope}
    (h : origin.scope w = .ok scope) : scope.entries = 0 :=
  (scope_cases h).1

/-- No origin fails for want of an entry. -/
theorem Origin.fault_ne_notEntered {origin : Origin} {w : World} {e : Error}
    (h : origin.scope w = .error e) : e ≠ .misuse .notEntered := by
  rintro rfl
  -- a path is refused only if it is empty
  have hpath : ∀ (environment : Environment) (path : Path),
      Scope.ofPath environment path ≠ .error (.misuse .notEntered) := by
    intro environment path h
    rw [Scope.ofPath] at h
    split at h <;> cases h
  cases origin with
  | basename environment name =>
      have h' : Scope.named (w.optionsOf environment) environment name = _ := h
      rw [Scope.named, requireName] at h'
      split at h' <;> exact nomatch h'
  | unnamed environment => cases h
  | path environment segments => exact hpath environment segments h
  | global environment => cases h
  | existing source =>
      simp only [Origin.scope] at h
      split at h
      · next other _ =>
          rw [Scope.alike, Scope.path] at h
          split at h
          · cases h
          · exact hpath _ _ h
      · cases h

/-- Entering a scope activates it where it settles. -/
theorem ScopeId.enter_apply (id : ScopeId) (w : World) :
    id.enter w = match w.scope? id with
      | none => .error (.misuse .unknownHandle) w
      | some scope => match scope.settle w with
        | .ok (parents, basename) v => .ok () (v.activate id scope parents basename)
        | .error e v => .error e v := by
  cases h : w.scope? id with
  | none => simp only [enter, bind_apply, fetch_apply, h]
  | some scope =>
      cases hsettle : scope.settle w <;>
        simp only [enter, bind_apply, fetch_apply, h, hsettle, modify_apply]

/-- Entering a scope either fails with the world as it was, or settles and activates it. -/
theorem ScopeId.enter_cases (id : ScopeId) (w : World) :
    (∃ e, id.enter w = .error e w) ∨
      ∃ scope parents basename v, w.scope? id = some scope ∧
        scope.Settles w parents basename v ∧
        id.enter w = .ok () (v.activate id scope parents basename) := by
  rw [enter_apply]
  cases hscope : w.scope? id with
  | none => exact Or.inl ⟨.misuse .unknownHandle, rfl⟩
  | some scope =>
      rcases scope.settle_cases w with ⟨parents, basename, v, hsettle, hsettles⟩ | ⟨e, hsettle, -⟩
      · refine Or.inr ⟨scope, parents, basename, v, rfl, hsettles, ?_⟩
        simp only [hsettle]
      · refine Or.inl ⟨e, ?_⟩
        simp only [hsettle]

namespace World

/-- The scope that an entry leaves: at its place, with one more entry. -/
def settled (scope : Scope) (parents : Path) (basename : Text) : Scope :=
  { scope with place := .resolved parents basename, entries := scope.entries + 1 }

variable (w : World) (id : ScopeId) (scope : Scope)

/-- A scope that is activated stands at its place, with one more entry. -/
theorem scope?_activate (parents : Path) (basename : Text) (other : ScopeId) :
    (w.activate id scope parents basename).scope? other =
      if id = other then (w.scope? other).map (fun _ => settled scope parents basename)
      else w.scope? other :=
  scope?_putScope w id other (settled scope parents basename)

/-- It goes on top of the active scopes of its environment. -/
theorem stack_activate (parents : Path) (basename : Text) (name : Text) :
    (w.activate id scope parents basename).stack name =
      if scope.environment.contexts = name then
        (w.stack scope.environment.contexts).push Scope.contextKey (.scope id)
      else w.stack name :=
  w.stack_modifyStack scope.environment.contexts name (·.push Scope.contextKey (.scope id))

/-- Under all other keys the values stay. -/
theorem values_activate (parents : Path) (basename : Text) (name key : Text) :
    ((w.activate id scope parents basename).stack name).values key =
      if scope.environment.contexts = name ∧ Scope.contextKey = key then
        .scope id :: (w.stack name).values key
      else (w.stack name).values key :=
  w.values_modifyStack_put scope.environment.contexts Scope.contextKey name key (.scope id :: ·)

/-- Its counter is zeroed. -/
theorem registry_activate (parents : Path) (basename : Text) (name : Text) :
    (w.activate id scope parents basename).registry name =
      if scope.environment.counters = name then
        (w.registry scope.environment.counters).zero (Path.text (parents ++ [basename]))
      else w.registry name :=
  registry_modifyRegistry w scope.environment.counters name
    (·.zero (Path.text (parents ++ [basename])))

/-- What was entered is innermost. -/
theorem activeValues_activate (parents : Path) (basename : Text) :
    (w.activate id scope parents basename).activeValues scope.environment =
      .scope id :: w.activeValues scope.environment := by
  rw [activeValues, values_activate, if_pos ⟨rfl, rfl⟩, activeValues]

end World

/-- A scope that is entered is settled from then on. -/
theorem Scope.Settles.scope?_activate {id : ScopeId} {scope : Scope} {w v : World} {parents : Path}
    {basename : Text} (h : scope.Settles w parents basename v) (hscope : w.scope? id = some scope) :
    (v.activate id scope parents basename).scope? id =
      some (World.settled scope parents basename) := by
  rw [World.scope?_activate, if_pos rfl, h.sameScopes.scope?_eq, hscope]
  rfl

/-! ## Leaving -/

/-- Giving up an entry takes the scope off, if it knows of one. -/
theorem ScopeId.leave_apply (id : ScopeId) (scope : Scope) (w : World) :
    id.leave scope w =
      if scope.entries = 0 then .error (.misuse .notEntered) w
      else .ok () (w.deactivate id scope) := by
  rw [leave]
  split <;> rfl

/-- Releasing a scope gives up its entry if it is the innermost one, and otherwise only reports what
    is wrong. -/
theorem ScopeId.release_apply {id : ScopeId} {w : World} {scope : Scope}
    (hscope : w.scope? id = some scope) :
    id.release w = match w.activeValues scope.environment with
      | [] => .ok () (w.report .error (.releasedInactive scope.display))
      | top :: _ =>
          if top = .scope id then id.leave scope w
          else .ok () (w.report .error (.releasedOutOfOrder scope.display)) := by
  simp only [release, bind_apply, fetch_apply, hscope, get_apply]
  cases w.activeValues scope.environment with
  | nil => rfl
  | cons top rest =>
      simp only
      split <;> rfl

/-- Leaving a scope gives up its entry if it is the innermost one, and otherwise fails. -/
theorem ScopeId.exit_apply {id : ScopeId} {w : World} {scope : Scope}
    (hscope : w.scope? id = some scope) :
    id.exit w = match w.activeValues scope.environment with
      | [] => .error (.noContext Scope.contextKey) w
      | .scope top :: _ =>
          if top = id then id.leave scope w
          else match w.scope? top with
            | some other => .error (.scopeOrder scope.display other.display) w
            | none => .error (.misuse .unknownHandle) w
      | _ :: _ => .error (.contextType Scope.contextKey) w := by
  have hvalues : w.activeValues scope.environment
      = (w.stack scope.environment.contexts).values Scope.contextKey := rfl
  rw [hvalues]
  simp only [exit, bind_apply, fetch_apply, hscope, get_apply, Contexts.topAs, Contexts.top]
  cases (w.stack scope.environment.contexts).values Scope.contextKey with
  | nil => rfl
  | cons value rest =>
      cases value with
      | scope top =>
          -- the scope to leave is the innermost one, or the two are named in the error
          show (if top = id then id.leave scope else do
              throw (.scopeOrder scope.display (← top.fetch).display) : Action Unit) w =
            if top = id then id.leave scope w
            else match w.scope? top with
              | some other => .error (.scopeOrder scope.display other.display) w
              | none => .error (.misuse .unknownHandle) w
          by_cases htop : top = id
          · rw [if_pos htop, if_pos htop]
          · rw [if_neg htop, if_neg htop, bind_apply, fetch_apply]
            cases w.scope? top <;> rfl
      | int n => rfl
      | bool b => rfl
      | text t => rfl
      | empty => rfl

namespace World

variable (w : World) (id : ScopeId) (scope : Scope)

/-- A scope that is deactivated has one entry less. -/
theorem scope?_deactivate (other : ScopeId) :
    (w.deactivate id scope).scope? other =
      if id = other then
        (w.scope? other).map (fun _ => { scope with entries := scope.entries - 1 })
      else w.scope? other :=
  scope?_putScope w id other { scope with entries := scope.entries - 1 }

/-- The top of the active scopes of its environment is gone. -/
theorem stack_deactivate (name : Text) :
    (w.deactivate id scope).stack name =
      if scope.environment.contexts = name then
        (w.stack scope.environment.contexts).dropTop Scope.contextKey
      else w.stack name :=
  w.stack_modifyStack scope.environment.contexts name (·.dropTop Scope.contextKey)

/-- Under all other keys the values stay, too. -/
theorem values_deactivate (name key : Text) :
    ((w.deactivate id scope).stack name).values key =
      if scope.environment.contexts = name ∧ Scope.contextKey = key then
        ((w.stack name).values key).tail
      else (w.stack name).values key :=
  w.values_modifyStack_put scope.environment.contexts Scope.contextKey name key List.tail

end World

/-! ## Destroying -/

/-- Destroying a scope evicts it if it knows of entries, and drops it. -/
theorem ScopeId.destroy_apply {id : ScopeId} {w : World} {scope : Scope}
    (hscope : w.scope? id = some scope) :
    id.destroy w =
      .ok () ((if scope.entries = 0 then w else w.evict id scope).dropScope id) := by
  simp only [destroy, bind_apply, fetch_apply, hscope, modify_apply]

theorem World.scope?_evict (w : World) (id other : ScopeId) (scope : Scope) :
    (w.evict id scope).scope? other = w.scope? other := by
  simp only [evict]
  split <;> rfl

/-- Evicting a scope takes exactly its own entries off the active-scope list. -/
theorem World.values_evict (w : World) (id : ScopeId) (scope : Scope) (name key : Text) :
    ((w.evict id scope).stack name).values key =
      if scope.environment.contexts = name ∧ Scope.contextKey = key then
        ((w.stack name).values key).filter (· != .scope id)
      else (w.stack name).values key := by
  have hfilter := w.values_modifyStack_put scope.environment.contexts Scope.contextKey name key
    (List.filter (· != .scope id))
  rw [← hfilter]
  simp only [evict]
  -- reporting what was taken off changes no stack
  split <;> rfl

end ScopedLabels
