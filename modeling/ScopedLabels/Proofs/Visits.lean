import ScopedLabels.Proofs.Lifetime
import ScopedLabels.Script.Runner

/-!
# Visits — scopes that are opened and closed, and scopes that live for a moment

A runner opens a scope by making and entering it, and closes it by releasing and destroying it. An
automatic label does all of this at once. This file says what such a sequence comes to: either it
fails, and the world is the one before it, or each of its steps succeeds and the world it leads to
is named. In particular nothing that comes after the entry of an automatic label can fail.
-/

namespace ScopedLabels

/-- Dropping a scope that was just added restores the world. -/
theorem World.dropScope_addScope {w : World} {id : ScopeId} (hfree : w.scope? id = none)
    (scope : Scope) : (w.addScope id scope).dropScope id = w :=
  congrArg (fun scopes => { w with scopes }) (w.scopes.erase_insert scope hfree)

/-- The scope that is made from a name or from none. -/
theorem Origin.scope_ofName? {environment : Environment} {name : Option Text} {w : World}
    {scope : Scope} (h : (Origin.ofName? environment name).scope w = .ok scope) :
    scope = { environment, place := .unresolved name } := by
  cases name with
  | none =>
      cases h
      rfl
  | some name =>
      obtain ⟨-, hscope⟩ := Scope.eq_of_named h
      exact hscope

/-- Whether a fallback to global numbering is reported has nothing to do with the scopes. -/
theorem World.fallBack_addScope (w : World) (id : ScopeId) (scope : Scope)
    (environment : Environment) :
    (w.addScope id scope).fallBack environment = (w.fallBack environment).addScope id scope := by
  have hoptions : (w.addScope id scope).optionsOf environment = w.optionsOf environment := rfl
  simp only [fallBack, hoptions]
  split <;> rfl

/-- A scope that has no place yet is nobody's parent, so where it will stand can be told without
    it. -/
theorem Scope.Settles.of_addScope {scope : Scope} {id : ScopeId} {w v : World} {parents : Path}
    {basename : Text} (h : scope.Settles (w.addScope id scope) parents basename v)
    (hunresolved : scope.resolved = false) :
    ∃ u, scope.Settles w parents basename u ∧ v = u.addScope id scope := by
  have hother : ∀ {parent above path}, (w.addScope id scope).scope? parent = some above →
      above.path = .ok path → w.scope? parent = some above := by
    intro parent above path habove hpath
    rw [World.scope?_addScope] at habove
    split at habove
    · cases habove
      rw [Scope.path] at hpath
      split at hpath
      · cases hpath
      · next hplace =>
          rw [resolved, path?, hplace] at hunresolved
          cases hunresolved
    · exact habove
  cases h with
  | again hplace =>
      rw [resolved, path?, hplace] at hunresolved
      cases hunresolved
  | named hplace hcurrent habove hpath =>
      exact ⟨w, .named hplace hcurrent (hother habove hpath) hpath, rfl⟩
  | numbered hplace hcurrent habove hpath =>
      exact ⟨_, .numbered hplace hcurrent (hother habove hpath) hpath, rfl⟩
  | alone hplace hcurrent => exact ⟨w, .alone hplace hcurrent, rfl⟩
  | global hplace hcurrent =>
      refine ⟨_, .global hplace hcurrent, ?_⟩
      rw [w.fallBack_addScope]
      rfl

/-! ## Opening and closing -/

namespace ScopeId

/-- A scope that was just made is alive. -/
theorem scope?_addScope_self (id : ScopeId) (w : World) (scope : Scope) :
    (w.addScope id scope).scope? id = some scope := by
  rw [World.scope?_addScope, if_pos rfl]

/-- A scope is opened by making and entering it. If that fails, nothing has changed. -/
theorem open_cases (id : ScopeId) (origin : Origin) (w : World) :
    (∃ e, (do id.create origin; id.enter.onFailure id.destroy : Action Unit) w = .error e w) ∨
      ∃ scope parents basename v, origin.scope w = .ok scope ∧ w.scope? id = none ∧
        scope.Settles (w.addScope id scope) parents basename v ∧
        (do id.create origin; id.enter.onFailure id.destroy : Action Unit) w =
          .ok () (v.activate id scope parents basename) := by
  rcases id.create_cases origin w with ⟨e, hfailed⟩ | ⟨scope, hmade, hfree, hadded⟩
  · refine Or.inl ⟨e, ?_⟩
    rw [bind_apply, hfailed]
  · rcases id.enter_cases (w.addScope id scope) with
      ⟨e, hfailed⟩ | ⟨other, parents, basename, v, hother, hsettles, hentered⟩
    · refine Or.inl ⟨e, ?_⟩
      rw [bind_apply, hadded]
      simp only [Action.onFailure, hfailed, bind_apply,
        destroy_apply (id.scope?_addScope_self w scope), if_pos (Origin.entries_scope hmade),
        throw_apply, World.dropScope_addScope hfree]
    · rw [scope?_addScope_self] at hother
      cases hother
      refine Or.inr ⟨scope, parents, basename, v, hmade, hfree, hsettles, ?_⟩
      rw [bind_apply, hadded]
      simp only [Action.onFailure, hentered]

/-- An innermost scope with an entry is released by leaving it. -/
theorem release_top {id : ScopeId} {w : World} {scope : Scope} {rest : List Value}
    (hscope : w.scope? id = some scope) (hentries : scope.entries ≠ 0)
    (htop : w.activeValues scope.environment = .scope id :: rest) :
    id.release w = .ok () (w.deactivate id scope) := by
  rw [release_apply hscope, htop]
  simp only [if_pos]
  rw [leave_apply, if_neg hentries]

/-- Releasing a scope leaves it if it is the innermost one, and only reports it otherwise. It fails
    if there is no scope, or one that counts no entry. -/
theorem release_cases (id : ScopeId) (w : World) :
    (∃ e, id.release w = .error e w ∧ ∀ scope, w.scope? id = some scope → scope.entries = 0) ∨
      (∃ notice, id.release w = .ok () (w.report .error notice)) ∨
      ∃ scope rest, w.scope? id = some scope ∧
        w.activeValues scope.environment = .scope id :: rest ∧
        id.release w = .ok () (w.deactivate id scope) := by
  cases hscope : w.scope? id with
  | none =>
      refine Or.inl ⟨.misuse .unknownHandle, ?_, nofun⟩
      rw [release, bind_apply, fetch_apply, hscope]
  | some scope =>
      cases hvalues : w.activeValues scope.environment with
      | nil =>
          refine Or.inr (Or.inl ⟨.releasedInactive scope.display, ?_⟩)
          rw [release_apply hscope, hvalues]
      | cons top rest =>
          by_cases htop : top = .scope id
          · subst htop
            by_cases hentries : scope.entries = 0
            · refine Or.inl ⟨.misuse .notEntered, ?_, ?_⟩
              · rw [release_apply hscope, hvalues]
                simp only [if_pos]
                rw [leave_apply, if_pos hentries]
              · rintro _ ⟨⟩
                exact hentries
            · exact Or.inr (Or.inr ⟨scope, rest, rfl, hvalues, release_top hscope hentries hvalues⟩)
          · refine Or.inr (Or.inl ⟨.releasedOutOfOrder scope.display, ?_⟩)
            rw [release_apply hscope, hvalues]
            exact if_neg htop

/-- Leaving a scope on request fails with the world as it was, unless it is the innermost one. -/
theorem exit_cases (id : ScopeId) (w : World) :
    (∃ e, id.exit w = .error e w) ∨
      ∃ scope rest, w.scope? id = some scope ∧
        w.activeValues scope.environment = .scope id :: rest ∧
        id.exit w = .ok () (w.deactivate id scope) := by
  cases hscope : w.scope? id with
  | none =>
      refine Or.inl ⟨.misuse .unknownHandle, ?_⟩
      rw [exit, bind_apply, fetch_apply, hscope]
  | some scope =>
      rw [exit_apply hscope]
      cases hvalues : w.activeValues scope.environment with
      | nil => exact Or.inl ⟨_, rfl⟩
      | cons value rest =>
          cases value with
          | scope top =>
              by_cases htop : top = id
              · subst htop
                simp only [if_pos, leave_apply]
                by_cases hentries : scope.entries = 0
                · exact Or.inl ⟨_, if_pos hentries⟩
                · exact Or.inr ⟨scope, rest, rfl, hvalues, if_neg hentries⟩
              · simp only [if_neg htop]
                cases w.scope? top <;> exact Or.inl ⟨_, rfl⟩
          -- the innermost value is no scope
          | int n => exact Or.inl ⟨_, rfl⟩
          | bool b => exact Or.inl ⟨_, rfl⟩
          | text t => exact Or.inl ⟨_, rfl⟩
          | empty => exact Or.inl ⟨_, rfl⟩

/-- A scope that has left its only entry is destroyed without looking for more. -/
theorem destroy_deactivate {id : ScopeId} {w : World} {scope : Scope}
    (hscope : w.scope? id = some scope) (hentries : scope.entries = 1) :
    id.destroy (w.deactivate id scope) = .ok () ((w.deactivate id scope).dropScope id) := by
  have hleft : (w.deactivate id scope).scope? id =
      some { scope with entries := scope.entries - 1 } := by
    rw [World.scope?_deactivate, if_pos rfl, hscope]
    rfl
  have hzero : scope.entries - 1 = 0 := by omega
  rw [destroy_apply hleft, if_pos hzero]

/-- An innermost scope with one entry is closed without a complaint. -/
theorem close_apply {id : ScopeId} {w : World} {scope : Scope} {rest : List Value}
    (hscope : w.scope? id = some scope) (hentries : scope.entries = 1)
    (htop : w.activeValues scope.environment = .scope id :: rest) :
    (do id.release; id.destroy : Action Unit) w =
      .ok () ((w.deactivate id scope).dropScope id) := by
  rw [bind_apply, release_top hscope (by omega) htop]
  exact destroy_deactivate hscope hentries

end ScopeId

/-- A runner opens a scope and goes one level deeper. If the scope cannot be entered there, nothing
    has changed. -/
theorem Script.Run.openScope_cases (name : Option Text) (s : RunState) :
    (∃ e, openScope name s = .error e s) ∨
      ∃ scope parents basename v,
        (Origin.ofName? s.runner.environment name).scope s.world = .ok scope ∧
        s.world.scope? (.opened s.runner.name s.runner.depth) = none ∧
        scope.Settles (s.world.addScope (.opened s.runner.name s.runner.depth) scope)
          parents basename v ∧
        openScope name s = .ok ()
          { s with
            world := v.activate (.opened s.runner.name s.runner.depth) scope parents basename
            runner := { s.runner with depth := s.runner.depth + 1 } } := by
  let id := ScopeId.opened s.runner.name s.runner.depth
  have hopen : openScope name s =
      (do act (do id.create (.ofName? s.runner.environment name); id.enter.onFailure id.destroy)
          modifyRunner fun r => { r with depth := r.depth + 1 } : Run Unit) s := rfl
  rw [hopen, bind_apply]
  simp only [act]
  rcases id.open_cases (.ofName? s.runner.environment name) s.world with
    ⟨e, hfailed⟩ | ⟨scope, parents, basename, v, hmade, hfree, hsettles, hopened⟩
  · refine Or.inl ⟨e, ?_⟩
    rw [hfailed]
  · refine Or.inr ⟨scope, parents, basename, v, hmade, hfree, hsettles, ?_⟩
    rw [hopened]
    rfl

/-! ## Labels made on the spot -/

/-- The world once a label was made: its scope was entered and counted, left, and destroyed. -/
def World.labeled (v : World) (scope : Scope) (parents : Path) (basename : Text) : World :=
  ((v.activate .transient scope parents basename).count .labelsGenerated).deactivate .transient
      (settled scope parents basename)
    |>.dropScope .transient

/-- Once the scope of an automatic label is made, only entering it may fail, and then it is
    destroyed again. Otherwise the label is its path. -/
theorem Environment.momentaryLabel_made {environment : Environment} {name : Option Text}
    {w : World} {scope : Scope}
    (hmade : (Origin.ofName? environment name).scope w = .ok scope)
    (hfree : w.scope? .transient = none) :
    (∃ e, scope.settle (w.addScope .transient scope) = .error e (w.addScope .transient scope) ∧
        environment.momentaryLabel name w = .error e w) ∨
      ∃ parents basename v,
        scope.settle (w.addScope .transient scope) = .ok (parents, basename) v ∧
        scope.Settles (w.addScope .transient scope) parents basename v ∧
        environment.momentaryLabel name w =
          .ok ⟨parents ++ [basename]⟩ (v.labeled scope parents basename) := by
  have hadded := ScopeId.create_free hfree (.ofName? environment name)
  simp only [hmade] at hadded
  have hnew := ScopeId.transient.scope?_addScope_self w scope
  have hentries := Origin.entries_scope hmade
  have hentered := ScopeId.transient.enter_apply (w.addScope .transient scope)
  simp only [hnew] at hentered
  rcases scope.settle_cases (w.addScope .transient scope) with
    ⟨parents, basename, v, hsettle, hsettles⟩ | ⟨e, hsettle, -⟩
  · refine Or.inr ⟨parents, basename, v, hsettle, hsettles, ?_⟩
    simp only [hsettle] at hentered
    -- from here on every step finds the scope innermost, with one entry
    let u := (v.activate .transient scope parents basename).count .labelsGenerated
    have hscope : u.scope? .transient = some (World.settled scope parents basename) :=
      hsettles.scope?_activate hnew
    have hpath : ScopeId.transient.path u = .ok (parents ++ [basename]) u := by
      rw [ScopeId.path_apply, hscope]
      rfl
    have hone : (World.settled scope parents basename).entries = 1 := by
      show scope.entries + 1 = 1
      omega
    have htop : u.activeValues scope.environment =
        .scope .transient :: v.activeValues scope.environment :=
      v.activeValues_activate .transient scope parents basename
    have hrelease := ScopeId.release_top hscope (by omega) htop
    have hdestroy := ScopeId.destroy_deactivate hscope hone
    simp only [momentaryLabel, bind_apply, hadded, Action.ensuring, ScopeId.guarded, hentered,
      modify_apply, pure_apply]
    simp only [u] at hpath hrelease hdestroy
    simp only [hpath, hrelease, hdestroy]
    rfl
  · refine Or.inl ⟨e, hsettle, ?_⟩
    simp only [hsettle] at hentered
    simp only [momentaryLabel, bind_apply, hadded, Action.ensuring, ScopeId.guarded, hentered,
      ScopeId.destroy_apply hnew, if_pos hentries, throw_apply, World.dropScope_addScope hfree]

/-- An automatic label is the path of a scope that was made for it. If no scope can be made or
    entered there, nothing has changed. -/
theorem Environment.momentaryLabel_cases (environment : Environment) (name : Option Text)
    (w : World) :
    (∃ e, environment.momentaryLabel name w = .error e w) ∨
      ∃ scope parents basename v, (Origin.ofName? environment name).scope w = .ok scope ∧
        w.scope? .transient = none ∧
        scope.Settles (w.addScope .transient scope) parents basename v ∧
        environment.momentaryLabel name w =
          .ok ⟨parents ++ [basename]⟩ (v.labeled scope parents basename) := by
  rcases ScopeId.transient.create_cases (.ofName? environment name) w with
    ⟨e, hfailed⟩ | ⟨scope, hmade, hfree, hadded⟩
  · refine Or.inl ⟨e, ?_⟩
    simp only [momentaryLabel, bind_apply, hfailed]
  · rcases momentaryLabel_made hmade hfree with
      ⟨e, -, hfailed⟩ | ⟨parents, basename, v, -, hsettles, hlabeled⟩
    · exact Or.inl ⟨e, hfailed⟩
    · exact Or.inr ⟨scope, parents, basename, v, hmade, hfree, hsettles, hlabeled⟩

/-! ## Commands that bring a name -/

namespace Script.Run

theorem execute_scope {command : Command} {name : Option Text} (h : command.verb = .scope name)
    (s : RunState) : execute command s = openScope name s := by
  rw [execute, bind_apply, get_apply]
  simp only [h]

/-- A command for a label makes it below the innermost active scope, and prints it. -/
theorem execute_label {command : Command} {name : Option Text} (h : command.verb = .label name)
    (s : RunState) :
    execute command s =
      (do print (← act (s.runner.environment.momentaryLabel name)).text : Run Unit) s := by
  rw [execute, bind_apply, get_apply]
  simp only [h]
  rfl

/-- A runner prints an automatic label. If none can be made there, nothing has changed. -/
theorem label_cases (name : Option Text) (s : RunState) :
    (∃ e, (do print (← act (s.runner.environment.momentaryLabel name)).text : Run Unit) s =
      .error e s) ∨
      ∃ scope parents basename v,
        (Origin.ofName? s.runner.environment name).scope s.world = .ok scope ∧
        s.world.scope? .transient = none ∧
        scope.Settles (s.world.addScope .transient scope) parents basename v ∧
        (do print (← act (s.runner.environment.momentaryLabel name)).text : Run Unit) s = .ok ()
          { s with
            world := v.labeled scope parents basename
            printed := Label.text ⟨parents ++ [basename]⟩ :: s.printed } := by
  rw [bind_apply]
  simp only [act]
  rcases s.runner.environment.momentaryLabel_cases name s.world with
    ⟨e, hfailed⟩ | ⟨scope, parents, basename, v, hmade, hfree, hsettles, hdone⟩
  · refine Or.inl ⟨e, ?_⟩
    rw [hfailed]
  · refine Or.inr ⟨scope, parents, basename, v, hmade, hfree, hsettles, ?_⟩
    rw [hdone]
    rfl

end Script.Run

end ScopedLabels
