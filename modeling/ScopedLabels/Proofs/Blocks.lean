import ScopedLabels.Proofs.Keeping
import ScopedLabels.Proofs.Visits

/-!
# Blocks — what is entered and made in blocks is left and destroyed in blocks

Guards and local scopes end with the block that they stand in, also when the block is left by an
exception. A `Block` is a program in which nothing is entered or made in any other way: labels and
numbers, exceptions, local scopes and guarded blocks, nested as one likes, over whatever scopes are
alive.

`World.Restores` says that a world is as another one was, as far as it matters for who is active:
every stack holds what it held, every scope counts the entries that it counted, and nothing was
logged as an error in between. A guarded block restores the world if its body does
(`guarded_restores`), and so does a block with a scope of its own (`local_restores`); what happens
inside may meet a scope that is active already, a foreign value on top, or a stale count. So every
block restores the world, however it ends.
-/

namespace ScopedLabels

/-! ## Logs without errors -/

/-- What was written from one log to the other, and that no record of it is an error. -/
def Log.Quiet (l m : Log) : Prop :=
  ∃ records, m.written = records ++ l.written ∧ ∀ entry ∈ records, entry.2.level ≠ .error

namespace Log.Quiet

theorem refl (l : Log) : l.Quiet l :=
  ⟨[], rfl, fun _ hmem => absurd hmem List.not_mem_nil⟩

theorem trans {l m n : Log} (h : l.Quiet m) (h' : m.Quiet n) : l.Quiet n := by
  obtain ⟨first, hm, hfirst⟩ := h
  obtain ⟨second, hn, hsecond⟩ := h'
  refine ⟨second ++ first, by rw [hn, hm, List.append_assoc], ?_⟩
  intro entry hmem
  rcases List.mem_append.mp hmem with hmem | hmem
  · exact hsecond entry hmem
  · exact hfirst entry hmem

/-- Writing a record that is no error goes on quietly, whether the record is admitted or not. -/
theorem write (l : Log) {level : Level} (hlevel : level ≠ .error) (notice : Notice) :
    l.Quiet (l.write level notice) := by
  rw [Log.write]
  split
  · refine ⟨[(l.sink, ⟨level, notice⟩)], rfl, ?_⟩
    intro entry hmem
    rw [List.mem_singleton.mp hmem]
    exact hlevel
  · exact .refl l

end Log.Quiet

/-! ## Restored worlds -/

/-- What is to be restored of a scope: the environment it belongs to, and how many entries it
    counts. -/
def Scope.standing (scope : Scope) : Environment × Nat :=
  (scope.environment, scope.entries)

/-- All stacks hold the same again, the same scopes are alive and count the same entries, and in
    between nothing was logged as an error. -/
structure World.Restores (w v : World) : Prop where
  stack : ∀ name, v.stack name = w.stack name
  standing : ∀ id, (v.scope? id).map Scope.standing = (w.scope? id).map Scope.standing
  quiet : w.log.Quiet v.log

namespace World.Restores

variable {w v u : World}

theorem refl (w : World) : w.Restores w where
  stack _ := rfl
  standing _ := rfl
  quiet := .refl _

theorem trans (h : w.Restores v) (h' : v.Restores u) : w.Restores u where
  stack name := (h'.stack name).trans (h.stack name)
  standing id := (h'.standing id).trans (h.standing id)
  quiet := h.quiet.trans h'.quiet

instance : IsPreorder World World.Restores where
  refl := refl
  trans _ _ _ := trans

/-- Changing counters and metrics restores. -/
theorem of_eq (hscopes : v.scopes = w.scopes) (hcontexts : v.contexts = w.contexts)
    (hlog : v.log = w.log) : w.Restores v where
  stack name := by rw [World.stack, hcontexts, World.stack]
  standing id := by rw [World.scope?, hscopes, World.scope?]
  quiet := by
    rw [hlog]
    exact .refl _

/-- A scope is still alive, in its environment and with its entries. -/
theorem scope_of_scope (h : w.Restores v) {id : ScopeId} {scope : Scope}
    (hscope : w.scope? id = some scope) :
    ∃ now, v.scope? id = some now ∧ now.environment = scope.environment ∧
      now.entries = scope.entries := by
  have hstanding := h.standing id
  rw [hscope] at hstanding
  cases hnow : v.scope? id with
  | none =>
      rw [hnow] at hstanding
      cases hstanding
  | some now =>
      rw [hnow] at hstanding
      have heq : now.standing = scope.standing := Option.some.inj hstanding
      exact ⟨now, rfl, congrArg Prod.fst heq, congrArg Prod.snd heq⟩

/-- What was not alive is not alive. -/
theorem none_of_none (h : w.Restores v) {id : ScopeId} (hnone : w.scope? id = none) :
    v.scope? id = none := by
  have hstanding := h.standing id
  rwa [hnone, Option.map_none, Option.map_eq_none_iff] at hstanding

end World.Restores

/-- Deciding where a scope will stand logs no error. -/
theorem Scope.Settles.quiet {scope : Scope} {w v : World} {parents : Path} {basename : Text}
    (h : scope.Settles w parents basename v) : w.log.Quiet v.log := by
  cases h with
  | again hplace => exact .refl _
  | named hplace hcurrent habove hpath => exact .refl _
  | numbered hplace hcurrent habove hpath => exact .refl _
  | alone hplace hcurrent => exact .refl _
  | global hplace hcurrent =>
      -- the fallback to global numbering may be logged, as a warning
      show w.log.Quiet (w.fallBack scope.environment).log
      rw [World.fallBack]
      split
      · exact .write w.log (by simp) _
      · exact .refl _

/-! ## Guarded blocks -/

section Guarded

variable {w v u : World} {id : ScopeId} {scope : Scope} {parents : Path} {basename : Text}

/-- Where an entered scope has been restored to its entry, releasing it takes that entry back. -/
theorem ScopeId.release_restored (hscope : w.scope? id = some scope)
    (hsettles : scope.Settles w parents basename v)
    (h : World.Restores (v.activate id scope parents basename) u) :
    ∃ now : Scope, u.scope? id = some now ∧ id.release u = .ok () (u.deactivate id now) ∧
      w.Restores (u.deactivate id now) := by
  have hsame := hsettles.sameScopes
  have hentered : (v.activate id scope parents basename).scope? id =
      some (World.settled scope parents basename) := by
    rw [World.scope?_activate, if_pos rfl, hsame.scope?_eq, hscope]
    rfl
  obtain ⟨now, hnow, henvironment, hentries⟩ := h.scope_of_scope hentered
  have henvironment : now.environment = scope.environment := henvironment
  have hentries : now.entries = scope.entries + 1 := hentries
  -- its stack is the one that the entry was pushed onto
  have hstack : u.stack scope.environment.contexts =
      (w.stack scope.environment.contexts).push Scope.contextKey (.scope id) := by
    rw [h.stack, World.stack_activate, if_pos rfl, hsame.stack_eq]
  have htop : u.activeValues now.environment = .scope id :: w.activeValues scope.environment := by
    rw [World.activeValues, henvironment, hstack, Contexts.values_push, if_pos rfl]
    rfl
  refine ⟨now, hnow, release_top hnow (by omega) htop, ?_, ?_, ?_⟩
  · intro name
    rw [World.stack_deactivate, henvironment]
    split
    · next hname => rw [hstack, Contexts.dropTop_push, hname]
    · next hname => rw [h.stack, World.stack_activate, if_neg hname, hsame.stack_eq]
  · intro other
    rw [World.scope?_deactivate]
    split
    · next heq =>
        subst heq
        rw [hnow, hscope]
        show some (now.environment, now.entries - 1) = some (scope.environment, scope.entries)
        rw [henvironment, hentries, Nat.add_sub_cancel]
    · next hne =>
        rw [h.standing, World.scope?_activate, if_neg hne, hsame.scope?_eq]
  · have hexit : u.log.Quiet (u.deactivate id now).log := .write u.log (by simp) _
    have henter : v.log.Quiet (v.activate id scope parents basename).log :=
      .write v.log (by simp) _
    exact ((hsettles.quiet.trans henter).trans h.quiet).trans hexit

end Guarded

/-- A guarded block restores the world if its body does, also when the scope cannot be entered. -/
theorem ScopeId.guarded_restores {α : Type} (id : ScopeId) {body : Action α}
    (hbody : Keeps World.Restores body) : Keeps World.Restores (id.guarded body) := by
  intro w
  rw [after_guarded]
  rcases id.enter_cases w with
    ⟨e, hfailed⟩ | ⟨scope, parents, basename, v, hscope, hsettles, hentered⟩
  · rw [hfailed]
    exact .refl w
  · obtain ⟨now, -, hrelease, hrestores⟩ :=
      release_restored hscope hsettles (hbody (v.activate id scope parents basename))
    simp only [hentered]
    rw [after_ok hrelease]
    exact hrestores

/-! ## Local scopes -/

/-- A block with a scope of its own restores the world if its body does, also when the scope cannot
    be made. -/
theorem ScopeId.local_restores {α : Type} (id : ScopeId) (origin : Origin) {body : Action α}
    (hbody : Keeps World.Restores body) :
    Keeps World.Restores (do id.create origin; Action.ensuring body id.destroy) := by
  intro w
  rw [after_bind]
  rcases id.create_cases origin w with ⟨e, hfailed⟩ | ⟨scope, hmade, hfree, hadded⟩
  · rw [hfailed]
    exact .refl w
  · have hrestores := hbody (w.addScope id scope)
    obtain ⟨now, hnow, -, hentries⟩ := hrestores.scope_of_scope (id.scope?_addScope_self w scope)
    rw [Origin.entries_scope hmade] at hentries
    simp only [hadded, after_ensuring]
    -- the scope counts no entry any more, so none is looked for
    rw [after_ok (destroy_apply hnow), if_pos hentries]
    refine ⟨hrestores.stack, ?_, hrestores.quiet⟩
    intro other
    rw [World.scope?_dropScope]
    split
    · next heq => rw [← heq, hfree]
    · next hne => rw [hrestores.standing, World.scope?_addScope, if_neg hne]

/-! ## Labels and numbers -/

/-- Looking a scope up changes nothing, also if it is not alive. -/
theorem ScopeId.fetch_restores (id : ScopeId) : Keeps World.Restores id.fetch := by
  intro w
  rw [after, fetch_apply]
  cases w.scope? id <;> exact .refl w

theorem ScopeId.path_restores (id : ScopeId) : Keeps World.Restores id.path :=
  id.fetch_restores.bind fun scope => .ofExcept scope.path

theorem ScopeId.nextSegment_restores (id : ScopeId) : Keeps World.Restores id.nextSegment := by
  refine .bind (id.fetch_restores.bind fun scope => ?_) fun number => .pure _
  exact .bind (.ofExcept _) fun name => fun w => .of_eq rfl rfl rfl

theorem count_restores (metric : Metric) :
    Keeps World.Restores (modify (·.count metric) : Action Unit) :=
  .modify fun _ => .of_eq rfl rfl rfl

/-- A label that is made by a scope is a guarded block around a count, within the life of that
    scope. -/
theorem Environment.labelFor_restores (environment : Environment) (naming : Naming) :
    Keeps World.Restores (environment.labelFor naming) := by
  cases naming with
  | ready label => exact .pure label
  | fresh name =>
      refine ScopeId.transient.local_restores _ (ScopeId.transient.guarded_restores ?_)
      refine (count_restores _).bind fun _ => ?_
      exact ScopeId.transient.path_restores.bind fun _ => .pure _

/-- A label below a scope enters nothing. -/
theorem ScopeId.labelFor_restores (id : ScopeId) (naming : Naming) :
    Keeps World.Restores (id.labelFor naming) := by
  cases naming with
  | ready label => exact .pure label
  | fresh name =>
      refine id.path_restores.bind fun path => .bind ?_ fun segment => ?_
      · cases name with
        | none => exact id.nextSegment_restores
        | some name =>
            refine id.fetch_restores.bind fun scope => .bind .get fun w => ?_
            exact .bind (.ofExcept _) fun _ => .pure name
      · exact (count_restores _).bind fun _ => .pure _

/-! ## Programs of blocks -/

/-- A program whose result has a type. Later parts of it may depend on the results of earlier
    ones. -/
inductive Block : Type → Type 1
  /-- Do nothing and end with a result. -/
  | done {α : Type} (result : α) : Block α
  /-- Raise an exception. -/
  | raise {α : Type} (error : Error) : Block α
  /-- One program after the other. -/
  | andThen {α β : Type} (first : Block β) (next : β → Block α) : Block α
  /-- Catch an exception. -/
  | catching {α : Type} (body : Block α) (handler : Error → Block α) : Block α
  /-- A label below the innermost active scope of an environment. -/
  | label (environment : Environment) (naming : Naming) : Block Label
  /-- A label below a scope. -/
  | labelBelow (id : ScopeId) (naming : Naming) : Block Label
  /-- The next number of a scope. -/
  | number (id : ScopeId) : Block Text
  /-- A block with a scope of its own, under an identity that is not in use. -/
  | withScope {α : Type} (id : ScopeId) (origin : Origin) (body : Block α) : Block α
  /-- A block in which a guard keeps a scope entered. -/
  | guarded {α : Type} (id : ScopeId) (body : Block α) : Block α

namespace Block

/-- Run a program. -/
def run {α : Type} : Block α → Action α
  | done result => return result
  | raise error => throw error
  | andThen first next => do (next (← first.run)).run
  | catching body handler => fun w =>
    match body.run w with
    | .ok result v => .ok result v
    | .error e v => (handler e).run v
  | label environment naming => environment.labelFor naming
  | labelBelow id naming => id.labelFor naming
  | number id => id.nextSegment
  | withScope id origin body => do
    id.create origin
    Action.ensuring body.run id.destroy
  | guarded id body => id.guarded body.run

/-- By induction on the program: a handler starts where its body failed, and scopes and guards put
    back what they took. -/
theorem run_restores {α : Type} (program : Block α) : Keeps World.Restores program.run := by
  induction program with
  | done result => exact .pure result
  | raise error => exact .throw error
  | andThen first next ihfirst ihnext => exact ihfirst.bind ihnext
  | catching body handler ihbody ihhandler =>
      intro w
      have hbody := ihbody w
      rw [after] at hbody
      simp only [after, run]
      cases hresult : body.run w with
      | ok result v =>
          rw [hresult] at hbody
          exact hbody
      | error e v =>
          rw [hresult] at hbody
          exact hbody.trans (ihhandler e v)
  | label environment naming => exact environment.labelFor_restores naming
  | labelBelow id naming => exact id.labelFor_restores naming
  | number id => exact id.nextSegment_restores
  | withScope id origin body ih => exact id.local_restores origin ih
  | guarded id body ih => exact id.guarded_restores ih

/-- However a program of blocks ends, and whatever the world was that it began in: every stack
    holds what it held under every key, every scope that was alive is alive and counts the entries
    that it counted, no other scope is alive, and nothing was logged as an error. -/
theorem run_wellNested {α : Type} (program : Block α) (w : World) :
    let v := after program.run w
    (∀ name key, (v.stack name).values key = (w.stack name).values key) ∧
    (∀ id scope, w.scope? id = some scope →
      ∃ now, v.scope? id = some now ∧ now.entries = scope.entries) ∧
    (∀ id, w.scope? id = none → v.scope? id = none) ∧
    ∃ records, v.log.written = records ++ w.log.written ∧
      ∀ entry ∈ records, entry.2.level ≠ .error := by
  intro v
  have h : w.Restores v := program.run_restores w
  refine ⟨?lists, ?entries, ?alive, h.quiet⟩
  case lists =>
    intro name key
    rw [h.stack]
  case entries =>
    intro id scope hscope
    obtain ⟨now, hnow, -, hentries⟩ := h.scope_of_scope hscope
    exact ⟨now, hnow, hentries⟩
  case alive =>
    intro id hnone
    exact h.none_of_none hnone

end Block

end ScopedLabels
