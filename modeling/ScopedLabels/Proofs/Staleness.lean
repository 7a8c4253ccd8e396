import ScopedLabels.Proofs.Releases

/-!
# Staleness — what a scope goes on counting

A scope counts the entries that it has on its list. Callers may take entries off the list behind its
back: they pop, erase, or clear the list. The scope learns nothing of it, and goes on counting what
is gone. `World.stale` is how many such entries there are.

Nothing ever makes them fewer, for as long as the scope lives (`World.Change.lags`). An exit takes an
entry off the list together with its count, and the destructor is the end of the scope. So a scope
that was active when its environment was reset counts entries that are gone, and is activated from
then on, whatever is done with it (`Session.reset_keeps_activation`). Entering and leaving it in
pairs makes no difference: what it counts changes by entries and exits alone
(`Session.entries_steps`).
-/

namespace ScopedLabels

namespace World

variable {w v u : World} {id : ScopeId} {scope : Scope}

/-- How many of the entries that a scope counts are not on its list. -/
def stale (w : World) (id : ScopeId) : Option Nat :=
  (w.scope? id).map fun scope =>
    scope.entries - (w.activeValues scope.environment).count (.scope id)

/-- The stale entries of a living scope are those that it counts and the stack does not hold. -/
theorem stale_eq (hscope : w.scope? id = some scope) :
    w.stale id = some (scope.entries - (w.activeValues scope.environment).count (.scope id)) := by
  rw [stale, hscope, Option.map_some]

/-- A scope that is alive in both worlds counts at least as many stale entries in the second. -/
def Lags (id : ScopeId) (w v : World) : Prop :=
  ∀ m n, w.stale id = some m → v.stale id = some n → m ≤ n

theorem Lags.of_eq (h : v.stale id = w.stale id) : Lags id w v := by
  intro m n hm hn
  exact Nat.le_of_eq (Option.some.inj (hm.symm.trans (h.symm.trans hn)))

/-- The scope stays as it is, and has no more entries than it had. -/
theorem Lags.of_thinned (hscope : v.scope? id = w.scope? id)
    (hcount : ∀ name, ((v.stack name).values Scope.contextKey).count (.scope id) ≤
      ((w.stack name).values Scope.contextKey).count (.scope id)) : Lags id w v := by
  intro m n hm hn
  rw [stale, hscope] at hn
  rw [stale] at hm
  cases hw : w.scope? id with
  | none =>
      rw [hw] at hm
      cases hm
  | some scope =>
      rw [hw] at hm hn
      cases hm
      cases hn
      exact Nat.sub_le_sub_left (hcount scope.environment.contexts) scope.entries

/-- Where scopes and stacks are the same, no entry became stale or ceased to be. -/
theorem Lags.of_same (hscopes : v.scopes = w.scopes) (hcontexts : v.contexts = w.contexts) :
    Lags id w v := by
  refine .of_thinned ?_ fun name => ?_
  · rw [scope?, hscopes, scope?]
  · rw [stack, hcontexts, stack]

/-- The values of a key of a stack are replaced by such that have no more entries of the scope. -/
theorem Lags.of_put (w : World) (stack key : Text) {change : List Value → List Value}
    (hle : ∀ list, (change list).count (.scope id) ≤ list.count (.scope id)) :
    Lags id w (w.modifyStack stack fun c => c.put key (change (c.values key))) := by
  refine .of_thinned rfl fun name => ?_
  rw [values_modifyStack_put]
  split
  · exact hle _
  · exact Nat.le_refl _

/-- An entry comes with its count. -/
theorem stale_activate (hscope : w.scope? id = some scope) {parents : Path} {basename : Text}
    (hsettles : scope.Settles w parents basename v) :
    (v.activate id scope parents basename).stale id = w.stale id := by
  have hstack : v.activeValues scope.environment = w.activeValues scope.environment := by
    rw [activeValues, hsettles.sameScopes.stack_eq, activeValues]
  rw [stale_eq (hsettles.scope?_activate hscope), stale_eq hscope]
  show some (scope.entries + 1 -
    ((v.activate id scope parents basename).activeValues scope.environment).count _) = _
  rw [activeValues_activate, List.count_cons_self, hstack, Nat.add_sub_add_right]

/-- What is left of a scope counts one entry fewer. -/
theorem scope?_left (hscope : w.scope? id = some scope) :
    (w.deactivate id scope).scope? id = some { scope with entries := scope.entries - 1 } := by
  rw [scope?_deactivate, if_pos rfl, hscope]
  rfl

/-- An exit takes an entry off with its count. -/
theorem stale_deactivate (hscope : w.scope? id = some scope) {rest : List Value}
    (htop : w.activeValues scope.environment = .scope id :: rest) :
    (w.deactivate id scope).stale id = w.stale id := by
  have hvalues : (w.deactivate id scope).activeValues scope.environment = rest := by
    rw [activeValues, values_deactivate, if_pos ⟨rfl, rfl⟩]
    exact congrArg List.tail htop
  rw [stale_eq (scope?_left hscope), stale_eq hscope, htop, List.count_cons_self]
  show some (scope.entries - 1 - List.count _ _) = _
  rw [hvalues, Nat.sub_sub, Nat.add_comm]

/-- No change makes the stale entries of a scope that stays alive fewer. -/
theorem Change.lags {allowed : Allowance} (h : Change allowed w v) (id : ScopeId) :
    Lags id w v := by
  cases h with
  | @make other hgrows origin scope hmade hfree =>
      by_cases heq : other = id
      · subst heq
        -- the scope was not alive
        intro m n hm
        rw [stale, hfree] at hm
        cases hm
      · refine .of_thinned ?_ fun _ => Nat.le_refl _
        rw [scope?_addScope, if_neg heq]
  | @enter u other hgrows scope parents basename hscope hsettles =>
      by_cases heq : other = id
      · subst heq
        exact .of_eq (stale_activate hscope hsettles)
      · refine .of_thinned ?_ fun name => ?_
        · rw [scope?_activate, if_neg heq, hsettles.sameScopes.scope?_eq]
        · rw [values_activate, hsettles.sameScopes.stack_eq]
          split
          · exact Nat.le_of_eq (List.count_cons_of_ne fun hsame => heq (Value.scope.inj hsame))
          · exact Nat.le_refl _
  | @leave other hleaves scope rest hscope htop hentries =>
      by_cases heq : other = id
      · subst heq
        exact .of_eq (stale_deactivate hscope htop)
      · refine .of_thinned ?_ fun name => ?_
        · rw [scope?_deactivate, if_neg heq]
        · rw [values_deactivate]
          split
          · exact (List.tail_sublist _).count_le _
          · exact Nat.le_refl _
  | @destroy other scope hscope =>
      by_cases heq : other = id
      · subst heq
        -- the scope is not alive any more
        intro m n hm hn
        rw [stale, scope?_dropScope, if_pos rfl] at hn
        cases hn
      · refine .of_thinned ?_ fun name => ?_
        · rw [scope?_dropScope, if_neg heq]
          split
          · rfl
          · exact scope?_evict w other id scope
        · split
          · exact Nat.le_refl _
          · show (((w.evict other scope).stack name).values _).count _ ≤ _
            rw [values_evict]
            split
            · exact List.filter_sublist.count_le _
            · exact Nat.le_refl _
  | draw registry name => exact .of_same rfl rfl
  | zero registry name => exact .of_same rfl rfl
  | clear registry => exact .of_same rfl rfl
  | report level notice => exact .of_same rfl rfl
  | count metric => exact .of_same rfl rfl
  | configure hscopes hcontexts hregistries => exact .of_same hscopes hcontexts
  | push stack key hallowed hvalue =>
      refine .of_put w stack key fun list => ?_
      exact Nat.le_of_eq (List.count_cons_of_ne (hvalue id))
  | dropTop stack key hallowed =>
      exact .of_put w stack key fun list => (List.tail_sublist list).count_le _
  | erase stack key hallowed type data =>
      exact .of_put w stack key fun list => List.filter_sublist.count_le _
  | clearStack stack hallowed =>
      refine .of_thinned rfl fun name => ?_
      rw [stack_modifyStack]
      split
      · rw [Contexts.values_empty]
        exact Nat.zero_le _
      · exact Nat.le_refl _

/-- A scope that is not made was alive all along. -/
theorem Changes.lags {allowed : Allowance} (h : Changes allowed w v) (hid : ¬ allowed.grows id) :
    Lags id w v := by
  induction h with
  | refl => exact .of_eq rfl
  | @tail u v _ hchange ih =>
      intro m n hm hn
      obtain ⟨b, hb, -⟩ := Option.map_eq_some_iff.mp hn
      obtain ⟨a, ha, -⟩ := hchange.stays hid hb
      exact Nat.le_trans (ih m _ hm (stale_eq ha)) (hchange.lags id _ n (stale_eq ha) hn)

/-- Nothing that a scope is made of changes where it is neither entered nor left. -/
theorem Change.scope?_eq {allowed : Allowance} (h : Change allowed w v)
    (hgrows : ¬ allowed.grows id) (hleaves : ¬ (id.Internal ∨ allowed.leaves id))
    (hscope : v.scope? id = some scope) : w.scope? id = some scope := by
  cases h with
  | @make other hmakes _ _ hmade hfree =>
      have hne : other ≠ id := fun heq => hgrows (heq ▸ hmakes)
      rwa [scope?_addScope, if_neg hne] at hscope
  | @enter u other henters _ _ _ hother hsettles =>
      have hne : other ≠ id := fun heq => hgrows (heq ▸ henters)
      rwa [scope?_activate, if_neg hne, hsettles.sameScopes.scope?_eq] at hscope
  | @leave other hallowed _ _ hother htop hentries =>
      have hne : other ≠ id := fun heq => hleaves (heq ▸ hallowed)
      rwa [scope?_deactivate, if_neg hne] at hscope
  | destroy hother =>
      rw [scope?_dropScope] at hscope
      split at hscope
      · cases hscope
      · split at hscope
        · exact hscope
        · rwa [scope?_evict] at hscope
  | configure hscopes hcontexts hregistries => rwa [scope?, hscopes] at hscope
  -- the other changes are not about scopes
  | _ => exact hscope

/-- A scope that may neither grow nor be left is the same after all changes. -/
theorem Changes.scope?_eq {allowed : Allowance} (h : Changes allowed w v)
    (hgrows : ¬ allowed.grows id) (hleaves : ¬ (id.Internal ∨ allowed.leaves id))
    (hscope : v.scope? id = some scope) : w.scope? id = some scope := by
  induction h with
  | refl => exact hscope
  | tail _ hchange ih => exact ih (hchange.scope?_eq hgrows hleaves hscope)

/-- Where a scope is made beside it. -/
theorem Lags.opened {other : ScopeId} {origin : Origin} {parents : Path} {basename : Text}
    (hmade : origin.scope w = .ok scope) (hfree : w.scope? other = none)
    (hsettles : scope.Settles (w.addScope other scope) parents basename v) (id : ScopeId) :
    Lags id w (v.activate other scope parents basename) := by
  by_cases heq : other = id
  · subst heq
    intro m n hm
    rw [stale, hfree] at hm
    cases hm
  · have hadded : (w.addScope other scope).scope? other = some scope :=
      other.scope?_addScope_self w scope
    have hchanges : Changes { Allowance.none with grows := (· = other) } w
        (v.activate other scope parents basename) :=
      .tail (.single (.make rfl hmade hfree)) (.enter rfl hadded hsettles)
    exact hchanges.lags fun hid => heq hid.symm

/-- Where a scope is alive all along, no step of the way made its stale entries fewer. -/
theorem lags_of_chain {worlds : List World} (h : (w :: worlds).IsChain (Lags id))
    (halive : ∀ v ∈ w :: worlds, (v.scope? id).isSome = true) :
    ∀ v ∈ w :: worlds, Lags id w v := by
  induction worlds generalizing w with
  | nil =>
      intro v hv
      rw [List.mem_singleton.mp hv]
      exact .of_eq rfl
  | cons u rest ih =>
      intro v hv
      obtain ⟨hfirst, hrest⟩ := List.isChain_cons_cons.mp h
      rcases List.mem_cons.mp hv with rfl | hv
      · exact .of_eq rfl
      · intro m n hm hn
        obtain ⟨scope, hscope⟩ :=
          Option.isSome_iff_exists.mp (halive u (List.mem_cons_of_mem w List.mem_cons_self))
        have hlater := ih hrest (fun v hv => halive v (List.mem_cons_of_mem w hv)) v hv
        exact Nat.le_trans (hfirst m _ hm (stale_eq hscope)) (hlater _ n (stale_eq hscope) hn)

/-- An innermost scope has an entry to give up. -/
theorem Sound.entries_ne_zero (h : w.Sound) (hscope : w.scope? id = some scope) {rest : List Value}
    (htop : w.activeValues scope.environment = .scope id :: rest) : scope.entries ≠ 0 :=
  fun hzero => h.not_stuck ⟨id, scope, rest, hscope, htop, hzero⟩

/-- Is the innermost value on the list of a scope its own entry? -/
def isInnermost (w : World) (id : ScopeId) : Bool :=
  (w.scope? id).any fun scope => (w.activeValues scope.environment).head? == some (.scope id)

theorem isInnermost_iff (hscope : w.scope? id = some scope) :
    w.isInnermost id = true ↔ ∃ rest, w.activeValues scope.environment = .scope id :: rest := by
  rw [isInnermost, hscope, Option.any_some, beq_iff_eq, List.head?_eq_some_iff]

end World

/-! ## Along sessions -/

/-- No command makes the stale entries of a scope fewer. -/
theorem Script.Run.execute_lags {id : ScopeId} (hid : id ≠ .transient) (command : Command)
    (s : RunState) : World.Lags id s.world ((execute command).outcome s).state.world := by
  have hothers : ¬ command.verb.grows id →
      World.Lags id s.world ((execute command).outcome s).state.world := by
    intro hgrows
    have horderly : Orderly { Allowance.none with grows := command.verb.grows }
        (execute command) := execute_orderly fun _ hmakes => hmakes
    exact (outcome_changes horderly s).1.lags hgrows
  -- only opening a scope makes and enters one that stays
  cases hverb : command.verb with
  | scope name =>
      rw [outcome, execute_scope hverb]
      rcases openScope_cases name s with
        ⟨e, hfailed⟩ | ⟨scope, parents, basename, v, hmade, hfree, hsettles, hopened⟩
      · rw [hfailed]
        exact .of_eq rfl
      · rw [hopened]
        exact .opened hmade hfree hsettles id
  | label name =>
      refine hothers fun hgrows => ?_
      rw [hverb] at hgrows
      cases id <;> first | exact hid rfl | exact hgrows
  | leave | uid | reset | current =>
      refine hothers fun hgrows => ?_
      rw [hverb] at hgrows
      cases id <;> exact hgrows

namespace Session

/-- A request that is no script makes no stale entries fewer: only its entries could, and an entry
    counts one more and stands on the stack as well. -/
theorem perform_lags {id : ScopeId} (hid : id ≠ .transient) {request : Request}
    (hscript : ∀ name script watch, request ≠ .runScript name script watch) (s : Session) :
    World.Lags id s.world (after (perform request) s).world := by
  have henters : ∀ {name : Text}, request.Enters name →
      World.Lags id s.world (after (perform request) s).world := by
    intro name henters
    rcases perform_enters henters s with
      ⟨e, hfailed⟩ | ⟨scope, parents, basename, v, t, hscope, hsettles, hentered, hworld⟩
    · rw [after_error hfailed]
      exact .of_eq rfl
    · rw [after_ok hentered, hworld]
      have hchange : World.Change .any s.world _ := .enter trivial hscope hsettles
      exact hchange.lags id
  -- what may not grow is at most left, and leaving takes a live entry
  by_cases hgrows : request.grows id
  · cases request with
    | newScope name source =>
        cases hgrows
        cases hscope : s.world.scope? (.held name) with
        | none =>
            intro m n hm
            rw [World.stale, hscope] at hm
            cases hm
        | some scope =>
            rw [perform, newScope_used hscope]
            exact .of_eq rfl
    | enterScope name => exact @henters name rfl
    | newGuard guard name => exact @henters name rfl
    | makeLabel name location save =>
        cases location <;> first | exact absurd hgrows hid | cases hgrows
    | runScript name script watch => exact absurd rfl (hscript name script watch)
    | _ => exact hgrows.elim
  · exact (perform_changes request s).lags hgrows

/-- What holds of every step of a session holds along it. -/
theorem lags_stepwise {id : ScopeId} (hid : id ≠ .transient) : Stepwise (World.Lags id) where
  refl w := .of_eq rfl
  of_drained h := h
  perform hscript := perform_lags hid hscript
  execute := Script.Run.execute_lags hid
  finish s := by
    have horderly : Script.Run.Orderly .none Script.Run.finish := Script.Run.finish_orderly
    exact (Script.Run.outcome_changes horderly s).1.lags not_false

/-- While a scope lives, its stale entries never become fewer. -/
theorem lags_of_alive {id : ScopeId} (hid : id ≠ .transient) {s : Session}
    {requests : List Request} (halive : ∀ w ∈ s.course requests, (w.scope? id).isSome = true) :
    World.Lags id s.world (s.steps requests).2.world := by
  have hchain := (lags_stepwise hid).course_chain s requests
  have hlast := steps_mem_course s requests
  obtain ⟨later, hcourse⟩ := s.course_eq_cons requests
  rw [hcourse] at hchain halive hlast
  exact World.lags_of_chain hchain halive _ hlast

/-! ## Entries and exits -/

/-- Does a request enter a scope of the caller, with success? -/
def enters (name : Text) (s : Session) (request : Request) : Bool :=
  match request with
  | .enterScope scope | .newGuard _ scope => scope == name && (s.step request).1.result.isOk
  | _ => false

/-- Does a request leave a scope of the caller, with success? It may be an exit, or a guard that
    finds the entry of its scope innermost. -/
def leaves (name : Text) (s : Session) (request : Request) : Bool :=
  match request with
  | .exitScope scope => scope == name && (s.step request).1.result.isOk
  | .dropGuard guard => s.guards.get? guard == some name && s.world.isInnermost (.held name)
  | _ => false

/-- How often requests do something. -/
def times (does : Session → Request → Bool) (s : Session) : List Request → Nat
  | [] => 0
  | request :: rest => (does s request).toNat + (s.step request).2.times does rest

/-- What a guard that is dropped does to the world is that it releases its scope. -/
theorem world_dropGuard {s : Session} {guard scope : Text}
    (hguard : s.guards.get? guard = some scope) :
    (s.step (.dropGuard guard)).2.world =
      after (ScopeId.held scope).release s.drained.world := by
  have hsame : s.drained.guards.get? guard = some scope := hguard
  rw [step_eq_after, perform, dropGuard, after_bind, get_apply]
  simp only [after_bind, held_apply, hsame, act]
  rw [after]
  cases (ScopeId.held scope).release s.drained.world with
  | error e v => rfl
  | ok u v =>
      simp only [modify_apply, scopeOf, act, ScopeId.fetch_apply]
      cases v.scope? (.held scope) <;> rfl

theorem world_dropGuard_none {s : Session} {guard : Text} (hguard : s.guards.get? guard = none) :
    (s.step (.dropGuard guard)).2.world = s.drained.world := by
  have hsame : s.drained.guards.get? guard = none := hguard
  rw [step_eq_after, perform, dropGuard, after_bind, get_apply]
  simp only [after_bind, held_apply, hsame]

section Steps

variable {name : Text} {s : Session} {a b : Scope}
  (ha : s.world.scope? (.held name) = some a)
include ha

/-- A request that neither enters nor leaves a scope leaves its count alone. -/
theorem scope_kept {request : Request}
    (hgrows : ¬ request.grows (.held name)) (hleaves : ¬ request.leaves (.held name))
    (hb : (s.step request).2.world.scope? (.held name) = some b) : b = a := by
  rw [step_eq_after] at hb
  have hbefore := (perform_changes request s.drained).scope?_eq hgrows
    (fun hor => hor.elim id hleaves) hb
  exact Option.some.inj (hbefore.symm.trans ha)

/-- A request to enter a scope counts one entry more if it is answered. -/
theorem entries_of_enters {request : Request} (henters : request.Enters name)
    (hb : (s.step request).2.world.scope? (.held name) = some b) :
    b.entries = a.entries + (s.step request).1.result.isOk.toNat := by
  have hdrained : s.drained.world.scope? (.held name) = some a := ha
  rw [step] at hb ⊢
  rcases perform_enters henters s.drained with
    ⟨e, hfailed⟩ | ⟨scope, parents, basename, v, t, hscope, hsettles, hentered, hworld⟩
  · simp only [hfailed] at hb ⊢
    cases hb.symm.trans hdrained
    rfl
  · cases hdrained.symm.trans hscope
    simp only [hentered, hworld, hsettles.scope?_activate hscope] at hb ⊢
    cases hb
    rfl

/-- An exit succeeds where the scope is innermost, and takes away one entry. -/
theorem entries_of_exit (hsound : s.world.Sound)
    (hb : (s.step (.exitScope name)).2.world.scope? (.held name) = some b) :
    b.entries + (s.step (.exitScope name)).1.result.isOk.toNat = a.entries := by
  have hdrained : s.drained.world.scope? (.held name) = some a := ha
  rw [step, perform, bind_apply, act] at hb ⊢
  rcases ScopeId.exit_release_cases (drained_sound hsound) hdrained with
    ⟨rest, hvalues, hexit, -⟩ | ⟨-, ⟨e, hexit⟩, -⟩
  · let t : Session :=
      { s.drained with world := s.drained.world.deactivate (.held name) a }
    have hleft := World.scope?_left hdrained
    have hshown : scopeOf name t = .ok { a with entries := a.entries - 1 } t := scopeOf_apply hleft
    simp only [hexit, bind_apply] at hb ⊢
    rw [hshown] at hb ⊢
    cases hleft.symm.trans hb
    exact Nat.sub_add_cancel (Nat.pos_of_ne_zero (hsound.entries_ne_zero ha hvalues))
  · simp only [hexit] at hb ⊢
    cases hb.symm.trans hdrained
    rfl

/-- A guard lets go of its scope where that is innermost. -/
theorem entries_of_release (hsound : s.world.Sound) {guard : Text}
    (hguard : s.guards.get? guard = some name)
    (hb : (s.step (.dropGuard guard)).2.world.scope? (.held name) = some b) :
    b.entries + (s.world.isInnermost (.held name)).toNat = a.entries := by
  have hdrained : s.drained.world.scope? (.held name) = some a := ha
  have hinnermost := World.isInnermost_iff ha
  rw [world_dropGuard hguard] at hb
  rcases ScopeId.exit_release_cases (drained_sound hsound) hdrained with
    ⟨rest, hvalues, -, hrelease⟩ | ⟨hother, -, hrelease⟩
  · rw [after_ok hrelease, World.scope?_left hdrained] at hb
    cases hb
    rw [hinnermost.mpr ⟨rest, hvalues⟩]
    exact Nat.sub_add_cancel (Nat.pos_of_ne_zero (hsound.entries_ne_zero ha hvalues))
  · rw [after_ok hrelease] at hb
    cases hdrained.symm.trans hb
    have hburied : s.world.isInnermost (.held name) = false := by
      rw [Bool.eq_false_iff, ne_eq, hinnermost]
      rintro ⟨rest, hvalues⟩
      exact hother rest hvalues
    rw [hburied]
    rfl

/-- A guard of another scope is no concern of this one. -/
theorem entries_of_other_release {guard other : Text} (hguard : s.guards.get? guard = some other)
    (hne : other ≠ name)
    (hb : (s.step (.dropGuard guard)).2.world.scope? (.held name) = some b) :
    b.entries = a.entries := by
  rw [world_dropGuard hguard] at hb
  have horderly : (ScopeId.held other).release.Orderly
      { Allowance.none with leaves := (· = .held other) } := ScopeId.release_orderly (.inr rfl)
  have hleaves : ¬ ((ScopeId.held name).Internal ∨ ScopeId.held name = .held other) := by
    simp [ScopeId.Internal, hne.symm]
  have hbefore := (horderly.changes s.drained.world).scope?_eq not_false hleaves hb
  cases ha.symm.trans hbefore
  rfl

/-- The count of a scope changes by its entries and exits alone. -/
theorem entries_step (hsound : s.world.Sound) (request : Request)
    (hb : (s.step request).2.world.scope? (.held name) = some b) :
    b.entries + (s.leaves name request).toNat = a.entries + (s.enters name request).toNat := by
  have hothers : ¬ request.grows (.held name) → ¬ request.leaves (.held name) →
      b.entries + 0 = a.entries + 0 := by
    intro hgrows hleaves
    rw [scope_kept ha hgrows hleaves hb]
  have hentering : ∀ scope, request.Enters scope →
      (scope ≠ name → b.entries + 0 = a.entries + 0) →
      b.entries + 0 = a.entries + (scope == name && (s.step request).1.result.isOk).toNat := by
    intro scope henters hother
    by_cases heq : scope = name
    · subst heq
      rw [beq_self_eq_true, Bool.true_and]
      exact entries_of_enters ha henters hb
    · rw [beq_eq_false_iff_ne.mpr heq, Bool.false_and]
      exact hother heq
  -- four requests enter or leave a scope that the caller holds, and they may be about another one
  cases request with
  | enterScope scope =>
      refine hentering scope rfl fun hne => hothers (fun hgrows => ?_) not_false
      exact hne (ScopeId.held.inj hgrows).symm
  | newGuard guard scope =>
      refine hentering scope rfl fun hne => hothers (fun hgrows => ?_) not_false
      exact hne (ScopeId.held.inj hgrows).symm
  | exitScope scope =>
      show b.entries + (scope == name && _).toNat = a.entries + 0
      by_cases heq : scope = name
      · subst heq
        rw [beq_self_eq_true, Bool.true_and]
        exact entries_of_exit ha hsound hb
      · rw [beq_eq_false_iff_ne.mpr heq, Bool.false_and]
        exact hothers not_false fun hleaves => heq (ScopeId.held.inj hleaves).symm
  | dropGuard guard =>
      show b.entries + (s.guards.get? guard == some name && _).toNat = a.entries + 0
      cases hguard : s.guards.get? guard with
      | none =>
          rw [world_dropGuard_none hguard] at hb
          cases ha.symm.trans hb
          rfl
      | some other =>
          by_cases heq : other = name
          · subst heq
            rw [beq_self_eq_true, Bool.true_and]
            exact entries_of_release ha hsound hguard hb
          · rw [beq_eq_false_iff_ne.mpr fun hsame => heq (Option.some.inj hsame), Bool.false_and]
            exact entries_of_other_release ha hguard heq hb
  | newScope scope source =>
      by_cases heq : scope = name
      · subst heq
        have hdrained : s.drained.world.scope? (.held scope) = some a := ha
        rw [step_eq_after, perform, newScope_used hdrained] at hb
        cases ha.symm.trans hb
        rfl
      · exact hothers (fun hgrows => heq (ScopeId.held.inj hgrows).symm) not_false
  | makeLabel source location save =>
      refine hothers (fun hgrows => ?_) not_false
      cases location <;> cases hgrows
  | runScript runner script watch =>
      refine hothers ?_ not_false
      rintro ⟨verb, hgrows⟩
      cases verb <;> exact hgrows
  | _ => exact hothers not_false not_false

end Steps

/-- Over any number of requests, too: while a scope of the caller lives, what it counts is what it
    counted before, and one more for every entry and one less for every exit. -/
theorem entries_steps {name : Text} {s : Session} {requests : List Request}
    (hsound : s.world.Sound)
    (halive : ∀ w ∈ s.course requests, (w.scope? (.held name)).isSome = true) {a b : Scope}
    (ha : s.world.scope? (.held name) = some a)
    (hb : (s.steps requests).2.world.scope? (.held name) = some b) :
    b.entries + s.times (leaves name) requests = a.entries + s.times (enters name) requests := by
  induction requests generalizing s a with
  | nil =>
      cases ha.symm.trans hb
      rfl
  | cons request rest ih =>
      have hrest : ∀ w ∈ (s.step request).2.course rest, (w.scope? (.held name)).isSome = true :=
        fun w hw => halive w (List.mem_append_right _ hw)
      obtain ⟨later, hlater⟩ := (s.step request).2.course_eq_cons rest
      obtain ⟨c, hc⟩ := Option.isSome_iff_exists.mp
        (hrest (s.step request).2.world (hlater ▸ List.mem_cons_self))
      have hfirst := entries_step ha hsound request hc
      have hothers := ih (step_sound hsound request).1 hrest hc hb
      rw [times, times]
      omega

/-! ## Resets -/

/-- A reset empties the registry and the stack of an environment, and keeps the scopes. -/
theorem world_resetEnvironment {s : Session} {name : Text} {environment : Environment}
    (henvironment : s.environments.get? name = some environment) :
    (s.step (.resetEnvironment name)).2.world =
      (s.drained.world.modifyRegistry environment.counters fun _ => {}).modifyStack
        environment.contexts fun _ => ∅ := by
  have hsame : s.drained.environments.get? name = some environment := henvironment
  rw [step_eq_after, perform, after_bind, environmentOf, bind_apply, get_apply]
  simp only [held_apply, hsame]
  rfl

/-- A reset empties the stack of the environment, and leaves the scopes as they are. So a scope on
    that stack goes on counting the entries that it counted: whatever is requested afterwards, for
    as long as it lives, it counts at least these and those that it has. A scope of the caller that
    is entered and left equally often is inactive afterwards if and only if it was inactive when
    the environment was reset. -/
theorem reset_keeps_activation (before : List Request) (name : Text) :
    let s := (Session.steps {} before).2
    let r := (s.step (.resetEnvironment name)).2
    ∀ environment, s.environments.get? name = some environment →
      (∀ key, (r.world.stack environment.contexts).values key = []) ∧
      (∀ id, r.world.scope? id = s.world.scope? id) ∧
      ∀ id a, s.world.scope? id = some a → a.environment.contexts = environment.contexts →
        ∀ later, (∀ w ∈ r.course later, (w.scope? id).isSome = true) →
          let t := (r.steps later).2
          ∃ b, t.world.scope? id = some b ∧
            a.entries + (t.world.activeValues b.environment).count (.scope id) ≤ b.entries ∧
            ∀ scope, id = .held scope →
              r.times (enters scope) later = r.times (leaves scope) later →
              (b.activated = false ↔ a.activated = false) := by
  intro s r environment henvironment
  have hs : s.world.Ready := course_ready before s.world (steps_mem_course {} before)
  have hr : r.world.Sound := (step_sound hs.toSound _).1
  have hworld : r.world = _ := world_resetEnvironment henvironment
  have hempty : ∀ key, (r.world.stack environment.contexts).values key = [] := by
    intro key
    rw [hworld, World.stack_modifyStack, if_pos rfl]
    exact Contexts.values_empty key
  have hscopes : ∀ id, r.world.scope? id = s.world.scope? id := by
    intro id
    rw [hworld]
    rfl
  refine ⟨hempty, hscopes, fun id a ha hstack later halive => ?_⟩
  intro t
  have ht : t.world.Sound := steps_sound hr later
  obtain ⟨b, hb⟩ := Option.isSome_iff_exists.mp (halive _ (steps_mem_course r later))
  have hra : r.world.scope? id = some a := (hscopes id).trans ha
  refine ⟨b, hb, ?lagging, ?paired⟩
  case lagging =>
    have hid : id ≠ .transient := by
      rintro rfl
      cases ha.symm.trans hs.idle
    -- nothing is on the stack right after the reset, so all entries that are counted are stale then
    have hnone : (r.world.activeValues a.environment).count (.scope id) = 0 := by
      rw [World.activeValues, hstack, hempty]
      rfl
    have hle : _ ≤ b.entries - (t.world.activeValues b.environment).count (.scope id) :=
      lags_of_alive hid halive _ _ (World.stale_eq hra) (World.stale_eq hb)
    have hcounted := ht.counted hb
    rw [hnone] at hle
    omega
  case paired =>
    rintro scope rfl hpaired
    have hentries := entries_steps hr halive hra hb
    rw [hpaired, Nat.add_right_cancel_iff] at hentries
    rw [Scope.activated, Scope.activated, hentries]

/-- Two scopes, of which the first is active. -/
def activeRequests : List Request :=
  [.newScope "m" (.basename defaultName "m"), .newScope "n" (.basename defaultName "n"),
    .enterScope "m"]

/-- After a reset the scope that was active stays activated although it is on no list, and the other
    one is inactive again. -/
theorem reset_keeps_activation_paired :
    let s := (Session.steps {} activeRequests).2
    let r := (s.step (.resetEnvironment defaultName)).2
    let later : List Request := [.enterScope "n", .enterScope "m", .exitScope "m", .exitScope "n"]
    let t := (r.steps later).2
    (∃ b, t.world.scope? (.held "n") = some b ∧ b.activated = false) ∧
      ∃ b, t.world.scope? (.held "m") = some b ∧ 1 ≤ b.entries := by
  intro s r later t
  have henvironment : s.environments.get? defaultName = some .default := by decide +kernel
  have hm : s.world.scope? (.held "m") = some ⟨.default, .resolved [] "m", 1⟩ := by decide +kernel
  have hn : s.world.scope? (.held "n") = some ⟨.default, .unresolved (some "n"), 0⟩ := by
    decide +kernel
  have halive : ∀ w ∈ r.course later,
      (w.scope? (.held "m")).isSome = true ∧ (w.scope? (.held "n")).isSome = true := by
    decide +kernel
  have hpaired : r.times (enters "n") later = r.times (leaves "n") later := by decide +kernel
  obtain ⟨-, -, hscopes⟩ :=
    reset_keeps_activation activeRequests defaultName .default henvironment
  obtain ⟨b, hb, -, hinactive⟩ := hscopes _ _ hn rfl later fun w hw => (halive w hw).2
  obtain ⟨c, hc, hcounted, -⟩ := hscopes _ _ hm rfl later fun w hw => (halive w hw).1
  refine ⟨⟨b, hb, (hinactive "n" rfl hpaired).mpr rfl⟩, c, hc, ?_⟩
  exact Nat.le_trans (Nat.le_add_right 1 _) hcounted

/-- A scope that is active when its environment is reset, and is entered and left once after that,
    is activated although its list is empty. -/
theorem activated_after_reset :
    let s := (Session.steps {} activeRequests).2
    let r := (s.step (.resetEnvironment defaultName)).2
    let later : List Request := [.enterScope "m", .exitScope "m"]
    let t := (r.steps later).2
    r.times (enters "m") later = 1 ∧ r.times (leaves "m") later = 1 ∧
      t.world.activeValues .default = [] ∧
      (t.world.scope? (.held "m")).map Scope.activated = some true := by
  decide +kernel

end Session

end ScopedLabels
