import ScopedLabels.Proofs.Changes

/-!
# Soundness — active scopes are alive, and are counted

A stack of active scopes refers to scopes by identity, and it is shared: callers pop foreign values
off it, clear it, or erase from it behind the scopes' backs. So the count of entries that a scope
keeps of itself goes stale. What survives is an inequality. `Sound` says that every value that
points to a scope points to one that is alive and resolved, from the stack that the scope is active
on, and that a scope has at most as many entries there as it counts.

Every elementary change keeps this, so it holds in every state that a session reaches. Three steps
that check nothing rest on it: destroying a scope that counts no entry without looking for one,
giving up an entry, and reading the path of the parent when a scope settles.
-/

namespace ScopedLabels

/-- Replacing the values of a key by such that hold a value no more often. -/
theorem Contexts.count_put_le (c : Contexts) (key other : Text) {list : List Value} {value : Value}
    (hle : list.count value ≤ (c.values key).count value) :
    ((c.put key list).values other).count value ≤ (c.values other).count value := by
  rw [values_put]
  split
  · next hkey =>
      subst hkey
      exact hle
  · exact Nat.le_refl _

namespace World

/-- Pointers to scopes are good, and every scope counts at least the entries it has. -/
structure Sound (w : World) : Prop where
  /-- Only entering a scope makes a pointer to it, and it makes it in one place. -/
  pointers : ∀ {name key : Text} {id : ScopeId}, .scope id ∈ (w.stack name).values key →
    key = Scope.contextKey ∧ ∃ scope, w.scope? id = some scope ∧
      scope.environment.contexts = name ∧ scope.resolved = true
  /-- A scope may count entries that are gone, but has none that it does not count. -/
  counted : ∀ {id : ScopeId} {scope : Scope}, w.scope? id = some scope →
    (w.activeValues scope.environment).count (.scope id) ≤ scope.entries

namespace Sound

variable {w v : World}

/-! ## What soundness gives -/

/-- A scope that counts no entry is pointed to from nowhere. -/
theorem not_mem_of_entries (h : w.Sound) {id : ScopeId} {scope : Scope}
    (hscope : w.scope? id = some scope) (hentries : scope.entries = 0) (name key : Text) :
    .scope id ∉ (w.stack name).values key := by
  intro hmem
  obtain ⟨rfl, other, hother, rfl, -⟩ := h.pointers hmem
  rw [hscope] at hother
  cases hother
  have hpos : 0 < (w.activeValues scope.environment).count (.scope id) :=
    List.count_pos_iff.mpr hmem
  have := h.counted hscope
  omega

/-- An innermost active scope counts an entry. -/
theorem not_stuck (h : w.Sound) : ¬ w.Stuck := by
  rintro ⟨id, scope, rest, hscope, htop, hentries⟩
  refine h.not_mem_of_entries hscope hentries scope.environment.contexts Scope.contextKey ?_
  show .scope id ∈ w.activeValues scope.environment
  rw [htop]
  exact List.mem_cons_self

/-- An innermost active scope is alive and has a path. -/
theorem scope_of_current (h : w.Sound) {environment : Environment} {id : ScopeId}
    (hcurrent : w.current environment = .ok (some id)) :
    ∃ scope path, w.scope? id = some scope ∧ scope.path = .ok path := by
  have hmem : .scope id ∈ (w.stack environment.contexts).values Scope.contextKey := by
    show .scope id ∈ w.activeValues environment
    rw [current_eq] at hcurrent
    split at hcurrent
    · cases hcurrent
    · next top rest hvalues =>
        cases hcurrent
        rw [hvalues]
        exact List.mem_cons_self
    · cases hcurrent
  obtain ⟨-, scope, hscope, -, hresolved⟩ := h.pointers hmem
  cases hplace : scope.place with
  | resolved parents basename =>
      refine ⟨scope, parents ++ [basename], hscope, ?_⟩
      simp only [Scope.path, hplace]
  | unresolved name =>
      rw [Scope.resolved, Scope.path?, hplace] at hresolved
      cases hresolved

theorem path_of_current (h : w.Sound) {environment : Environment} {id : ScopeId}
    (hcurrent : w.current environment = .ok (some id)) :
    ∃ path, id.path w = .ok path w := by
  obtain ⟨scope, path, hscope, hpath⟩ := h.scope_of_current hcurrent
  refine ⟨path, ?_⟩
  simp only [ScopeId.path_apply, hscope, hpath]

/-! ## What keeps it -/

/-- Values may go and values of the caller's may come, as long as the scopes stay. -/
theorem thinned (h : w.Sound) (hscopes : ∀ id, v.scope? id = w.scope? id)
    (hcount : ∀ name key id, ((v.stack name).values key).count (.scope id) ≤
      ((w.stack name).values key).count (.scope id)) : v.Sound where
  pointers {name key id} hmem := by
    have hpos := List.count_pos_iff.mpr hmem
    have hle := hcount name key id
    rw [hscopes]
    exact h.pointers (List.count_pos_iff.mp (by omega))
  counted {id scope} hscope := by
    rw [hscopes] at hscope
    exact Nat.le_trans (hcount scope.environment.contexts Scope.contextKey id) (h.counted hscope)

/-- A stack may be changed as long as no key comes to hold more pointers to a scope. -/
theorem modifyStack (h : w.Sound) (stack : Text) {f : Contexts → Contexts}
    (hcount : ∀ key id, ((f (w.stack stack)).values key).count (.scope id) ≤
      ((w.stack stack).values key).count (.scope id)) : (w.modifyStack stack f).Sound := by
  refine h.thinned (fun id => rfl) fun name key id => ?_
  rw [stack_modifyStack]
  split
  · next hname =>
      subst hname
      exact hcount key id
  · exact Nat.le_refl _

/-- What is not about scopes and stacks at all keeps soundness. -/
theorem congr (h : w.Sound) (hscopes : v.scopes = w.scopes) (hcontexts : v.contexts = w.contexts) :
    v.Sound := by
  refine h.thinned (fun id => ?_) fun name key id => ?_
  · rw [scope?, hscopes, scope?]
  · have hstack : v.stack name = w.stack name := by rw [stack, hcontexts, stack]
    exact Nat.le_of_eq (congrArg (fun c => (c.values key).count (.scope id)) hstack)

/-- A new scope has a free identity, so nothing points to it yet. -/
theorem addScope (h : w.Sound) {id : ScopeId} {scope : Scope} (hfree : w.scope? id = none) :
    (w.addScope id scope).Sound where
  pointers {name key other} hmem := by
    obtain ⟨hkey, target, htarget, hname, hresolved⟩ := h.pointers hmem
    have hne : id ≠ other := by
      rintro rfl
      rw [hfree] at htarget
      cases htarget
    refine ⟨hkey, target, ?_, hname, hresolved⟩
    rw [scope?_addScope, if_neg hne]
    exact htarget
  counted {other target} htarget := by
    rw [scope?_addScope] at htarget
    split at htarget
    · next heq =>
        subst heq
        cases htarget
        show (w.activeValues scope.environment).count (.scope id) ≤ scope.entries
        -- nothing pointed to this identity, or a scope would have been alive under it
        have hnone : .scope id ∉ w.activeValues scope.environment := by
          intro hmem
          obtain ⟨-, target, htarget, -, -⟩ := h.pointers hmem
          rw [hfree] at htarget
          cases htarget
        rw [List.count_eq_zero.mpr hnone]
        exact Nat.zero_le _
    · exact h.counted htarget

/-- A scope that nothing points to may be taken away. -/
theorem dropScope (h : w.Sound) {id : ScopeId}
    (hnone : ∀ name key, .scope id ∉ (w.stack name).values key) : (w.dropScope id).Sound where
  pointers {name key other} hmem := by
    obtain ⟨hkey, target, htarget, hname, hresolved⟩ := h.pointers hmem
    have hne : id ≠ other := by
      rintro rfl
      exact hnone name key hmem
    refine ⟨hkey, target, ?_, hname, hresolved⟩
    rw [scope?_dropScope, if_neg hne]
    exact htarget
  counted {other target} htarget := by
    rw [scope?_dropScope] at htarget
    split at htarget
    · cases htarget
    · exact h.counted htarget

/-- An entry makes one pointer more and counts one entry more, and it leaves the scope resolved. -/
theorem activate (h : w.Sound) {id : ScopeId} {scope : Scope} (hscope : w.scope? id = some scope)
    (parents : Path) (basename : Text) : (w.activate id scope parents basename).Sound where
  pointers {name key other} hmem := by
    rw [values_activate] at hmem
    rw [scope?_activate]
    by_cases heq : id = other
    · subst heq
      rw [if_pos rfl, hscope]
      -- the pointer is the new one, or it was there and points from the same stack
      have hplace : key = Scope.contextKey ∧ scope.environment.contexts = name := by
        split at hmem
        · next hwhere => exact ⟨hwhere.2.symm, hwhere.1⟩
        · obtain ⟨hkey, target, htarget, hname, -⟩ := h.pointers hmem
          rw [hscope] at htarget
          cases htarget
          exact ⟨hkey, hname⟩
      exact ⟨hplace.1, _, rfl, hplace.2, rfl⟩
    · rw [if_neg heq]
      have hold : .scope other ∈ (w.stack name).values key := by
        split at hmem
        · rcases List.mem_cons.mp hmem with hnew | hold
          · cases hnew
            exact absurd rfl heq
          · exact hold
        · exact hmem
      exact h.pointers hold
  counted {other target} htarget := by
    show (((w.activate id scope parents basename).stack target.environment.contexts).values
      Scope.contextKey).count (.scope other) ≤ target.entries
    rw [values_activate]
    rw [scope?_activate] at htarget
    by_cases heq : id = other
    · subst heq
      rw [if_pos rfl, hscope] at htarget
      cases htarget
      have hold : ((w.stack scope.environment.contexts).values Scope.contextKey).count
          (.scope id) ≤ scope.entries := h.counted hscope
      rw [if_pos ⟨rfl, rfl⟩, List.count_cons_self]
      exact Nat.succ_le_succ hold
    · rw [if_neg heq] at htarget
      have hold := h.counted htarget
      split
      · rw [List.count_cons_of_ne fun hnew => heq (Value.scope.inj hnew)]
        exact hold
      · exact hold

/-- Leaving takes the innermost pointer away, which is one to the scope, and counts one entry less.
    -/
theorem deactivate (h : w.Sound) {id : ScopeId} {scope : Scope} {rest : List Value}
    (hscope : w.scope? id = some scope)
    (htop : w.activeValues scope.environment = .scope id :: rest) :
    (w.deactivate id scope).Sound where
  pointers {name key other} hmem := by
    rw [values_deactivate] at hmem
    have hold : .scope other ∈ (w.stack name).values key := by
      split at hmem
      · exact List.mem_of_mem_tail hmem
      · exact hmem
    obtain ⟨hkey, target, htarget, hname, hresolved⟩ := h.pointers hold
    rw [scope?_deactivate]
    by_cases heq : id = other
    · subst heq
      rw [hscope] at htarget
      cases htarget
      rw [if_pos rfl, hscope]
      exact ⟨hkey, _, rfl, hname, hresolved⟩
    · rw [if_neg heq]
      exact ⟨hkey, target, htarget, hname, hresolved⟩
  counted {other target} htarget := by
    show (((w.deactivate id scope).stack target.environment.contexts).values
      Scope.contextKey).count (.scope other) ≤ target.entries
    rw [values_deactivate]
    rw [scope?_deactivate] at htarget
    by_cases heq : id = other
    · subst heq
      rw [if_pos rfl, hscope] at htarget
      cases htarget
      have hold := h.counted hscope
      rw [htop, List.count_cons_self] at hold
      -- the entry that goes is the innermost one, and it is its own
      rw [if_pos ⟨rfl, rfl⟩]
      show (w.activeValues scope.environment).tail.count (.scope id) ≤ scope.entries - 1
      rw [htop, List.tail_cons]
      omega
    · rw [if_neg heq] at htarget
      refine Nat.le_trans ?_ (h.counted htarget)
      split
      · exact (List.tail_sublist _).count_le _
      · exact Nat.le_refl _

/-- Evicting a scope takes pointers away and leaves all scopes as they are. -/
theorem evict (h : w.Sound) (id : ScopeId) (scope : Scope) : (w.evict id scope).Sound := by
  refine h.thinned (fun other => scope?_evict w id other scope) fun name key other => ?_
  rw [values_evict]
  split
  · exact List.filter_sublist.count_le _
  · exact Nat.le_refl _

/-- An evicted scope is pointed to from nowhere. -/
theorem not_mem_evict (h : w.Sound) {id : ScopeId} {scope : Scope}
    (hscope : w.scope? id = some scope) (name key : Text) :
    .scope id ∉ ((w.evict id scope).stack name).values key := by
  intro hmem
  rw [values_evict] at hmem
  split at hmem
  · have hkept := (List.mem_filter.mp hmem).2
    rw [bne_self_eq_false] at hkept
    exact Bool.noConfusion hkept
  · next hwhere =>
      obtain ⟨hkey, target, htarget, hname, -⟩ := h.pointers hmem
      rw [hscope] at htarget
      cases htarget
      exact hwhere ⟨hname, hkey.symm⟩

/-- A destructor that finds no entries need not look for pointers, since there are none. -/
theorem destroy (h : w.Sound) {id : ScopeId} {scope : Scope} (hscope : w.scope? id = some scope) :
    ((if scope.entries = 0 then w else w.evict id scope).dropScope id).Sound := by
  split
  · next hentries => exact h.dropScope (h.not_mem_of_entries hscope hentries)
  · exact (h.evict id scope).dropScope (h.not_mem_evict hscope)

end Sound

/-! ## Along changes -/

variable {allowed : Allowance} {w v : World}

/-- Every elementary change keeps the invariant. -/
theorem Change.sound (h : Change allowed w v) (hw : w.Sound) : v.Sound := by
  cases h with
  | make hgrows hmade hfree => exact hw.addScope hfree
  | enter hgrows hscope hsettles =>
      have hsame := hsettles.sameScopes
      exact (hw.congr hsame.scopes hsame.contexts).activate ((hsame.scope?_eq _).trans hscope) _ _
  | leave hleaves hscope htop hentries => exact hw.deactivate hscope htop
  | destroy hscope => exact hw.destroy hscope
  | draw registry name => exact hw.congr rfl rfl
  | zero registry name => exact hw.congr rfl rfl
  | clear registry => exact hw.congr rfl rfl
  | report level notice => exact hw.congr rfl rfl
  | count metric => exact hw.congr rfl rfl
  | configure hscopes hcontexts hregistries => exact hw.congr hscopes hcontexts
  | push stack key hdirect hvalue =>
      refine hw.modifyStack stack fun other id => ?_
      exact Contexts.count_put_le _ key other (Nat.le_of_eq (List.count_cons_of_ne (hvalue id)))
  | dropTop stack key hdirect =>
      refine hw.modifyStack stack fun other id => ?_
      exact Contexts.count_put_le _ key other ((List.tail_sublist _).count_le _)
  | erase stack key hdirect type data =>
      refine hw.modifyStack stack fun other id => ?_
      exact Contexts.count_put_le _ key other (List.filter_sublist.count_le _)
  | clearStack stack hdirect =>
      refine hw.modifyStack stack fun other id => ?_
      rw [Contexts.values_empty]
      exact Nat.zero_le _

/-- So do changes one after the other. -/
theorem Changes.sound (h : Changes allowed w v) (hw : w.Sound) : v.Sound := by
  induction h with
  | refl => exact hw
  | tail _ hchange ih => exact hchange.sound ih

/-- From a sound world no run fails for want of an entry. -/
theorem Sound.error?_ne_notEntered (hw : w.Sound) {run : Script.Run Unit}
    (hrun : run.Orderly .any) (runner : Script.Runner) :
    (run.outcome { world := w, runner }).error? ≠ some (.misuse .notEntered) := by
  intro he
  obtain ⟨v, hchanges, hstuck⟩ := (Script.Run.outcome_changes hrun { world := w, runner }).2 he
  exact (hchanges.sound hw).not_stuck hstuck

end World

/-! ## Along sessions -/

namespace Session

/-- Before the first request nothing is alive and nothing is active. -/
theorem start_sound : ({} : Session).world.Sound where
  pointers {name key id} hmem := by
    have hnone : (({} : Session).world.stack name).values key = [] := by
      have hstack : ({} : Session).world.stack name = ∅ := Std.ExtTreeMap.getD_empty
      rw [hstack, Contexts.values_empty]
    rw [hnone] at hmem
    cases hmem
  counted {id scope} hscope := nomatch hscope

theorem drained_sound {s : Session} (h : s.world.Sound) : s.drained.world.Sound :=
  h.congr rfl rfl

/-- A request keeps soundness, whether it succeeds or fails, and does not fail for want of an
    entry. -/
theorem step_sound {s : Session} (h : s.world.Sound) (request : Request) :
    (s.step request).2.world.Sound ∧
      (s.step request).1.result ≠ .error (.misuse .notEntered) := by
  have hdrained := drained_sound h
  have hleads := perform_orderly request s.drained
  rw [step]
  cases hresult : perform request s.drained with
  | ok answer t =>
      rw [hresult] at hleads
      exact ⟨hleads.sound hdrained, nofun⟩
  | error e t =>
      rw [hresult] at hleads
      refine ⟨hleads.1.sound hdrained, ?_⟩
      intro he
      obtain ⟨v, hchanges, hstuck⟩ := hleads.2 (Except.error.inj he)
      exact (hchanges.sound hdrained).not_stuck hstuck

/-- By induction on the requests, every world that a session leads to is sound. -/
theorem steps_sound {s : Session} (h : s.world.Sound) (requests : List Request) :
    (s.steps requests).2.world.Sound := by
  induction requests generalizing s with
  | nil => exact h
  | cons request rest ih => exact ih (step_sound h request).1

/-- In every state that requests lead to, whatever they are and whichever of them fail, a scope has
    at most as many entries as it counts; every pointer to a scope, on any stack under any key,
    points to one that is alive and resolved; and whatever comes next, a request, a script or the
    closing of a runner, does not give up an entry of a scope that counts none. So a scope that
    counts no entry is pointed to from nowhere, and the innermost active scope has a path. -/
theorem reachable_safe (requests : List Request) :
    let s := (Session.steps {} requests).2
    (∀ id scope, s.world.scope? id = some scope →
      (s.world.activeValues scope.environment).count (.scope id) ≤ scope.entries) ∧
    (∀ name key id, .scope id ∈ (s.world.stack name).values key →
      ∃ scope, s.world.scope? id = some scope ∧ scope.resolved = true) ∧
    ((∀ request, (s.step request).1.result ≠ .error (.misuse .notEntered)) ∧
      ∀ runner : Script.Runner,
        (∀ text, (runner.run text s.drained.world).error? ≠ some (.misuse .notEntered)) ∧
        (runner.close s.drained.world).error? ≠ some (.misuse .notEntered)) ∧
    (∀ id scope, s.world.scope? id = some scope → scope.entries = 0 →
      ∀ name key, .scope id ∉ (s.world.stack name).values key) ∧
    (∀ environment id, s.world.current environment = .ok (some id) →
      ∃ path, id.path s.world = .ok path s.world) := by
  intro s
  -- all that is claimed is read off the invariant
  have hsound : s.world.Sound := steps_sound start_sound requests
  refine ⟨?counted, ?pointers, ⟨?requests, ?runners⟩, ?shortcut, ?parent⟩
  case counted =>
    intro id scope hscope
    exact hsound.counted hscope
  case pointers =>
    intro name key id hmem
    obtain ⟨-, scope, hscope, -, hresolved⟩ := hsound.pointers hmem
    exact ⟨scope, hscope, hresolved⟩
  case requests =>
    intro request
    exact (step_sound hsound request).2
  case runners =>
    intro runner
    have hdrained := drained_sound hsound
    refine ⟨fun text => ?_, ?_⟩
    · refine hdrained.error?_ne_notEntered (Script.Run.runText_orderly ?_ text) runner
      exact fun _ _ _ => trivial
    · exact hdrained.error?_ne_notEntered Script.Run.unwind_orderly runner
  case shortcut =>
    intro id scope hscope
    exact hsound.not_mem_of_entries hscope
  case parent =>
    intro environment id hcurrent
    exact hsound.path_of_current hcurrent

end Session

end ScopedLabels
