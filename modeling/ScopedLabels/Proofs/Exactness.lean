import Mathlib.Algebra.BigOperators.Group.Finset.Basic
import Mathlib.Algebra.GroupWithZero.Nat
import ScopedLabels.Proofs.Passages
import ScopedLabels.Proofs.Soundness

/-!
# Exactness — scopes count their entries right, and entries are not lost

Soundness allows a scope to count entries that are gone, because a caller may take them off behind
its back. As long as nobody does, and requests are `Confined`, the count is exact, and nothing but
scopes stands on the active-scope lists. Then the metrics can be checked against the lists as well:
an entry that was counted when it came is still there, or was counted when it was left, or was taken
off by the destructor of its scope.

Both are kept by every passage (`Passage.exact`, `Passage.balanced`), so they hold along sessions.
-/

namespace ScopedLabels

namespace World

/-! ## How many entries there are -/

/-- How many entries stand on all active-scope lists together. -/
def activeEntries (w : World) : Nat :=
  (w.contexts.keys.map fun name => ((w.stack name).values Scope.contextKey).length).sum

/-- Stacks that were never touched hold nothing, so they may be added up too. -/
theorem activeEntries_eq (w : World) {names : Finset Text} (h : w.contexts.keys.toFinset ⊆ names) :
    w.activeEntries = ∑ name ∈ names, ((w.stack name).values Scope.contextKey).length := by
  have hnodup : w.contexts.keys.Nodup := by
    refine w.contexts.distinct_keys.imp ?_
    rintro a b hne rfl
    exact hne Std.ReflCmp.compare_self
  rw [activeEntries, ← List.sum_toFinset _ hnodup]
  refine Finset.sum_subset h fun name _ hmem => ?_
  rw [List.mem_toFinset, Std.ExtTreeMap.mem_keys] at hmem
  rw [stack, Std.ExtTreeMap.getD_eq_fallback hmem, Contexts.values_empty, List.length_nil]

/-- If only one list changed, so did the number of all entries. -/
theorem activeEntries_change {w v : World} (name : Text)
    (hother : ∀ other, other ≠ name → (v.stack other).values Scope.contextKey =
      (w.stack other).values Scope.contextKey) :
    v.activeEntries + ((w.stack name).values Scope.contextKey).length =
      w.activeEntries + ((v.stack name).values Scope.contextKey).length := by
  let names := insert name (w.contexts.keys.toFinset ∪ v.contexts.keys.toFinset)
  have hname : name ∈ names := Finset.mem_insert_self _ _
  have hw : w.contexts.keys.toFinset ⊆ names :=
    Finset.subset_union_left.trans (Finset.subset_insert _ _)
  have hv : v.contexts.keys.toFinset ⊆ names :=
    Finset.subset_union_right.trans (Finset.subset_insert _ _)
  have hrest : ∑ other ∈ names.erase name, ((v.stack other).values Scope.contextKey).length =
      ∑ other ∈ names.erase name, ((w.stack other).values Scope.contextKey).length := by
    refine Finset.sum_congr rfl fun other hmem => ?_
    rw [hother other (Finset.ne_of_mem_erase hmem)]
  rw [w.activeEntries_eq hw, v.activeEntries_eq hv, ← Finset.add_sum_erase names _ hname,
    ← Finset.add_sum_erase names _ hname, hrest]
  omega

/-- Where the lists are the same, there are as many entries. -/
theorem activeEntries_congr {w v : World} (h : ∀ name, (v.stack name).values Scope.contextKey =
    (w.stack name).values Scope.contextKey) : v.activeEntries = w.activeEntries := by
  have hsum := activeEntries_change [] fun other _ => h other
  rw [h] at hsum
  omega

/-- An entry into a scope is one more. -/
theorem activeEntries_activate (w : World) (id : ScopeId) (scope : Scope) (parents : Path)
    (basename : Text) :
    (w.activate id scope parents basename).activeEntries = w.activeEntries + 1 := by
  have hsum := activeEntries_change (w := w) (v := w.activate id scope parents basename)
    scope.environment.contexts fun other hne => by
      rw [values_activate, if_neg fun h => hne h.1.symm]
  rw [values_activate, if_pos ⟨rfl, rfl⟩, List.length_cons] at hsum
  omega

/-- Leaving the innermost scope is one less. -/
theorem activeEntries_deactivate {w : World} {id : ScopeId} {scope : Scope} {rest : List Value}
    (htop : w.activeValues scope.environment = .scope id :: rest) :
    (w.deactivate id scope).activeEntries + 1 = w.activeEntries := by
  have hsum := activeEntries_change (w := w) (v := w.deactivate id scope)
    scope.environment.contexts fun other hne => by
      rw [values_deactivate, if_neg fun h => hne h.1.symm]
  rw [activeValues] at htop
  rw [values_deactivate, if_pos ⟨rfl, rfl⟩, htop, List.tail_cons, List.length_cons] at hsum
  omega

/-- A destructor takes off all the entries of its scope that are on the list. -/
theorem activeEntries_evict (w : World) (id : ScopeId) (scope : Scope) :
    (w.evict id scope).activeEntries + (w.activeValues scope.environment).count (.scope id) =
      w.activeEntries := by
  have hsum := activeEntries_change (w := w) (v := w.evict id scope)
    scope.environment.contexts fun other hne => by
      rw [values_evict, if_neg fun h => hne h.1.symm]
  have hlength := List.length_eq_length_filter_add (l := w.activeValues scope.environment)
    (· != .scope id)
  simp only [bne, Bool.not_not, ← List.count_eq_length_filter] at hlength
  rw [values_evict, if_pos ⟨rfl, rfl⟩, ← activeValues] at hsum
  simp only [bne] at hsum
  omega

/-- The entries of a destroyed scope are those that its destructor took off. -/
theorem activeEntries_destroy {w : World} {id : ScopeId} {scope : Scope}
    (hscope : w.scope? id = some scope) :
    ((if scope.entries = 0 then w else w.evict id scope).dropScope id).activeEntries +
      w.evictions id = w.activeEntries := by
  have hevictions : w.evictions id = if scope.entries = 0 then 0
      else (w.activeValues scope.environment).count (.scope id) := by
    rw [evictions, hscope]
  rw [hevictions]
  split
  · rfl
  · exact w.activeEntries_evict id scope

/-! ## Exact counts -/

/-- No scope counts an entry that it does not have, and only scopes are active. -/
structure Exact (w : World) : Prop where
  entries_le : ∀ {id : ScopeId} {scope : Scope}, w.scope? id = some scope →
    scope.entries ≤ (w.activeValues scope.environment).count (.scope id)
  scopes_only : ∀ {name : Text} {value : Value},
    value ∈ (w.stack name).values Scope.contextKey → ∃ id, value = .scope id

namespace Exact

variable {w v : World} {id : ScopeId} {scope : Scope}

/-- Exact counts depend on the scopes and the lists only. -/
theorem congr (h : w.Exact) (hstanding : Agree .standing w v) : v.Exact where
  entries_le {other target} htarget := by
    rw [hstanding.1] at htarget
    rw [activeValues, hstanding.2]
    exact h.entries_le htarget
  scopes_only {name value} hmem := by
    rw [hstanding.2] at hmem
    exact h.scopes_only hmem

/-- A new scope counts no entry, so its count is exact. -/
theorem addScope (h : w.Exact) (hentries : scope.entries = 0) : (w.addScope id scope).Exact where
  entries_le {other target} htarget := by
    rw [scope?_addScope] at htarget
    by_cases heq : id = other
    · rw [if_pos heq] at htarget
      cases htarget
      rw [hentries]
      exact Nat.zero_le _
    · rw [if_neg heq] at htarget
      exact h.entries_le htarget
  scopes_only := h.scopes_only

/-- A scope that is entered counts one entry more, and has it. -/
theorem activate (h : w.Exact) (hscope : w.scope? id = some scope) (parents : Path)
    (basename : Text) : (w.activate id scope parents basename).Exact where
  entries_le {other target} htarget := by
    rw [scope?_activate] at htarget
    rw [activeValues, values_activate]
    by_cases heq : id = other
    · subst heq
      rw [if_pos rfl, hscope] at htarget
      cases htarget
      rw [if_pos ⟨rfl, rfl⟩, List.count_cons_self]
      exact Nat.succ_le_succ (h.entries_le hscope)
    · rw [if_neg heq] at htarget
      have hold := h.entries_le htarget
      split
      · rw [List.count_cons_of_ne fun hnew => heq (Value.scope.inj hnew)]
        exact hold
      · exact hold
  scopes_only {name value} hmem := by
    rw [values_activate] at hmem
    split at hmem
    · rcases List.mem_cons.mp hmem with hnew | hold
      · exact ⟨id, hnew⟩
      · exact h.scopes_only hold
    · exact h.scopes_only hmem

/-- A scope that is left counts one entry less, and it is its own entry that goes. -/
theorem deactivate (h : w.Exact) {rest : List Value} (hscope : w.scope? id = some scope)
    (htop : w.activeValues scope.environment = .scope id :: rest) :
    (w.deactivate id scope).Exact where
  entries_le {other target} htarget := by
    rw [scope?_deactivate] at htarget
    rw [activeValues, values_deactivate]
    by_cases heq : id = other
    · subst heq
      rw [if_pos rfl, hscope] at htarget
      cases htarget
      have hold := h.entries_le hscope
      rw [htop, List.count_cons_self] at hold
      rw [if_pos ⟨rfl, rfl⟩]
      show scope.entries - 1 ≤ (w.activeValues scope.environment).tail.count (.scope id)
      rw [htop, List.tail_cons]
      omega
    · rw [if_neg heq] at htarget
      have hold := h.entries_le htarget
      split
      · next hwhere =>
          -- the entry that goes is of another scope
          have hsame : (w.stack target.environment.contexts).values Scope.contextKey =
              .scope id :: rest := by
            rw [← hwhere.1]
            exact htop
          rw [activeValues, hsame, List.count_cons_of_ne fun h => heq (Value.scope.inj h)] at hold
          rw [hsame, List.tail_cons]
          exact hold
      · exact hold
  scopes_only {name value} hmem := by
    rw [values_deactivate] at hmem
    split at hmem
    · exact h.scopes_only (List.mem_of_mem_tail hmem)
    · exact h.scopes_only hmem

/-- A scope is gone, and perhaps its entries with it. -/
theorem dropScope (h : w.Exact) (hscopes : ∀ other, v.scope? other = w.scope? other)
    (hvalues : ∀ name,
      (v.stack name).values Scope.contextKey = (w.stack name).values Scope.contextKey ∨
      (v.stack name).values Scope.contextKey =
        ((w.stack name).values Scope.contextKey).filter (· != .scope id)) :
    (v.dropScope id).Exact where
  entries_le {other target} htarget := by
    rw [scope?_dropScope] at htarget
    split at htarget
    · cases htarget
    · next hne =>
        -- the entries of another scope are not among those that were taken off
        rw [hscopes] at htarget
        have hkept : (Value.scope other != .scope id) = true := by
          rw [bne_iff_ne]
          intro heq
          exact hne (Value.scope.inj heq).symm
        refine Nat.le_trans (h.entries_le htarget) ?_
        show _ ≤ ((v.stack target.environment.contexts).values Scope.contextKey).count _
        rcases hvalues target.environment.contexts with hsame | hfiltered
        · rw [hsame, activeValues]
        · rw [hfiltered, List.count_filter (p := (· != Value.scope id)) hkept, activeValues]
  scopes_only {name value} hmem := by
    have hold : value ∈ (w.stack name).values Scope.contextKey := by
      have hnow : value ∈ (v.stack name).values Scope.contextKey := hmem
      rcases hvalues name with hsame | hfiltered
      · rwa [hsame] at hnow
      · rw [hfiltered] at hnow
        exact List.mem_of_mem_filter hnow
    exact h.scopes_only hold

/-- With a scope all its entries go, and those of the others stay. -/
theorem destroy (h : w.Exact) (id : ScopeId) (scope : Scope) :
    ((if scope.entries = 0 then w else w.evict id scope).dropScope id).Exact := by
  split
  · exact h.dropScope (fun _ => rfl) fun _ => Or.inl rfl
  · refine h.dropScope (fun other => scope?_evict w id other scope) fun name => ?_
    rw [values_evict]
    split
    · exact Or.inr rfl
    · exact Or.inl rfl

end Exact

variable {counting : Prop} {w v : World} {n : Nat}

/-- Every passage keeps counts exact. -/
theorem Passage.exact (h : Passage counting w n v) (hw : w.Exact) : v.Exact := by
  cases h with
  | make hfree hentries => exact hw.addScope hentries
  | enter hscope parents basename => exact hw.activate hscope parents basename
  | leave hscope htop => exact hw.deactivate hscope htop
  | destroy hscope => exact hw.destroy _ _
  | elsewhere hstanding hpassages => exact hw.congr hstanding

/-- So do passages one after the other, by induction on them. -/
theorem Passages.exact (h : Passages counting w n v) (hw : w.Exact) : v.Exact := by
  induction h with
  | refl => exact hw
  | tail _ hlast ih => exact hlast.exact ih

/-! ## The balance of the metrics -/

/-- Counting is switched on, and every entry that was counted when it came is still there, or was
    counted when it was left, or is one of those that destructors took off. -/
structure Balanced (removed : Nat) (w : World) : Prop where
  enabled : w.metrics.enabled = true
  balance : w.metrics.tally.scopesEntered =
    w.metrics.tally.scopesExited + UInt64.ofNat (w.activeEntries + removed)

/-- While counting is switched on, an event is added to its own counter. -/
theorem count_metrics {w : World} (henabled : w.metrics.enabled = true) (metric : Metric) :
    (w.metrics.count metric).enabled = true ∧
      ∀ other, (w.metrics.count metric).tally.get other =
        if other = metric then w.metrics.tally.get metric + 1 else w.metrics.tally.get other := by
  constructor
  · rw [w.metrics.enabled_count metric]
    exact henabled
  · intro other
    exact w.metrics.get_count metric other henabled

/-- Destroying a scope is not counted. -/
theorem metrics_destroy (w : World) (id : ScopeId) (scope : Scope) :
    ((if scope.entries = 0 then w else w.evict id scope).dropScope id).metrics = w.metrics := by
  show (if scope.entries = 0 then w else w.evict id scope).metrics = w.metrics
  split
  · rfl
  · simp only [evict]
    split <;> rfl

/-- Every passage that is counted keeps the balance, with what its destructor took off. -/
theorem Passage.balanced {removed : Nat} (h : Passage True w n v) (hw : w.Balanced removed) :
    v.Balanced (removed + n) := by
  cases h with
  | make hfree hentries => exact ⟨hw.enabled, hw.balance⟩
  | enter hscope parents basename =>
      rename_i id scope
      obtain ⟨henabled, htally⟩ := count_metrics hw.enabled .scopesEntered
      have hentered : (w.activate id scope parents basename).metrics.tally.scopesEntered =
          w.metrics.tally.scopesEntered + 1 := htally .scopesEntered
      have hexited : (w.activate id scope parents basename).metrics.tally.scopesExited =
          w.metrics.tally.scopesExited := htally .scopesExited
      refine ⟨henabled, ?_⟩
      rw [hentered, hexited, hw.balance, activeEntries_activate, UInt64.add_assoc]
      have hsum : w.activeEntries + 1 + (removed + 0) = w.activeEntries + removed + 1 := by omega
      rw [hsum, UInt64.ofNat_add _ 1]
      rfl
  | leave hscope htop =>
      rename_i id scope rest
      obtain ⟨henabled, htally⟩ := count_metrics hw.enabled .scopesExited
      have hentered : (w.deactivate id scope).metrics.tally.scopesEntered =
          w.metrics.tally.scopesEntered := htally .scopesEntered
      have hexited : (w.deactivate id scope).metrics.tally.scopesExited =
          w.metrics.tally.scopesExited + 1 := htally .scopesExited
      have hleft := activeEntries_deactivate htop
      refine ⟨henabled, ?_⟩
      rw [hentered, hexited, hw.balance, UInt64.add_assoc, UInt64.add_comm 1]
      have hsum : w.activeEntries + removed =
          (w.deactivate id scope).activeEntries + (removed + 0) + 1 := by omega
      rw [hsum, UInt64.ofNat_add _ 1]
      rfl
  | destroy hscope =>
      have hmetrics := w.metrics_destroy
      have hsum := activeEntries_destroy hscope
      refine ⟨?_, ?_⟩
      · rw [hmetrics]
        exact hw.enabled
      · rw [hmetrics, hw.balance, ← hsum]
        congr 2
        omega
  | elsewhere hstanding hpassages =>
      obtain ⟨henabled, hentered, hexited⟩ := hpassages trivial
      refine ⟨henabled.trans hw.enabled, ?_⟩
      rw [hentered, hexited, activeEntries_congr hstanding.2]
      exact hw.balance

/-- So do passages one after the other, by induction on them. -/
theorem Passages.balanced {removed : Nat} (h : Passages True w n v) (hw : w.Balanced removed) :
    v.Balanced (removed + n) := by
  induction h with
  | refl => exact hw
  | tail _ hlast ih =>
      rw [← Nat.add_assoc]
      exact hlast.balanced ih

end World

/-! ## Along sessions -/

namespace Session

/-- A step leaves what its request leaves, from an emptied log. -/
theorem step_eq_after (s : Session) (request : Request) :
    (s.step request).2 = after (perform request) s.drained := by
  rw [step, after]
  cases perform request s.drained <;> rfl

theorem steps_append (s : Session) (requests more : List Request) :
    (s.steps (requests ++ more)).2 = ((s.steps requests).2.steps more).2 := by
  induction requests generalizing s with
  | nil => rfl
  | cons request rest ih => exact ih (s.step request).2

/-- A lease on another key than that of active scopes may be made. -/
theorem newLease_leasesApart {s : Session} (h : s.LeasesApart) (name : Text) (lease : Lease)
    (hkey : lease.key ≠ Scope.contextKey) (value : Value) :
    (after (newLease name lease value) s).LeasesApart := by
  rw [newLease, after_bind, get_apply]
  simp only [requireFree]
  split
  · exact h
  · intro other found hfound
    have hinserted : (s.leases.insert name lease).get? other = some found := hfound
    rw [Roster.get?_insert] at hinserted
    by_cases heq : name = other
    · rw [if_pos heq] at hinserted
      cases hinserted
      exact hkey
    · rw [if_neg heq] at hinserted
      exact h other found hinserted

/-- A lease may be dropped. -/
theorem dropLease_leasesApart {s : Session} (h : s.LeasesApart) (name : Text) :
    (after (dropLease name) s).LeasesApart := by
  rw [dropLease, after_bind, get_apply]
  simp only
  rw [after_bind, held_apply]
  cases s.leases.get? name with
  | none => exact h
  | some lease =>
      simp only
      rw [after_bind, act]
      cases lease.finish s.world with
      | error e w => exact h
      | ok u w =>
          intro other found hfound
          have herased : (s.leases.erase name).get? other = some found := hfound
          rw [Roster.get?_erase] at herased
          split at herased
          · cases herased
          · exact h other found herased

/-- Confined requests keep leases off the key of active scopes. -/
theorem perform_leasesApart (request : Request) {s : Session} (hconfined : request.Confined)
    (h : s.LeasesApart) : (after (perform request) s).LeasesApart := by
  by_cases hleases : Aspect.leases ∉ request.touched
  · have hsame : (after (perform request) s).leases = s.leases :=
      (perform_keeps request hleases s).2 rfl
    intro name lease hfound
    rw [hsame] at hfound
    exact h name lease hfound
  · cases request with
    | newLease name stack key datum =>
        exact newLease_leasesApart h name ⟨stack, key⟩ hconfined (Datum.value datum)
    | dropLease name => exact dropLease_leasesApart h name
    | makeLabel name location save =>
        exact absurd (leases_not_mem_touchedByLabel name location) hleases
    | _ => simp_all [Request.touched, Request.Confined]

/-- What confined requests keep: entries are counted exactly, and no lease could change that. -/
structure Exact (s : Session) : Prop where
  world : s.world.Exact
  leases : s.LeasesApart

/-- When a session starts there are no scopes, no entries and no leases. -/
theorem start_exact : Session.Exact {} := by
  have hworld : ({} : Session).world.Exact := by
    constructor
    case entries_le =>
      intro id scope hscope
      exact absurd hscope.symm (Option.some_ne_none scope)
    case scopes_only =>
      intro name value hmem
      have hstack : ({} : Session).world.stack name = ∅ := Std.ExtTreeMap.getD_empty
      rw [hstack, Contexts.values_empty] at hmem
      exact absurd hmem List.not_mem_nil
  have hleases : ({} : Session).LeasesApart := by
    intro name lease hfound
    exact absurd hfound.symm (Option.some_ne_none lease)
  exact ⟨hworld, hleases⟩

theorem Exact.drained {s : Session} (h : s.Exact) : s.drained.Exact :=
  ⟨h.world.congr ⟨fun _ => rfl, fun _ => rfl⟩, h.leases⟩

/-- A confined request keeps counts exact. -/
theorem Exact.step {s : Session} (h : s.Exact) {request : Request}
    (hconfined : request.Confined) : (s.step request).2.Exact := by
  have hdrained := h.drained
  have hpassages : World.Passages False _ _ _ :=
    perform_passages request hconfined hdrained.leases False.elim
  have hworld := hpassages.exact hdrained.world
  have hleases := perform_leasesApart request hconfined hdrained.leases
  rw [step_eq_after]
  exact ⟨hworld, hleases⟩

/-- So do confined requests one after the other, by induction on them. -/
theorem Exact.steps {s : Session} (h : s.Exact) {requests : List Request}
    (hconfined : ∀ request ∈ requests, request.Confined) : (s.steps requests).2.Exact := by
  induction requests generalizing s with
  | nil => exact h
  | cons request rest ih =>
      obtain ⟨hfirst, hrest⟩ := List.forall_mem_cons.mp hconfined
      exact ih (h.step hfirst) hrest

/-- How many entries destructors take off during some requests. -/
def evicted (s : Session) : List Request → Nat
  | [] => 0
  | request :: rest => s.drained.evictions request + (s.step request).2.evicted rest

/-- Confined requests that leave the metrics to the library keep the balance, by induction on them.
    -/
theorem Exact.balanced {s : Session} (h : s.Exact) {requests : List Request} {removed : Nat}
    (hconfined : ∀ request ∈ requests, request.Confined)
    (hkeeps : ∀ request ∈ requests, request.KeepsMetrics) (hs : s.world.Balanced removed) :
    (s.steps requests).2.world.Balanced (removed + s.evicted requests) := by
  induction requests generalizing s removed with
  | nil => exact hs
  | cons request rest ih =>
      obtain ⟨hfirst, hrest⟩ := List.forall_mem_cons.mp hconfined
      obtain ⟨hkeepsFirst, hkeepsRest⟩ := List.forall_mem_cons.mp hkeeps
      have hpassages : World.Passages True _ _ _ :=
        perform_passages request hfirst h.drained.leases fun _ => hkeepsFirst
      have hdrained : s.drained.world.Balanced removed := ⟨hs.enabled, hs.balance⟩
      have hnext := hpassages.balanced hdrained
      rw [← step_eq_after] at hnext
      rw [evicted, ← Nat.add_assoc]
      exact ih (h.step hfirst) hrest hkeepsRest hnext

/-- Whatever confined requests were made so far: every scope counts exactly the entries that it has,
    so that it is activated if and only if it is active, and only scopes that are alive are active.
    From a time on when counting was switched on, with nothing counted and nothing active yet, and
    as long as the metrics were left to the library since, the entries that came are those that were
    left, those that are there, and those that destructors took off, modulo 2^64. -/
theorem entries_exact {requests : List Request}
    (hconfined : ∀ request ∈ requests, request.Confined) :
    let s := (Session.steps {} requests).2
    (∀ id scope, s.world.scope? id = some scope →
      scope.entries = (s.world.activeValues scope.environment).count (.scope id) ∧
      (scope.activated = true ↔ .scope id ∈ s.world.activeValues scope.environment)) ∧
    (∀ name value, value ∈ (s.world.stack name).values Scope.contextKey →
      ∃ id scope, value = .scope id ∧ s.world.scope? id = some scope) ∧
    ∀ before after, requests = before ++ after →
      let m := (Session.steps {} before).2
      m.world.metrics = { enabled := true } → m.world.activeEntries = 0 →
      (∀ request ∈ after, request.KeepsMetrics) →
      s.world.metrics.tally.scopesEntered = s.world.metrics.tally.scopesExited +
        UInt64.ofNat (s.world.activeEntries + m.evicted after) := by
  intro s
  have hexact : s.Exact := start_exact.steps hconfined
  have hsound : s.world.Sound := steps_sound start_sound requests
  refine ⟨?entries, ?alive, ?balance⟩
  case entries =>
    intro id scope hscope
    have hentries : scope.entries = (s.world.activeValues scope.environment).count (.scope id) :=
      Nat.le_antisymm (hexact.world.entries_le hscope) (hsound.counted hscope)
    refine ⟨hentries, ?_⟩
    rw [Scope.activated, bne_iff_ne, hentries, ← Nat.pos_iff_ne_zero, List.count_pos_iff]
  case alive =>
    intro name value hmem
    obtain ⟨id, rfl⟩ := hexact.world.scopes_only hmem
    obtain ⟨-, scope, hscope, -⟩ := hsound.pointers hmem
    exact ⟨id, scope, rfl, hscope⟩
  case balance =>
    intro before after hsplit m hmetrics hnone hkeeps
    subst hsplit
    obtain ⟨hbefore, hafter⟩ := List.forall_mem_append.mp hconfined
    have hm : m.Exact := start_exact.steps hbefore
    have hstart : m.world.Balanced 0 := by
      refine ⟨by rw [hmetrics], ?_⟩
      rw [hmetrics, hnone]
      rfl
    have hend := (hm.balanced hafter hkeeps hstart).balance
    rw [Nat.zero_add, ← steps_append] at hend
    exact hend

/-- A session in which a guard is released out of order, and a scope is destroyed that has one entry
    below another scope and one above it. -/
def crossingRequests : List Request :=
  [.newScope "a" (.basename defaultName "a"), .newScope "b" (.unnamed defaultName),
    .enterScope "a", .newGuard "g" "b", .enterScope "a", .exitScope "b", .dropGuard "g",
    .makeLabel (.fresh none) (.current defaultName) none, .dropScope "a"]

/-- One entry is left and two were taken off by a destructor, so three more were entered than
    exited. -/
theorem entries_exact_crossing :
    let s := (Session.steps {} (.countEvents true :: crossingRequests)).2
    let m := (Session.steps {} [.countEvents true]).2
    (∀ request ∈ .countEvents true :: crossingRequests, request.Confined) ∧
      s.world.activeEntries = 1 ∧ m.evicted crossingRequests = 2 ∧
      s.world.metrics.tally.scopesEntered =
        s.world.metrics.tally.scopesExited + UInt64.ofNat (1 + 2) := by
  intro s m
  have hconfined : ∀ request ∈ .countEvents true :: crossingRequests, request.Confined := by
    simp [crossingRequests, Request.Confined]
  have hkeeps : ∀ request ∈ crossingRequests, request.KeepsMetrics := by
    simp [crossingRequests, Request.KeepsMetrics]
  have hactive : s.world.activeEntries = 1 := by decide +kernel
  have hevicted : m.evicted crossingRequests = 2 := by decide +kernel
  have hmetrics : m.world.metrics = { enabled := true } := by decide +kernel
  have hnone : m.world.activeEntries = 0 := by decide +kernel
  obtain ⟨-, -, hbalance⟩ := entries_exact hconfined
  refine ⟨hconfined, hactive, hevicted, ?_⟩
  rw [← hactive, ← hevicted]
  exact hbalance [.countEvents true] crossingRequests rfl hmetrics hnone hkeeps

end Session

end ScopedLabels
