import ScopedLabels.Proofs.Lifetime

/-!
# Regions — parts of the world that one task works in

A `Region` names registries, stacks, environments and scopes. Two worlds agree in it if whatever is
looked up under these names is the same in both. A region is `Closed` in a world if nothing in it
leads out of it: its scopes belong to environments that it holds, and the scopes on its stacks are
its own. A change is `Confined` to a region if the worlds before and after it agree in all other
names.

A change of one registry, one stack, one environment or one scope keeps two worlds in agreement, in
every region, and it is confined to every region that has the name it is made under.
-/

namespace ScopedLabels

/-- A part of the world, by the names of what belongs to it. -/
structure Region where
  registries : Text → Prop
  contexts : Text → Prop
  /-- The environments whose options belong to it. -/
  options : Text → Prop
  scopes : ScopeId → Prop

namespace Region

/-- The region, and the scope that lives only while a label is made. -/
def withTransient (K : Region) : Region :=
  { K with scopes := fun id => K.scopes id ∨ id = .transient }

/-- Everything else. -/
def others (K : Region) : Region :=
  ⟨fun name => ¬ K.registries name, fun name => ¬ K.contexts name, fun name => ¬ K.options name,
    fun id => ¬ K.scopes id⟩

/-- One region is a part of another. -/
structure Part (K L : Region) : Prop where
  registries : ∀ name, K.registries name → L.registries name
  contexts : ∀ name, K.contexts name → L.contexts name
  options : ∀ name, K.options name → L.options name
  scopes : ∀ id, K.scopes id → L.scopes id

/-- A region is a part of itself with the transient scope. -/
theorem part_withTransient (K : Region) : K.Part K.withTransient := by
  constructor
  case registries =>
    intro name hname
    exact hname
  case contexts =>
    intro name hname
    exact hname
  case options =>
    intro name hname
    exact hname
  case scopes =>
    intro id hid
    exact Or.inl hid

/-- What is left beside the larger region is a part of what is left beside the smaller. -/
theorem Part.others {K L : Region} (h : K.Part L) : L.others.Part K.others := by
  constructor
  case registries =>
    intro name hname hK
    exact hname (h.registries name hK)
  case contexts =>
    intro name hname hK
    exact hname (h.contexts name hK)
  case options =>
    intro name hname hK
    exact hname (h.options name hK)
  case scopes =>
    intro id hid hK
    exact hid (h.scopes id hK)

/-- All that an environment works with is in the region. -/
structure Holds (K : Region) (environment : Environment) : Prop where
  registry : K.registries environment.counters
  stack : K.contexts environment.contexts
  options : K.options environment.name

/-- The transient scope is no environment's: what a region holds does not depend on it. -/
theorem Holds.withTransient {K : Region} {environment : Environment} :
    K.withTransient.Holds environment ↔ K.Holds environment := by
  constructor
  · intro h
    exact ⟨h.registry, h.stack, h.options⟩
  · intro h
    exact ⟨h.registry, h.stack, h.options⟩

/-- Every scope on a stack is one of the region. -/
def Owns (K : Region) (stack : Contexts) : Prop :=
  ∀ key id, .scope id ∈ stack.values key → K.scopes id

/-- Two worlds are the same in a region. -/
structure Agree (K : Region) (w v : World) : Prop where
  registry : ∀ name, K.registries name → v.registry name = w.registry name
  stack : ∀ name, K.contexts name → v.stack name = w.stack name
  options : ∀ environment : Environment, K.options environment.name →
    v.optionsOf environment = w.optionsOf environment
  scope? : ∀ id, K.scopes id → v.scope? id = w.scope? id

/-- Nothing in the region leads out of it. -/
structure Closed (K : Region) (w : World) : Prop where
  environments : ∀ id scope, K.scopes id → w.scope? id = some scope → K.Holds scope.environment
  contexts : ∀ name, K.contexts name → K.Owns (w.stack name)

/-! ## Agreement -/

namespace Agree

variable {K L : Region} {u v w : World}

theorem refl (K : Region) (w : World) : K.Agree w w where
  registry _ _ := rfl
  stack _ _ := rfl
  options _ _ := rfl
  scope? _ _ := rfl

theorem symm (h : K.Agree w v) : K.Agree v w where
  registry name hname := (h.registry name hname).symm
  stack name hname := (h.stack name hname).symm
  options environment hname := (h.options environment hname).symm
  scope? id hid := (h.scope? id hid).symm

theorem trans (h : K.Agree w v) (h' : K.Agree v u) : K.Agree w u where
  registry name hname := (h'.registry name hname).trans (h.registry name hname)
  stack name hname := (h'.stack name hname).trans (h.stack name hname)
  options environment hname := (h'.options environment hname).trans (h.options environment hname)
  scope? id hid := (h'.scope? id hid).trans (h.scope? id hid)

theorem mono (hpart : K.Part L) (h : L.Agree w v) : K.Agree w v where
  registry name hname := h.registry name (hpart.registries name hname)
  stack name hname := h.stack name (hpart.contexts name hname)
  options environment hname := h.options environment (hpart.options _ hname)
  scope? id hid := h.scope? id (hpart.scopes id hid)

/-- Worlds agree where they differ in log and metrics only. -/
theorem of_eq (hregistries : v.registries = w.registries) (hcontexts : v.contexts = w.contexts)
    (hoptions : v.options = w.options) (hscopes : v.scopes = w.scopes) : K.Agree w v where
  registry name _ := by rw [World.registry, hregistries, World.registry]
  stack name _ := by rw [World.stack, hcontexts, World.stack]
  options environment _ := by rw [World.optionsOf, hoptions, World.optionsOf]
  scope? id _ := by rw [World.scope?, hscopes, World.scope?]

/-! ### The same change on both sides -/

/-- A change of one registry depends only on what is in that registry. -/
theorem modifyRegistry (h : K.Agree w v) (name : Text) (f : Counters → Counters) :
    K.Agree (w.modifyRegistry name f) (v.modifyRegistry name f) where
  registry other hother := by
    rw [World.registry_modifyRegistry, World.registry_modifyRegistry]
    by_cases heq : name = other
    · have hname : K.registries name := heq ▸ hother
      rw [if_pos heq, if_pos heq, h.registry name hname]
    · rw [if_neg heq, if_neg heq]
      exact h.registry other hother
  stack := h.stack
  options := h.options
  scope? := h.scope?

/-- A change of one stack depends only on what is on that stack. -/
theorem modifyStack (h : K.Agree w v) (name : Text) (f : Contexts → Contexts) :
    K.Agree (w.modifyStack name f) (v.modifyStack name f) where
  registry := h.registry
  stack other hother := by
    rw [World.stack_modifyStack, World.stack_modifyStack]
    by_cases heq : name = other
    · have hname : K.contexts name := heq ▸ hother
      rw [if_pos heq, if_pos heq, h.stack name hname]
    · rw [if_neg heq, if_neg heq]
      exact h.stack other hother
  options := h.options
  scope? := h.scope?

/-- Setting options replaces them, whatever they were. -/
theorem setOptions (h : K.Agree w v) (environment : Environment) (options : Options) :
    K.Agree (w.setOptions environment options) (v.setOptions environment options) where
  registry := h.registry
  stack := h.stack
  options other hother := by
    have hold := h.options other hother
    simp only [World.optionsOf] at hold
    simp only [World.optionsOf, World.setOptions, Std.ExtTreeMap.getD_insert, hold]
  scope? := h.scope?

/-- A scope that is added hides what was kept under its identity. -/
theorem addScope (h : K.Agree w v) (id : ScopeId) (scope : Scope) :
    K.Agree (w.addScope id scope) (v.addScope id scope) where
  registry := h.registry
  stack := h.stack
  options := h.options
  scope? other hother := by
    rw [World.scope?_addScope, World.scope?_addScope, h.scope? other hother]

/-- A scope that is dropped is gone on both sides. -/
theorem dropScope (h : K.Agree w v) (id : ScopeId) :
    K.Agree (w.dropScope id) (v.dropScope id) where
  registry := h.registry
  stack := h.stack
  options := h.options
  scope? other hother := by
    rw [World.scope?_dropScope, World.scope?_dropScope, h.scope? other hother]

/-- A scope is replaced where there is one, which is so on both sides or on neither. -/
theorem putScope (h : K.Agree w v) (id : ScopeId) (scope : Scope) :
    K.Agree (w.putScope id scope) (v.putScope id scope) where
  registry := h.registry
  stack := h.stack
  options := h.options
  scope? other hother := by
    rw [World.scope?_putScope, World.scope?_putScope, h.scope? other hother]

end Agree

/-! ## Closed regions -/

end Region

namespace Contexts

variable {c : Contexts} {key other : Text} {value : Value}

/-- What is on a stack after its values under a key were replaced was on it before, if that holds of
    the values put there. -/
theorem mem_of_mem_put {list : List Value} (hmem : value ∈ (c.put key list).values other)
    (hlist : value ∈ list → value ∈ c.values key) : value ∈ c.values other := by
  rw [values_put] at hmem
  by_cases heq : key = other
  · rw [if_pos heq] at hmem
    rw [← heq]
    exact hlist hmem
  · rw [if_neg heq] at hmem
    exact hmem

/-- What is on a stack after a push is what was pushed, or was there before. -/
theorem mem_of_mem_push {top : Value} (hmem : value ∈ (c.push key top).values other) :
    value = top ∨ value ∈ c.values other := by
  by_cases heq : value = top
  · exact .inl heq
  · refine .inr (mem_of_mem_put hmem ?_)
    intro hlist
    rcases List.mem_cons.mp hlist with htop | hold
    · exact absurd htop heq
    · exact hold

theorem mem_of_mem_dropTop (hmem : value ∈ (c.dropTop key).values other) :
    value ∈ c.values other :=
  mem_of_mem_put hmem List.mem_of_mem_tail

theorem mem_of_mem_eraseAll {type : ValueType} {data : type.Carrier}
    (hmem : value ∈ (c.eraseAll type key data).2.values other) : value ∈ c.values other := by
  refine mem_of_mem_put hmem ?_
  intro hkept
  obtain ⟨hold, -⟩ := List.mem_filter.mp hkept
  exact hold

end Contexts

namespace Region

namespace Owns

variable {K : Region} {c : Contexts} {key : Text}

theorem empty (K : Region) : K.Owns ∅ := by
  intro key id hmem
  rw [Contexts.values_empty] at hmem
  exact absurd hmem List.not_mem_nil

/-- A value may be pushed if it is no scope, or one of the region. -/
theorem push (h : K.Owns c) {value : Value} (hvalue : ∀ id, value = .scope id → K.scopes id) :
    K.Owns (c.push key value) := by
  intro other id hmem
  rcases Contexts.mem_of_mem_push hmem with heq | hold
  · exact hvalue id heq.symm
  · exact h other id hold

theorem dropTop (h : K.Owns c) : K.Owns (c.dropTop key) := by
  intro other id hmem
  exact h other id (Contexts.mem_of_mem_dropTop hmem)

/-- What is popped off a stack is one of the region if it is a scope, and so is what is left. -/
theorem of_pop (h : K.Owns c) {value : Value} {rest : Contexts}
    (hpop : c.pop key = .ok (value, rest)) :
    (∀ id, value = .scope id → K.scopes id) ∧ K.Owns rest := by
  rw [Contexts.pop] at hpop
  cases htop : c.top key with
  | error e =>
      rw [htop] at hpop
      cases hpop
  | ok top =>
      rw [htop] at hpop
      cases hpop
      refine ⟨?_, h.dropTop⟩
      rintro id rfl
      exact h key id (Contexts.mem_of_top htop)

/-- What is popped as a value of one type is one of the region if it is a scope, and so is what is
    left. -/
theorem of_popAs (h : K.Owns c) {type : ValueType} {data : type.Carrier} {rest : Contexts}
    (hpop : c.popAs type key = .ok (data, rest)) :
    (∀ id, .of type data = Value.scope id → K.scopes id) ∧ K.Owns rest := by
  rw [Contexts.popAs] at hpop
  cases htop : c.topAs type key with
  | error e =>
      rw [htop] at hpop
      cases hpop
  | ok top =>
      rw [htop] at hpop
      cases hpop
      refine ⟨?_, h.dropTop⟩
      intro id heq
      have htop : Value.of type data ∈ c.values key := Contexts.mem_of_topAs htop
      rw [heq] at htop
      exact h key id htop

theorem eraseAll (h : K.Owns c) (type : ValueType) (data : type.Carrier) :
    K.Owns (c.eraseAll type key data).2 := by
  intro other id hmem
  exact h other id (Contexts.mem_of_mem_eraseAll hmem)

end Owns

namespace Closed

variable {K : Region} {w v : World}

/-- Whether a region is closed can be seen in the region. -/
theorem of_agree (h : K.Closed w) (hagree : K.Agree w v) : K.Closed v where
  environments id scope hid hscope := by
    rw [hagree.scope? id hid] at hscope
    exact h.environments id scope hid hscope
  contexts name hname := by
    rw [hagree.stack name hname]
    exact h.contexts name hname

/-- Changing anything but stacks and scopes keeps a region closed. -/
theorem of_eq (h : K.Closed w) (hcontexts : v.contexts = w.contexts)
    (hscopes : v.scopes = w.scopes) :
    K.Closed v where
  environments id scope hid hscope := by
    rw [World.scope?, hscopes] at hscope
    exact h.environments id scope hid hscope
  contexts name hname := by
    rw [World.stack, hcontexts]
    exact h.contexts name hname

/-- A stack may be changed as long as every scope that gets onto it is one of the region. -/
theorem modifyStack (h : K.Closed w) (name : Text) {f : Contexts → Contexts}
    (hf : ∀ c, K.Owns c → K.Owns (f c)) : K.Closed (w.modifyStack name f) where
  environments := h.environments
  contexts other hother := by
    rw [World.stack_modifyStack]
    by_cases heq : name = other
    · have hname : K.contexts name := heq ▸ hother
      rw [if_pos heq]
      exact hf _ (h.contexts name hname)
    · rw [if_neg heq]
      exact h.contexts other hother

/-- A scope may be added if the region holds its environment. -/
theorem addScope (h : K.Closed w) (id : ScopeId) {scope : Scope}
    (hscope : K.Holds scope.environment) :
    K.Closed (w.addScope id scope) where
  environments other found hother hfound := by
    rw [World.scope?_addScope] at hfound
    by_cases heq : id = other
    · rw [if_pos heq] at hfound
      have hsame : scope = found := Option.some.inj hfound
      rw [← hsame]
      exact hscope
    · rw [if_neg heq] at hfound
      exact h.environments other found hother hfound
  contexts := h.contexts

/-- Dropping a scope leaves the others as they were. -/
theorem dropScope (h : K.Closed w) (id : ScopeId) : K.Closed (w.dropScope id) where
  environments other found hother hfound := by
    rw [World.scope?_dropScope] at hfound
    by_cases heq : id = other
    · rw [if_pos heq] at hfound
      exact absurd hfound.symm (Option.some_ne_none found)
    · rw [if_neg heq] at hfound
      exact h.environments other found hother hfound
  contexts := h.contexts

/-- A scope may be replaced by one whose environment the region holds. -/
theorem putScope (h : K.Closed w) (id : ScopeId) {scope : Scope}
    (hscope : K.Holds scope.environment) :
    K.Closed (w.putScope id scope) where
  environments other found hother hfound := by
    rw [World.scope?_putScope] at hfound
    by_cases heq : id = other
    · rw [if_pos heq] at hfound
      obtain ⟨old, -, hsame⟩ := Option.map_eq_some_iff.mp hfound
      rw [← hsame]
      exact hscope
    · rw [if_neg heq] at hfound
      exact h.environments other found hother hfound
  contexts := h.contexts

end Closed

/-! ## Confined changes -/

/-- Outside the region, one world is as the other: in all other names, in where the log goes, and
    in whether events are counted. -/
structure Confined (K : Region) (w v : World) : Prop where
  others : K.others.Agree w v
  log : v.log.drained = w.log.drained
  enabled : v.metrics.enabled = w.metrics.enabled

namespace Confined

variable {K : Region} {u v w : World}

theorem refl (K : Region) (w : World) : K.Confined w w where
  others := .refl _ w
  log := rfl
  enabled := rfl

theorem trans (h : K.Confined w v) (h' : K.Confined v u) : K.Confined w u where
  others := h.others.trans h'.others
  log := h'.log.trans h.log
  enabled := h'.enabled.trans h.enabled

theorem mono {L : Region} (hpart : K.Part L) (h : K.Confined w v) : L.Confined w v where
  others := h.others.mono hpart.others
  log := h.log
  enabled := h.enabled

/-- Changing a registry of the region is confined to it. -/
theorem modifyRegistry (w : World) {name : Text} (hname : K.registries name)
    (f : Counters → Counters) : K.Confined w (w.modifyRegistry name f) := by
  have hkept : ∀ other, ¬ K.registries other →
      (w.modifyRegistry name f).registry other = w.registry other := by
    intro other hother
    have hne : name ≠ other := by
      rintro rfl
      exact hother hname
    rw [World.registry_modifyRegistry, if_neg hne]
  exact ⟨⟨hkept, fun _ _ => rfl, fun _ _ => rfl, fun _ _ => rfl⟩, rfl, rfl⟩

theorem modifyStack (w : World) {name : Text} (hname : K.contexts name) (f : Contexts → Contexts) :
    K.Confined w (w.modifyStack name f) := by
  have hkept : ∀ other, ¬ K.contexts other →
      (w.modifyStack name f).stack other = w.stack other := by
    intro other hother
    have hne : name ≠ other := by
      rintro rfl
      exact hother hname
    rw [World.stack_modifyStack, if_neg hne]
  exact ⟨⟨fun _ _ => rfl, hkept, fun _ _ => rfl, fun _ _ => rfl⟩, rfl, rfl⟩

theorem setOptions (w : World) {environment : Environment} (hname : K.options environment.name)
    (options : Options) : K.Confined w (w.setOptions environment options) := by
  have hkept : ∀ other : Environment, ¬ K.options other.name →
      (w.setOptions environment options).optionsOf other = w.optionsOf other := by
    intro other hother
    have hne : environment.name ≠ other.name := by
      intro heq
      exact hother (heq ▸ hname)
    simp [World.optionsOf, World.setOptions, Std.ExtTreeMap.getD_insert, hne]
  exact ⟨⟨fun _ _ => rfl, fun _ _ => rfl, hkept, fun _ _ => rfl⟩, rfl, rfl⟩

/-- A change of the scopes that is seen under one identity only. -/
theorem scopes {w : World} {id : ScopeId} {roster : Roster ScopeId Scope} (hid : K.scopes id)
    (hroster : ∀ other, id ≠ other → roster.get? other = w.scope? other) :
    K.Confined w { w with scopes := roster } := by
  have hkept : ∀ other, ¬ K.scopes other → roster.get? other = w.scope? other := by
    intro other hother
    have hne : id ≠ other := by
      rintro rfl
      exact hother hid
    exact hroster other hne
  exact ⟨⟨fun _ _ => rfl, fun _ _ => rfl, fun _ _ => rfl, hkept⟩, rfl, rfl⟩

/-- Adding a scope of the region is confined to it. -/
theorem addScope (w : World) {id : ScopeId} (hid : K.scopes id) (scope : Scope) :
    K.Confined w (w.addScope id scope) := by
  refine scopes hid ?_
  intro other hne
  exact (w.scope?_addScope id other scope).trans (if_neg hne)

theorem dropScope (w : World) {id : ScopeId} (hid : K.scopes id) :
    K.Confined w (w.dropScope id) := by
  refine scopes hid ?_
  intro other hne
  exact (w.scope?_dropScope id other).trans (if_neg hne)

theorem putScope (w : World) {id : ScopeId} (hid : K.scopes id) (scope : Scope) :
    K.Confined w (w.putScope id scope) := by
  refine scopes hid ?_
  intro other hne
  exact (w.scope?_putScope id other scope).trans (if_neg hne)

/-- A record changes the log only in what was written to it. -/
theorem report (w : World) (level : Level) (notice : Notice) :
    K.Confined w (w.report level notice) := by
  refine ⟨.of_eq rfl rfl rfl rfl, ?_, rfl⟩
  show (w.log.write level notice).drained = w.log.drained
  rw [Log.write]
  split <;> rfl

/-- Counting an event changes neither names nor whether events are counted. -/
theorem count (w : World) (metric : Metric) : K.Confined w (w.count metric) :=
  ⟨.of_eq rfl rfl rfl rfl, rfl, w.metrics.enabled_count metric⟩

end Confined

end Region

end ScopedLabels
