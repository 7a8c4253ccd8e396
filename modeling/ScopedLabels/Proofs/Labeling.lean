import ScopedLabels.Proofs.Faults

/-!
# Labeling — what making a label does to the world

A label on the spot is made by a scope that is entered, left and destroyed again, and of which the
world keeps only traces: the counter of its path is at zero, an entry and a leaving were counted,
and both were reported. `World.visited` is the world with these traces, and what a label does to the
world is a draw, if it has no name, then a count, then a visit (`momentaryLabel_ok`). `Labels` says
what can be read off this: where the label stands, every counter, every stack, all scopes and all
metrics.

The counter that is drawn from belongs to the path above the label, and a path never has the text of
the path above it. So the visit does not undo the draw, and a row of nameless labels is numbered
consecutively.
-/

namespace ScopedLabels

/-! ## A visit -/

namespace World

/-- What is left in the world of a scope that was entered, left and destroyed at once, by the label
    with its path. -/
def visited (w : World) (environment : Environment) (label : Label) : World :=
  let display : Text := "label_scope('" ++ label.text ++ "')"
  w.modifyRegistry environment.counters (·.zero label.text)
    |>.count .scopesEntered
    |>.count .scopesExited
    |>.report .debug (.entered display)
    |>.report .debug (.exited display)

/-- A stack that was ever touched may be touched again. -/
theorem modifyStack_id {w : World} {name : Text} (h : name ∈ w.contexts) :
    w.modifyStack name id = w := by
  refine World.ext rfl (Std.ExtTreeMap.ext_getElem? fun other => ?_) rfl rfl rfl rfl
  show (w.contexts.insert name (w.stack name))[other]? = w.contexts[other]?
  rw [Std.ExtTreeMap.getElem?_insert]
  split
  · next heq =>
      rw [Std.compare_eq_iff_eq] at heq
      subst heq
      obtain ⟨c, hc⟩ := Option.isSome_iff_exists.mp (Std.ExtTreeMap.mem_iff_isSome_getElem?.mp h)
      rw [stack, Std.ExtTreeMap.getD_eq_getD_getElem?, hc]
      rfl
  · rfl

/-- Where something is active, the stack was touched. -/
theorem mem_contexts_of_activeValues {w : World} {environment : Environment}
    (h : w.activeValues environment ≠ []) : environment.contexts ∈ w.contexts := by
  by_contra hnone
  refine h ?_
  rw [activeValues, stack, Std.ExtTreeMap.getD_eq_fallback hnone, Contexts.values_empty]

/-- What is left in the world of a label that was made on the spot, once it was decided where it
    stands. The stack was touched, and is as it was. -/
def withLabel (w : World) (environment : Environment) (label : Label) : World :=
  ((w.modifyStack environment.contexts id).count .labelsGenerated).visited environment label

/-- A scope that was made in a world, entered, counted, left and destroyed leaves the traces of a
    visit. -/
theorem labeled_addScope {u : World} (hfree : u.scope? .transient = none) (scope : Scope)
    (parents : Path) (basename : Text) :
    (u.addScope .transient scope).labeled scope parents basename =
      u.withLabel scope.environment ⟨parents ++ [basename]⟩ := by
  have hstacks := u.modifyStack_modifyStack scope.environment.contexts
    (·.push Scope.contextKey (.scope .transient)) (·.dropTop Scope.contextKey)
  have hrestored : (fun c : Contexts => c.dropTop Scope.contextKey) ∘
      (·.push Scope.contextKey (.scope .transient)) = id :=
    funext fun c => c.dropTop_push Scope.contextKey _
  rw [hrestored] at hstacks
  have hcontexts := congrArg World.contexts hstacks
  -- registries, options and log are the same term, and the scopes differ by one that is gone again
  refine World.ext rfl hcontexts rfl ?_ rfl ?_
  · let entered := settled scope parents basename
    show (((u.scopes.insert .transient scope).modify .transient fun _ => entered).modify .transient
      fun _ => { entered with entries := entered.entries - 1 }).erase .transient = u.scopes
    rw [Roster.erase_modify, Roster.erase_modify, Roster.erase_insert _ _ hfree]
  · -- the label is counted in the middle of its visit
    show ((u.metrics.count .scopesEntered).count .labelsGenerated).count .scopesExited =
      ((u.metrics.count .labelsGenerated).count .scopesEntered).count .scopesExited
    rw [u.metrics.count_comm]

end World

/-- A label on the spot is the path where a scope of its name would settle. Of making it the world
    keeps what settling did, one label more, and the traces of a visit. -/
theorem Environment.momentaryLabel_ok {environment : Environment} {name? : Option Text}
    {w v : World} {label : Label} (h : environment.momentaryLabel name? w = .ok label v) :
    ∃ parents basename u,
      Scope.Settles { environment, place := .unresolved name? } w parents basename u ∧
      label = ⟨parents ++ [basename]⟩ ∧ v = u.withLabel environment label := by
  -- a label that was given was made by a scope, which settled with the new scope already there
  rcases environment.momentaryLabel_cases name? w with
    ⟨e, hfailed⟩ | ⟨scope, parents, basename, v', hmade, hfree, hsettles, hlabel⟩
  · cases h.symm.trans hfailed
  · cases Origin.scope_ofName? hmade
    obtain ⟨u, hbefore, rfl⟩ := hsettles.of_addScope rfl
    cases h.symm.trans hlabel
    refine ⟨parents, basename, u, hbefore, rfl, ?_⟩
    exact World.labeled_addScope ((hbefore.sameScopes.scope?_eq _).trans hfree) _ _ _

/-! ## What can be read off -/

namespace World

/-- Setting a counter of a registry changes the value of this counter alone. -/
theorem get_modifyRegistry_set (w : World) (registry name : Text) (value : UInt64)
    (other counter : Text) :
    ((w.modifyRegistry registry (·.set name value)).registry other).get counter =
      if other = registry ∧ counter = name then value else (w.registry other).get counter := by
  rw [registry_modifyRegistry]
  by_cases hregistry : registry = other
  · subst hregistry
    rw [if_pos rfl, Counters.get_set]
    by_cases hname : name = counter
    · rw [if_pos hname, if_pos ⟨rfl, hname.symm⟩]
    · rw [if_neg hname, if_neg fun h => hname h.2.symm]
  · rw [if_neg hregistry, if_neg fun h => hregistry h.1.symm]

/-- Setting a counter of a registry adds its name to those that the registry holds. -/
theorem mem_modifyRegistry_set (w : World) (registry name : Text) (value : UInt64)
    (other counter : Text) :
    counter ∈ ((w.modifyRegistry registry (·.set name value)).registry other).values ↔
      (other = registry ∧ counter = name) ∨ counter ∈ (w.registry other).values := by
  rw [registry_modifyRegistry]
  by_cases hregistry : registry = other
  · subst hregistry
    rw [if_pos rfl, Counters.mem_values_set]
    simp [eq_comm]
  · rw [if_neg hregistry]
    simp [Ne.symm hregistry]

theorem drawn_eq (w : World) (registry name : Text) :
    w.drawn registry name =
      w.modifyRegistry registry (·.set name ((w.registry registry).get name + 1)) := by
  simp only [drawn, modifyRegistry, Counters.draw]

section Label

variable (w : World) (environment : Environment) (label : Label)

/-- A label on the spot leaves the counter of its own path at zero, and no other counter is
    different. -/
theorem get_withLabel (registry counter : Text) :
    ((w.withLabel environment label).registry registry).get counter =
      if registry = environment.counters ∧ counter = label.text then 0
      else (w.registry registry).get counter :=
  w.get_modifyRegistry_set environment.counters label.text 0 registry counter

theorem mem_withLabel (registry counter : Text) :
    counter ∈ ((w.withLabel environment label).registry registry).values ↔
      (registry = environment.counters ∧ counter = label.text) ∨
        counter ∈ (w.registry registry).values :=
  w.mem_modifyRegistry_set environment.counters label.text 0 registry counter

/-- A label on the spot leaves every stack as it was. -/
theorem stack_withLabel (name : Text) :
    (w.withLabel environment label).stack name = w.stack name := by
  have htouched := w.stack_modifyStack environment.contexts name id
  split at htouched
  · next hname => exact hname ▸ htouched
  · exact htouched

theorem enabled_withLabel :
    (w.withLabel environment label).metrics.enabled = w.metrics.enabled := by
  show (((w.metrics.count .labelsGenerated).count .scopesEntered).count .scopesExited).enabled = _
  simp only [Metrics.enabled_count]

/-- One label, one entry and one leaving are counted. -/
theorem tally_withLabel (h : w.metrics.enabled = true) (metric : Metric) :
    (w.withLabel environment label).metrics.tally.get metric =
      w.metrics.tally.get metric + if metric = .globalFallbacks then 0 else 1 := by
  show (((w.metrics.count .labelsGenerated).count .scopesEntered).count .scopesExited).tally.get
    metric = _
  cases metric <;> simp [Metrics.get_count, h]

theorem metrics_withLabel (h : w.metrics.enabled = false) :
    (w.withLabel environment label).metrics = w.metrics := by
  show ((w.metrics.count .labelsGenerated).count .scopesEntered).count .scopesExited = _
  simp only [Metrics.count_disabled _ _ h]

end Label

/-- What the second world shows of a label of that name that was made in the first. -/
structure Labels (w : World) (environment : Environment) (name? : Option Text) (label : Label)
    (v : World) : Prop where
  /-- The label stands below the innermost active scope, or at the top, or below the place of global
      numbering. Its last segment is the name, or else one draw. -/
  parts : ∃ parents segment, label.parts = parents ++ [segment] ∧
    w.parents? environment name? = some parents ∧
    (∀ name, name? = some name → segment = name) ∧
    (name? = none → ∃ registry, w.numbering? environment = some (registry, parents.text) ∧
      segment = Text.ofCount ((w.registry registry).get parents.text + 1))
  /-- The draw is not undone: no counter that is drawn from is the one that is set back. -/
  apart : name? = none → ∀ registry counter, w.numbering? environment = some (registry, counter) →
    counter ≠ label.text
  counters : ∀ registry counter, (v.registry registry).get counter =
    if registry = environment.counters ∧ counter = label.text then 0
    else if name? = none ∧ w.numbering? environment = some (registry, counter) then
      (w.registry registry).get counter + 1
    else (w.registry registry).get counter
  /-- The names that the registries hold. -/
  held : ∀ registry counter, counter ∈ (v.registry registry).values ↔
    (registry = environment.counters ∧ counter = label.text) ∨
    (name? = none ∧ w.numbering? environment = some (registry, counter)) ∨
    counter ∈ (w.registry registry).values
  stack_eq : ∀ name, v.stack name = w.stack name
  scopes_eq : v.scopes = w.scopes
  options_eq : v.options = w.options
  enabled_eq : v.metrics.enabled = w.metrics.enabled
  /-- One entry, one leaving and one label, and a fallback if a nameless label stands outside every
      scope. -/
  counted : w.metrics.enabled = true → ∀ metric, v.metrics.tally.get metric =
    w.metrics.tally.get metric +
      if metric = .globalFallbacks ∧ ¬ (name? = none ∧ w.current environment = .ok none) then 0
      else 1
  uncounted : w.metrics.enabled = false → v.metrics = w.metrics

end World

/-- What deciding where a nameless scope stands comes to: one draw of the counter of the path above
    it, after a fallback to global numbering if there is no scope above. A named one draws
    nothing. -/
theorem Scope.Settles.draws {scope : Scope} {w v : World} {parents : Path} {basename : Text}
    {name? : Option Text} (h : scope.Settles w parents basename v)
    (hplace : scope.place = .unresolved name?) :
    (name? ≠ none ∧ v = w) ∨
      (name? = none ∧ parents ≠ [] ∧ ∃ registry, ∃ u : World,
        w.numbering? scope.environment = some (registry, parents.text) ∧
        v = u.drawn registry parents.text ∧ u.registries = w.registries ∧
        u.metrics = if w.current scope.environment = .ok none then w.metrics.count .globalFallbacks
          else w.metrics) := by
  -- one case for each way to settle, and the place of the scope decides which can be
  cases h with
  | again hplace' =>
      rw [hplace] at hplace'
      cases hplace'
  | named hplace' hcurrent habove hpath =>
      rw [hplace] at hplace'
      cases hplace'
      exact .inl ⟨Option.some_ne_none _, rfl⟩
  | alone hplace' hcurrent =>
      rw [hplace] at hplace'
      cases hplace'
      exact .inl ⟨Option.some_ne_none _, rfl⟩
  | numbered hplace' hcurrent habove hpath =>
      rw [hplace] at hplace'
      cases hplace'
      refine .inr ⟨rfl, ne_nil_of_path hpath, _, w, ?_, rfl, rfl, ?_⟩
      · rw [World.numbering?, hcurrent]
        simp only [habove, Option.bind_eq_bind, Option.bind_some, path?_of_path hpath,
          Option.pure_def]
      · rw [hcurrent, if_neg (by simp)]
  | global hplace' hcurrent =>
      rw [hplace] at hplace'
      cases hplace'
      refine .inr ⟨rfl, List.cons_ne_nil _ _, _, w.fallBack scope.environment, ?_, rfl, ?_, ?_⟩
      · rw [World.numbering?, hcurrent]
        rfl
      · rw [World.fallBack]
        split <;> rfl
      · rw [hcurrent, if_pos rfl, World.fallBack]
        split <;> rfl

section Settled

variable {scope : Scope} {w v : World} {parents : Path} {basename : Text} {name? : Option Text}
  (h : scope.Settles w parents basename v) (hplace : scope.place = .unresolved name?)
include h hplace

/-- Deciding where a scope stands draws once from the counter above it, and only for a nameless one.
    -/
theorem Scope.Settles.get_registry (registry counter : Text) :
    (v.registry registry).get counter =
      if name? = none ∧ w.numbering? scope.environment = some (registry, counter) then
        (w.registry registry).get counter + 1
      else (w.registry registry).get counter := by
  rcases h.draws hplace with
    ⟨hname, rfl⟩ | ⟨rfl, -, drawn, u, hnumbering, rfl, hregistries, -⟩
  · rw [if_neg fun hnone => hname hnone.1]
  · have hsame : ∀ name, u.registry name = w.registry name := fun name => by
      rw [World.registry, hregistries, World.registry]
    rw [hnumbering, ← hsame, World.drawn_eq, World.get_modifyRegistry_set]
    by_cases heq : registry = drawn ∧ counter = parents.text
    · obtain ⟨rfl, rfl⟩ := heq
      simp
    · rw [if_neg heq, if_neg]
      rintro ⟨-, hsome⟩
      cases hsome
      exact heq ⟨rfl, rfl⟩

/-- A nameless scope leaves the counter that it drew from in its registry. -/
theorem Scope.Settles.mem_registry (registry counter : Text) :
    counter ∈ (v.registry registry).values ↔
      (name? = none ∧ w.numbering? scope.environment = some (registry, counter)) ∨
        counter ∈ (w.registry registry).values := by
  rcases h.draws hplace with
    ⟨hname, rfl⟩ | ⟨rfl, -, drawn, u, hnumbering, rfl, hregistries, -⟩
  · simp [hname]
  · have hsame : u.registry registry = w.registry registry := by
      rw [World.registry, hregistries, World.registry]
    rw [hnumbering, ← hsame, World.drawn_eq, World.mem_modifyRegistry_set]
    simp [eq_comm]

/-- Deciding where a scope stands counts a fallback if a nameless one has no scope above it, and
    nothing else. -/
theorem Scope.Settles.metrics_eq :
    v.metrics = if name? = none ∧ w.current scope.environment = .ok none then
      w.metrics.count .globalFallbacks else w.metrics := by
  rcases h.draws hplace with ⟨hname, rfl⟩ | ⟨rfl, -, drawn, u, -, rfl, -, hmetrics⟩
  · rw [if_neg fun hnone => hname hnone.1]
  · simp only [true_and]
    exact hmetrics

end Settled

/-- A label that is made on the spot is made as `World.Labels` says. -/
theorem Environment.momentaryLabel_labels {environment : Environment} {name? : Option Text}
    {w v : World} {label : Label} (h : environment.momentaryLabel name? w = .ok label v) :
    w.Labels environment name? label v := by
  obtain ⟨parents, basename, u, hsettles, rfl, rfl⟩ := momentaryLabel_ok h
  have hsame := hsettles.sameScopes
  have hmetrics : u.metrics = _ := hsettles.metrics_eq rfl
  have henabled : u.metrics.enabled = w.metrics.enabled := by
    rw [hmetrics]
    split
    · exact w.metrics.enabled_count _
    · rfl
  obtain ⟨_, _, hplace, hparents, hnamed, hnumbered⟩ := (hsettles.resolves rfl).place
  cases hplace
  -- nameless, it drew from the counter of the path above it
  have hdrawn : name? = none → parents ≠ [] ∧
      ∃ registry, w.numbering? environment = some (registry, parents.text) := by
    intro hnone
    rcases hsettles.draws rfl with ⟨hname, -⟩ | ⟨-, hne, registry, -, hnumbering, -⟩
    · exact absurd hnone hname
    · exact ⟨hne, registry, hnumbering⟩
  refine
    { parts := ⟨parents, basename, rfl, hparents, hnamed, fun hnone => ?parts⟩
      apart := fun hnone registry counter hnumbering => ?apart
      counters := fun registry counter => ?counters
      held := fun registry counter => ?held
      stack_eq := fun name => ?stack
      scopes_eq := hsame.scopes
      options_eq := hsame.options
      enabled_eq := (u.enabled_withLabel environment _).trans henabled
      counted := fun hcounting metric => ?counted
      uncounted := fun hsilent => ?uncounted }
  case parts =>
    obtain ⟨-, registry, hnumbering⟩ := hdrawn hnone
    obtain ⟨registry', counter, hnumbering', hbasename⟩ := hnumbered hnone
    cases hnumbering'.symm.trans hnumbering
    exact ⟨registry, hnumbering, hbasename⟩
  case apart =>
    obtain ⟨hne, registry', hnumbering'⟩ := hdrawn hnone
    cases hnumbering'.symm.trans hnumbering
    exact (Path.text_concat_ne hne basename).symm
  case counters => rw [World.get_withLabel, hsettles.get_registry rfl]
  case held => rw [World.mem_withLabel, hsettles.mem_registry rfl]
  case stack => rw [World.stack_withLabel, hsame.stack_eq]
  case counted =>
    rw [World.tally_withLabel _ _ _ (henabled.trans hcounting), hmetrics]
    split
    · next hfallback =>
        rw [w.metrics.get_count _ _ hcounting]
        cases metric <;> simp [hfallback]
    · next hfallback => simp [hfallback]
  case uncounted =>
    rw [World.metrics_withLabel _ _ _ (henabled.trans hsilent), hmetrics]
    split
    · exact w.metrics.count_disabled _ hsilent
    · rfl

/-! ## Rows of numbers -/

/-- The labels below a path that are numbered one after the other, from the number after `count`. -/
def Path.numbered (path : Path) (count : UInt64) (n : Nat) : List Label :=
  (List.range n).map fun i => ⟨path ++ [Text.ofCount (count + UInt64.ofNat (i + 1))]⟩

/-- The labels after the first are numbered from the next number on. -/
theorem Path.numbered_succ (path : Path) (count : UInt64) (n : Nat) :
    path.numbered count (n + 1) =
      ⟨path ++ [Text.ofCount (count + 1)]⟩ :: path.numbered (count + 1) n := by
  rw [numbered, List.range_succ_eq_map, List.map_cons, List.map_map, numbered]
  refine congrArg _ (List.map_congr_left fun i _ => ?_)
  have hnext : UInt64.ofNat (i + 1 + 1) = UInt64.ofNat (i + 1) + 1 := UInt64.ofNat_add (i + 1) 1
  have hcount : count + UInt64.ofNat (i + 1 + 1) = count + 1 + UInt64.ofNat (i + 1) := by
    rw [hnext]
    ac_rfl
  rw [Function.comp_apply, Nat.succ_eq_add_one, hcount]

/-- In a world that is ready, a scope is innermost in an environment. Its own environment may be
    another one with the same stack. -/
structure World.Inside (w : World) (environment : Environment) (id : ScopeId) (owner : Environment)
    (path : Path) : Prop extends w.Ready where
  current : w.current environment = .ok (some id)
  standing : ∃ scope, w.scope? id = some scope ∧ scope.environment = owner ∧ scope.path = .ok path

namespace World.Inside

variable {w v : World} {environment owner : Environment} {id : ScopeId} {path : Path}

/-- Nothing but the scopes and the stacks matters. -/
theorem congr (h : w.Inside environment id owner path) (hscopes : v.scopes = w.scopes)
    (hstacks : ∀ name, v.stack name = w.stack name) : v.Inside environment id owner path where
  toReady := h.toReady.congr hscopes hstacks
  current := by
    have hvalues : v.activeValues environment = w.activeValues environment := by
      rw [activeValues, hstacks, activeValues]
    rw [current_eq, hvalues, ← current_eq]
    exact h.current
  standing := by
    rw [scope?, hscopes]
    exact h.standing

variable (h : w.Inside environment id owner path)
include h

/-- Inside a scope, labels without a name are numbered in the registry of its environment by its
    path. -/
theorem numbering? : w.numbering? environment = some (owner.counters, path.text) := by
  obtain ⟨scope, hscope, rfl, hpath⟩ := h.standing
  rw [World.numbering?, h.current]
  simp only [hscope, Option.bind_eq_bind, Option.bind_some, Scope.path?_of_path hpath,
    Option.pure_def]

theorem parents? (name? : Option Text) : w.parents? environment name? = some path := by
  obtain ⟨scope, hscope, -, hpath⟩ := h.standing
  rw [World.parents?, h.current]
  simp only [hscope, Option.bind_some, Scope.path?_of_path hpath]

/-- What a label inside the scope leaves of it: the scope is innermost as before, and its counter
    went on only if the label has no name. -/
theorem labels_inside {name? : Option Text} {label : Label}
    (hlabels : w.Labels environment name? label v) :
    v.Inside environment id owner path ∧ label.text ≠ path.text ∧
      (v.registry owner.counters).get path.text =
        if name? = none then (w.registry owner.counters).get path.text + 1
        else (w.registry owner.counters).get path.text := by
  obtain ⟨above, -, -, hpath⟩ := h.standing
  obtain ⟨parents, segment, hparts, hparents, -, -⟩ := hlabels.parts
  cases (h.parents? name?).symm.trans hparents
  have hlonger : label.text ≠ path.text := by
    rw [Label.text, hparts]
    exact Path.text_concat_ne (Scope.ne_nil_of_path hpath) segment
  refine ⟨h.congr hlabels.scopes_eq hlabels.stack_eq, hlonger, ?_⟩
  rw [hlabels.counters, if_neg fun hzeroed => hlonger hzeroed.2.symm, h.numbering?]
  simp

/-- Only the name can be wrong with a label inside a scope. -/
theorem momentaryLabel_fails (name? : Option Text) :
    Fails (environment.momentaryLabel name?) w (Refused (w.optionsOf environment) name?) := by
  refine (environment.momentaryLabel_fails h.toReady name?).congr fun e => ⟨.inl, ?_⟩
  rintro (hrefused | ⟨-, hforeign, -⟩)
  · exact hrefused
  · exact absurd hforeign (not_foreign_of_current h.current)

/-- A label without a name takes the next number, and the scope is innermost as before. -/
theorem momentaryLabel_nameless :
    let count := (w.registry owner.counters).get path.text + 1
    ∃ v, environment.momentaryLabel none w = .ok ⟨path ++ [Text.ofCount count]⟩ v ∧
      v.Inside environment id owner path ∧ (v.registry owner.counters).get path.text = count := by
  intro count
  obtain ⟨label, v, hlabel⟩ := (h.momentaryLabel_fails none).exists_ok nofun
  have hlabels := environment.momentaryLabel_labels hlabel
  obtain ⟨hinside, -, hcount⟩ := h.labels_inside hlabels
  obtain ⟨parents, segment, hparts, hparents, -, hnumbered⟩ := hlabels.parts
  obtain ⟨registry, hnumbering, rfl⟩ := hnumbered rfl
  cases (h.parents? none).symm.trans hparents
  cases h.numbering?.symm.trans hnumbering
  refine ⟨v, ?_, hinside, hcount⟩
  rw [hlabel]
  exact congrArg (EStateM.Result.ok · v) (congrArg Label.mk hparts)

/-- As many labels without a name as one likes take the next numbers. -/
theorem mapM_labelFor (n : Nat) :
    ∃ v, ((List.replicate n (Naming.fresh none)).mapM environment.labelFor : Action _) w =
      .ok (path.numbered ((w.registry owner.counters).get path.text) n) v := by
  induction n generalizing w with
  | zero => exact ⟨w, rfl⟩
  | succ n ih =>
      -- after one label the world is as before for the next, except for the number
      obtain ⟨u, hlabel, hinside, hcount⟩ := h.momentaryLabel_nameless
      obtain ⟨v, hrest⟩ := ih hinside
      have hfirst : environment.labelFor (.fresh none) w = _ := hlabel
      refine ⟨v, ?_⟩
      rw [List.replicate_succ, List.mapM_cons, bind_apply, hfirst]
      simp only [bind_apply, hrest, pure_apply]
      rw [hcount, Path.numbered_succ]

end World.Inside

/-! ## Along sessions -/

namespace Session

/-- Whatever is requested, in every world that the session goes through a label on the spot that is
    made has the path of the innermost active scope and one more segment, and leaves of the world
    what `World.Labels` says: one counter is drawn from if the label has no name, another one is at
    zero, and stacks, scopes and options are as they were. A label that exists already is given
    back. And inside a scope any number of labels without a name can be made, and their numbers are
    consecutive. -/
theorem labelFor_effect (requests : List Request) :
    ∀ w ∈ Session.course {} requests, ∀ environment : Environment,
      (∀ name? label v, environment.labelFor (.fresh name?) w = .ok label v →
        w.Labels environment name? label v) ∧
      (∀ label, environment.labelFor (.ready label) w = .ok label w) ∧
      (∀ id scope path, w.current environment = .ok (some id) → w.scope? id = some scope →
        scope.path = .ok path → ∀ n,
          ∃ v, ((List.replicate n (Naming.fresh none)).mapM environment.labelFor : Action _) w =
            .ok (path.numbered ((w.registry scope.environment.counters).get path.text) n) v) := by
  intro w hw environment
  have hready := course_ready requests w hw
  refine ⟨?effect, fun label => rfl, ?row⟩
  case effect =>
    intro name? label v hlabel
    exact environment.momentaryLabel_labels hlabel
  case row =>
    intro id scope path hcurrent hscope hpath
    exact World.Inside.mapM_labelFor ⟨hready, hcurrent, scope, hscope, rfl, hpath⟩

/-- A scope is active whose path could not be made of names. -/
def oddRequests : List Request :=
  [.newScope "s" (.label defaultName (.literal ⟨["", "a/b"]⟩)), .enterScope "s"]

/-- Numbering goes by the path, whatever is in its segments. -/
theorem labelFor_effect_odd :
    ∃ v, ((List.replicate 2 (Naming.fresh none)).mapM Environment.default.labelFor : Action _)
      (Session.steps {} oddRequests).2.world =
        .ok [⟨["", "a/b", "1"]⟩, ⟨["", "a/b", "2"]⟩] v := by
  have hmem := steps_mem_course {} oddRequests
  have hrow := (labelFor_effect oddRequests _ hmem .default).2.2 (.held "s")
    ⟨.default, .resolved [""] "a/b", 1⟩ ["", "a/b"] (by decide +kernel) (by decide +kernel) rfl 2
  -- the path has an empty segment and one with a slash
  have hnumbered : Path.numbered ["", "a/b"]
      (((Session.steps {} oddRequests).2.world.registry defaultName).get
        (Path.text ["", "a/b"])) 2 =
        [⟨["", "a/b", "1"]⟩, ⟨["", "a/b", "2"]⟩] := by
    decide +kernel
  rw [← hnumbered]
  exact hrow

end Session

end ScopedLabels
