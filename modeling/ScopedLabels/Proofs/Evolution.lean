import Mathlib.Data.List.Chain
import ScopedLabels.Proofs.Changes
import ScopedLabels.Proofs.Naming
import ScopedLabels.Proofs.Tracing

/-!
# Evolution — what a step may do to a scope

A scope that was made without a place gets one when it is entered for the first time: below the
innermost active scope of its environment, if there is one. `World.Yields` lists what a step may do
to a scope: leave it where it is, place it by its first entry, make it, or make and enter it at
once. What may not be made and entered during a step is at most left or destroyed
(`Changes.stays`), so only the scopes that an `Allowance` lists have to be looked at.

Two facts follow for worlds that evolve one from another. What holds of every new scope and is kept
by entries holds of all scopes (`Scope.Grounded`). And a place is kept for as long as the scope
lives (`Scope.Ages`), so two scopes that are the same node stay the same node.
-/

namespace ScopedLabels

/-! ## What a step does to a scope -/

/-- The parents that a scope is given by its first entry: the path of the innermost active scope of
    its environment. Where no scope is active, a named scope has none, and a nameless one stands
    below the place of global numbering. -/
def World.parents? (w : World) (environment : Environment) (name? : Option Text) : Option Path :=
  match w.current environment with
  | .ok (some top) => (w.scope? top).bind Scope.path?
  | .ok none => some (if name?.isSome then [] else Scope.globalPath)
  | .error _ => none

namespace Scope

/-- The second scope is the first at the same place. It was entered in between only if it had a
    place. -/
structure Stays (a b : Scope) : Prop where
  environment : b.environment = a.environment
  place : b.place = a.place
  entries : a.resolved = false → b.entries ≤ a.entries

/-- The second scope is the first after it was given a place by an entry in a world. Its last
    segment is its name, or else the next number of the counter that numbers nameless scopes. -/
structure Resolves (w : World) (a b : Scope) : Prop where
  environment : b.environment = a.environment
  entries : b.entries = a.entries + 1
  unresolved : a.resolved = false
  place : ∃ parents basename, b.place = .resolved parents basename ∧
    w.parents? a.environment a.place.basename? = some parents ∧
    (∀ name, a.place.basename? = some name → basename = name) ∧
    (a.place.basename? = none → ∃ registry counter,
      w.numbering? a.environment = some (registry, counter) ∧
      basename = Text.ofCount ((w.registry registry).draw counter).1)

variable {a b c : Scope}

theorem path?_congr (h : b.place = a.place) : b.path? = a.path? := by
  rw [path?, h, path?]

theorem resolved_congr (h : b.place = a.place) : b.resolved = a.resolved := by
  rw [resolved, path?_congr h, resolved]

theorem Stays.refl (a : Scope) : a.Stays a :=
  ⟨rfl, rfl, fun _ => Nat.le_refl _⟩

/-- A scope that stays twice was entered neither time unless it had a place all along. -/
theorem Stays.trans (h : a.Stays b) (h' : b.Stays c) : a.Stays c where
  environment := h'.environment.trans h.environment
  place := h'.place.trans h.place
  entries hunresolved :=
    Nat.le_trans (h'.entries ((resolved_congr h.place).trans hunresolved)) (h.entries hunresolved)

end Scope

/-- What may have happened to a scope that is alive after a step, by the world before the step. -/
inductive World.Yields (w : World) (id : ScopeId) (b : Scope) : Prop
  | stays {a : Scope} (hscope : w.scope? id = some a) (hstays : a.Stays b)
  /-- The scope was entered for the first time. -/
  | resolves {a : Scope} (hscope : w.scope? id = some a) (hresolves : a.Resolves w b)
  /-- The scope was made, by the caller. -/
  | made {name : Text} {origin : Origin} (hid : id = .held name) (hfree : w.scope? id = none)
      (hmade : origin.scope w = .ok b)
  /-- The scope was made by a runner, and entered at once. -/
  | opened {a : Scope} {environment : Environment} {name : Option Text}
      (hfree : w.scope? id = none) (hmade : (Origin.ofName? environment name).scope w = .ok a)
      (hresolves : a.Resolves w b)

/-- Every scope that is alive after a step came about in one of these ways. -/
def World.Evolves (w v : World) : Prop :=
  ∀ id b, v.scope? id = some b → w.Yields id b

namespace World

variable {w v : World}

theorem Evolves.of_stays
    (h : ∀ id b, v.scope? id = some b → ∃ a, w.scope? id = some a ∧ a.Stays b) : w.Evolves v := by
  intro id b hb
  obtain ⟨a, hscope, hstays⟩ := h id b hb
  exact .stays hscope hstays

theorem Evolves.refl (w : World) : w.Evolves w :=
  .of_stays fun _ b hb => ⟨b, hb, .refl b⟩

/-- What stands in the log plays no part. -/
theorem Evolves.of_drained {s : Session} (h : s.drained.world.Evolves v) : s.world.Evolves v := by
  intro id b hb
  cases h id b hb with
  | stays hscope hstays => exact .stays hscope hstays
  | resolves hscope hresolves => exact .resolves hscope { hresolves with }
  | made hid hfree hmade => exact .made hid hfree hmade
  | opened hfree hmade hresolves => exact .opened hfree hmade { hresolves with }

/-! ## What is not made or entered -/

variable {allowed : Allowance} {id : ScopeId} {b : Scope}

/-- A scope that may not be made or entered was there before the change, at the same place. -/
theorem Change.stays (h : Change allowed w v) (hid : ¬ allowed.grows id)
    (hb : v.scope? id = some b) : ∃ a, w.scope? id = some a ∧ a.Stays b := by
  cases h with
  | make hgrows hmade hfree =>
      rw [scope?_addScope] at hb
      split at hb
      · next heq => exact absurd (heq ▸ hgrows) hid
      · exact ⟨b, hb, .refl b⟩
  | enter hgrows hscope hsettles =>
      rw [scope?_activate, hsettles.sameScopes.scope?_eq] at hb
      split at hb
      · next heq => exact absurd (heq ▸ hgrows) hid
      · exact ⟨b, hb, .refl b⟩
  | leave hleaves hscope htop hentries =>
      rw [scope?_deactivate] at hb
      split at hb
      · next heq =>
          subst heq
          rw [hscope] at hb
          cases hb
          -- leaving takes an entry away, and moves nothing
          exact ⟨_, hscope, rfl, rfl, fun _ => Nat.sub_le _ _⟩
      · exact ⟨b, hb, .refl b⟩
  | destroy hscope =>
      rw [scope?_dropScope] at hb
      split at hb
      · cases hb
      · split at hb
        · exact ⟨b, hb, .refl b⟩
        · rw [scope?_evict] at hb
          exact ⟨b, hb, .refl b⟩
  | configure hscopes hcontexts hregistries =>
      rw [scope?, hscopes] at hb
      exact ⟨b, hb, .refl b⟩
  -- the other changes are not about scopes
  | _ => exact ⟨b, hb, .refl b⟩

/-- What single changes leave in place, several leave in place. -/
theorem Changes.stays (h : Changes allowed w v) (hid : ¬ allowed.grows id)
    (hb : v.scope? id = some b) : ∃ a, w.scope? id = some a ∧ a.Stays b := by
  induction h generalizing b with
  | refl => exact ⟨b, hb, .refl b⟩
  | tail _ hchange ih =>
      -- backwards, from the scope that is there in the end
      obtain ⟨c, hc, hlater⟩ := hchange.stays hid hb
      obtain ⟨a, ha, hearlier⟩ := ih hc
      exact ⟨a, ha, hearlier.trans hlater⟩

end World

/-! ## What is entered -/

section Entries

variable {w v : World} {id : ScopeId} {scope : Scope} {parents : Path} {basename : Text}

/-- A scope without a place is given one by an entry. -/
theorem Scope.Settles.resolves (h : scope.Settles w parents basename v)
    (hunresolved : scope.resolved = false) :
    scope.Resolves w (World.settled scope parents basename) := by
  refine ⟨rfl, rfl, hunresolved, parents, basename, rfl, ?_⟩
  cases h with
  | again hplace =>
      rw [resolved, path?, hplace] at hunresolved
      cases hunresolved
  | named hplace hcurrent habove hpath =>
      rw [World.parents?, hcurrent, hplace]
      simp only [habove, Option.bind_some, path?_of_path hpath, Place.basename?]
      refine ⟨trivial, fun _ => Option.some.inj, fun hnone => ?_⟩
      cases hnone
  | numbered hplace hcurrent habove hpath =>
      rw [World.parents?, World.numbering?, hcurrent, hplace]
      simp only [habove, Option.bind_eq_bind, Option.bind_some, Option.pure_def,
        path?_of_path hpath, Place.basename?]
      refine ⟨trivial, fun _ hname => ?_, fun _ => ⟨_, _, rfl, rfl⟩⟩
      cases hname
  | alone hplace hcurrent =>
      rw [World.parents?, hcurrent, hplace]
      refine ⟨rfl, fun _ => Option.some.inj, fun hnone => ?_⟩
      cases hnone
  | global hplace hcurrent =>
      rw [World.parents?, World.numbering?, hcurrent, hplace]
      refine ⟨rfl, fun _ hname => ?_, fun _ => ⟨_, _, rfl, rfl⟩⟩
      cases hname

/-- A scope that has a place is settled there. -/
theorem Scope.Settles.place_of_resolved (h : scope.Settles w parents basename v)
    (hresolved : scope.resolved = true) : scope.place = .resolved parents basename := by
  cases h with
  | again hplace => exact hplace
  | named hplace | numbered hplace | alone hplace | global hplace =>
      rw [resolved, path?, hplace] at hresolved
      cases hresolved

/-- An entry gives a scope its place if it had none, and changes nothing about it otherwise. -/
theorem World.Evolves.activate (hscope : w.scope? id = some scope)
    (hsettles : scope.Settles w parents basename v) :
    w.Evolves (v.activate id scope parents basename) := by
  intro other b hb
  by_cases heq : id = other
  · subst heq
    rw [hsettles.scope?_activate hscope] at hb
    cases hb
    cases hresolved : scope.resolved with
    | false => exact .resolves hscope (hsettles.resolves hresolved)
    | true =>
        refine .stays hscope ⟨rfl, ?_, fun hunresolved => ?_⟩
        · exact (hsettles.place_of_resolved hresolved).symm
        · rw [hresolved] at hunresolved
          cases hunresolved
  · rw [World.scope?_activate, if_neg heq, hsettles.sameScopes.scope?_eq] at hb
    exact .stays hb (.refl b)

/-- A scope that is made from a name or from none has no place yet. -/
theorem Origin.resolved_ofName? {environment : Environment} {name : Option Text}
    (hmade : (Origin.ofName? environment name).scope w = .ok scope) : scope.resolved = false := by
  rw [Origin.scope_ofName? hmade]
  rfl

/-- What is made and entered at once is opened. -/
theorem World.Evolves.opened {environment : Environment} {name : Option Text}
    (hmade : (Origin.ofName? environment name).scope w = .ok scope) (hfree : w.scope? id = none)
    (hsettles : scope.Settles (w.addScope id scope) parents basename v) :
    w.Evolves (v.activate id scope parents basename) := by
  have hunresolved := Origin.resolved_ofName? hmade
  have hadded : (w.addScope id scope).scope? id = some scope := id.scope?_addScope_self w scope
  intro other b hb
  by_cases heq : id = other
  · subst heq
    rw [hsettles.scope?_activate hadded] at hb
    cases hb
    obtain ⟨u, hbefore, -⟩ := hsettles.of_addScope hunresolved
    exact .opened hfree hmade (hbefore.resolves hunresolved)
  · rw [World.scope?_activate, if_neg heq, hsettles.sameScopes.scope?_eq, World.scope?_addScope,
      if_neg heq] at hb
    exact .stays hb (.refl b)

/-- What is made, entered, left and destroyed is not there afterwards. -/
theorem World.Evolves.labeled
    (hsettles : scope.Settles (w.addScope .transient scope) parents basename v) :
    w.Evolves (v.labeled scope parents basename) := by
  refine .of_stays fun id b hb => ⟨b, ?_, .refl b⟩
  rw [World.labeled, scope?_dropScope] at hb
  split at hb
  · cases hb
  · next hne =>
      rw [scope?_deactivate, if_neg hne] at hb
      change (v.activate .transient scope parents basename).scope? id = some b at hb
      rwa [scope?_activate, if_neg hne, hsettles.sameScopes.scope?_eq, scope?_addScope,
        if_neg hne] at hb

end Entries

/-! ## What follows for single scopes -/

/-- What holds of a scope at all times: it has entries only if it has a place; a name that it waits
    with was accepted as one; and if it has no place, it is the caller's. -/
structure Scope.Grounded (id : ScopeId) (scope : Scope) : Prop where
  entered : 0 < scope.entries → scope.resolved = true
  named : ∀ name, scope.place = .unresolved (some name) → name ≠ [] ∧ Text.slash ∉ name
  held : scope.resolved = false → ∃ name, id = .held name

/-- The second scope is the first at a later time. -/
structure Scope.Ages (a b : Scope) : Prop where
  environment : b.environment = a.environment
  resolved : a.resolved = true → b.place = a.place
  /-- It may be given a place, but it does not lose its name. -/
  unresolved : a.resolved = false → b.place = a.place ∨
    b.resolved = true ∧ ∀ name, a.place.basename? = some name → b.place.basename? = some name

section Scopes

variable {id : ScopeId} {w v : World} {a a' b b' c : Scope}

/-- A scope that has a place is grounded. -/
theorem Scope.Grounded.of_resolved (h : b.resolved = true) : b.Grounded id where
  entered _ := h
  named name hplace := by
    rw [resolved, path?, hplace] at h
    cases h
  held hunresolved := by
    rw [h] at hunresolved
    cases hunresolved

/-- After its first entry a scope has a place. -/
theorem Scope.Resolves.resolved (h : a.Resolves w b) : b.resolved = true := by
  obtain ⟨parents, basename, hplace, -⟩ := h.place
  rw [Scope.resolved, path?, hplace]
  rfl

/-- A scope that the caller makes is grounded. -/
theorem Scope.Grounded.of_made {origin : Origin} (hmade : origin.scope w = .ok b)
    (hheld : ∃ name, id = .held name) : b.Grounded id := by
  obtain ⟨hentries, hcases⟩ := Origin.scope_cases hmade
  refine ⟨fun hpos => absurd hentries (Nat.ne_of_gt hpos), fun name hplace => ?_, fun _ => hheld⟩
  rcases hcases with hresolved | hunnamed | ⟨other, haccepted, hnamed⟩
  · rw [resolved, path?, hplace] at hresolved
    cases hresolved
  · cases hplace.symm.trans hunnamed
  · cases hplace.symm.trans hnamed
    exact ⟨ne_nil_of_requireName haccepted, slash_not_mem_of_requireName haccepted⟩

/-- A scope that stays has entries only if it had a place, and it waits with the same name. -/
theorem Scope.Grounded.stays (h : a.Grounded id) (hstays : a.Stays b) : b.Grounded id where
  entered hpos := by
    rw [resolved_congr hstays.place]
    cases hresolved : a.resolved with
    | true => rfl
    | false =>
        have hle := hstays.entries hresolved
        exact hresolved ▸ h.entered (Nat.lt_of_lt_of_le hpos hle)
  named name hplace := h.named name (hstays.place ▸ hplace)
  held hunresolved := h.held ((resolved_congr hstays.place).symm.trans hunresolved)

/-- Whatever way a scope came about, it is grounded if all scopes were before. -/
theorem World.Yields.grounded (h : w.Yields id b)
    (hw : ∀ a, w.scope? id = some a → a.Grounded id) : b.Grounded id := by
  -- an entry gives a place, and with a place nothing is left to show
  cases h with
  | stays hscope hstays => exact (hw _ hscope).stays hstays
  | resolves hscope hresolves => exact .of_resolved hresolves.resolved
  | opened hfree hmade hresolves => exact .of_resolved hresolves.resolved
  | made hid hfree hmade => exact .of_made hmade ⟨_, hid⟩

/-- A scope that is alive before and after a step has aged: a scope that is made takes a free
    identity. -/
theorem World.Evolves.ages (h : w.Evolves v) (ha : w.scope? id = some a)
    (hb : v.scope? id = some b) : a.Ages b := by
  cases h id b hb with
  | stays hscope hstays =>
      cases ha.symm.trans hscope
      exact ⟨hstays.environment, fun _ => hstays.place, fun _ => .inl hstays.place⟩
  | resolves hscope hresolves =>
      cases ha.symm.trans hscope
      refine ⟨hresolves.environment, fun hresolved => ?_, fun _ => .inr ⟨hresolves.resolved, ?_⟩⟩
      · rw [hresolves.unresolved] at hresolved
        cases hresolved
      · obtain ⟨parents, basename, hplace, -, hnamed, -⟩ := hresolves.place
        intro name hname
        rw [hplace, Place.basename?, hnamed name hname]
  | made hid hfree hmade => cases ha.symm.trans hfree
  | opened hfree hmade hresolves => cases ha.symm.trans hfree

theorem Scope.Ages.resolved_of (h : a.Ages b) (hresolved : a.resolved = true) :
    b.resolved = true :=
  (resolved_congr (h.resolved hresolved)).trans hresolved

/-- A place that is given once is kept, so aging twice is aging. -/
theorem Scope.Ages.trans (h : a.Ages b) (h' : b.Ages c) : a.Ages c where
  environment := h'.environment.trans h.environment
  resolved hresolved := (h'.resolved (h.resolved_of hresolved)).trans (h.resolved hresolved)
  unresolved hunresolved := by
    rcases h.unresolved hunresolved with hplace | ⟨hresolved, hnamed⟩
    · have hnext := h'.unresolved ((resolved_congr hplace).trans hunresolved)
      rwa [hplace] at hnext
    · refine .inr ⟨h'.resolved_of hresolved, fun name hname => ?_⟩
      rw [h'.resolved hresolved]
      exact hnamed name hname

/-- A name is never lost. -/
theorem Scope.Ages.basename? {name : Text} (h : a.Ages b)
    (hname : a.place.basename? = some name) : b.place.basename? = some name := by
  cases hresolved : a.resolved with
  | true => rwa [h.resolved hresolved]
  | false =>
      rcases h.unresolved hresolved with hplace | ⟨-, hnamed⟩
      · rwa [hplace]
      · exact hnamed name hname

/-- Scopes that are the same node stay the same node. -/
theorem Scope.Ages.sameNode (h : a.Ages b) (h' : a'.Ages b') (hsame : a.sameNode a' = true) :
    b.sameNode b' = true := by
  rw [Scope.sameNode] at hsame
  split at hsame
  · next p q hp hq =>
      have hplace := h.resolved (Option.isSome_of_eq_some hp)
      have hplace' := h'.resolved (Option.isSome_of_eq_some hq)
      rw [Scope.sameNode, path?_congr hplace, path?_congr hplace', hp, hq]
      exact hsame
  · cases hsame

/-- The scope under an identity is alive in both worlds, and the same one. -/
def World.Carries (id : ScopeId) (w v : World) : Prop :=
  ∃ a b, w.scope? id = some a ∧ v.scope? id = some b ∧ a.Ages b

instance (id : ScopeId) : IsTrans World (World.Carries id) where
  trans := by
    rintro u w v ⟨a, b, ha, hb, hearlier⟩ ⟨b', c, hb', hc, hlater⟩
    cases hb.symm.trans hb'
    exact ⟨a, c, ha, hc, hearlier.trans hlater⟩

/-- A scope that lives all the time is the same one all the time. -/
theorem World.pairwise_carries {worlds : List World} (h : worlds.IsChain Evolves)
    (halive : ∀ w ∈ worlds, (w.scope? id).isSome = true) : worlds.Pairwise (Carries id) := by
  -- carrying is transitive, so it is enough to look from one world to the next
  refine List.isChain_iff_pairwise.mp (h.imp_of_mem_imp fun w v hw hv hnext => ?_)
  obtain ⟨a, ha⟩ := Option.isSome_iff_exists.mp (halive w hw)
  obtain ⟨b, hb⟩ := Option.isSome_iff_exists.mp (halive v hv)
  exact ⟨a, b, ha, hb, hnext.ages ha hb⟩

end Scopes

/-! ## Scripts -/

namespace Script.Run

/-- The worlds that the commands of a run lead to. -/
def stages (commands : List Command) (s : RunState) : List World :=
  (attempts commands s).map fun a => a.outcome.state.world

/-- A label leaves no scope behind. -/
theorem label_evolves (environment : Environment) (name : Option Text) (w : World) :
    w.Evolves (after (environment.momentaryLabel name) w) := by
  rcases environment.momentaryLabel_cases name w with
    ⟨e, hfailed⟩ | ⟨scope, parents, basename, v, hmade, hfree, hsettles, hlabeled⟩
  · rw [after_error hfailed]
    exact .refl w
  · rw [after_ok hlabeled]
    exact .labeled hsettles

/-- What makes and enters no scope. -/
theorem evolves_of_orderly {run : Run Unit} (h : Orderly .none run) (s : RunState) :
    s.world.Evolves (run.outcome s).state.world :=
  .of_stays fun _ _ => (outcome_changes h s).1.stays not_false

/-- A command only makes scopes that it opens. -/
theorem execute_evolves (command : Command) (s : RunState) :
    s.world.Evolves ((execute command).outcome s).state.world := by
  cases hverb : command.verb with
  | scope name =>
      rw [outcome, execute_scope hverb]
      rcases openScope_cases name s with
        ⟨e, hfailed⟩ | ⟨scope, parents, basename, v, hmade, hfree, hsettles, hopened⟩
      · rw [hfailed]
        exact .refl s.world
      · rw [hopened]
        exact .opened hmade hfree hsettles
  | label name =>
      rw [outcome, execute_label hverb]
      rcases label_cases name s with
        ⟨e, hfailed⟩ | ⟨scope, parents, basename, v, hmade, hfree, hsettles, hprinted⟩
      · rw [hfailed]
        exact .refl s.world
      · rw [hprinted]
        exact .labeled hsettles
  | leave | uid | reset | current =>
      -- what the other verbs allow holds no scope
      refine evolves_of_orderly (execute_orderly fun id hgrows => ?_) s
      rw [hverb] at hgrows
      cases id <;> exact hgrows

/-- What holds from the world before a command to the world after it, and from the world at the end
    of the commands to that at the end of the run, holds along the worlds of a run. -/
theorem run_chain {R : World → World → Prop} (hrefl : ∀ w, R w w)
    (hexecute : ∀ command s, R s.world ((execute command).outcome s).state.world)
    (hfinish : ∀ s, R s.world (finish.outcome s).state.world) (commands : List Command)
    (s : RunState) :
    (s.world :: (stages commands s ++ [((run commands).outcome s).state.world])).IsChain R := by
  induction commands generalizing s with
  | nil => exact .cons_cons (hfinish s) (.singleton _)
  | cons command rest ih =>
      have hfirst : R s.world (attempt command s).outcome.state.world :=
        hexecute command (s.goTo command.line)
      rw [outcome_cons, stages, attempts, List.map_cons, List.cons_append]
      cases houtcome : (attempt command s).outcome with
      | mk error? t =>
          rw [houtcome] at hfirst
          refine .cons_cons hfirst ?_
          cases error? with
          | some e =>
              -- the run ends in the world in which the command failed
              exact .cons_cons (hrefl t.world) (.singleton _)
          | none => exact ih t

end Script.Run

end ScopedLabels
