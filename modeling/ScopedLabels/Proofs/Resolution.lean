import ScopedLabels.Proofs.Evolution
import ScopedLabels.Proofs.Exactness

/-!
# Resolution — a scope is placed once, by its first entry

A session goes from world to world by requests, and by the commands of the scripts that requests
run. `Session.course` lists these worlds, and each evolves from the one before it
(`course_evolves`). So what holds along worlds that evolve holds in every session
(`scopes_resolve_once`): the first successful entry of a scope decides where it stands, and nothing
that happens later moves it.
-/

namespace ScopedLabels

/-- An orderly computation makes nothing but changes, however it ends. -/
theorem Orderly.changes {σ α : Type} {allowed : Allowance} {world : σ → World}
    {x : EStateM Error σ α} (h : Orderly allowed world x) (s : σ) :
    World.Changes allowed (world s) (world (after x s)) := by
  have hleads := h s
  rw [after]
  cases hresult : x s with
  | ok a t =>
      rw [hresult] at hleads
      exact hleads
  | error e t =>
      rw [hresult] at hleads
      exact hleads.1

/-! ## Requests -/

namespace Session

variable {α β : Type}

/-- Two sessions have one world. -/
def SameWorld (s t : Session) : Prop :=
  t.world = s.world

instance : IsPreorder Session SameWorld where
  refl _ := rfl
  trans _ _ _ h h' := Eq.trans h' h

/-- What a procedure leads to has evolved. -/
abbrev Evolving (procedure : Procedure α) : Prop :=
  Keeps (fun s t => s.world.Evolves t.world) procedure

/-- An action under which worlds evolve does so within a session. -/
theorem act_evolving {action : Action α} (h : ∀ w : World, w.Evolves (after action w)) :
    Evolving (act action) := by
  intro s
  rw [after_act]
  exact h s.world

/-- What is only read before plays no part. -/
theorem Evolving.of_read {x : Procedure α} {f : α → Procedure β} (hx : Keeps Eq x)
    (hf : ∀ a, Evolving (f a)) : Evolving (x >>= f) := by
  intro s
  have hread := hx s
  rw [after_bind]
  rw [after] at hread
  cases hresult : x s with
  | error e t =>
      rw [hresult] at hread
      subst hread
      exact .refl s.world
  | ok a t =>
      rw [hresult] at hread
      subst hread
      exact hf a s

/-- What leaves the world alone afterwards plays no part. -/
theorem Evolving.bind {x : Procedure α} {f : α → Procedure β} (hx : Evolving x)
    (hf : ∀ a, Keeps SameWorld (f a)) : Evolving (x >>= f) := by
  intro s
  have hfirst := hx s
  rw [after_bind]
  rw [after] at hfirst
  cases hresult : x s with
  | error e t =>
      rw [hresult] at hfirst
      exact hfirst
  | ok a t =>
      have hsame : (after (f a) t).world = t.world := hf a t
      rw [hresult] at hfirst
      rw [hsame]
      exact hfirst

/-- A scope is made under a free identity, or nothing happens. -/
theorem newScope_evolving (name : Text) (source : ScopeSource) :
    Evolving (newScope name source) := by
  refine .of_read (originOf_keeps source) fun origin => ?_
  refine .bind (act_evolving fun w => ?_) fun _ => showScope_keeps name
  rcases (ScopeId.held name).create_cases origin w with
    ⟨e, hfailed⟩ | ⟨scope, hmade, hfree, hadded⟩
  · rw [after_error hfailed]
    exact .refl w
  · rw [after_ok hadded]
    intro other b hb
    rw [World.scope?_addScope] at hb
    split at hb
    · next heq =>
        subst heq
        cases hb
        exact .made rfl hfree hmade
    · exact .stays hb (.refl b)

/-- No scope is made under an identity that is in use. -/
theorem newScope_used {name : Text} {s : Session} {a : Scope}
    (ha : s.world.scope? (.held name) = some a) (source : ScopeSource) :
    after (newScope name source) s = s := by
  have hread : s = after (originOf source) s := originOf_keeps source s
  rw [newScope, after_bind]
  rw [after] at hread
  cases hresult : originOf source s with
  | error e t =>
      rw [hresult] at hread
      exact hread.symm
  | ok origin t =>
      rw [hresult] at hread
      subst hread
      rcases (ScopeId.held name).create_cases origin s.world with
        ⟨e, hfailed⟩ | ⟨scope, hmade, hfree, hadded⟩
      · simp only [after_bind, act, hfailed]
      · cases ha.symm.trans hfree

/-- Making a label opens no scope that stays. -/
theorem makeLabel_evolving (name : NameSource) (environment : Text) (save : Option Text) :
    Evolving (makeLabel name (.current environment) save) := by
  refine .of_read (nameOf_keeps name) fun naming => .bind ?_ fun label => ?_
  · refine .of_read (environmentOf_keeps environment) fun environment => act_evolving fun w => ?_
    cases naming with
    | fresh name => exact Script.Run.label_evolves environment name w
    | ready label => exact .refl w
  · refine .bind (.modify fun s => ?_) fun _ => .pure _
    cases save <;> rfl

/-- What a request does is a row of changes that its allowance permits. -/
theorem perform_changes (request : Request) (s : Session) :
    World.Changes request.allowance s.world (after (perform request) s).world :=
  (perform_orderly request).changes s

/-- A request to enter a scope resolves it or lets it stay. -/
theorem evolving_of_enters {request : Request} {name : Text} (h : request.Enters name) :
    Evolving (perform request) := by
  intro s
  rcases perform_enters h s with
    ⟨e, hfailed⟩ | ⟨scope, parents, basename, v, t, hscope, hsettles, hentered, hworld⟩
  · rw [after_error hfailed]
    exact .refl s.world
  · rw [after_ok hentered, hworld]
    exact .activate hscope hsettles

/-- What a request that runs no script leads to has evolved. -/
theorem perform_evolving {request : Request}
    (hscript : ∀ name script watch, request ≠ .runScript name script watch) :
    Evolving (perform request) := by
  have hothers : (∀ id, ¬ request.grows id) → Evolving (perform request) :=
    fun hnone s => .of_stays fun id b => (perform_changes request s).stays (hnone id)
  cases request with
  | newScope name source => exact newScope_evolving name source
  | enterScope name =>
      have henters : Request.Enters name (.enterScope name) := rfl
      exact evolving_of_enters henters
  | newGuard name scope =>
      have henters : Request.Enters scope (.newGuard name scope) := rfl
      exact evolving_of_enters henters
  | makeLabel name location save =>
      cases location with
      | current environment => exact makeLabel_evolving name environment save
      | below scope => exact hothers fun _ => not_false
  | runScript name script watch => exact absurd rfl (hscript name script watch)
  | _ => exact hothers fun _ => not_false

/-! ## All steps of a session -/

/-- The worlds that the script of a request goes through, if it runs one: those that its commands
    lead to. -/
def stages (s : Session) : Request → List World
  | .runScript name script _ =>
    match s.runners.get? name, Script.parse script with
    | some runner, .ok commands =>
      Script.Run.stages commands { world := s.drained.world, runner }
    | _, _ => []
  | _ => []

/-- The worlds that a session goes through: the one that it is in, and those that the requests and
    the commands of their scripts lead to. -/
def course (s : Session) : List Request → List World
  | [] => [s.world]
  | request :: rest => s.world :: s.stages request ++ (s.step request).2.course rest

theorem course_eq_cons (s : Session) (requests : List Request) :
    ∃ later, s.course requests = s.world :: later := by
  cases requests with
  | nil => exact ⟨[], rfl⟩
  | cons request rest => exact ⟨_, rfl⟩

/-- Where requests lead to is the last world that the session goes through. -/
theorem steps_mem_course (s : Session) (requests : List Request) :
    (s.steps requests).2.world ∈ s.course requests := by
  induction requests generalizing s with
  | nil => exact List.mem_singleton_self _
  | cons request rest ih => exact List.mem_append_right _ (ih (s.step request).2)

/-- A relation of worlds that all steps of a session keep to: requests that run no script, the
    commands of a script, and the closing of what is open at its end. -/
structure Stepwise (R : World → World → Prop) : Prop where
  refl : ∀ w, R w w
  /-- What stands in the log plays no part. -/
  of_drained : ∀ {s : Session} {v : World}, R s.drained.world v → R s.world v
  perform : ∀ {request : Request}, (∀ name script watch, request ≠ .runScript name script watch) →
    ∀ s, R s.world (after (perform request) s).world
  execute : ∀ command s, R s.world ((Script.Run.execute command).outcome s).state.world
  finish : ∀ s, R s.world (Script.Run.finish.outcome s).state.world

namespace Stepwise

variable {R : World → World → Prop} (h : Stepwise R)
include h

/-- From one request to the next, the worlds of a session are related. -/
theorem stages_chain (s : Session) (request : Request) :
    (s.world :: s.stages request ++ [(s.step request).2.world]).IsChain R := by
  by_cases hscript : ∀ name script watch, request ≠ .runScript name script watch
  · have hnone : s.stages request = [] := by
      cases request with
      | runScript name script watch => exact absurd rfl (hscript name script watch)
      | _ => rfl
    rw [hnone, step_eq_after]
    exact .cons_cons (h.of_drained (h.perform hscript s.drained)) (.singleton _)
  · simp only [not_forall, not_not] at hscript
    obtain ⟨name, script, watch, rfl⟩ := hscript
    have hworld : (s.step (.runScript name script watch)).2.world =
        (s.runners.get? name).elim s.drained.world fun runner =>
          (runner.run script s.drained.world).state.world := by
      have hsame : s.drained.runners.get? name = s.runners.get? name := rfl
      rw [step_eq_after, Session.perform, runScript, after_bind, runnerOf, bind_apply, get_apply]
      simp only [held_apply, hsame]
      cases s.runners.get? name <;> rfl
    rw [hworld, stages]
    -- without a runner, or with a script that cannot be read, nothing is run
    cases s.runners.get? name with
    | none => exact .cons_cons (h.of_drained (h.refl _)) (.singleton _)
    | some runner =>
        simp only [Option.elim_some, Script.Runner.run, Script.Run.runText]
        cases Script.parse script with
        | error fault => exact .cons_cons (h.of_drained (h.refl _)) (.singleton _)
        | ok commands =>
            have hrun := Script.Run.run_chain h.refl h.execute h.finish commands
              { world := s.drained.world, runner }
            exact hrun.imp_head fun hnext => h.of_drained hnext

/-- What holds of every step holds from each world of a session to the next. -/
theorem course_chain (s : Session) (requests : List Request) :
    (s.course requests).IsChain R := by
  induction requests generalizing s with
  | nil => exact .singleton _
  | cons request rest ih =>
      obtain ⟨later, hlater⟩ := (s.step request).2.course_eq_cons rest
      have hrest := ih (s.step request).2
      rw [course, hlater]
      rw [hlater] at hrest
      have hall := (h.stages_chain s request).append_overlap hrest (List.cons_ne_nil _ _)
      rwa [List.append_assoc] at hall

end Stepwise

/-- Every step of a session is one under which worlds evolve. -/
theorem evolves_stepwise : Stepwise World.Evolves where
  refl := .refl
  of_drained := .of_drained
  perform := perform_evolving
  execute := Script.Run.execute_evolves
  finish := Script.Run.evolves_of_orderly Script.Run.finish_orderly

/-- From one world to the next, a session evolves. -/
theorem course_evolves (s : Session) (requests : List Request) :
    (s.course requests).IsChain World.Evolves :=
  evolves_stepwise.course_chain s requests

/-! ## What follows -/

/-- Along a stretch of the way, too, each world evolves from the one before it. -/
theorem stretch_evolves {s : Session} {requests : List Request} {stretch : List World}
    (h : stretch <:+: s.course requests) : stretch.IsChain World.Evolves := by
  obtain ⟨earlier, later, hall⟩ := h
  have hevolves := s.course_evolves requests
  rw [← hall] at hevolves
  exact hevolves.left_of_append.right_of_append

/-- At the start there is no scope, and every step keeps all of them grounded. -/
theorem course_grounded (requests : List Request) :
    ∀ w ∈ Session.course {} requests, ∀ id scope, w.scope? id = some scope → scope.Grounded id := by
  refine (course_evolves {} requests).induction _ _ (fun w v hnext hw id b hb => ?_) fun hne => ?_
  · exact (hnext id b hb).grounded (hw id)
  · obtain ⟨later, hlater⟩ := ({} : Session).course_eq_cons requests
    simp only [hlater, List.head_cons]
    exact nofun

/-- Only a request to enter it gives a scope that the caller holds a place. -/
theorem step_resolves {name : Text} {s : Session} {a b : Scope}
    (ha : s.world.scope? (.held name) = some a) (hunresolved : a.resolved = false)
    (request : Request) (hb : (s.step request).2.world.scope? (.held name) = some b) :
    b.resolved = true ↔
      request.Enters name ∧ ∃ answer, (s.step request).1.result = .ok answer := by
  have hdrained : s.drained.world.scope? (.held name) = some a := ha
  by_cases henters : request.Enters name
  · rw [step] at hb ⊢
    rcases perform_enters henters s.drained with
      ⟨e, hfailed⟩ | ⟨scope, parents, basename, v, t, hscope, hsettles, hentered, hworld⟩
    · simp only [hfailed] at hb ⊢
      cases hb.symm.trans hdrained
      simp [hunresolved, Reply.of]
    · simp only [hentered, hworld, hsettles.scope?_activate hscope] at hb ⊢
      cases hb
      exact ⟨fun _ => ⟨henters, _, rfl⟩, fun _ => rfl⟩
  · refine ⟨fun hresolved => ?_, fun h => absurd h.1 henters⟩
    have hstays : a.Stays b := by
      rw [step_eq_after] at hb
      by_cases hgrows : request.grows (.held name)
      · -- it could only make the scope anew, but its identity is in use
        cases request with
        | newScope other source =>
            cases hgrows
            rw [perform, newScope_used hdrained source, hdrained] at hb
            cases hb
            exact .refl a
        | enterScope other => exact absurd (ScopeId.held.inj hgrows).symm henters
        | newGuard guard other => exact absurd (ScopeId.held.inj hgrows).symm henters
        | makeLabel source location save => cases location <;> cases hgrows
        | runScript runner script watch =>
            obtain ⟨verb, hgrows⟩ := hgrows
            cases verb <;> exact hgrows.elim
        | _ => exact hgrows.elim
      · obtain ⟨before, hbefore, hstays⟩ := (perform_changes request s.drained).stays hgrows hb
        cases hdrained.symm.trans hbefore
        exact hstays
    rw [Scope.resolved_congr hstays.place, hunresolved] at hresolved
    cases hresolved

/-- A scope that has a place is entered again whatever is active. -/
theorem step_again {name : Text} {s : Session} {a : Scope}
    (ha : s.world.scope? (.held name) = some a) (hresolved : a.resolved = true) :
    let again : Scope := { a with entries := a.entries + 1 }
    (s.step (.enterScope name)).1.result = .ok (.scope again) ∧
      (s.step (.enterScope name)).2.world.scope? (.held name) = some again := by
  intro again
  have hdrained : s.drained.world.scope? (.held name) = some a := ha
  rw [step]
  rcases enterScope_cases name s.drained with
    ⟨e, hfailed, -⟩ | ⟨scope, parents, basename, v, hscope, hsettles, hentered⟩
  · cases hplace : a.place with
    | unresolved name =>
        rw [Scope.resolved, Scope.path?, hplace] at hresolved
        cases hresolved
    | resolved parents basename =>
        simp only [ScopeId.enter_apply, hdrained, Scope.settle_resolved hplace] at hfailed
        cases hfailed
  · cases hdrained.symm.trans hscope
    have hagain : World.settled a parents basename = again := by
      rw [World.settled, ← hsettles.place_of_resolved hresolved]
    rw [hentered]
    simp only [Reply.of, hsettles.scope?_activate hscope, hagain, and_self]

/-- Whatever is requested, a scope is given a place once. At all times a path has a last segment,
    and it is the name of the scope; a scope that has entries has a path; a name that waits for a
    place is one that was accepted. What one step does is what `World.Evolves` says: a scope without
    a place gets one by its first entry, below the scope that is innermost then. From there on its
    place stays for as long as it lives, and scopes that are the same node stay that. The step that
    gives a scope a place is the first request that enters it with success; further ones never
    fail, and look at no other scope. -/
theorem scopes_resolve_once (requests : List Request) :
    let worlds := Session.course {} requests
    let s := (Session.steps {} requests).2
    (∀ w ∈ worlds, ∀ id scope, w.scope? id = some scope →
      (∀ path, scope.path? = some path → path ≠ [] ∧ path.getLast? = scope.place.basename?) ∧
      (0 < scope.entries → scope.resolved = true) ∧
      (∀ name, scope.place = .unresolved (some name) → name ≠ [] ∧ Text.slash ∉ name) ∧
      (scope.resolved = false → ∃ name, id = .held name)) ∧
    worlds.IsChain World.Evolves ∧
    (∀ stretch, stretch <:+: worlds → ∀ id, (∀ w ∈ stretch, (w.scope? id).isSome = true) →
      stretch.Pairwise fun w v => ∀ a b, w.scope? id = some a → v.scope? id = some b →
        b.environment = a.environment ∧ (a.resolved = true → b.place = a.place) ∧
        (∀ name, a.place = .unresolved (some name) → b.place.basename? = some name)) ∧
    (∀ stretch, stretch <:+: worlds → ∀ id id',
      (∀ w ∈ stretch, (w.scope? id).isSome = true ∧ (w.scope? id').isSome = true) →
      stretch.Pairwise fun w v => ∀ a a' b b', w.scope? id = some a → w.scope? id' = some a' →
        v.scope? id = some b → v.scope? id' = some b' →
        a.sameNode a' = true → b.sameNode b' = true) ∧
    (∀ name a, s.world.scope? (.held name) = some a →
      (a.resolved = false → ∀ request b,
        (s.step request).2.world.scope? (.held name) = some b →
        (b.resolved = true ↔
          request.Enters name ∧ ∃ answer, (s.step request).1.result = .ok answer)) ∧
      (a.resolved = true →
        (s.step (.enterScope name)).1.result = .ok (.scope { a with entries := a.entries + 1 }) ∧
        (s.step (.enterScope name)).2.world.scope? (.held name) =
          some { a with entries := a.entries + 1 })) := by
  intro worlds s
  refine ⟨?always, course_evolves {} requests, ?ages, ?equal, ?entering⟩
  case always =>
    intro w hw id scope hscope
    have hgrounded := course_grounded requests w hw id scope hscope
    refine ⟨fun path hpath => ?_, hgrounded.entered, hgrounded.named, hgrounded.held⟩
    rw [Scope.path?] at hpath
    cases hplace : scope.place with
    | unresolved name =>
        rw [hplace] at hpath
        cases hpath
    | resolved parents basename =>
        rw [hplace] at hpath
        cases hpath
        exact ⟨by simp, List.getLast?_concat⟩
  case ages =>
    intro stretch hstretch id halive
    refine (World.pairwise_carries (stretch_evolves hstretch) halive).imp fun hcarries => ?_
    intro a b ha hb
    obtain ⟨a', b', ha', hb', hages⟩ := hcarries
    cases ha.symm.trans ha'
    cases hb.symm.trans hb'
    refine ⟨hages.environment, hages.resolved, fun name hname => hages.basename? ?_⟩
    rw [hname, Place.basename?]
  case equal =>
    -- both scopes age from one world of the stretch to the other
    intro stretch hstretch id id' halive
    have hchain := stretch_evolves hstretch
    have hid := World.pairwise_carries hchain fun w hw => (halive w hw).1
    have hid' := World.pairwise_carries hchain fun w hw => (halive w hw).2
    refine (hid.and hid').imp ?_
    rintro w v ⟨⟨a₀, b₀, ha₀, hb₀, hages⟩, ⟨a₁, b₁, ha₁, hb₁, hages'⟩⟩ a a' b b' ha ha' hb hb'
    cases ha₀.symm.trans ha
    cases hb₀.symm.trans hb
    cases ha₁.symm.trans ha'
    cases hb₁.symm.trans hb'
    exact hages.sameNode hages'
  case entering =>
    intro name a ha
    exact ⟨fun hunresolved request b => step_resolves ha hunresolved request,
      fun hresolved => step_again ha hresolved⟩

/-- A nameless scope that is first entered below another one stays there when it is entered again
    outside. -/
example :
    let s := (Session.steps {} [.newScope "a" (.basename defaultName "a"),
      .newScope "b" (.unnamed defaultName), .enterScope "a", .enterScope "b", .exitScope "b",
      .exitScope "a", .enterScope "b"]).2
    (s.world.scope? (.held "b")).map Scope.place = some (.resolved ["a"] "1") := by
  decide +kernel

end Session

end ScopedLabels
