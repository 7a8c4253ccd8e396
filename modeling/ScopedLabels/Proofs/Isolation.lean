import ScopedLabels.Proofs.Tasks

/-!
# Isolation — two tasks in turn are as each of them alone

Two tasks are `Apart` if their environments have registries and stacks of their own, and they share
no object. The requests of both may come in any order: a *schedule* is a list of requests, each
marked as one of the first task or of the second.

The proof carries three runs through a schedule: both tasks together, the first alone, and the
second alone. The session of the run together is always the `Same`, to either task, as the session
of its run alone. A request keeps this: to its own task it does the same in both runs
(`step_twinned`), and the other task does not notice it (`Spares`).
-/

namespace ScopedLabels.Session

namespace Task

/-- Two sessions are the same to a task: the registry, the stack and the options of its environment,
    its scopes, and the objects it holds. The log goes to the same place, and events are counted in
    both or in neither. -/
structure Same (A : Task) (s t : Session) : Prop where
  world : A.region.Agree s.world t.world
  objects : Objects.Agree A.holds s.objects t.objects
  log : t.world.log.drained = s.world.log.drained
  enabled : t.world.metrics.enabled = s.world.metrics.enabled

/-- Everything that a task holds stays within it, and no label is being made. -/
structure Settled (A : Task) (s : Session) : Prop where
  closed : A.region.Closed s.world
  coherent : A.Coherent s.objects
  idle : s.world.scope? .transient = none

/-- From one session to the other, nothing has changed but what belongs to a task. -/
structure Spares (A : Task) (s t : Session) : Prop where
  world : A.region.Confined s.world t.world
  objects : Objects.Agree (¬ A.holds ·) s.objects t.objects

/-- Two tasks share nothing. -/
structure Apart (A B : Task) : Prop where
  counters : A.environment.counters ≠ B.environment.counters
  contexts : A.environment.contexts ≠ B.environment.contexts
  objects : ∀ handle, A.holds handle → ¬ B.holds handle

variable {A B : Task} {s t u : Session}

theorem Same.refl (A : Task) (s : Session) : A.Same s s where
  world := .refl _ _
  objects := .refl _ _
  log := rfl
  enabled := rfl

/-- What a task sees of two sessions does not depend on which comes first. -/
theorem Same.symm (h : A.Same s t) : A.Same t s where
  world := h.world.symm
  objects := h.objects.symm
  log := h.log.symm
  enabled := h.enabled.symm

/-- Sessions that a task cannot tell from a third it cannot tell from one another. -/
theorem Same.trans (h : A.Same s t) (h' : A.Same t u) : A.Same s u where
  world := h.world.trans h'.world
  objects := h.objects.trans h'.objects
  log := h'.log.trans h.log
  enabled := h'.enabled.trans h.enabled

theorem Apart.symm (h : A.Apart B) : B.Apart A where
  counters := h.counters.symm
  contexts := h.contexts.symm
  objects handle hB hA := h.objects handle hA hB

/-- A task is settled where nothing was made yet but its environment. -/
theorem Settled.of_new (henvironment : s.environments.get? A.environment.name = some A.environment)
    (hscopes : s.world.scopes = {}) (hcontexts : s.world.contexts = ∅) (hguards : s.guards = {})
    (hleases : s.leases = {}) (hrunners : s.runners = {}) : A.Settled s where
  closed := by
    have hfree : ∀ id, s.world.scope? id = none := by
      intro id
      rw [World.scope?, hscopes]
      rfl
    have hstack : ∀ name, s.world.stack name = ∅ := by
      intro name
      rw [World.stack, hcontexts, Std.ExtTreeMap.getD_empty]
    refine ⟨fun id scope hid hscope => ?_, fun name hname => ?_⟩
    · rw [hfree] at hscope
      cases hscope
    · rw [hstack]
      exact .empty _
  coherent := by
    refine ⟨henvironment, fun name scope hmem => ?_, fun name lease hname hfound => ?_,
      fun name runner hname hfound => ?_⟩
    · have hmem' : (name, scope) ∈ s.guards.entries := hmem
      rw [hguards] at hmem'
      exact absurd hmem' List.not_mem_nil
    · have hfound' : s.leases.get? name = some lease := hfound
      rw [hleases] at hfound'
      cases hfound'
    · have hfound' : s.runners.get? name = some runner := hfound
      rw [hrunners] at hfound'
      cases hfound'
  idle := by
    rw [World.scope?, hscopes]
    rfl

/-! ## What a request does to its own task -/

/-- The environment of a scope of the task, as a request is answered with it. -/
theorem Same.environmentOfScope? (h : A.Same s t) (hs : A.Settled s) {name : Text}
    (hname : A.holds (.scope name)) :
    t.environmentOfScope? name = s.environmentOfScope? name ∧
      ∀ e ∈ s.environmentOfScope? name, e = A.environment := by
  have hsame : t.world.scope? (.held name) = s.world.scope? (.held name) :=
    h.world.scope? (.held name) hname
  refine ⟨by rw [Session.environmentOfScope?, hsame, Session.environmentOfScope?], ?_⟩
  intro e he
  obtain ⟨scope, hscope, rfl⟩ := Option.map_eq_some_iff.mp he
  exact environment_of_holds (hs.closed.environments (.held name) scope hname hscope)

/-- A task finds its own environment under its name, and the same in both sessions. -/
theorem Same.environment? (h : A.Same s t) (hs : A.Settled s) {name : Text}
    (hname : name = A.environment.name) :
    t.environments.get? name = s.environments.get? name ∧
      ∀ e ∈ s.environments.get? name, e = A.environment := by
  have hsame : t.environments = s.environments := h.objects.environments
  have hfound : s.environments.get? A.environment.name = some A.environment :=
    hs.coherent.environment
  refine ⟨by rw [hsame], ?_⟩
  intro e he
  rw [hname, hfound] at he
  exact (Option.some.inj he).symm

/-- A request of a task shows the active scopes of its environment, if any. -/
theorem Same.watched? (h : A.Same s t) (hs : A.Settled s) {request : Request}
    (hconcerns : A.Concerns request) :
    t.watched? request = s.watched? request ∧ ∀ e ∈ s.watched? request, e = A.environment := by
  have hwatch : ∀ {watch : Option Text}, (∀ key ∈ watch, key = A.environment.name) →
      (watch.bind t.environments.get?) = (watch.bind s.environments.get?) ∧
        ∀ e ∈ watch.bind s.environments.get?, e = A.environment := by
    intro watch hkey
    cases watch with
    | none => exact ⟨rfl, nofun⟩
    | some key => exact h.environment? hs (hkey key rfl)
  cases request
  case options name _ | resetEnvironment name | current name => exact h.environment? hs hconcerns
  case makeLabel name location save =>
    cases location with
    | current environment => exact h.environment? hs hconcerns.2.1
    | below scope => exact h.environmentOfScope? hs hconcerns.2.1
  case newScope name source =>
    cases source with
    | existing scope => exact h.environmentOfScope? hs hconcerns.2
    | label environment source => exact h.environment? hs hconcerns.2.1
    | basename environment name => exact h.environment? hs hconcerns.2
    | unnamed environment => exact h.environment? hs hconcerns.2
    | global environment => exact h.environment? hs hconcerns.2
  case inspectScope name | enterScope name | exitScope name | scopeName name | nextSegment name
      | nextNumber name | checkScope name | dropScope name =>
    exact h.environmentOfScope? hs hconcerns
  case sameScope name other => exact h.environmentOfScope? hs hconcerns.1
  case newGuard name scope => exact h.environmentOfScope? hs hconcerns.2
  case dropGuard name =>
    have hunder : t.guards.get? name = s.guards.get? name :=
      Roster.get?_congr (h.objects.guards name hconcerns)
    show ((t.guards.get? name).bind t.environmentOfScope?) =
        ((s.guards.get? name).bind s.environmentOfScope?) ∧
      ∀ e ∈ (s.guards.get? name).bind s.environmentOfScope?, e = A.environment
    rw [hunder]
    cases hguard : s.guards.get? name with
    | none => exact ⟨rfl, nofun⟩
    | some scope =>
        have hmem := Roster.mem_of_get? hguard
        exact h.environmentOfScope? hs ((hs.coherent.guards name scope hmem).mp hconcerns)
  case newRunner name environment => exact h.environment? hs hconcerns.2
  case runScript name script watch => exact hwatch hconcerns.2
  case closeRunner name watch => exact hwatch hconcerns.2
  case inspectRunner name watch => exact hwatch hconcerns.2
  case dropRunner name watch => exact hwatch hconcerns.2
  all_goals exact ⟨rfl, nofun⟩

/-- The reply to a request is the same where its result is, and where the sessions it led to are
    abreast. -/
theorem Abreast.reply_eq {first second : Session} (h : A.Abreast first second s t)
    {watched? watched?' : Option Environment} (hsame : watched?' = watched?)
    (hown : ∀ e ∈ watched?, e = A.environment) (result : Except Error Answer) :
    Reply.of result watched?' t.world = Reply.of result watched? s.world := by
  rw [hsame, Reply.of, Reply.of, h.worlds.log]
  cases watched? with
  | none => rfl
  | some e =>
      have hactive : t.world.activeValues e = s.world.activeValues e := by
        rw [hown e rfl]
        exact A.parallel.activeValues h.worlds A.holds_region
      have hshown : ((t.world.activeValues e).reverse.map (Shown.ofValue t.world)) =
          (s.world.activeValues e).reverse.map (Shown.ofValue s.world) := by
        rw [hactive]
        refine List.map_congr_left fun value hvalue => shown_eq h.worlds.agree ?_
        rintro id rfl
        rw [hown e rfl] at hvalue
        exact h.worlds.scopes_of_active A.holds_region (List.mem_reverse.mp hvalue)
      simp only [Option.map_some, hshown]

/-- Before a request is carried out, the log is emptied. -/
theorem confined_drained (A : Task) (s : Session) : A.region.Confined s.world s.drained.world :=
  ⟨.of_eq rfl rfl rfl rfl, rfl, rfl⟩

/-- Two sessions that are the same to a task may set out abreast. -/
theorem Same.abreast (h : A.Same s t) (hs : A.Settled s) (ht : A.Settled t) :
    A.Abreast s.drained t.drained s.drained t.drained where
  worlds := by
    have hdrained : ∀ u : Session, A.region.Agree u.world u.drained.world :=
      fun _ => .of_eq rfl rfl rfl rfl
    exact .start ((hdrained s).symm.trans (h.world.trans (hdrained t)))
      (hs.closed.of_agree (hdrained s)) h.log h.enabled
  objects := h.objects
  coherent := hs.coherent
  coherent' := ht.coherent
  others := .refl _ _
  others' := .refl _ _

/-- Two sessions that are abreast are the same to the task, and settled if those that they were
    reached from had no label being made. -/
theorem Abreast.ends {first second : Session} (h : A.Abreast first second s t)
    (hfresh : (A.twins first second).Fresh) : A.Same s t ∧ A.Settled s ∧ A.Settled t where
  left := ⟨h.worlds.agree, h.objects, congrArg Log.drained h.worlds.log, h.worlds.enabled⟩
  right := by
    have hidle : ∀ {u v : World}, u.scope? .transient = none → A.region.Confined u v →
        v.scope? .transient = none := fun hu hconfined =>
      (hconfined.others.scope? .transient hfresh.region).trans hu
    exact ⟨⟨h.worlds.closed, h.coherent, hidle hfresh.first h.worlds.first⟩,
      ⟨h.worlds.closed.of_agree h.worlds.agree, h.coherent', hidle hfresh.second h.worlds.second⟩⟩

/-- A request that concerns a task, carried out in two sessions that are the same to it, is answered
    alike and leaves them the same. It changes nothing that belongs to others, and counts the same
    events. -/
theorem step_twinned {request : Request} (hconcerns : A.Concerns request) (hs : A.Settled s)
    (ht : A.Settled t) (h : A.Same s t) :
    (t.step request).1 = (s.step request).1 ∧
      (A.Same (s.step request).2 (t.step request).2 ∧
        A.Settled (s.step request).2 ∧ A.Settled (t.step request).2) ∧
      A.Spares s (s.step request).2 ∧
      ∀ metric,
        (t.step request).2.world.metrics.tally.get metric + s.world.metrics.tally.get metric =
        (s.step request).2.world.metrics.tally.get metric + t.world.metrics.tally.get metric := by
  obtain ⟨hwatched, hown⟩ := h.watched? hs hconcerns
  have hfresh : (A.twins s.drained t.drained).Fresh := ⟨fun hregion => hregion, hs.idle, ht.idle⟩
  have hspares : ∀ {s' t' : Session}, A.Abreast s.drained t.drained s' t' → A.Spares s s' :=
    fun h' => ⟨(confined_drained A s).trans h'.worlds.first, h'.others⟩
  have hmatched := perform_twinned hfresh hconcerns _ _ (h.abreast hs ht)
  simp only [step]
  generalize perform request s.drained = left at hmatched
  generalize perform request t.drained = right at hmatched
  cases hmatched with
  | ok hvalue hstates =>
      exact ⟨hstates.reply_eq hwatched hown _, hstates.ends hfresh, hspares hstates,
        hstates.worlds.tally⟩
  | error hstates =>
      exact ⟨hstates.reply_eq hwatched hown _, hstates.ends hfresh, hspares hstates,
        hstates.worlds.tally⟩

/-! ## What a request does to another task -/

/-- Tasks that are apart work in regions that are apart, if the environments of both are known. -/
theorem Apart.region (h : A.Apart B) (hA : A.Coherent s.objects) (hB : B.Coherent s.objects) :
    B.region.Part A.region.others where
  registries name hname hother := h.counters (hother.symm.trans hname)
  contexts name hname hother := h.contexts (hother.symm.trans hname)
  options name hname hother := by
    have hA' := hA.environment
    have heq : A.environment.name = B.environment.name := hother.symm.trans hname
    rw [heq, hB.environment] at hA'
    exact h.counters (congrArg Environment.counters (Option.some.inj hA').symm)
  scopes id hid hother := by
    cases id with
    | held name => exact h.objects _ hother hid
    | opened runner depth => exact h.objects _ hother hid
    | transient => exact hid

/-- What spares all but one task leaves another one the same, and settled. -/
theorem Apart.spared (hapart : A.Apart B) (hs : A.Settled s) (ht : A.Settled t) (h : A.Spares s t)
    (hB : B.Settled s) : B.Same s t ∧ B.Settled t := by
  have hregion := hapart.region hs.coherent hB.coherent
  have hothers : ∀ handle, B.holds handle → ¬ A.holds handle :=
    fun handle hB hA => hapart.objects handle hA hB
  have hworld : B.region.Agree s.world t.world := h.world.others.mono hregion
  have hobjects : Objects.Agree B.holds s.objects t.objects := h.objects.mono hothers
  refine ⟨⟨hworld, hobjects, h.world.log, h.world.enabled⟩, hB.closed.of_agree hworld, ?_, ht.idle⟩
  refine ⟨?_, fun name scope hmem => ?_, fun name lease hname hfound => ?_,
    fun name runner hname hfound => ?_⟩
  · rw [hobjects.environments]
    exact hB.coherent.environment
  · -- a guard of the second task was there before, as the first task holds only its own
    have hold : ¬ A.holds (.guard name) → (name, scope) ∈ s.guards.entries := by
      intro hguard
      have hunder : t.guards.under name = s.guards.under name := h.objects.guards name hguard
      exact Roster.mem_under.mp (hunder ▸ Roster.mem_under.mpr hmem)
    have howner := ht.coherent.guards name scope hmem
    constructor
    · intro hname
      exact (hB.coherent.guards name scope (hold (hothers _ hname))).mp hname
    · intro hscope
      have hguard : ¬ A.holds (.guard name) := fun hname => hothers _ hscope (howner.mp hname)
      exact (hB.coherent.guards name scope (hold hguard)).mpr hscope
  · rw [Roster.get?_congr (hobjects.leases name hname)] at hfound
    exact hB.coherent.leases name lease hname hfound
  · rw [Roster.get?_congr (hobjects.runners name hname)] at hfound
    exact hB.coherent.runners name runner hname hfound

end Task

/-! ## Schedules -/

/-- The requests of a schedule, in order. -/
def requests (schedule : List (Request ⊕ Request)) : List Request :=
  schedule.map (Sum.elim id id)

/-- Among the replies to a schedule, those to the first task. -/
def firstReplies (schedule : List (Request ⊕ Request)) (replies : List Reply) : List Reply :=
  ((schedule.zip replies).filter (·.1.isLeft)).map Prod.snd

/-- Among the replies to a schedule, those to the second task. -/
def secondReplies (schedule : List (Request ⊕ Request)) (replies : List Reply) : List Reply :=
  ((schedule.zip replies).filter (·.1.isRight)).map Prod.snd

/-- How three sessions go together that were reached from one: by the requests of both tasks, by
    those of the first alone, and by those of the second alone. -/
structure Interleaved (A B : Task) (start together first second : Session) : Prop where
  same : A.Same first together
  same' : B.Same second together
  settled : A.Settled first ∧ A.Settled together
  settled' : B.Settled second ∧ B.Settled together
  tally : ∀ metric,
    together.world.metrics.tally.get metric + start.world.metrics.tally.get metric =
      first.world.metrics.tally.get metric + second.world.metrics.tally.get metric

namespace Interleaved

variable {A B : Task} {start together first second : Session}

theorem symm (h : Interleaved A B start together first second) :
    Interleaved B A start together second first where
  same := h.same'
  same' := h.same
  settled := h.settled'
  settled' := h.settled
  tally metric := (h.tally metric).trans (UInt64.add_comm _ _)

/-- A request of the first task is answered alike in the run together and in the first alone, and
    the second does not notice it. -/
theorem step (h : Interleaved A B start together first second) (hapart : A.Apart B)
    {request : Request} (hconcerns : A.Concerns request) :
    (together.step request).1 = (first.step request).1 ∧
      Interleaved A B start (together.step request).2 (first.step request).2 second := by
  obtain ⟨hreply, ⟨hsame, hfirst, htogether⟩, -, htally⟩ :=
    Task.step_twinned hconcerns h.settled.1 h.settled.2 h.same
  obtain ⟨-, -, hspares, -⟩ :=
    Task.step_twinned hconcerns h.settled.2 h.settled.2 (.refl A together)
  obtain ⟨hother, hsettled⟩ := hapart.spared h.settled.2 htogether hspares h.settled'.2
  refine ⟨hreply, hsame, h.same'.trans hother, ⟨hfirst, htogether⟩, ⟨h.settled'.1, hsettled⟩, ?_⟩
  intro metric
  have hcounted := htally metric
  have hbefore := h.tally metric
  grind

/-- Requests of either task are answered as in the run of that task alone. -/
theorem steps (h : Interleaved A B start together first second) (hapart : A.Apart B)
    {schedule : List (Request ⊕ Request)} (hfirst : ∀ r, .inl r ∈ schedule → A.Concerns r)
    (hsecond : ∀ r, .inr r ∈ schedule → B.Concerns r) :
    let run := together.steps (requests schedule)
    let alone := first.steps (schedule.filterMap Sum.getLeft?)
    let alone' := second.steps (schedule.filterMap Sum.getRight?)
    firstReplies schedule run.1 = alone.1 ∧ secondReplies schedule run.1 = alone'.1 ∧
      Interleaved A B start run.2 alone.2 alone'.2 := by
  induction schedule generalizing together first second with
  | nil => exact ⟨rfl, rfl, h⟩
  | cons marked rest ih =>
      have hfirst' := fun r hr => hfirst r (List.mem_cons_of_mem marked hr)
      have hsecond' := fun r hr => hsecond r (List.mem_cons_of_mem marked hr)
      cases marked with
      | inl request =>
          obtain ⟨hreply, hnext⟩ := h.step hapart (hfirst request List.mem_cons_self)
          obtain ⟨hreplies, hreplies', hend⟩ := ih hnext hfirst' hsecond'
          exact ⟨congrArg₂ List.cons hreply hreplies, hreplies', hend⟩
      | inr request =>
          obtain ⟨hreply, hnext⟩ := h.symm.step hapart.symm (hsecond request List.mem_cons_self)
          obtain ⟨hreplies, hreplies', hend⟩ := ih hnext.symm hfirst' hsecond'
          exact ⟨hreplies, congrArg₂ List.cons hreply hreplies', hend⟩

end Interleaved

/-- Two settled tasks begin together. -/
theorem Interleaved.start {A B : Task} {s : Session} (hA : A.Settled s) (hB : B.Settled s) :
    Interleaved A B s s s s where
  same := .refl A s
  same' := .refl B s
  settled := ⟨hA, hA⟩
  settled' := ⟨hB, hB⟩
  tally _ := rfl

/-- The requests of the first task are those that are marked as such. -/
theorem mem_lefts {schedule : List (Request ⊕ Request)} {request : Request} :
    request ∈ schedule.filterMap Sum.getLeft? ↔ .inl request ∈ schedule := by
  simp

theorem mem_rights {schedule : List (Request ⊕ Request)} {request : Request} :
    request ∈ schedule.filterMap Sum.getRight? ↔ .inr request ∈ schedule := by
  simp

/-- Tasks are isolated. Let two tasks share no registry, no stack and no object, and let both be
    settled. Carry out any requests that concern them, in any order. Then either task gets the
    replies that it gets when its requests are carried out alone, and finds its registry, its stack,
    its options, its scopes and its other objects as they are then. What is counted is the sum of
    what is counted in the two runs alone, and every other order of the same requests leads to the
    same. -/
theorem tasks_isolated {A B : Task} {s : Session} (hapart : A.Apart B) (hA : A.Settled s)
    (hB : B.Settled s) {schedule : List (Request ⊕ Request)}
    (hfirst : ∀ r, .inl r ∈ schedule → A.Concerns r)
    (hsecond : ∀ r, .inr r ∈ schedule → B.Concerns r) :
    let run := s.steps (requests schedule)
    let alone := s.steps (schedule.filterMap Sum.getLeft?)
    let alone' := s.steps (schedule.filterMap Sum.getRight?)
    firstReplies schedule run.1 = alone.1 ∧ secondReplies schedule run.1 = alone'.1 ∧
      A.Same alone.2 run.2 ∧ B.Same alone'.2 run.2 ∧
      (∀ metric, run.2.world.metrics.tally.get metric - s.world.metrics.tally.get metric =
        (alone.2.world.metrics.tally.get metric - s.world.metrics.tally.get metric) +
        (alone'.2.world.metrics.tally.get metric - s.world.metrics.tally.get metric)) ∧
      ∀ other : List (Request ⊕ Request),
        other.filterMap Sum.getLeft? = schedule.filterMap Sum.getLeft? →
        other.filterMap Sum.getRight? = schedule.filterMap Sum.getRight? →
        let run' := s.steps (requests other)
        firstReplies other run'.1 = firstReplies schedule run.1 ∧
          secondReplies other run'.1 = secondReplies schedule run.1 ∧
          A.Same run.2 run'.2 ∧ B.Same run.2 run'.2 ∧
          run'.2.world.metrics.tally = run.2.world.metrics.tally := by
  intro run alone alone'
  have hstart := Interleaved.start hA hB
  obtain ⟨hreplies, hreplies', hend⟩ := hstart.steps hapart hfirst hsecond
  refine ⟨hreplies, hreplies', hend.same, hend.same', fun metric => ?_, ?_⟩
  · have htally := hend.tally metric
    grind
  intro other hlefts hrights run'
  have hfirst' : ∀ r, .inl r ∈ other → A.Concerns r := fun r hr =>
    hfirst r (mem_lefts.mp (hlefts ▸ mem_lefts.mpr hr))
  have hsecond' : ∀ r, .inr r ∈ other → B.Concerns r := fun r hr =>
    hsecond r (mem_rights.mp (hrights ▸ mem_rights.mpr hr))
  -- in the other order, the tasks have the same runs alone
  have hother := hstart.steps hapart hfirst' hsecond'
  simp only [hlefts, hrights] at hother
  obtain ⟨hanswers, hanswers', hend'⟩ := hother
  refine ⟨hanswers.trans hreplies.symm, hanswers'.trans hreplies'.symm,
    hend.same.symm.trans hend'.same, hend.same'.symm.trans hend'.same', ?_⟩
  refine Tally.ext_get fun metric => ?_
  have htally := hend.tally metric
  have htally' := hend'.tally metric
  grind

/-- The name of an object. -/
def Handle.name : Handle → Text
  | .scope name | .guard name | .runner name | .lease name | .label name => name

/-- The task that works in an environment of its own and holds whatever has a name that begins as
    the name of the environment does. -/
def taskOf (environment : Text) : Task where
  environment := ⟨environment, environment, environment⟩
  holds handle := handle.name.head? = environment.head?

/-- A session with two environments, in which events are counted. -/
def eastWest : Session :=
  (steps {} [.countEvents true, .newEnvironment "east" "east" "east" {},
    .newEnvironment "west" "west" "west" {}]).2

/-- Requests of two tasks: one enters a nameless scope under a guard and asks for labels, the other
    enters a scope, runs a script in it, and resets its environment. -/
def eastWestSchedule : List (Request ⊕ Request) :=
  [.inl (.newScope "e" (.unnamed "east")), .inr (.newScope "w" (.basename "west" "a")),
    .inr (.enterScope "w"), .inl (.newGuard "eg" "e"), .inr (.newRunner "wr" "west"),
    .inl (.makeLabel (.fresh none) (.current "east") none),
    .inr (.runScript "wr" "label\nscope\nlabel\nend\nend\n" (some "west")),
    .inl (.makeLabel (.fresh none) (.current "east") (some "el")), .inr (.resetEnvironment "west"),
    .inr (.dropScope "w"), .inl (.dropGuard "eg"), .inl (.dropScope "e"),
    .inr (.makeLabel (.fresh none) (.current "west") none)]

/-- Two tasks whose environments differ in all names, in two of their schedules. -/
theorem tasks_isolated_eastWest :
    ((taskOf "east").Apart (taskOf "west") ∧ (taskOf "east").Settled eastWest ∧
      (taskOf "west").Settled eastWest ∧
      (∀ r, .inl r ∈ eastWestSchedule → (taskOf "east").Concerns r) ∧
      ∀ r, .inr r ∈ eastWestSchedule → (taskOf "west").Concerns r) ∧
    eastWest.world.metrics.tally.get .scopesEntered = 0 ∧
    (eastWest.steps (eastWestSchedule.filterMap Sum.getLeft?)).2.world.metrics.tally.get
      .scopesEntered = 3 ∧
    (eastWest.steps (eastWestSchedule.filterMap Sum.getRight?)).2.world.metrics.tally.get
      .scopesEntered = 5 ∧
    firstReplies eastWestSchedule (eastWest.steps (requests eastWestSchedule)).1 =
      (eastWest.steps (eastWestSchedule.filterMap Sum.getLeft?)).1 ∧
    secondReplies eastWestSchedule (eastWest.steps (requests eastWestSchedule)).1 =
      (eastWest.steps (eastWestSchedule.filterMap Sum.getRight?)).1 ∧
    (taskOf "east").Same (eastWest.steps (eastWestSchedule.filterMap Sum.getLeft?)).2
      (eastWest.steps (requests eastWestSchedule)).2 ∧
    (taskOf "west").Same (eastWest.steps (eastWestSchedule.filterMap Sum.getRight?)).2
      (eastWest.steps (requests eastWestSchedule)).2 ∧
    (eastWest.steps (requests eastWestSchedule)).2.world.metrics.tally.get .scopesEntered = 8 := by
  have hapart : (taskOf "east").Apart (taskOf "west") := by
    refine ⟨by decide, by decide, fun handle hA hB => ?_⟩
    have heq : ("east" : Text).head? = ("west" : Text).head? := hA.symm.trans hB
    exact absurd heq (by decide)
  have hA : (taskOf "east").Settled eastWest := .of_new (by decide +kernel) rfl rfl rfl rfl rfl
  have hB : (taskOf "west").Settled eastWest := .of_new (by decide +kernel) rfl rfl rfl rfl rfl
  have hfirst : ∀ r, .inl r ∈ eastWestSchedule → (taskOf "east").Concerns r := by
    intro r hr
    simp only [eastWestSchedule, List.mem_cons, Sum.inl.injEq, reduceCtorEq, List.not_mem_nil,
      or_false, false_or] at hr
    rcases hr with rfl | rfl | rfl | rfl | rfl | rfl <;>
      simp [Task.Concerns, Task.HoldsSource, Task.HoldsName, Task.HoldsLocation, taskOf,
        Handle.name] <;> decide
  have hsecond : ∀ r, .inr r ∈ eastWestSchedule → (taskOf "west").Concerns r := by
    intro r hr
    simp only [eastWestSchedule, List.mem_cons, Sum.inr.injEq, reduceCtorEq, List.not_mem_nil,
      or_false, false_or] at hr
    rcases hr with rfl | rfl | rfl | rfl | rfl | rfl | rfl <;>
      simp [Task.Concerns, Task.HoldsSource, Task.HoldsName, Task.HoldsLocation, taskOf,
        Handle.name] <;> decide
  have hzero : eastWest.world.metrics.tally.get .scopesEntered = 0 := by decide +kernel
  have heast : (eastWest.steps (eastWestSchedule.filterMap Sum.getLeft?)).2.world.metrics.tally.get
      .scopesEntered = 3 := by
    decide +kernel
  have hwest : (eastWest.steps (eastWestSchedule.filterMap Sum.getRight?)).2.world.metrics.tally.get
      .scopesEntered = 5 := by
    decide +kernel
  obtain ⟨hreplies, hreplies', hsame, hsame', htally, -⟩ :=
    tasks_isolated hapart hA hB hfirst hsecond
  have hsum : ∀ {r s a b : UInt64}, r - s = (a - s) + (b - s) → s = 0 → a = 3 → b = 5 → r = 8 := by
    rintro r _ _ _ h rfl rfl rfl
    simpa using h
  exact ⟨⟨hapart, hA, hB, hfirst, hsecond⟩, hzero, heast, hwest, hreplies, hreplies', hsame, hsame',
    hsum (htally .scopesEntered) hzero heast hwest⟩

end ScopedLabels.Session
