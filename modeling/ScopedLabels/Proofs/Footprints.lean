import ScopedLabels.Proofs.Keeping
import ScopedLabels.Proofs.Visits
import ScopedLabels.Session.Perform

/-!
# Footprints — what a request can touch

Invariants of sessions are about one part of the state at a time: the counters, who is active, what
was counted of entering and leaving, or the leases. An `Aspect` names such a part, and
`Request.touched` lists those that a request may change. `perform_keeps` says that a request changes
no others, whether it succeeds or fails. So a proof about one aspect has to look only at the
requests that touch it.
-/

namespace ScopedLabels

/-- A part of the state that an invariant may be about. -/
inductive Aspect
  /-- The counters of all registries. -/
  | counters
  /-- The scopes, and the values under the key of active scopes. -/
  | standing
  /-- The switch of the metrics, and how often a scope was entered and left. -/
  | passages
  /-- The leases of a session. -/
  | leases
deriving DecidableEq

/-- Who is active, and what was counted of it, is apart from the counters. -/
theorem Aspect.ne_counters {a : Aspect} (h : a = .standing ∨ a = .passages) : a ≠ .counters := by
  rcases h with rfl | rfl <;> decide

/-- An aspect that is none of the others is that of leases. -/
theorem Aspect.eq_leases {a : Aspect} (hcounters : a ≠ .counters) (hstanding : a ≠ .standing)
    (hpassages : a ≠ .passages) : a = .leases := by
  cases a with
  | counters => exact absurd rfl hcounters
  | standing => exact absurd rfl hstanding
  | passages => exact absurd rfl hpassages
  | leases => rfl

/-- Two worlds agree in an aspect. -/
def World.Agree (a : Aspect) (w v : World) : Prop :=
  match a with
  | .counters => v.registries = w.registries
  | .standing => (∀ id, v.scope? id = w.scope? id) ∧ ∀ name,
      (v.stack name).values Scope.contextKey = (w.stack name).values Scope.contextKey
  | .passages => v.metrics.enabled = w.metrics.enabled ∧
      v.metrics.tally.scopesEntered = w.metrics.tally.scopesEntered ∧
      v.metrics.tally.scopesExited = w.metrics.tally.scopesExited
  | .leases => True

/-- The worlds of two states of a run agree in an aspect. -/
def Script.RunState.Agree (a : Aspect) (s t : RunState) : Prop :=
  World.Agree a s.world t.world

/-- Two sessions agree in an aspect. -/
def Session.Agree (a : Aspect) (s t : Session) : Prop :=
  World.Agree a s.world t.world ∧ (a = .leases → t.leases = s.leases)

instance (a : Aspect) : IsPreorder World (World.Agree a) where
  refl w := by cases a <;> simp [World.Agree]
  trans u v w h h' := by
    cases a with
    | counters => exact Eq.trans h' h
    | standing =>
        exact ⟨fun id => (h'.1 id).trans (h.1 id), fun name => (h'.2 name).trans (h.2 name)⟩
    | passages => exact ⟨h'.1.trans h.1, h'.2.1.trans h.2.1, h'.2.2.trans h.2.2⟩
    | leases => trivial

instance (a : Aspect) : IsPreorder Script.RunState (Script.RunState.Agree a) where
  refl s := refl_of (World.Agree a) s.world
  trans _ _ _ h h' := trans_of (World.Agree a) h h'

instance (a : Aspect) : IsPreorder Session (Session.Agree a) where
  refl s := ⟨refl_of (World.Agree a) s.world, fun _ => rfl⟩
  trans _ _ _ h h' := ⟨trans_of (World.Agree a) h.1 h'.1, fun ha => (h'.2 ha).trans (h.2 ha)⟩

/-! ## Single changes -/

namespace World.Agree

variable {a : Aspect} (w : World)

/-- A registry is changed, which matters to the counters only. -/
theorem modifyRegistry (ha : a ≠ .counters) (name : Text) (f : Counters → Counters) :
    Agree a w (w.modifyRegistry name f) := by
  cases a with
  | counters => exact absurd rfl ha
  | standing => exact ⟨fun _ => rfl, fun _ => rfl⟩
  | passages => exact ⟨rfl, rfl, rfl⟩
  | leases => trivial

/-- A record is written, which matters to no aspect. -/
theorem report (level : Level) (notice : Notice) : Agree a w (w.report level notice) := by
  cases a with
  | counters => rfl
  | standing => exact ⟨fun _ => rfl, fun _ => rfl⟩
  | passages => exact ⟨rfl, rfl, rfl⟩
  | leases => trivial

/-- Nothing but log, options and metrics is changed, and the metrics not if that matters. -/
theorem of_eq {w v : World} (hregistries : v.registries = w.registries)
    (hscopes : v.scopes = w.scopes) (hcontexts : v.contexts = w.contexts)
    (hmetrics : a = .passages → v.metrics = w.metrics) : Agree a w v := by
  cases a with
  | counters => exact hregistries
  | standing =>
      refine ⟨fun id => ?_, fun name => ?_⟩
      · rw [scope?, hscopes, scope?]
      · rw [stack, hcontexts, stack]
  | passages =>
      have h := hmetrics rfl
      exact ⟨by rw [h], by rw [h], by rw [h]⟩
  | leases => trivial

/-- The scopes are changed, which matters to what stands only. -/
theorem scopes (ha : a ≠ .standing) (f : Roster ScopeId Scope → Roster ScopeId Scope) :
    Agree a w { w with scopes := f w.scopes } := by
  cases a with
  | counters => rfl
  | standing => exact absurd rfl ha
  | passages => exact ⟨rfl, rfl, rfl⟩
  | leases => trivial

/-- A stack is changed, but not under the key of active scopes if that matters. -/
theorem modifyStack (name : Text) (f : Contexts → Contexts)
    (hf : a = .standing → ∀ c : Contexts, (f c).values Scope.contextKey =
      c.values Scope.contextKey) : Agree a w (w.modifyStack name f) := by
  cases a with
  | counters => rfl
  | standing =>
      refine ⟨fun id => rfl, ?_⟩
      intro other
      rw [stack_modifyStack]
      by_cases hname : name = other
      · rw [if_pos hname, ← hname, hf rfl]
      · rw [if_neg hname]
  | passages => exact ⟨rfl, rfl, rfl⟩
  | leases => trivial

/-- Counting something else than entries and exits. -/
theorem count {metric : Metric} (hentered : metric ≠ .scopesEntered)
    (hexited : metric ≠ .scopesExited) : Agree a w (w.count metric) := by
  have htally : ∀ other, other ≠ metric →
      (w.metrics.count metric).tally.get other = w.metrics.tally.get other := by
    intro other hne
    rw [Metrics.count]
    split
    · rw [Tally.get_set, if_neg hne]
    · rfl
  cases a with
  | counters => rfl
  | standing => exact ⟨fun _ => rfl, fun _ => rfl⟩
  | passages =>
      -- the switch stays, and so do the two counters that are not the one counted
      refine ⟨w.metrics.enabled_count metric, ?_, ?_⟩
      · exact htally .scopesEntered (Ne.symm hentered)
      · exact htally .scopesExited (Ne.symm hexited)
  | leases => trivial

/-- Leaving and evicting change no counters. -/
theorem deactivate (ha : a ≠ .standing) (ha' : a ≠ .passages) (id : ScopeId) (scope : Scope) :
    Agree a w (w.deactivate id scope) := by
  cases a with
  | counters => rfl
  | standing => exact absurd rfl ha
  | passages => exact absurd rfl ha'
  | leases => trivial

/-- A scope is evicted, which matters to what stands only. -/
theorem evict (ha : a ≠ .standing) (id : ScopeId) (scope : Scope) :
    Agree a w (w.evict id scope) := by
  have herased : Agree a w (w.modifyStack scope.environment.contexts fun stack =>
      (stack.eraseAll .scope Scope.contextKey id).2) :=
    modifyStack w _ _ fun hstanding => absurd hstanding ha
  simp only [World.evict]
  split
  · exact herased
  · exact trans_of (World.Agree a) herased (report _ _ _)

end World.Agree

/-- Deciding where a scope will stand draws a number at most, and counts no passage. -/
theorem Scope.Settles.agree {a : Aspect} (ha : a ≠ .counters) {scope : Scope} {w v : World}
    {parents : Path} {basename : Text} (h : scope.Settles w parents basename v) :
    World.Agree a w v := by
  cases h with
  | again hplace => exact refl_of (World.Agree a) w
  | named hplace hcurrent habove hpath => exact refl_of (World.Agree a) w
  | alone hplace hcurrent => exact refl_of (World.Agree a) w
  | numbered hplace hcurrent habove hpath => exact .modifyRegistry w ha _ _
  | global hplace hcurrent =>
      refine trans_of (World.Agree a) ?_ (.modifyRegistry _ ha _ _)
      have hcounted : ∀ u : World, World.Agree a u (u.count .globalFallbacks) :=
        fun u => .count u (by simp) (by simp)
      rw [World.fallBack]
      split
      · exact trans_of (World.Agree a) (.report w _ _) (hcounted _)
      · exact hcounted w

/-! ## Scopes and labels -/

section Actions

variable {a : Aspect}

/-- The world holds no leases. -/
theorem leases_keeps {α : Type} (action : Action α) : Keeps (World.Agree .leases) action :=
  fun _ => trivial

/-- A draw changes counters only. -/
theorem draw_keeps (ha : a ≠ .counters) (registry name : Text) :
    Keeps (World.Agree a) (Action.draw registry name) :=
  fun w => World.Agree.modifyRegistry w ha registry fun c => (c.draw name).2

namespace ScopeId

/-- Looking a scope up changes nothing. -/
theorem fetch_keeps (id : ScopeId) : Keeps (World.Agree a) id.fetch := by
  intro w
  rw [after, fetch_apply]
  cases w.scope? id <;> exact refl_of (World.Agree a) w

theorem path_keeps (id : ScopeId) : Keeps (World.Agree a) id.path := by
  refine id.fetch_keeps.bind ?_
  intro scope
  exact .ofExcept scope.path

/-- Drawing the next number below a scope changes counters only. -/
theorem nextNumber_keeps (ha : a ≠ .counters) (id : ScopeId) :
    Keeps (World.Agree a) id.nextNumber := by
  refine id.fetch_keeps.bind fun scope => .bind (.ofExcept _) fun name => ?_
  exact draw_keeps ha scope.environment.counters name

/-- Making a scope changes what stands. -/
theorem create_keeps (ha : a ≠ .standing) (id : ScopeId) (origin : Origin) :
    Keeps (World.Agree a) (id.create origin) := by
  intro w
  rcases id.create_cases origin w with ⟨e, hfailed⟩ | ⟨scope, -, -, hadded⟩
  · rw [after_error hfailed]
    exact refl_of (World.Agree a) w
  · rw [after_ok hadded]
    exact .scopes w ha (·.insert id scope)

/-- Giving up an entry changes what stands and is counted. -/
theorem leave_keeps (ha : a ≠ .standing) (ha' : a ≠ .passages) (id : ScopeId) (scope : Scope) :
    Keeps (World.Agree a) (id.leave scope) := by
  intro w
  rw [after, leave_apply]
  split
  · next h =>
      split at h
      · cases h
      · cases h
        exact .deactivate w ha ha' id scope
  · next h =>
      split at h
      · cases h
        exact refl_of (World.Agree a) w
      · cases h

/-- So does leaving a scope, if it succeeds. -/
theorem exit_keeps (ha : a ≠ .standing) (ha' : a ≠ .passages) (id : ScopeId) :
    Keeps (World.Agree a) id.exit := by
  refine id.fetch_keeps.bind fun scope => .bind .get fun w => .bind (.ofExcept _) fun top => ?_
  split
  · exact id.leave_keeps ha ha' scope
  · exact .bind top.fetch_keeps fun _ => .throw _

/-- So does releasing a scope, unless it only reports what is wrong. -/
theorem release_keeps (ha : a ≠ .standing) (ha' : a ≠ .passages) (id : ScopeId) :
    Keeps (World.Agree a) id.release := by
  refine id.fetch_keeps.bind fun scope => .bind .get fun w => ?_
  split
  · exact .modify fun w => .report w _ _
  · split
    · exact id.leave_keeps ha ha' scope
    · exact .modify fun w => .report w _ _

/-- Destroying a scope changes what stands, and is not counted as a passage. -/
theorem destroy_keeps (ha : a ≠ .standing) (id : ScopeId) :
    Keeps (World.Agree a) id.destroy := by
  refine id.fetch_keeps.bind fun scope => .modify fun w => ?_
  refine trans_of (World.Agree a) ?_ (.scopes _ ha (·.erase id))
  split
  · exact refl_of (World.Agree a) w
  · exact .evict w ha id scope

/-- A label below a scope draws a number only if it is given no name. -/
theorem labelBelow_keeps (id : ScopeId) {name : Option Text} (h : name = none → a ≠ .counters) :
    Keeps (World.Agree a) (id.labelBelow name) := by
  refine id.path_keeps.bind fun path => .bind ?_ fun segment => ?_
  · cases name with
    | none => exact (id.nextNumber_keeps (h rfl)).bind fun _ => .pure _
    | some name =>
        refine id.fetch_keeps.bind fun scope => .bind .get fun w => ?_
        exact .bind (.ofExcept _) fun _ => .pure name
  · exact .bind (.modify fun w => .count w (by simp) (by simp)) fun _ => .pure _

end ScopeId

/-- A lease ends on its own key. -/
theorem Lease.finish_keeps {lease : Lease} (hkey : a = .standing → lease.key ≠ Scope.contextKey) :
    Keeps (World.Agree a) lease.finish := by
  refine .bind .get fun w => ?_
  split
  · exact .modify fun w => .report w _ _
  · refine .modify fun w => .modifyStack w _ _ fun hstanding c => ?_
    rw [Contexts.values_dropTop, if_neg (hkey hstanding)]

theorem Environment.current_keeps (environment : Environment) :
    Keeps (World.Agree a) environment.current :=
  .bind .get fun _ => .ofExcept _

end Actions

/-! ## Runners -/

namespace Script.Run

variable {a : Aspect} {α : Type}

theorem act_keeps {action : Action α} (h : Keeps (World.Agree a) action) :
    Keeps (RunState.Agree a) (act action) := by
  intro s
  rw [after_act]
  exact h s.world

theorem print_keeps (line : Text) : Keeps (RunState.Agree a) (print line) :=
  .modify fun s => refl_of (World.Agree a) s.world

/-- Showing the active scope changes nothing but what was printed. -/
theorem current_keeps (environment : Environment) :
    Keeps (RunState.Agree a)
      (do match ← act environment.current with
          | some id => print (← act id.path).text
          | none => print "<none>") := by
  refine (act_keeps environment.current_keeps).bind fun id? => ?_
  cases id? with
  | none => exact print_keeps _
  | some id => exact (act_keeps id.path_keeps).bind fun path => print_keeps path.text

/-- Closing a scope changes what stands and is counted. -/
theorem closeScope_keeps (ha : a ≠ .standing) (ha' : a ≠ .passages) (depth : Nat) :
    Keeps (RunState.Agree a) (closeScope depth) := by
  refine .bind .get fun s => .bind (act_keeps ?_) fun _ => .modify fun s => ?_
  · exact .bind (ScopeId.release_keeps ha ha' _) fun _ => ScopeId.destroy_keeps ha _
  · exact refl_of (World.Agree a) s.world

theorem closeScopes_keeps (ha : a ≠ .standing) (ha' : a ≠ .passages) (depth : Nat) :
    Keeps (RunState.Agree a) (closeScopes depth) := by
  induction depth with
  | zero => exact .pure ()
  | succ depth ih => exact (closeScope_keeps ha ha' depth).bind fun _ => ih

theorem unwind_keeps (ha : a ≠ .standing) (ha' : a ≠ .passages) :
    Keeps (RunState.Agree a) unwind :=
  .bind .get fun s => closeScopes_keeps ha ha' s.runner.depth

/-- The end of a script writes a record at most, and closes what is open. -/
theorem finish_keeps (ha : a ≠ .standing) (ha' : a ≠ .passages) :
    Keeps (RunState.Agree a) finish := by
  refine .bind .get fun s => ?_
  simp only
  split
  · exact .pure ()
  · refine .bind (act_keeps (.modify fun w => .report w _ _)) fun _ => unwind_keeps ha ha'

end Script.Run

/-! ## Requests -/

namespace Session

/-- The aspects that making a label may change. A label that exists already is only handed on, and
    one that is given a name below a scope is put together without asking anyone. -/
def touchedByLabel : NameSource → Location → List Aspect
  | .fresh _, .current _ => [.counters, .standing, .passages]
  | .fresh none, .below _ => [.counters]
  | .fresh (some _), .below _ | .label _, _ => []

/-- A label below a scope draws a number at most. -/
theorem not_mem_touchedByLabel_below {a : Aspect} (ha : a ≠ .counters) (name : Option Text)
    (scope : Text) : a ∉ touchedByLabel (.fresh name) (.below scope) := by
  cases name with
  | none => exact fun hmem => ha (List.mem_singleton.mp hmem)
  | some name => exact List.not_mem_nil

/-- No label touches a lease. -/
theorem leases_not_mem_touchedByLabel (name : NameSource) (location : Location) :
    Aspect.leases ∉ touchedByLabel name location := by
  cases name with
  | label source => exact List.not_mem_nil
  | fresh name =>
      cases location with
      | current environment => simp [touchedByLabel]
      | below scope => exact not_mem_touchedByLabel_below (by decide) name scope

/-- The aspects that a request may change. -/
def Request.touched : Request → List Aspect
  | .makeLabel name location _ => touchedByLabel name location
  | .enterScope _ | .newGuard .. | .runScript .. => [.counters, .standing, .passages]
  | .resetEnvironment _ => [.counters, .standing]
  | .nextSegment _ | .nextNumber _ | .drawCount .. | .zeroCount .. | .clearCounts _ => [.counters]
  | .exitScope _ | .dropGuard _ | .closeRunner .. | .dropRunner .. => [.standing, .passages]
  | .newScope .. | .dropScope _ | .clearStack _ => [.standing]
  | .push _ key _ | .pop _ key | .popAs _ _ key | .removeData _ key _ | .removeScope _ key _ =>
    if key = Scope.contextKey then [.standing] else []
  | .newLease _ _ key _ => .leases :: if key = Scope.contextKey then [.standing] else []
  | .dropLease _ => [.leases, .standing]
  | .countEvents _ | .resetTally | .countOne _ | .setMetric .. => [.passages]
  | _ => []

variable {a : Aspect} {α : Type}

/-- A request on a key that may be that of active scopes does not touch them if it is another. -/
theorem ne_contextKey {key : Text}
    (h : a ∉ if key = Scope.contextKey then [Aspect.standing] else []) (ha : a = .standing) :
    key ≠ Scope.contextKey := by
  rintro rfl
  rw [if_pos rfl, ha] at h
  exact h (List.mem_singleton_self _)

/-! ### What only looks something up -/

section Lookups

variable {same : Session → Session → Prop} [IsPreorder Session same]

theorem getWorld_keeps : Keeps same getWorld :=
  .bind .get fun _ => .pure _

/-- An object of the caller is found, or its name is unknown. -/
theorem held_apply {ν : Type} (roster : Roster Text ν) (name : Text) (s : Session) :
    held roster name s = match roster.get? name with
      | some object => .ok object s
      | none => .error (.misuse .unknownHandle) s := by
  rw [held]
  cases roster.get? name <;> rfl

theorem held_keeps {ν : Type} (roster : Roster Text ν) (name : Text) :
    Keeps same (held roster name) := by
  rw [held]
  split
  · exact .pure _
  · exact .throw _

theorem requireFree_keeps {ν : Type} (roster : Roster Text ν) (name : Text) :
    Keeps same (requireFree roster name) := by
  rw [requireFree]
  split
  · exact .throw _
  · exact .pure _

theorem environmentOf_keeps (name : Text) : Keeps same (environmentOf name) :=
  .bind .get fun s => held_keeps s.environments name

theorem runnerOf_keeps (name : Text) : Keeps same (runnerOf name) :=
  .bind .get fun s => held_keeps s.runners name

/-- Finding a scope changes nothing. -/
theorem scopeOf_keeps (name : Text) : Keeps same (scopeOf name) := by
  intro s
  rw [scopeOf, after_act, after, ScopeId.fetch_apply]
  cases s.world.scope? (.held name) <;> exact refl_of same s

theorem labelOf_keeps (source : LabelSource) : Keeps same (labelOf source) := by
  cases source with
  | literal label => exact .pure label
  | saved name => exact .bind .get fun s => held_keeps s.labels name

theorem nameOf_keeps (source : NameSource) : Keeps same (nameOf source) := by
  cases source with
  | fresh name => exact .pure _
  | label source => exact (labelOf_keeps source).bind fun _ => .pure _

/-- Finding what a scope is made from changes nothing. -/
theorem originOf_keeps (source : ScopeSource) : Keeps same (originOf source) := by
  cases source with
  | basename environment name => exact (environmentOf_keeps _).bind fun _ => .pure _
  | unnamed environment => exact (environmentOf_keeps _).bind fun _ => .pure _
  | label environment source =>
      refine (environmentOf_keeps _).bind fun _ => ?_
      exact (labelOf_keeps source).bind fun _ => .pure _
  | global environment => exact (environmentOf_keeps _).bind fun _ => .pure _
  | existing scope => exact .pure _

theorem showScope_keeps (name : Text) :
    Keeps same (do return .scope (← scopeOf name) : Procedure Answer) :=
  (scopeOf_keeps name).bind fun _ => .pure _

end Lookups

/-! ### What acts on the world -/

theorem act_keeps {action : Action α} (h : Keeps (World.Agree a) action) :
    Keeps (Session.Agree a) (act action) := by
  intro s
  rw [after_act]
  exact ⟨h s.world, fun _ => rfl⟩

theorem modifyWorld_keeps {f : World → World} (hf : ∀ w, World.Agree a w (f w)) :
    Keeps (Session.Agree a) (modifyWorld f) :=
  .modify fun s => ⟨hf s.world, fun _ => rfl⟩

/-- The caller's objects other than leases are kept in no aspect. -/
theorem modify_keeps {f : Session → Session} (hworld : ∀ s, (f s).world = s.world)
    (hleases : ∀ s, (f s).leases = s.leases) :
    Keeps (Session.Agree a) (modify f : Procedure PUnit) := by
  refine .modify fun s => ⟨?_, fun _ => hleases s⟩
  rw [hworld]
  exact refl_of (World.Agree a) s.world

theorem readStack_keeps (stack : Text) (read : Contexts → Except Error α) :
    Keeps (World.Agree a) (Action.readStack stack read) :=
  .bind .get fun _ => .ofExcept _

/-- Taking something off a stack, but not off the key of active scopes if that matters. -/
theorem takeFromStack_keeps {stack : Text} {take : Contexts → Except Error (α × Contexts)}
    (htake : a = .standing → ∀ c x d, take c = .ok (x, d) →
      d.values Scope.contextKey = c.values Scope.contextKey) :
    Keeps (World.Agree a) (Action.takeFromStack stack take) := by
  intro w
  cases hresult : take (w.stack stack) with
  | error e =>
      rw [after, Action.takeFromStack_apply, hresult]
      exact refl_of (World.Agree a) w
  | ok p =>
      obtain ⟨x, d⟩ := p
      rw [after, Action.takeFromStack_apply, hresult]
      cases a with
      | counters => rfl
      | standing =>
          refine ⟨fun id => rfl, fun name => ?_⟩
          rw [World.stack_modifyStack]
          by_cases hname : stack = name
          · rw [if_pos hname, ← hname]
            exact htake rfl _ x d hresult
          · rw [if_neg hname]
      | passages => exact ⟨rfl, rfl, rfl⟩
      | leases => trivial

/-- Taking off the innermost value of another key, with whatever is read from it first. -/
theorem takeTop_keeps {stack key : Text} {read : Contexts → Except Error α}
    (hkey : a = .standing → key ≠ Scope.contextKey) :
    Keeps (World.Agree a)
      (Action.takeFromStack stack fun c => do return (← read c, c.dropTop key)) := by
  refine takeFromStack_keeps fun ha c x d h => ?_
  cases hresult : read c with
  | error e => rw [hresult] at h; cases h
  | ok y =>
      rw [hresult] at h
      cases h
      rw [Contexts.values_dropTop, if_neg (hkey ha)]

/-- Erasing a value changes what stands only if it is erased from the key of active scopes. -/
theorem eraseAll_keeps {stack key : Text} (hkey : a = .standing → key ≠ Scope.contextKey)
    (type : ValueType) (data : type.Carrier) :
    Keeps (Session.Agree a) (eraseAll stack key type data) := by
  refine .bind (act_keeps (takeFromStack_keeps fun ha c x d h => ?_)) fun _ => .pure _
  cases h
  show (c.put key _).values Scope.contextKey = _
  rw [Contexts.values_put, if_neg (hkey ha)]

/-- Taking over what a run left, where the run agrees. -/
theorem adopt_keeps {run : Script.Run Unit} (h : Keeps (Script.RunState.Agree a) run) (name : Text)
    (runner : Script.Runner) (rest : Script.Outcome → Procedure α)
    (hrest : ∀ outcome, Keeps (Session.Agree a) (rest outcome)) :
    Keeps (Session.Agree a) (getWorld >>= fun w =>
      adopt name (run.outcome { world := w, runner }) >>= fun _ =>
      rest (run.outcome { world := w, runner })) := by
  intro s
  let left := run.outcome { world := s.world, runner }
  have hleft : World.Agree a s.world left.state.world := by
    rw [Script.Run.state_outcome]
    exact h { world := s.world, runner }
  let t : Session :=
    { s with
      world := left.state.world
      runners := s.runners.modify name fun _ => left.state.runner }
  have hadopted : Session.Agree a s t := ⟨hleft, fun _ => rfl⟩
  exact trans_of (Session.Agree a) hadopted (hrest left t)

/-- A new environment changes options only. -/
theorem newEnvironment_keeps (name counters contexts : Text) (options : Options) :
    Keeps (Session.Agree a) (newEnvironment name counters contexts options) := by
  refine .bind .get fun s => (requireFree_keeps _ _).bind fun _ => ?_
  refine .bind (.modify fun s => ⟨.of_eq rfl rfl rfl fun _ => rfl, fun _ => rfl⟩) fun _ => ?_
  exact getWorld_keeps.bind fun _ => .pure _

/-- So does setting the options of one. -/
theorem changeOptions_keeps (name : Text) (change : Option Options) :
    Keeps (Session.Agree a) (changeOptions name change) := by
  refine (environmentOf_keeps name).bind fun environment => ?_
  refine (modifyWorld_keeps fun w => ?_).bind fun _ => getWorld_keeps.bind fun _ => .pure _
  cases change <;> exact .of_eq rfl rfl rfl fun _ => rfl

theorem currentScope_keeps (name : Text) : Keeps (Session.Agree a) (currentScope name) := by
  refine (environmentOf_keeps name).bind fun environment => act_keeps ?_
  refine environment.current_keeps.bind fun id? => ?_
  cases id? with
  | none => exact .pure _
  | some id => exact id.fetch_keeps.bind fun _ => .pure _

/-- Making a label keeps every aspect that it does not touch. -/
theorem labelAt_keeps {name : Option Text} {location : Location}
    (h : a ∉ touchedByLabel (.fresh name) location) :
    Keeps (Session.Agree a) (labelAt (.fresh name) location) := by
  cases location with
  | current environment =>
      -- a label in an environment touches all that worlds can agree in, so only leases are left
      simp only [touchedByLabel, List.mem_cons, List.not_mem_nil, or_false, not_or] at h
      cases Aspect.eq_leases h.1 h.2.1 h.2.2
      exact (environmentOf_keeps environment).bind fun environment => act_keeps (leases_keeps _)
  | below scope =>
      refine act_keeps ((ScopeId.held scope).labelBelow_keeps ?_)
      rintro rfl rfl
      exact h (List.mem_singleton_self _)

/-- So does a request for a label, whether the label is saved or not. -/
theorem makeLabel_keeps {name : NameSource} {location : Location} (save : Option Text)
    (h : a ∉ touchedByLabel name location) :
    Keeps (Session.Agree a) (makeLabel name location save) := by
  have hsaved : ∀ label, Keeps (Session.Agree a)
      (do modify fun s => save.elim s fun key =>
            { s with labels := (s.labels.erase key).insert key label }
          return .label label : Procedure Answer) := by
    intro label
    refine .bind (modify_keeps (fun s => ?_) fun s => ?_) fun _ => .pure _ <;> cases save <;> rfl
  rw [makeLabel]
  cases name with
  | label source =>
      -- a label that exists is handed on, wherever the new one was to be made
      simp only [nameOf, bind_assoc, pure_bind]
      refine (labelOf_keeps source).bind fun label => .bind ?_ hsaved
      cases location with
      | current environment =>
          exact (environmentOf_keeps environment).bind fun _ => act_keeps (.pure label)
      | below scope => exact act_keeps (.pure label)
  | fresh name =>
      simp only [nameOf, pure_bind]
      exact (labelAt_keeps h).bind hsaved

/-- A new scope changes what stands. -/
theorem newScope_keeps (ha : a ≠ .standing) (name : Text) (source : ScopeSource) :
    Keeps (Session.Agree a) (newScope name source) := by
  refine (originOf_keeps source).bind fun origin => ?_
  refine (act_keeps (ScopeId.create_keeps ha _ _)).bind fun _ => ?_
  exact showScope_keeps name

/-- Dropping a scope changes what stands, if it is dropped. -/
theorem dropScope_keeps (ha : a ≠ .standing) (name : Text) :
    Keeps (Session.Agree a) (dropScope name) := by
  refine .bind .get fun s => ?_
  split
  · exact .throw _
  · exact (act_keeps (ScopeId.destroy_keeps ha _)).bind fun _ => .pure _

/-- A new guard changes everything but leases. -/
theorem newGuard_keeps (ha : a = .leases) (name scope : Text) :
    Keeps (Session.Agree a) (newGuard name scope) := by
  subst ha
  refine .bind .get fun s => (requireFree_keeps _ _).bind fun _ => ?_
  refine (act_keeps (leases_keeps _)).bind fun _ => ?_
  refine .bind (modify_keeps (fun _ => rfl) fun _ => rfl) fun _ => ?_
  exact showScope_keeps scope

/-- Dropping a guard changes what stands and is counted. -/
theorem dropGuard_keeps (ha : a ≠ .standing) (ha' : a ≠ .passages) (name : Text) :
    Keeps (Session.Agree a) (dropGuard name) := by
  refine .bind .get fun s => (held_keeps _ _).bind fun scope => ?_
  refine (act_keeps (ScopeId.release_keeps ha ha' _)).bind fun _ => ?_
  refine .bind (modify_keeps (fun _ => rfl) fun _ => rfl) fun _ => ?_
  exact showScope_keeps scope

theorem newRunner_keeps (name environment : Text) :
    Keeps (Session.Agree a) (newRunner name environment) := by
  refine (environmentOf_keeps environment).bind fun environment => .bind .get fun s => ?_
  refine (requireFree_keeps _ _).bind fun _ => ?_
  exact .bind (modify_keeps (fun _ => rfl) fun _ => rfl) fun _ => .pure _

theorem inspectRunner_keeps (name : Text) : Keeps (Session.Agree a) (inspectRunner name) :=
  (runnerOf_keeps name).bind fun _ => .pure _

/-- Running a script changes everything but leases. -/
theorem runScript_keeps (ha : a = .leases) (name script : Text) :
    Keeps (Session.Agree a) (runScript name script) := by
  subst ha
  refine (runnerOf_keeps name).bind ?_
  intro runner
  have hrun : Keeps (Script.RunState.Agree .leases) (Script.Run.runText script) := by
    intro s
    trivial
  refine adopt_keeps hrun name runner (fun outcome =>
    pure (Answer.ran outcome.error? outcome.state.output outcome.state.runner.line
      outcome.state.runner.depth)) ?_
  intro outcome
  exact .pure _

/-- Closing a runner changes what stands and is counted. -/
theorem closeRunner_keeps (ha : a ≠ .standing) (ha' : a ≠ .passages) (name : Text) :
    Keeps (Session.Agree a) (closeRunner name) := by
  have hrun := Script.Run.unwind_keeps ha ha'
  refine (runnerOf_keeps name).bind ?_
  intro runner
  refine adopt_keeps hrun name runner (fun _ => inspectRunner name) ?_
  intro outcome
  exact inspectRunner_keeps name

/-- So does dropping it. -/
theorem dropRunner_keeps (ha : a ≠ .standing) (ha' : a ≠ .passages) (name : Text) :
    Keeps (Session.Agree a) (dropRunner name) := by
  have hrun := Script.Run.unwind_keeps ha ha'
  refine (runnerOf_keeps name).bind ?_
  intro runner
  refine adopt_keeps hrun name runner (fun _ => do
    modify fun s : Session => { s with runners := s.runners.erase name }
    return Answer.nothing) ?_
  intro outcome
  exact .bind (modify_keeps (fun _ => rfl) fun _ => rfl) fun _ => .pure _

theorem displayed_keeps (value : Value) : Keeps (Session.Agree a) (displayed value) :=
  getWorld_keeps.bind fun _ => .pure _

theorem displayedData_keeps (type : ValueType) (data : type.Carrier) :
    Keeps (Session.Agree a) (displayedData type data) := by
  cases type with
  | int => exact .pure _
  | bool => exact .pure _
  | text => exact .pure _
  | scope => exact (act_keeps (ScopeId.fetch_keeps _)).bind fun _ => .pure _

/-- A new lease changes leases, and what stands only on the key of active scopes. -/
theorem newLease_keeps (ha : a ≠ .leases) (name : Text) (lease : Lease) (value : Value)
    (hkey : a = .standing → lease.key ≠ Scope.contextKey) :
    Keeps (Session.Agree a) (newLease name lease value) := by
  refine .bind .get fun s => (requireFree_keeps _ _).bind fun _ => ?_
  refine .bind (act_keeps (.modify fun w => .modifyStack w _ _ fun hstanding c => ?_)) fun _ => ?_
  · rw [Contexts.values_push, if_neg (hkey hstanding)]
  · refine .bind (.modify fun s => ⟨refl_of (World.Agree a) s.world, fun h => absurd h ha⟩) ?_
    exact fun _ => .pure _

/-- Dropping a lease changes leases, and perhaps what stands: its key is not known beforehand. -/
theorem dropLease_keeps (ha : a ≠ .leases) (ha' : a ≠ .standing) (name : Text) :
    Keeps (Session.Agree a) (dropLease name) := by
  refine .bind .get fun s => (held_keeps _ _).bind fun lease => ?_
  refine (act_keeps (Lease.finish_keeps fun h => absurd h ha')).bind fun _ => ?_
  refine .bind (.modify fun s => ⟨refl_of (World.Agree a) s.world, fun h => absurd h ha⟩) ?_
  exact fun _ => .pure _

/-- A request keeps every aspect that it does not touch. -/
theorem perform_keeps (request : Request) (h : a ∉ request.touched) :
    Keeps (Session.Agree a) (perform request) := by
  cases request <;>
    simp only [Request.touched, List.mem_cons, List.not_mem_nil, or_false, not_or] at h
  case newEnvironment name counters contexts options =>
    exact newEnvironment_keeps name counters contexts options
  case options name change => exact changeOptions_keeps name change
  case resetEnvironment name =>
    refine (environmentOf_keeps name).bind fun environment => ?_
    refine .bind (act_keeps (.modify fun w => ?_)) fun _ => .pure _
    have hcleared : World.Agree a w (w.modifyRegistry environment.counters fun _ => {}) :=
      .modifyRegistry w h.1 _ _
    refine trans_of (World.Agree a) hcleared ?_
    exact .modifyStack _ environment.contexts _ fun hstanding => absurd hstanding h.2
  case current name => exact currentScope_keeps name
  case makeLabel name location save =>
    exact makeLabel_keeps save h
  -- scopes and guards: an entry touches every aspect but the leases
  case newScope name source => exact newScope_keeps h name source
  case inspectScope name => exact showScope_keeps name
  case enterScope name =>
    cases Aspect.eq_leases h.1 h.2.1 h.2.2
    exact (act_keeps (leases_keeps _)).bind fun _ => showScope_keeps name
  case exitScope name =>
    refine (act_keeps (ScopeId.exit_keeps h.1 h.2 _)).bind fun _ => ?_
    exact showScope_keeps name
  case scopeName name => exact (act_keeps (ScopeId.path_keeps _)).bind fun _ => .pure _
  case nextSegment name =>
    refine (act_keeps ?_).bind fun _ => .pure _
    exact (ScopeId.nextNumber_keeps h _).bind fun _ => .pure _
  case nextNumber name => exact (act_keeps (ScopeId.nextNumber_keeps h _)).bind fun _ => .pure _
  case checkScope name => exact (act_keeps (ScopeId.path_keeps _)).bind fun _ => .pure _
  case sameScope name other =>
    exact (scopeOf_keeps name).bind fun _ => (scopeOf_keeps other).bind fun _ => .pure _
  case dropScope name => exact dropScope_keeps h name
  case newGuard name scope => exact newGuard_keeps (Aspect.eq_leases h.1 h.2.1 h.2.2) name scope
  case dropGuard name => exact dropGuard_keeps h.1 h.2 name
  -- runners: what a script touches its commands touch
  case newRunner name environment => exact newRunner_keeps name environment
  case runScript name script watch =>
    exact runScript_keeps (Aspect.eq_leases h.1 h.2.1 h.2.2) name script
  case closeRunner name watch => exact closeRunner_keeps h.1 h.2 name
  case inspectRunner name watch => exact inspectRunner_keeps name
  case dropRunner name watch => exact dropRunner_keeps h.1 h.2 name
  -- counters
  case drawCount registry counter =>
    exact (act_keeps (draw_keeps h registry counter)).bind fun _ => .pure _
  case readCount registry counter => exact getWorld_keeps.bind fun _ => .pure _
  case zeroCount registry counter =>
    exact (modifyWorld_keeps fun w => .modifyRegistry w h _ _).bind fun _ => .pure _
  case clearCounts registry =>
    exact (modifyWorld_keeps fun w => .modifyRegistry w h _ _).bind fun _ => .pure _
  case countersHeld registry => exact getWorld_keeps.bind fun _ => .pure _
  -- context stacks: only under the key of the active scopes does anything depend on them
  case push stack key datum =>
    refine (modifyWorld_keeps fun w => ?_).bind fun _ => getWorld_keeps.bind fun _ => .pure _
    refine .modifyStack w _ _ fun hstanding c => ?_
    rw [Contexts.values_push, if_neg (ne_contextKey h hstanding)]
  case pop stack key =>
    refine (act_keeps (takeTop_keeps ?_)).bind fun _ => displayed_keeps _
    exact ne_contextKey h
  case top stack key =>
    exact (act_keeps (readStack_keeps _ _)).bind fun _ => displayed_keeps _
  case popAs type stack key =>
    refine (act_keeps (takeTop_keeps ?_)).bind fun _ => displayedData_keeps _ _
    exact ne_contextKey h
  case topAs type stack key =>
    exact (act_keeps (readStack_keeps _ _)).bind fun _ => displayedData_keeps _ _
  case listing stack key => exact getWorld_keeps.bind fun _ => .pure _
  case stackSize stack key => exact getWorld_keeps.bind fun _ => .pure _
  case isEmpty stack key => exact getWorld_keeps.bind fun _ => .pure _
  case clearStack stack =>
    refine (modifyWorld_keeps fun w => ?_).bind fun _ => .pure _
    exact .modifyStack w _ _ fun hstanding => absurd hstanding h
  case removeData stack key datum => exact eraseAll_keeps (ne_contextKey h) _ _
  case removeScope stack key scope => exact eraseAll_keeps (ne_contextKey h) _ _
  -- leases: a value is put on a stack or taken off
  case newLease name stack key datum =>
    exact newLease_keeps h.1 name _ _ (ne_contextKey h.2)
  case dropLease name => exact dropLease_keeps h.1 h.2 name
  -- log and metrics: what counts passages is told by the tally
  case setThreshold level =>
    refine (modifyWorld_keeps fun w => ?_).bind fun _ => .pure _
    exact .of_eq rfl rfl rfl fun _ => rfl
  case threshold => exact getWorld_keeps.bind fun _ => .pure _
  case write level message =>
    exact (modifyWorld_keeps fun w => .report w _ _).bind fun _ => .pure _
  case redirect sink =>
    refine (modifyWorld_keeps fun w => ?_).bind fun _ => .pure _
    exact .of_eq rfl rfl rfl fun _ => rfl
  case countEvents on =>
    refine (modifyWorld_keeps fun w => ?_).bind fun _ => .pure _
    exact .of_eq rfl rfl rfl fun hpassages => absurd hpassages h
  case tally => exact getWorld_keeps.bind fun _ => .pure _
  case resetTally =>
    refine (modifyWorld_keeps fun w => ?_).bind fun _ => getWorld_keeps.bind fun _ => .pure _
    exact .of_eq rfl rfl rfl fun hpassages => absurd hpassages h
  case countOne metric =>
    refine (modifyWorld_keeps fun w => ?_).bind fun _ => getWorld_keeps.bind fun _ => .pure _
    exact .of_eq rfl rfl rfl fun hpassages => absurd hpassages h
  case setMetric metric value =>
    refine (modifyWorld_keeps fun w => ?_).bind fun _ => getWorld_keeps.bind fun _ => .pure _
    exact .of_eq rfl rfl rfl fun hpassages => absurd hpassages h
  case report settings => exact getWorld_keeps.bind fun _ => .pure _

end Session

end ScopedLabels
