import ScopedLabels.Proofs.Exactness
import ScopedLabels.Proofs.Resolution

/-!
# Leases — what a key holds, and who works on it

What a key holds (`Lease.contents`) is changed by what works on that key, and by nothing else: an
elementary change elsewhere spares it (`World.Change.spared`), and so does every request that does
not work on it (`Session.contents_step`).

A lease works on its key when it begins and when it ends. It does not remember its value. When it
ends it takes off whatever is innermost, and looks only at whether there is anything at all
(`Lease.finish_apply`). A block that begins with a lease and is left in any way, also by an error,
ends the lease that it began. So inside the block its value stands on top, below nothing but the
values of blocks inside, and afterwards the key is as before (`Lease.Blocks.during_apply`).
-/

namespace ScopedLabels

variable {α β : Type}

/-! ## The contents of a key -/

namespace Lease

/-- What the key of a lease holds, outermost first. -/
def contents (home : Lease) (w : World) : List Value :=
  (w.stack home.stack).toList home.key

/-- The key of a lease is left as it is. -/
def Spared (home : Lease) (w v : World) : Prop :=
  home.contents v = home.contents w

instance (home : Lease) : IsPreorder World home.Spared where
  refl _ := rfl
  trans _ _ _ h h' := Eq.trans h' h

/-- Another lease works on another stack, or on another key of it. -/
theorem apart_of_ne {home other : Lease} (hne : other ≠ home) :
    ¬ (other.stack = home.stack ∧ other.key = home.key) := by
  obtain ⟨stack, key⟩ := other
  rintro ⟨rfl, rfl⟩
  exact hne rfl

variable (home : Lease)

/-- A key is spared where all stacks are. -/
theorem spared_of_contexts {w v : World} (h : v.contexts = w.contexts) : home.Spared w v := by
  rw [Spared, contents, World.stack, h]
  rfl

theorem spared_of_values {w v : World}
    (h : (v.stack home.stack).values home.key = (w.stack home.stack).values home.key) :
    home.Spared w v :=
  congrArg List.reverse h

/-- A change to the values of another key. -/
theorem spared_modifyStack_put (w : World) {stack key : Text}
    (hne : ¬ (stack = home.stack ∧ key = home.key)) (change : List Value → List Value) :
    home.Spared w (w.modifyStack stack fun c => c.put key (change (c.values key))) := by
  refine home.spared_of_values ?_
  rw [World.values_modifyStack_put, if_neg hne]

/-- A change to another stack. -/
theorem spared_modifyStack (w : World) {stack : Text} (hne : stack ≠ home.stack)
    (f : Contexts → Contexts) : home.Spared w (w.modifyStack stack f) := by
  rw [Spared, contents, World.stack_modifyStack, if_neg hne]
  rfl

/-- A lease that begins puts its value on top of what the key holds. -/
theorem contents_started (value : Value) (w : World) :
    home.contents (w.modifyStack home.stack (·.push home.key value)) =
      home.contents w ++ [value] := by
  rw [contents, World.stack_modifyStack, if_pos rfl, Contexts.toList, Contexts.values_push,
    if_pos rfl, List.reverse_cons]
  rfl

/-- A lease that ends takes off the innermost value. It reports it only if there is none. -/
theorem finish_apply (w : World) :
    home.finish w = .ok () (if home.contents w = [] then
      w.report .error (.alreadyPopped home.key)
    else w.modifyStack home.stack (·.dropTop home.key)) := by
  have hempty : (w.stack home.stack).isEmpty home.key = true ↔ home.contents w = [] := by
    rw [contents, Contexts.isEmpty, Contexts.toList, List.isEmpty_iff, List.reverse_eq_nil_iff]
  rw [finish, bind_apply, get_apply]
  by_cases h : home.contents w = []
  · rw [if_pos h]
    simp only [if_pos (hempty.mpr h), modify_apply]
  · rw [if_neg h]
    simp only [if_neg (mt hempty.mp h), modify_apply]

/-- A lease that ends takes the last value off, whichever it is. -/
theorem contents_finished (w : World) :
    home.contents (w.modifyStack home.stack (·.dropTop home.key)) =
      (home.contents w).dropLast := by
  rw [contents, World.stack_modifyStack, if_pos rfl, Contexts.toList, Contexts.values_dropTop,
    if_pos rfl, contents, Contexts.toList, List.dropLast_reverse]

/-- On another key a lease ends elsewhere. -/
theorem spared_finish {other : Lease} (hne : other ≠ home) (w : World) :
    home.Spared w (after other.finish w) := by
  rw [after_ok (other.finish_apply w)]
  split
  · exact home.spared_of_contexts rfl
  · exact home.spared_modifyStack_put w (apart_of_ne hne) List.tail

end Lease

/-- An elementary change leaves a key as it is that it may not work on directly, unless it is about
    who is active. -/
theorem World.Change.spared {allowed : Allowance} {w v : World} (h : Change allowed w v)
    {home : Lease} (hdirect : ¬ allowed.direct home.stack home.key)
    (hkey : home.key ≠ Scope.contextKey) : home.Spared w v := by
  have hother : ∀ {name : Text}, ¬ (name = home.stack ∧ Scope.contextKey = home.key) :=
    fun hwhere => hkey hwhere.2.symm
  have helsewhere : ∀ {stack key : Text}, allowed.direct stack key →
      ¬ (stack = home.stack ∧ key = home.key) := by
    rintro stack key hallowed ⟨rfl, rfl⟩
    exact hdirect hallowed
  -- who is active stands under one key, and what is worked on directly is allowed
  cases h with
  | make hgrows hmade hfree => exact home.spared_of_contexts rfl
  | enter hgrows hscope hsettles =>
      refine home.spared_of_values ?_
      rw [values_activate, if_neg hother, hsettles.sameScopes.stack_eq]
  | leave hleaves hscope htop hentries =>
      refine home.spared_of_values ?_
      rw [values_deactivate, if_neg hother]
  | destroy hscope =>
      split
      · exact home.spared_of_contexts rfl
      · refine home.spared_of_values ?_
        show ((w.evict _ _).stack home.stack).values home.key = _
        rw [values_evict, if_neg hother]
  | draw registry name => exact home.spared_of_contexts rfl
  | zero registry name => exact home.spared_of_contexts rfl
  | clear registry => exact home.spared_of_contexts rfl
  | report level notice => exact home.spared_of_contexts rfl
  | count metric => exact home.spared_of_contexts rfl
  | configure hscopes hcontexts hregistries => exact home.spared_of_contexts hcontexts
  | push stack key hallowed hvalue =>
      exact home.spared_modifyStack_put w (helsewhere hallowed) (_ :: ·)
  | dropTop stack key hallowed =>
      exact home.spared_modifyStack_put w (helsewhere hallowed) List.tail
  | erase stack key hallowed type data =>
      exact home.spared_modifyStack_put w (helsewhere hallowed) (·.filter (· != .of type data))
  | clearStack stack hallowed =>
      refine home.spared_modifyStack w (fun hstack => ?_) _
      exact hdirect (hstack ▸ hallowed home.key)

/-- Changes that may not work on a key leave it as it is, one after the other. -/
theorem World.Changes.spared {allowed : Allowance} {w v : World} (h : Changes allowed w v)
    {home : Lease} (hdirect : ¬ allowed.direct home.stack home.key)
    (hkey : home.key ≠ Scope.contextKey) : home.Spared w v := by
  induction h with
  | refl => exact refl_of home.Spared w
  | tail _ hchange ih => exact trans_of home.Spared ih (hchange.spared hdirect hkey)

namespace Session

/-! ## Requests elsewhere -/

/-- Does a request work on a key? It may push, pop, erase or clear there, or begin or end a lease
    there. On the key of active scopes it may also concern scopes. -/
def WorksOn (s : Session) (home : Lease) : Request → Prop
  | .dropLease name => s.leases.get? name = some home
  | .resetEnvironment name =>
    ∃ environment, s.environments.get? name = some environment ∧ environment.contexts = home.stack
  | request => request.direct home.stack home.key ∨
    (home.key = Scope.contextKey ∧ .standing ∈ request.touched)

theorem spared_drained (home : Lease) (s : Session) : home.Spared s.world s.drained.world :=
  home.spared_of_contexts rfl

/-- Ending a lease that is not there changes nothing. -/
theorem step_dropLease_none {s : Session} {name : Text} (hnone : s.leases.get? name = none) :
    (s.step (.dropLease name)).2 = s.drained := by
  have hsame : s.drained.leases.get? name = none := hnone
  rw [step_eq_after, perform, dropLease, after_bind, get_apply]
  simp only [after_bind, held_apply, hsame]

/-- Ending a lease that is held. -/
theorem step_dropLease {s : Session} {name : Text} {lease : Lease}
    (hheld : s.leases.get? name = some lease) :
    s.step (.dropLease name) =
      (.of (.ok .nothing) none (after lease.finish s.drained.world),
        { s.drained with
          world := after lease.finish s.drained.world
          leases := s.leases.erase name }) := by
  have hsame : s.drained.leases.get? name = some lease := hheld
  have hended : perform (.dropLease name) s.drained =
      .ok .nothing { s.drained with
        world := after lease.finish s.drained.world
        leases := s.leases.erase name } := by
    have hfinish := lease.finish_apply s.drained.world
    rw [perform, dropLease, bind_apply, get_apply]
    simp only [bind_apply, held_apply, hsame, act, after_ok hfinish]
    rw [hfinish]
    rfl
  rw [step, hended]
  rfl

/-- Beginning a lease under a name that is in use. -/
theorem step_newLease_used {s : Session} {name : Text} (hused : s.leases.contains name = true)
    (stack key : Text) (datum : Option Datum) :
    (s.step (.newLease name stack key datum)).2 = s.drained := by
  have hsame : s.drained.leases.contains name = true := hused
  rw [step_eq_after, perform, newLease, after_bind, get_apply]
  simp only [after_bind, requireFree, hsame, if_true, throw_apply]

/-- Beginning a lease under a name of its own. -/
theorem step_newLease {s : Session} {name : Text} (hfree : s.leases.contains name = false)
    (stack key : Text) (datum : Option Datum) :
    (s.step (.newLease name stack key datum)).2 =
      { s.drained with
        world := s.drained.world.modifyStack stack (·.push key (Datum.value datum))
        leases := s.leases.insert name ⟨stack, key⟩ } := by
  have hsame : s.drained.leases.contains name = false := hfree
  rw [step_eq_after, perform, newLease, after_bind, get_apply]
  simp only [after_bind, requireFree, hsame, Bool.false_eq_true, if_false, pure_apply]
  rfl

/-- A request that does not work on a key leaves it as it is. -/
theorem contents_step {s : Session} {home : Lease} {request : Request}
    (h : ¬ s.WorksOn home request) : home.Spared s.world (s.step request).2.world := by
  have hdrained := spared_drained home s
  have hothers : ¬ (request.direct home.stack home.key ∨
      (home.key = Scope.contextKey ∧ .standing ∈ request.touched)) →
      home.Spared s.world (s.step request).2.world := by
    intro hno
    rw [not_or, not_and] at hno
    obtain ⟨hdirect, hstanding⟩ := hno
    rw [step_eq_after]
    refine trans_of home.Spared hdrained ?_
    by_cases hkey : home.key = Scope.contextKey
    · have hkept := (perform_keeps request (hstanding hkey) s.drained).1
      refine home.spared_of_values ?_
      rw [hkey]
      exact hkept.2 home.stack
    · exact (perform_changes request s.drained).spared hdirect hkey
  -- dropping a lease and resetting an environment go by what the session holds, and the others by
  -- what they touch
  cases request with
  | dropLease name =>
      cases hlease : s.leases.get? name with
      | none =>
          rw [step_dropLease_none hlease]
          exact hdrained
      | some lease =>
          have hne : lease ≠ home := fun heq => h (hlease.trans (congrArg some heq))
          rw [step_dropLease hlease]
          exact trans_of home.Spared hdrained (home.spared_finish hne _)
  | resetEnvironment name =>
      have hsame : s.drained.environments.get? name = s.environments.get? name := rfl
      rw [step_eq_after, perform, after_bind, environmentOf, bind_apply, get_apply]
      simp only [held_apply, hsame]
      cases henvironment : s.environments.get? name with
      | none => exact hdrained
      | some environment =>
          refine trans_of home.Spared hdrained ?_
          refine home.spared_modifyStack _ (fun hstack => ?_) _
          exact h ⟨environment, henvironment, hstack⟩
  | _ => exact hothers h

end Session

/-! ## Blocks -/

/-- A handler begins in the world that the failure left. -/
theorem after_tryCatch (body : Action α) (handler : Error → Action α) (w : World) :
    after (tryCatch body handler) w = match body w with
      | .ok _ v => v
      | .error e v => after (handler e) v := by
  rw [after]
  simp only [tryCatch, tryCatchThe, MonadExceptOf.tryCatch, EStateM.tryCatch]
  cases body w <;> rfl

namespace Lease

/-- A lease for as long as a block runs, however the block is left. -/
def during (home : Lease) (value : Value) (body : Action α) : Action α := do
  home.start value
  body.ensuring home.finish

/-- A program that works on a key only by leases that last as long as a block does. Errors may be
    thrown, passed on after a cleanup, and caught anywhere. -/
inductive Blocks (home : Lease) : {α : Type} → Action α → Prop
  | elsewhere {α : Type} {action : Action α} (hspared : Keeps home.Spared action) :
      Blocks home action
  | andThen {α β : Type} {action : Action α} {next : α → Action β} (haction : Blocks home action)
      (hnext : ∀ a, Blocks home (next a)) : Blocks home (action >>= next)
  | catching {α : Type} {body : Action α} {handler : Error → Action α} (hbody : Blocks home body)
      (hhandler : ∀ e, Blocks home (handler e)) : Blocks home (tryCatch body handler)
  | cleaning {α : Type} {body : Action α} {cleanup : Action Unit} (hbody : Blocks home body)
      (hcleanup : Blocks home cleanup) : Blocks home (body.ensuring cleanup)
  | during {α : Type} (value : Value) {body : Action α} (hbody : Blocks home body) :
      Blocks home (home.during value body)

variable {home : Lease}

/-- A lease that ends right after the contents are what it began with on top takes its own value
    off, and has nothing to report. -/
theorem finish_own {base : List Value} {value : Value} {w : World}
    (hcontents : home.contents w = base ++ [value]) :
    home.finish w = .ok () (w.modifyStack home.stack (·.dropTop home.key)) ∧
      home.contents (after home.finish w) = base ∧ (after home.finish w).log = w.log := by
  have hnonempty : home.contents w ≠ [] := by
    rw [hcontents]
    exact List.append_ne_nil_of_right_ne_nil base (List.cons_ne_nil value [])
  have hfinish := home.finish_apply w
  rw [if_neg hnonempty] at hfinish
  refine ⟨hfinish, ?_, ?_⟩
  · rw [after_ok hfinish, contents_finished, hcontents, List.dropLast_concat]
  · rw [after_ok hfinish]
    rfl

/-- A lease ends after its body, however that ended. -/
theorem after_during (value : Value) (body : Action α) (w : World) :
    after (home.during value body) w =
      after home.finish (after body (w.modifyStack home.stack (·.push home.key value))) := by
  rw [during, after_bind]
  exact after_ensuring body home.finish _

/-- A program of blocks leaves the key as it was, however it ends. -/
theorem Blocks.spared {action : Action α} (h : Blocks home action) : Keeps home.Spared action := by
  induction h with
  | elsewhere hspared => exact hspared
  | andThen haction hnext ihaction ihnext => exact Keeps.bind ihaction ihnext
  | catching hbody hhandler ihbody ihhandler =>
      intro w
      have hfirst := ihbody w
      rw [after] at hfirst
      rw [after_tryCatch]
      split at hfirst
      · next hresult =>
          rw [hresult]
          exact hfirst
      · next e v hresult =>
          rw [hresult]
          exact trans_of home.Spared hfirst (ihhandler e v)
  | cleaning hbody hcleanup ihbody ihcleanup =>
      intro w
      rw [after_ensuring]
      exact trans_of home.Spared (ihbody w) (ihcleanup _)
  | during value hbody ihbody =>
      intro w
      -- the body leaves the value of the lease on top, so the end takes away this one
      have hinside : home.contents _ = _ := (ihbody _).trans (home.contents_started value w)
      rw [after_during]
      exact (finish_own hinside).2.1

/-- Inside a block the value of its lease stands on top, however the body ends, and the lease takes
    it off without a report. -/
theorem Blocks.during_apply {body : Action α} (h : Blocks home body) (value : Value) (w : World) :
    ∃ inside, after body (w.modifyStack home.stack (·.push home.key value)) = inside ∧
      home.contents inside = home.contents w ++ [value] ∧
      after (home.during value body) w = inside.modifyStack home.stack (·.dropTop home.key) ∧
      home.contents (after (home.during value body) w) = home.contents w := by
  have hinside : home.contents _ = _ := (h.spared _).trans (home.contents_started value w)
  obtain ⟨hfinish, hcontents, -⟩ := finish_own hinside
  refine ⟨_, rfl, hinside, ?_, ?_⟩
  · rw [after_during]
    exact after_ok hfinish
  · rw [after_during]
    exact hcontents

end Lease

end ScopedLabels
