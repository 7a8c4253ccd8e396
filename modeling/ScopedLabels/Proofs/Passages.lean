import ScopedLabels.Proofs.Attempts
import ScopedLabels.Proofs.Footprints
import ScopedLabels.Session.Step

/-!
# Passages — how scopes come onto the active-scope lists and go off them again

An entry of an active-scope list comes from an entry into a scope. It goes when the scope is left,
or when the scope is destroyed and its destructor finds the entry on the list. `Passage` lists these
steps, together with the making of scopes, and counts for each how many entries a destructor took
off; everything else is a step that leaves the lists, the scopes and the counts of passages as they
are. What was counted matters only to those who keep counting, which is what `counting` is for.

The rest of the file says of every operation which passages it consists of, and how many entries the
destructors that it runs take off. The numbers follow the operations: a destructor runs when a scope
is dropped (`World.evictions`), and when a runner closes one after releasing it (`Run.evictions`).
Clearing a stack and working on the key of active scopes directly are no passages, so what a caller
asks for must be `Confined`.
-/

namespace ScopedLabels

namespace World

/-- How many entries the destructor of a scope takes off the list. It looks for none if the scope
    counts none. -/
def evictions (w : World) (id : ScopeId) : Nat :=
  match w.scope? id with
  | some scope =>
    if scope.entries = 0 then 0 else (w.activeValues scope.environment).count (.scope id)
  | none => 0

/-- One step in the life of scopes, with the number of entries that a destructor took off. -/
inductive Passage (counting : Prop) : World → Nat → World → Prop
  | make {w : World} {id : ScopeId} {scope : Scope} (hfree : w.scope? id = none)
      (hentries : scope.entries = 0) : Passage counting w 0 (w.addScope id scope)
  | enter {w : World} {id : ScopeId} {scope : Scope} (hscope : w.scope? id = some scope)
      (parents : Path) (basename : Text) :
      Passage counting w 0 (w.activate id scope parents basename)
  | leave {w : World} {id : ScopeId} {scope : Scope} {rest : List Value}
      (hscope : w.scope? id = some scope)
      (htop : w.activeValues scope.environment = .scope id :: rest) :
      Passage counting w 0 (w.deactivate id scope)
  | destroy {w : World} {id : ScopeId} {scope : Scope} (hscope : w.scope? id = some scope) :
      Passage counting w (w.evictions id)
        ((if scope.entries = 0 then w else w.evict id scope).dropScope id)
  /-- Nothing that matters is changed. -/
  | elsewhere {w v : World} (hstanding : Agree .standing w v)
      (hpassages : counting → Agree .passages w v) : Passage counting w 0 v

/-- Steps one after the other, with the number of all entries that destructors took off. -/
inductive Passages (counting : Prop) : World → Nat → World → Prop
  | refl {w : World} : Passages counting w 0 w
  | tail {w v u : World} {n m : Nat} (h : Passages counting w n v)
      (hlast : Passage counting v m u) : Passages counting w (n + m) u

/-- Steps in which no destructor took off anything. -/
def Passes (counting : Prop) (w v : World) : Prop :=
  Passages counting w 0 v

namespace Passages

variable {counting : Prop} {w v u : World} {n m : Nat}

theorem single (h : Passage counting w n v) : Passages counting w n v := by
  have hsum := Passages.refl.tail h
  rwa [Nat.zero_add] at hsum

/-- Passages go on, and the numbers that destructors took off add up. -/
theorem trans (h : Passages counting w n v) (h' : Passages counting v m u) :
    Passages counting w (n + m) u := by
  induction h' with
  | refl => exact h
  | tail _ hlast ih =>
      rw [← Nat.add_assoc]
      exact ih.tail hlast

/-- What comes after and takes off nothing does not change the number. -/
theorem then_passes (h : Passages counting w n v) (h' : Passes counting v u) :
    Passages counting w n u :=
  h.trans h'

/-- A destructor that takes off nothing. -/
theorem destroy_idle {id : ScopeId} {scope : Scope} (hscope : w.scope? id = some scope)
    (hentries : scope.entries = 0) : Passes counting w (w.dropScope id) := by
  have hnone : w.evictions id = 0 := by
    rw [evictions, hscope]
    exact if_pos hentries
  have hdropped : Passages counting w _ _ := .single (.destroy hscope)
  rwa [hnone, if_pos hentries] at hdropped

end Passages

end World

/-- Passages between the worlds of two states of a run. -/
def Script.RunState.Passes (counting : Prop) (s t : RunState) : Prop :=
  World.Passes counting s.world t.world

/-- Passages between the worlds of two sessions. -/
def Session.Passes (counting : Prop) (s t : Session) : Prop :=
  World.Passes counting s.world t.world

instance (counting : Prop) : IsPreorder Script.RunState (Script.RunState.Passes counting) where
  refl _ := .refl
  trans _ _ _ h h' := World.Passages.then_passes h h'

instance (counting : Prop) : IsPreorder Session (Session.Passes counting) where
  refl _ := .refl
  trans _ _ _ h h' := World.Passages.then_passes h h'

/-! ## Scopes and labels -/

section Actions

variable {counting : Prop} {α : Type}

/-- What leaves scopes, lists and counts as they are. -/
theorem World.Passes.of_agree {w v : World} (h : ∀ a, a = .standing ∨ a = .passages → Agree a w v) :
    Passes counting w v := by
  have hstanding : Agree .standing w v := h .standing (Or.inl rfl)
  have hpassages : Agree .passages w v := h .passages (Or.inr rfl)
  exact .single (.elsewhere hstanding fun _ => hpassages)

/-- A record is no passage. -/
theorem World.Passes.report (w : World) (level : Level) (notice : Notice) :
    Passes counting w (w.report level notice) :=
  of_agree fun _ _ => .report w level notice

/-- Entering a scope where it settles. -/
theorem Scope.Settles.passes {id : ScopeId} {scope : Scope} {w v : World} {parents : Path}
    {basename : Text} (hscope : w.scope? id = some scope)
    (h : scope.Settles w parents basename v) :
    World.Passes counting w (v.activate id scope parents basename) := by
  have hsettled : World.Passes counting w v :=
    .of_agree fun a ha => h.agree (Aspect.ne_counters ha)
  refine hsettled.then_passes (.single (.enter ?_ parents basename))
  rw [h.sameScopes.scope?_eq, hscope]

/-- Making a scope and entering it where it settles. -/
theorem Scope.Settles.passes_new {id : ScopeId} {scope : Scope} {w v : World} {parents : Path}
    {basename : Text} (hfree : w.scope? id = none) (hentries : scope.entries = 0)
    (h : scope.Settles (w.addScope id scope) parents basename v) :
    World.Passes counting w (v.activate id scope parents basename) := by
  have hmade : World.Passes counting w (w.addScope id scope) := .single (.make hfree hentries)
  have hscope : (w.addScope id scope).scope? id = some scope := id.scope?_addScope_self w scope
  exact hmade.then_passes (h.passes hscope)

namespace ScopeId

/-- Making a scope is a passage, if it succeeds. -/
theorem create_passes (id : ScopeId) (origin : Origin) :
    Keeps (World.Passes counting) (id.create origin) := by
  intro w
  rcases id.create_cases origin w with ⟨e, hfailed⟩ | ⟨scope, hmade, hfree, hadded⟩
  · rw [after_error hfailed]
    exact .refl
  · have hentries := Origin.entries_scope hmade
    rw [after_ok hadded]
    exact .single (.make hfree hentries)

/-- Entering a scope passes, wherever it settles. -/
theorem enter_passes (id : ScopeId) : Keeps (World.Passes counting) id.enter := by
  intro w
  rcases id.enter_cases w with
    ⟨e, hfailed⟩ | ⟨scope, parents, basename, v, hscope, hsettles, hentered⟩
  · rw [after_error hfailed]
    exact .refl
  · rw [after_ok hentered]
    exact hsettles.passes hscope

/-- Leaving a scope passes, if the scope is the innermost one. -/
theorem exit_passes (id : ScopeId) : Keeps (World.Passes counting) id.exit := by
  intro w
  rcases id.exit_cases w with ⟨e, hfailed⟩ | ⟨scope, rest, hscope, htop, hleft⟩
  · rw [after_error hfailed]
    exact .refl
  · rw [after_ok hleft]
    exact .single (.leave hscope htop)

/-- Releasing a scope passes, and so does the report of what is wrong. -/
theorem release_passes (id : ScopeId) : Keeps (World.Passes counting) id.release := by
  intro w
  rcases id.release_cases w with
    ⟨e, hfailed, -⟩ | ⟨notice, hreported⟩ | ⟨scope, rest, hscope, htop, hleft⟩
  · rw [after_error hfailed]
    exact .refl
  · rw [after_ok hreported]
    exact .report w .error notice
  · rw [after_ok hleft]
    exact .single (.leave hscope htop)

/-- Destroying a scope takes off what is counted for its destructor. -/
theorem destroy_passages (id : ScopeId) (w : World) :
    World.Passages counting w (w.evictions id) (after id.destroy w) := by
  cases hscope : w.scope? id with
  | none =>
      have hfailed : id.destroy w = .error (.misuse .unknownHandle) w := by
        rw [destroy, bind_apply, fetch_apply, hscope]
      rw [after_error hfailed, World.evictions, hscope]
      exact .refl
  | some scope =>
      rw [after_ok (destroy_apply hscope)]
      exact .single (.destroy hscope)

/-- How many entries the destructor takes off when a scope is closed: those that are left once it
    was released. -/
def closeEvictions (id : ScopeId) (w : World) : Nat :=
  (after id.release w).evictions id

/-- Closing a scope takes off what is left of it after it was released. -/
theorem close_passages (id : ScopeId) (w : World) :
    World.Passages counting w (id.closeEvictions w)
      (after (do id.release; id.destroy : Action Unit) w) := by
  have hreleased : World.Passages counting w 0 _ := id.release_passes w
  rw [after_bind, closeEvictions]
  cases hresult : id.release w with
  | ok u v =>
      rw [after_ok hresult] at hreleased ⊢
      have hclosed := hreleased.trans (id.destroy_passages v)
      rwa [Nat.zero_add] at hclosed
  | error e v =>
      -- what cannot be released has no entries
      have hnone : v.evictions id = 0 := by
        rcases id.release_cases w with
          ⟨e', hfailed, hentries⟩ | ⟨notice, hreported⟩ | ⟨scope, rest, -, -, hleft⟩
        · rw [hresult] at hfailed
          cases hfailed
          rw [World.evictions]
          split
          · next scope hscope => exact if_pos (hentries scope hscope)
          · rfl
        · rw [hresult] at hreported
          cases hreported
        · rw [hresult] at hleft
          cases hleft
      rw [after_error hresult] at hreleased ⊢
      rw [hnone]
      exact hreleased

end ScopeId

/-- An automatic label passes through a scope of its own. Its destructor finds nothing. -/
theorem Environment.momentaryLabel_passes (environment : Environment) (name : Option Text) :
    Keeps (World.Passes counting) (environment.momentaryLabel name) := by
  intro w
  rcases environment.momentaryLabel_cases name w with
    ⟨e, hfailed⟩ | ⟨scope, parents, basename, v, hmade, hfree, hsettles, hlabel⟩
  · rw [after_error hfailed]
    exact .refl
  · rw [after_ok hlabel]
    have hentries := Origin.entries_scope hmade
    let u := (v.activate .transient scope parents basename).count .labelsGenerated
    let settled := World.settled scope parents basename
    have hscope : u.scope? .transient = some settled :=
      hsettles.scope?_activate (ScopeId.scope?_addScope_self _ w scope)
    have htop : u.activeValues scope.environment =
        .scope .transient :: v.activeValues scope.environment :=
      v.activeValues_activate .transient scope parents basename
    -- it is made and entered, the label is counted, and it is left
    have hcounted : World.Passes counting w u :=
      (hsettles.passes_new hfree hentries).then_passes
        (.of_agree fun _ _ => .count _ (by simp) (by simp))
    have hleft : World.Passes counting w (u.deactivate .transient settled) :=
      hcounted.then_passes (.single (.leave hscope htop))
    -- after that it counts no entry, so its destructor looks for none
    have hlast : (u.deactivate .transient settled).scope? .transient =
        some { settled with entries := settled.entries - 1 } := by
      rw [World.scope?_deactivate, if_pos rfl, hscope]
      rfl
    refine hleft.then_passes (.destroy_idle hlast ?_)
    show scope.entries + 1 - 1 = 0
    omega

end Actions

/-! ## Runners -/

namespace Script.Run

variable {counting : Prop} {α : Type}

theorem act_passes {action : Action α} (h : Keeps (World.Passes counting) action) :
    Keeps (RunState.Passes counting) (act action) := by
  intro s
  rw [after_act]
  exact h s.world

/-- What leaves scopes, lists and counts as they are. -/
theorem silent_passes {run : Run α}
    (h : ∀ a, a = .standing ∨ a = .passages → Keeps (RunState.Agree a) run) :
    Keeps (RunState.Passes counting) run := by
  intro s
  refine .of_agree ?_
  intro a ha
  exact h a ha s

theorem print_passes (line : Text) : Keeps (RunState.Passes counting) (print line) :=
  silent_passes fun _ _ => print_keeps line

/-- Opening a scope makes and enters it, or changes nothing. -/
theorem openScope_passes (name : Option Text) :
    Keeps (RunState.Passes counting) (openScope name) := by
  intro s
  rcases openScope_cases name s with
    ⟨e, hfailed⟩ | ⟨scope, parents, basename, v, hmade, hfree, hsettles, hopened⟩
  · rw [after_error hfailed]
    exact .refl
  · rw [after_ok hopened]
    exact hsettles.passes_new hfree (Origin.entries_scope hmade)

/-- Closing the scope that was opened last takes off what is counted for it. -/
theorem closeScope_passages (depth : Nat) (s : RunState) :
    World.Passages counting s.world ((ScopeId.opened s.runner.name depth).closeEvictions s.world)
      (after (closeScope depth) s).world := by
  let id := ScopeId.opened s.runner.name depth
  have hclose : closeScope depth s =
      (do act (do id.release; id.destroy); modifyRunner fun r => { r with depth } : Run Unit) s :=
    rfl
  have hworld : (after (closeScope depth) s).world =
      after (do id.release; id.destroy : Action Unit) s.world := by
    rw [after, hclose, bind_apply, act, after]
    cases (do id.release; id.destroy : Action Unit) s.world <;> rfl
  rw [hworld]
  exact id.close_passages s.world

/-- How many entries destructors take off when the scopes that were opened when fewer than `depth`
    were open are closed. -/
def closingEvictions : (depth : Nat) → RunState → Nat
  | 0, _ => 0
  | depth + 1, s =>
    (ScopeId.opened s.runner.name depth).closeEvictions s.world +
      match closeScope depth s with
      | .ok () t => closingEvictions depth t
      | .error _ _ => 0

/-- Closing scopes takes off what is counted for all of them, by induction on how many there are. -/
theorem closeScopes_passages (depth : Nat) (s : RunState) :
    World.Passages counting s.world (closingEvictions depth s)
      (after (closeScopes depth) s).world := by
  induction depth generalizing s with
  | zero => exact .refl
  | succ depth ih =>
      have hfirst : World.Passages counting _ _ _ := closeScope_passages depth s
      rw [closeScopes, after_bind, closingEvictions]
      cases hresult : closeScope depth s with
      | ok u t =>
          rw [after_ok hresult] at hfirst
          exact hfirst.trans (ih t)
      | error e t =>
          rw [after_error hresult] at hfirst
          exact hfirst

theorem unwind_passages (s : RunState) :
    World.Passages counting s.world (closingEvictions s.runner.depth s) (after unwind s).world :=
  closeScopes_passages s.runner.depth s

/-- How many entries destructors take off while a command is executed. Only `end` closes a scope. -/
def commandEvictions (command : Command) (s : RunState) : Nat :=
  match command.verb, s.runner.depth with
  | .leave, depth + 1 => (ScopeId.opened s.runner.name depth).closeEvictions s.world
  | _, _ => 0

/-- Every command consists of passages, and only `end` has entries taken off. -/
theorem execute_passages (command : Command) (s : RunState) :
    World.Passages counting s.world (commandEvictions command s)
      (after (execute command) s).world := by
  rw [execute, after_bind, get_apply, commandEvictions]
  simp only
  cases command.verb with
  | scope name => exact openScope_passes name s
  | leave =>
      simp only
      cases s.runner.depth with
      | zero => exact .refl
      | succ depth => exact closeScope_passages depth s
  | label name =>
      have hlabel : Keeps (RunState.Passes counting)
          (act (s.runner.environment.labelFor (.fresh name))) :=
        act_passes (s.runner.environment.momentaryLabel_passes name)
      exact hlabel.bind (fun label => print_passes label.text) s
  | uid counter =>
      have hdrawn : Keeps (RunState.Passes counting)
          (act (s.runner.environment.draw (counter.getD defaultName))) := by
        refine silent_passes ?_
        intro a ha
        exact act_keeps (draw_keeps (Aspect.ne_counters ha) _ _)
      exact hdrawn.bind (fun value => print_passes (Text.ofCount value)) s
  | reset counter =>
      refine silent_passes (fun a ha => act_keeps (.modify fun w => ?_)) s
      exact .modifyRegistry w (Aspect.ne_counters ha) _ _
  | current => exact silent_passes (fun a _ => current_keeps s.runner.environment) s

/-- How many entries destructors take off when a run closes what is open at its end. -/
def finishEvictions (s : RunState) : Nat :=
  if s.runner.depth = 0 then 0
  else closingEvictions s.runner.depth
    { s with world := s.world.report .warning (.leftOpen s.runner.depth) }

/-- The end of a script takes off what is counted for what it closes. -/
theorem finish_passages (s : RunState) :
    World.Passages counting s.world (finishEvictions s) (after finish s).world := by
  rw [finish, after_bind, get_apply, finishEvictions]
  simp only
  split
  · exact .refl
  · have hwarned : World.Passes counting s.world
        (s.world.report .warning (.leftOpen s.runner.depth)) := .report s.world _ _
    have hclosed := hwarned.trans (unwind_passages
      { s with world := s.world.report .warning (.leftOpen s.runner.depth) })
    rwa [Nat.zero_add] at hclosed

/-- How many entries destructors take off during a run, up to the command that fails or to its
    end. -/
def evictions : List Command → RunState → Nat
  | [], s => finishEvictions s
  | command :: rest, s =>
    commandEvictions command (s.goTo command.line) +
      match (attempt command s).outcome with
      | ⟨none, t⟩ => evictions rest t
      | ⟨some _, _⟩ => 0

/-- A run takes off what is counted for its commands and its end, by induction on the commands. -/
theorem run_passages (commands : List Command) (s : RunState) :
    World.Passages counting s.world (evictions commands s)
      ((run commands).outcome s).state.world := by
  induction commands generalizing s with
  | nil =>
      rw [state_outcome]
      exact finish_passages s
  | cons command rest ih =>
      have hfirst : World.Passages counting _ _ _ := execute_passages command (s.goTo command.line)
      rw [← state_outcome] at hfirst
      rw [outcome_cons, evictions, attempt]
      simp only
      cases houtcome : (execute command).outcome (s.goTo command.line) with
      | mk error? t =>
          rw [houtcome] at hfirst
          cases error? with
          | none => exact World.Passages.trans hfirst (ih t)
          | some e => exact hfirst

end Script.Run

/-! ## Requests -/

namespace Session

/-- The request leaves the active-scope lists to the library: it empties no stack, and works on no
    stack under their key. -/
def Request.Confined : Request → Prop
  | .resetEnvironment _ | .clearStack _ => False
  | .push _ key _ | .pop _ key | .popAs _ _ key | .removeData _ key _ | .removeScope _ key _
  | .newLease _ _ key _ => key ≠ Scope.contextKey
  | _ => True

/-- The request leaves the metrics to the library. -/
def Request.KeepsMetrics : Request → Prop
  | .countEvents _ | .resetTally | .countOne _ | .setMetric .. => False
  | _ => True

/-- No lease is on the key of active scopes. -/
def LeasesApart (s : Session) : Prop :=
  ∀ name lease, s.leases.get? name = some lease → lease.key ≠ Scope.contextKey

/-- How many entries destructors take off during a request. -/
def evictions (s : Session) : Request → Nat
  | .dropScope name =>
    if s.guards.entries.any fun entry => entry.2 == name then 0 else s.world.evictions (.held name)
  | .closeRunner name _ | .dropRunner name _ =>
    match s.runners.get? name with
    | some runner => Script.Run.closingEvictions runner.depth { world := s.world, runner }
    | none => 0
  | .runScript name script _ =>
    match s.runners.get? name, Script.parse script with
    | some runner, .ok commands => Script.Run.evictions commands { world := s.world, runner }
    | _, _ => 0
  | _ => 0

variable {counting : Prop} {α : Type}

theorem act_passes {action : Action α} (h : Keeps (World.Passes counting) action) :
    Keeps (Session.Passes counting) (act action) := by
  intro s
  rw [after_act]
  exact h s.world

/-- What leaves scopes, lists and counts as they are. -/
theorem silent_passes {procedure : Procedure α}
    (h : ∀ a, a = .standing ∨ a = .passages → Keeps (Session.Agree a) procedure) :
    Keeps (Session.Passes counting) procedure := by
  intro s
  refine .of_agree ?_
  intro a ha
  obtain ⟨hagree, -⟩ := h a ha s
  exact hagree

/-- What comes after an action and takes off nothing does not change the number. -/
theorem act_bind_passages {action : Action α} {rest : α → Procedure Answer} {s : Session} {n : Nat}
    (h : World.Passages counting s.world n (after action s.world))
    (hrest : ∀ x, Keeps (Session.Passes counting) (rest x)) :
    World.Passages counting s.world n (after (act action >>= rest) s).world := by
  rw [after_bind, act]
  rw [after] at h
  cases hresult : action s.world with
  | ok x w =>
      rw [hresult] at h
      exact h.then_passes (hrest x { s with world := w })
  | error e w =>
      rw [hresult] at h
      exact h

/-- What a runner left is taken over with the passages of its run. -/
theorem adopt_passages {run : Script.Run Unit} {runner : Script.Runner} {s : Session} {n : Nat}
    (name : Text) (rest : Script.Outcome → Procedure Answer)
    (h : World.Passages counting s.world n (after run { world := s.world, runner }).world)
    (hrest : ∀ outcome, Keeps (Session.Passes counting) (rest outcome)) :
    World.Passages counting s.world n
      (after (getWorld >>= fun w => adopt name (run.outcome { world := w, runner }) >>= fun _ =>
        rest (run.outcome { world := w, runner })) s).world := by
  rw [← Script.Run.state_outcome] at h
  let left := run.outcome { world := s.world, runner }
  let t : Session :=
    { s with
      world := left.state.world
      runners := s.runners.modify name fun _ => left.state.runner }
  exact h.then_passes (hrest left t)

theorem modify_passes {f : Session → Session} (hworld : ∀ s, (f s).world = s.world) :
    Keeps (Session.Passes counting) (modify f : Procedure PUnit) := by
  refine .modify fun s => ?_
  show World.Passes counting s.world (f s).world
  rw [hworld]
  exact .refl

/-- A scope that is dropped is destroyed, unless a guard keeps it entered. -/
theorem dropScope_passages (name : Text) (s : Session) :
    World.Passages counting s.world (s.evictions (.dropScope name))
      (after (dropScope name) s).world := by
  rw [dropScope, after_bind, get_apply, evictions]
  simp only
  split
  · exact .refl
  · exact act_bind_passages ((ScopeId.held name).destroy_passages s.world) fun _ => .pure _

/-- A runner that is closed has its scopes closed. -/
theorem closeRunner_passages (name : Text) (watch : Option Text) (s : Session) :
    World.Passages counting s.world (s.evictions (.closeRunner name watch))
      (after (closeRunner name) s).world := by
  rw [closeRunner, after_bind, runnerOf, bind_apply, get_apply, evictions]
  simp only [held_apply]
  cases s.runners.get? name with
  | none => exact .refl
  | some runner =>
      have hrun := @Script.Run.unwind_passages counting { world := s.world, runner }
      refine adopt_passages name (fun _ => inspectRunner name) hrun ?_
      intro outcome
      exact silent_passes fun _ _ => inspectRunner_keeps name

/-- So has one that is dropped. -/
theorem dropRunner_passages (name : Text) (watch : Option Text) (s : Session) :
    World.Passages counting s.world (s.evictions (.dropRunner name watch))
      (after (dropRunner name) s).world := by
  rw [dropRunner, after_bind, runnerOf, bind_apply, get_apply, evictions]
  simp only [held_apply]
  cases s.runners.get? name with
  | none => exact .refl
  | some runner =>
      have hrun := @Script.Run.unwind_passages counting { world := s.world, runner }
      refine adopt_passages name (fun _ => do
        modify fun s : Session => { s with runners := s.runners.erase name }
        return Answer.nothing) hrun ?_
      intro outcome
      exact .bind (modify_passes fun _ => rfl) fun _ => .pure _

/-- A script takes off what is counted for its run, and nothing if it is malformed. -/
theorem runScript_passages (name script : Text) (watch : Option Text) (s : Session) :
    World.Passages counting s.world (s.evictions (.runScript name script watch))
      (after (runScript name script) s).world := by
  rw [runScript, after_bind, runnerOf, bind_apply, get_apply, evictions]
  simp only [held_apply]
  cases s.runners.get? name with
  | none => exact .refl
  | some runner =>
      refine adopt_passages name (fun outcome => pure (Answer.ran outcome.error?
        outcome.state.output outcome.state.runner.line outcome.state.runner.depth)) ?_
        fun _ => .pure _
      rw [Script.Run.runText]
      cases Script.parse script with
      | error fault => exact .refl
      | ok commands =>
          rw [← Script.Run.state_outcome]
          exact Script.Run.run_passages commands { world := s.world, runner }

/-- A label in an environment passes, whether it is saved or not. -/
theorem makeLabel_passes (name : Option Text) (environment : Text) (save : Option Text) :
    Keeps (Session.Passes counting) (makeLabel (.fresh name) (.current environment) save) := by
  rw [makeLabel]
  simp only [nameOf, pure_bind, labelAt, bind_assoc]
  refine (silent_passes fun _ _ => environmentOf_keeps environment).bind fun environment => ?_
  refine (act_passes (environment.momentaryLabel_passes name)).bind fun label => ?_
  refine (modify_passes fun s => ?_).bind fun _ => .pure _
  cases save <;> rfl

theorem newScope_passes (name : Text) (source : ScopeSource) :
    Keeps (Session.Passes counting) (newScope name source) := by
  refine (silent_passes fun _ _ => originOf_keeps source).bind fun origin => ?_
  exact (act_passes (ScopeId.create_passes _ _)).bind fun _ => showScope_keeps name

theorem newGuard_passes (name scope : Text) :
    Keeps (Session.Passes counting) (newGuard name scope) := by
  refine .bind .get fun s => (silent_passes fun _ _ => requireFree_keeps _ _).bind fun _ => ?_
  refine (act_passes (ScopeId.enter_passes _)).bind fun _ => ?_
  exact .bind (modify_passes fun _ => rfl) fun _ => showScope_keeps scope

/-- A guard that is dropped releases its scope, which passes. -/
theorem dropGuard_passes (name : Text) : Keeps (Session.Passes counting) (dropGuard name) := by
  refine .bind .get fun s => (silent_passes fun _ _ => held_keeps _ _).bind fun scope => ?_
  refine (act_passes (ScopeId.release_passes _)).bind fun _ => ?_
  exact .bind (modify_passes fun _ => rfl) fun _ => showScope_keeps scope

/-- A lease that ends leaves the active scopes alone if it is not on their key. -/
theorem dropLease_passes (name : Text) {s : Session} (h : s.LeasesApart) :
    World.Passes counting s.world (after (dropLease name) s).world := by
  rw [dropLease, after_bind, get_apply]
  simp only
  rw [after_bind, held_apply]
  cases hlease : s.leases.get? name with
  | none => exact .refl
  | some lease =>
      have hkey := h name lease hlease
      have hfinished : Keeps (World.Passes counting) lease.finish := by
        intro w
        exact .of_agree fun a _ => lease.finish_keeps (fun _ => hkey) w
      have hdropped : Keeps (Session.Passes counting)
          (do act lease.finish
              modify fun s => { s with leases := s.leases.erase name }
              return Answer.nothing) :=
        (act_passes hfinished).bind fun _ => .bind (modify_passes fun _ => rfl) fun _ => .pure _
      exact hdropped s

/-- Only requests that touch the active scopes destroy any. -/
theorem evictions_of_silent {request : Request} (h : Aspect.standing ∉ request.touched)
    (s : Session) : s.evictions request = 0 := by
  cases request <;> first | rfl | exact absurd (by simp [Request.touched]) h

/-- To touch the passages but not the scopes is to work on the metrics. -/
theorem passages_of_standing {request : Request} (h : Aspect.standing ∉ request.touched)
    (hkeeps : request.KeepsMetrics) : Aspect.passages ∉ request.touched := by
  cases request with
  | makeLabel name location save =>
      cases name with
      | label source => exact List.not_mem_nil
      | fresh name =>
          cases location with
          | current environment => exact absurd (by simp [Request.touched, touchedByLabel]) h
          | below scope => exact not_mem_touchedByLabel_below (by decide) name scope
  | _ => simp_all [Request.touched, Request.KeepsMetrics]

/-- Every confined request consists of passages, and its destructors take off what is counted for
    it. -/
theorem perform_passages (request : Request) {s : Session} (hconfined : request.Confined)
    (hleases : s.LeasesApart) (hcounting : counting → request.KeepsMetrics) :
    World.Passages counting s.world (s.evictions request) (after (perform request) s).world := by
  by_cases hstanding : Aspect.standing ∉ request.touched
  · -- nothing that stands is changed: the request is one step elsewhere
    have hsilent : ∀ a, a ∉ request.touched →
        World.Agree a s.world (after (perform request) s).world := by
      intro a ha
      exact (perform_keeps request ha s).1
    rw [evictions_of_silent hstanding]
    refine .single (.elsewhere (hsilent .standing hstanding) fun hc => ?_)
    exact hsilent .passages (passages_of_standing hstanding (hcounting hc))
  · -- otherwise it is one of those that make, enter, leave or destroy scopes
    cases request with
    | makeLabel name location save =>
        cases name with
        | label source => exact absurd List.not_mem_nil hstanding
        | fresh name =>
            cases location with
            | current environment => exact makeLabel_passes name environment save s
            | below scope =>
                exact absurd (not_mem_touchedByLabel_below (by decide) name scope) hstanding
    | enterScope name =>
        exact ((act_passes (ScopeId.enter_passes _)).bind fun _ => showScope_keeps name) s
    | exitScope name =>
        exact ((act_passes (ScopeId.exit_passes _)).bind fun _ => showScope_keeps name) s
    | newScope name source => exact newScope_passes name source s
    | newGuard name scope => exact newGuard_passes name scope s
    | dropGuard name => exact dropGuard_passes name s
    | dropScope name => exact dropScope_passages name s
    | closeRunner name watch => exact closeRunner_passages name watch s
    | dropRunner name watch => exact dropRunner_passages name watch s
    | runScript name script watch => exact runScript_passages name script watch s
    | dropLease name => exact dropLease_passes name hleases
    | _ => simp_all [Request.touched, Request.Confined, Request.KeepsMetrics]

end Session

end ScopedLabels
