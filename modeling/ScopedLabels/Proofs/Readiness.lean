import ScopedLabels.Proofs.Resolution

/-!
# Readiness — what every operation finds

Wherever a session may begin another operation, between two requests or between two commands of a
script, pointers to scopes are good and no label is being made. `World.Ready` says so, and it holds
of all worlds that a session goes through (`course_ready`). Soundness is kept by every elementary
change. The scope that lives while a label is made is not, but whatever makes it destroys it, and
nothing else makes it.
-/

namespace ScopedLabels

/-- A world in which an operation may begin: pointers to scopes are good, and no label is being
    made. -/
structure World.Ready (w : World) : Prop extends w.Sound where
  idle : w.scope? .transient = none

namespace World.Ready

variable {w v : World}

/-- Nothing but the scopes and the stacks matters. -/
theorem congr (h : w.Ready) (hscopes : v.scopes = w.scopes)
    (hstacks : ∀ name, v.stack name = w.stack name) : v.Ready where
  toSound := by
    refine h.toSound.thinned (fun id => ?_) fun name key id => ?_
    · rw [scope?, hscopes, scope?]
    · exact Nat.le_of_eq (by rw [hstacks])
  idle := by
    rw [scope?, hscopes]
    exact h.idle

/-- What makes no label leaves none being made. -/
theorem of_changes {allowed : Allowance} (h : w.Ready) (hchanges : Changes allowed w v)
    (hgrows : ¬ allowed.grows .transient) : v.Ready where
  toSound := hchanges.sound h.toSound
  idle := by
    cases hb : v.scope? .transient with
    | none => rfl
    | some b =>
        obtain ⟨a, ha, -⟩ := hchanges.stays hgrows hb
        cases ha.symm.trans h.idle

end World.Ready

/-- A label that was made is no longer being made. -/
theorem World.idle_labeled (w : World) (scope : Scope) (parents : Path) (basename : Text) :
    (w.labeled scope parents basename).scope? .transient = none := by
  rw [labeled, scope?_dropScope, if_pos rfl]

/-- A label on the spot leaves a world ready, since the scope that made it is gone. -/
theorem Environment.momentaryLabel_ready {w : World} (h : w.Ready) (environment : Environment)
    (name : Option Text) : (after (environment.momentaryLabel name) w).Ready := by
  have hleads : Leads .any (fun w : World => w) w (environment.momentaryLabel name w) :=
    labelFor_orderly trivial environment (.fresh name) w
  rcases environment.momentaryLabel_cases name w with
    ⟨e, hfailed⟩ | ⟨scope, parents, basename, v, -, -, -, hlabeled⟩
  · rw [after_error hfailed]
    exact h
  · rw [hlabeled] at hleads
    rw [after_ok hlabeled]
    exact ⟨hleads.sound h.toSound, v.idle_labeled scope parents basename⟩

/-! ## Scripts -/

namespace Script.Run

/-- No command leaves a label half made. -/
theorem execute_ready (command : Command) (s : RunState) (h : s.world.Ready) :
    ((execute command).outcome s).state.world.Ready := by
  cases hverb : command.verb with
  | label name =>
      -- the scope behind a label is destroyed again, so no label is being made afterwards
      have horderly : Orderly .any (execute command) := execute_orderly fun _ _ => trivial
      have hsound := (outcome_changes horderly s).1.sound h.toSound
      rw [outcome, execute_label hverb] at hsound ⊢
      rcases label_cases name s with
        ⟨e, hfailed⟩ | ⟨scope, parents, basename, v, -, -, -, hprinted⟩
      · rw [hfailed]
        exact h
      · rw [hprinted] at hsound ⊢
        exact ⟨hsound, v.idle_labeled scope parents basename⟩
  | scope | leave | uid | reset | current =>
      have horderly : Orderly { Allowance.none with grows := command.verb.grows }
          (execute command) :=
        execute_orderly fun _ hgrows => hgrows
      refine h.of_changes (outcome_changes horderly s).1 ?_
      rw [hverb]
      exact not_false

/-- Neither does the end of a run. -/
theorem finish_ready (s : RunState) (h : s.world.Ready) : (finish.outcome s).state.world.Ready := by
  have horderly : Orderly .none finish := finish_orderly
  exact h.of_changes (outcome_changes horderly s).1 not_false

end Script.Run

/-! ## Sessions -/

namespace Session

/-- The second session is ready if the first is. -/
def StaysReady (s t : Session) : Prop :=
  s.world.Ready → t.world.Ready

instance : IsPreorder Session StaysReady where
  refl _ := id
  trans _ _ _ h h' := h' ∘ h

/-- Making a label within a session leaves the world ready. -/
theorem makeLabel_ready (name : NameSource) (environment : Text) (save : Option Text) :
    Keeps StaysReady (makeLabel name (.current environment) save) := by
  refine .bind (nameOf_keeps name) fun naming => .bind ?_ fun label => ?_
  · refine .bind (environmentOf_keeps environment) fun environment s h => ?_
    rw [after_act]
    -- a label that exists already makes no scope
    cases naming with
    | fresh name => exact environment.momentaryLabel_ready h name
    | ready label => exact h
  · refine .bind (.modify fun s h => ?_) fun _ => .pure _
    cases save <;> exact h

/-- What a request that runs no script leads to is ready if it was ready before. -/
theorem perform_ready {request : Request}
    (hscript : ∀ name script watch, request ≠ .runScript name script watch) (s : Session)
    (h : s.world.Ready) : (after (perform request) s).world.Ready := by
  have hothers : ¬ request.grows .transient → (after (perform request) s).world.Ready :=
    h.of_changes (perform_changes request s)
  cases request with
  | makeLabel name location save =>
      cases location with
      | current environment => exact makeLabel_ready name environment save s h
      | below scope => exact hothers not_false
  | runScript name script watch => exact absurd rfl (hscript name script watch)
  | newScope name source => exact hothers nofun
  | enterScope name => exact hothers nofun
  | newGuard name scope => exact hothers nofun
  | _ => exact hothers not_false

theorem ready_stepwise : Stepwise fun w v => w.Ready → v.Ready where
  refl _ := id
  of_drained hnext h := hnext (h.congr rfl fun _ => rfl)
  perform := perform_ready
  execute := Script.Run.execute_ready
  finish := Script.Run.finish_ready

/-- Whatever is requested, every world that a session goes through is ready. -/
theorem course_ready (requests : List Request) :
    ∀ w ∈ Session.course {} requests, w.Ready := by
  have hchain := ready_stepwise.course_chain {} requests
  refine hchain.induction _ _ (fun w v hnext => hnext) fun hne => ?_
  obtain ⟨later, hlater⟩ := ({} : Session).course_eq_cons requests
  simp only [hlater, List.head_cons]
  exact ⟨start_sound, rfl⟩

end Session

end ScopedLabels
