import Mathlib.Order.Defs.Unbundled
import ScopedLabels.Label.Making
import ScopedLabels.Proofs.Lifetime
import ScopedLabels.Script.Runner
import ScopedLabels.Session.Basic

/-!
# Keeping — what holds between the state before a computation and the state after it

A computation that fails keeps the state it had reached, so what it did to the state is a question
that makes sense however it ended. `after` is that state, and `Keeps same` says that it is always
related to the state before by `same`. If `same` is a preorder, this passes through the operations
of the monad, through `Action.ensuring`, and from the world to whatever holds a world.
-/

namespace ScopedLabels

section Computations

variable {ε σ α β : Type}

/-- The state in which a computation ends, whether it succeeds or fails. -/
def after (x : EStateM ε σ α) (s : σ) : σ :=
  match x s with
  | .ok _ t => t
  | .error _ t => t

theorem after_ok {x : EStateM ε σ α} {s t : σ} {a : α} (h : x s = .ok a t) : after x s = t := by
  rw [after, h]

theorem after_error {x : EStateM ε σ α} {s t : σ} {e : ε} (h : x s = .error e t) :
    after x s = t := by
  rw [after, h]

/-- The second part of a computation goes on from where the first ends, unless that fails. -/
theorem after_bind (x : EStateM ε σ α) (f : α → EStateM ε σ β) (s : σ) :
    after (x >>= f) s = match x s with
      | .ok a t => after (f a) t
      | .error _ t => t := by
  rw [after, bind_apply]
  cases x s <;> rfl

/-- The state after a computation is related to the one before it. -/
def Keeps (same : σ → σ → Prop) (x : EStateM ε σ α) : Prop :=
  ∀ s, same s (after x s)

namespace Keeps

theorem modify {same : σ → σ → Prop} {f : σ → σ} (hf : ∀ s, same s (f s)) :
    Keeps same (modify f : EStateM ε σ PUnit) :=
  hf

variable {same : σ → σ → Prop} [IsPreorder σ same]

theorem pure (a : α) : Keeps same (pure a : EStateM ε σ α) :=
  fun s => refl_of same s

theorem get : Keeps same (get : EStateM ε σ σ) :=
  fun s => refl_of same s

theorem throw (e : ε) : Keeps same (throw e : EStateM ε σ α) :=
  fun s => refl_of same s

theorem ofExcept (x : Except ε α) : Keeps same (ofExcept x : EStateM ε σ α) := by
  cases x with
  | ok a => exact pure a
  | error e => exact throw e

/-- What both parts of a computation keep is kept by the whole. -/
theorem bind {x : EStateM ε σ α} {f : α → EStateM ε σ β} (hx : Keeps same x)
    (hf : ∀ a, Keeps same (f a)) : Keeps same (x >>= f) := by
  intro s
  have hfirst := hx s
  rw [after_bind]
  rw [after] at hfirst
  cases hresult : x s with
  | error e t =>
      rw [hresult] at hfirst
      exact hfirst
  | ok a t =>
      rw [hresult] at hfirst
      exact trans_of same hfirst (hf a t)

end Keeps

end Computations

/-- An action in a run changes the world only. -/
theorem Script.Run.after_act {α : Type} (action : Action α) (s : RunState) :
    after (act action) s = { s with world := after action s.world } := by
  rw [after, act, after]
  cases action s.world <;> rfl

/-- The state that a run leaves, seen from outside. -/
theorem Script.Run.state_outcome (run : Run Unit) (s : RunState) :
    (run.outcome s).state = after run s := by
  rw [outcome, after]
  cases run s <;> rfl

theorem Session.after_act {α : Type} (action : Action α) (s : Session) :
    after (act action) s = { s with world := after action s.world } := by
  rw [after, act, after]
  cases action s.world <;> rfl

/-! ## Cleaning up -/

/-- What is cleaned up is cleaned up after the body, however that ended. -/
theorem after_ensuring {α : Type} (body : Action α) (cleanup : Action Unit) (w : World) :
    after (body.ensuring cleanup) w = after cleanup (after body w) := by
  simp only [after, Action.ensuring]
  cases body w with
  | ok a v =>
      simp only [bind_apply]
      cases cleanup v <;> rfl
  | error e v =>
      simp only [bind_apply]
      cases cleanup v <;> rfl

/-- What is entered by a guard is released after the body, however that ended. -/
theorem ScopeId.after_guarded {α : Type} (id : ScopeId) (body : Action α) (w : World) :
    after (id.guarded body) w = match id.enter w with
      | .ok () v => after id.release (after body v)
      | .error _ v => v := by
  rw [guarded, after_bind]
  cases id.enter w with
  | ok u v => exact after_ensuring body id.release v
  | error e v => rfl

end ScopedLabels
