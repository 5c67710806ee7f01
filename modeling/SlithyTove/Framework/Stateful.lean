import Mathlib.Order.Basic
import Mathlib.Tactic.Common

/-!
# Computations with a state that survives a failure

A procedure of an imperative program changes its state and may raise an exception; what it changed
before stays changed.  Such a procedure is a computation in `EStateM ε σ`.  `Ends r P E` says what
holds where it ends: `P` of the result and the state if it returns, `E` of the exception and the
state if it raises.  The rules follow the structure of the procedure.

A run that returned can also be taken apart: `run_bind_eq_ok` takes the first step off it.
-/

namespace SlithyTove.Framework

variable {ε σ α β : Type}

/-- How a procedure ends. -/
def Ends (r : EStateM.Result ε σ α) (P : α → σ → Prop) (E : ε → σ → Prop) : Prop :=
  match r with
  | .ok a s => P a s
  | .error e s => E e s

variable {P P' : α → σ → Prop} {E E' : ε → σ → Prop} {r : EStateM.Result ε σ α}

lemma Ends.mono (h : Ends r P E) (hP : ∀ a s, P a s → P' a s) (hE : ∀ e s, E e s → E' e s) :
    Ends r P' E' := by
  cases r with
  | ok a s => exact hP a s h
  | error e s => exact hE e s h

variable {x : EStateM ε σ α} {f : α → EStateM ε σ β} {s : σ}

/-- **Sequencing.** -/
lemma Ends.bind {Q : β → σ → Prop} (h : Ends (x s) P E) (hf : ∀ a s', P a s' → Ends (f a s') Q E) :
    Ends ((x >>= f) s) Q E := by
  change Ends (EStateM.bind x f s) Q E
  unfold EStateM.bind
  cases hx : x s with
  | ok a s' =>
    rw [hx] at h
    exact hf a s' h
  | error e s' =>
    rw [hx] at h
    exact h

/-- **A handler**: what holds where an exception was raised is what the handler starts from. -/
lemma Ends.tryCatch {handler : ε → EStateM ε σ α} (h : Ends (x s) P E')
    (hhandler : ∀ e s', E' e s' → Ends (handler e s') P E) : Ends (tryCatch x handler s) P E := by
  change Ends (EStateM.tryCatch x handler s) P E
  unfold EStateM.tryCatch
  cases hx : x s with
  | ok a s' =>
    rw [hx] at h
    exact h
  | error e s' =>
    rw [hx] at h
    exact hhandler e s' h

lemma Ends.of_ok (h : Ends r P E) {a : α} (hr : r = .ok a s) : P a s := by
  rw [hr] at h
  exact h

/-! ## Taking a run apart -/

/-- A check without state, as a step of a procedure. -/
instance liftExcept : MonadLift (Except ε) (EStateM ε σ) where
  monadLift x s :=
    match x with
    | .ok a => .ok a s
    | .error e => .error e s

lemma run_bind_eq_ok {s' : σ} {b : β} :
    (x >>= f) s = .ok b s' ↔ ∃ a t, x s = .ok a t ∧ f a t = .ok b s' := by
  change EStateM.bind x f s = _ ↔ _
  unfold EStateM.bind
  cases hx : x s with
  | ok a t => simp
  | error e t => simp

lemma run_bind_eq_ok_iff {x : EStateM ε σ Unit} {f : Unit → EStateM ε σ β} {C : Prop} {t s' : σ}
    {b : β} (h : ∀ {u s'}, x s = .ok u s' ↔ C ∧ s' = t) :
    (x >>= f) s = .ok b s' ↔ C ∧ f () t = .ok b s' := by
  rw [run_bind_eq_ok]
  constructor
  · rintro ⟨u, s₁, hx, hf⟩
    obtain ⟨hC, rfl⟩ := h.1 hx
    exact ⟨hC, hf⟩
  · rintro ⟨hC, hf⟩
    exact ⟨(), t, h.2 ⟨hC, rfl⟩, hf⟩

lemma run_bind_of_ok {t : σ} {a : α} (h : x s = .ok a t) : (x >>= f) s = f a t := by
  change EStateM.bind x f s = _
  unfold EStateM.bind
  rw [h]

lemma run_bind_of_error {t : σ} {e : ε} (h : x s = .error e t) : (x >>= f) s = .error e t := by
  change EStateM.bind x f s = _
  unfold EStateM.bind
  rw [h]

lemma run_pure_eq_ok {a b : α} {s' : σ} :
    (pure a : EStateM ε σ α) s = .ok b s' ↔ a = b ∧ s = s' := by
  change EStateM.Result.ok a s = _ ↔ _
  simp

/-! ## Runs that go forward -/

/-- The state in which a procedure ends. -/
def lastState : EStateM.Result ε σ α → σ
  | .ok _ s => s
  | .error _ s => s

lemma Ends.lastState {P : σ → Prop} (h : Ends r (fun _ => P) fun _ => P) :
    P (lastState r) := by
  cases r with
  | ok a s => exact h
  | error e s => exact h

end SlithyTove.Framework
