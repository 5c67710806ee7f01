import Mathlib.Tactic.Common

/-!
# Counted loops and their invariants

A loop `for (int i = 0; i < n; i++)` whose body rewrites a state is `Nat.fold n body`: the
body receives the index, the proof that it is in range, and the state left by the indices
before it.  Core supplies the unfolding equations of `Nat.fold`; this file supplies the one
rule every proof about such a loop uses, `fold_invariant`: a predicate of the index and the
state that holds on entry and survives one pass through the body holds on exit, at index `n`.

A loop that counts down is `Nat.foldRev`, and `foldRev_invariant` is the same rule read from
the top index to zero.
-/

namespace SlithyTove.Framework

variable {σ : Type*}

/-- **The invariant rule of an upward loop.**  `P i s` is what holds before the pass with
index `i`. -/
lemma fold_invariant (P : ℕ → σ → Prop) :
    ∀ (n : ℕ) (body : (i : ℕ) → i < n → σ → σ) (s : σ), P 0 s →
      (∀ i (hi : i < n) (t : σ), P i t → P (i + 1) (body i hi t)) →
      P n (Nat.fold n body s)
  | 0, body, s, h0, _ => by simpa using h0
  | n + 1, body, s, h0, hstep => by
    rw [Nat.fold_succ]
    refine hstep n (by omega) _ ?_
    exact fold_invariant P n (fun i hi => body i (by omega)) s h0
      (fun i hi t ht => hstep i (by omega) t ht)

/-- **The invariant rule of a downward loop.**  `P i s` is what holds once the passes with
index `i` and above are done. -/
lemma foldRev_invariant (P : ℕ → σ → Prop) :
    ∀ (n : ℕ) (body : (i : ℕ) → i < n → σ → σ) (s : σ), P n s →
      (∀ i (hi : i < n) (t : σ), P (i + 1) t → P i (body i hi t)) →
      P 0 (Nat.foldRev n body s)
  | 0, body, s, hn, _ => by simpa using hn
  | n + 1, body, s, hn, hstep => by
    rw [Nat.foldRev_succ]
    refine foldRev_invariant P n (fun i hi => body i (by omega)) _
      (hstep n (by omega) s hn) (fun i hi t ht => hstep i (by omega) t ht)

end SlithyTove.Framework
