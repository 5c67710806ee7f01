import Mathlib.Algebra.Order.BigOperators.Group.Finset
import Mathlib.Algebra.BigOperators.Group.Finset.Piecewise
import Mathlib.Tactic.Linarith

/-!
# Signed ledgers

A ledger is the list of signed amounts booked so far, each under a key.  A ledger is *funded*
when no key was ever overdrawn, at any point of the booking, and it *covers* a table of holdings
when every holding is at most the balance of its key.

Covering survives booking a withdrawal of a whole holding and booking a deposit, and it survives
taking bookings back off the end.  The second half is where being funded at every prefix is used:
clearing a holding or restoring one only fits the shorter ledger because that one was never
overdrawn.  A covered table is worth at most the sum of the ledger.
-/

namespace SlithyTove.Framework

open List

variable {Key : Type*} [DecidableEq Key]

/-- What is booked under a key. -/
def balance (l : List (Key × ℤ)) (k : Key) : ℤ := (l.map fun e => if e.1 = k then e.2 else 0).sum

/-- The sum of all bookings. -/
def booked (l : List (Key × ℤ)) : ℤ := (l.map Prod.snd).sum

@[simp] lemma balance_nil (k : Key) : balance [] k = 0 := rfl

@[simp] lemma balance_append (l m : List (Key × ℤ)) (k : Key) :
    balance (l ++ m) k = balance l k + balance m k := by
  simp [balance]

@[simp] lemma balance_singleton_self (k : Key) (v : ℤ) : balance [(k, v)] k = v := by
  simp [balance]

variable {k : Key}

lemma balance_singleton_of_ne {k' : Key} (h : k' ≠ k) (v : ℤ) : balance [(k, v)] k' = 0 := by
  simp [balance, h.symm]

variable {l : List (Key × ℤ)}

lemma balance_eq_zero (h : k ∉ l.map Prod.fst) : balance l k = 0 := by
  refine sum_eq_zero (forall_mem_map.2 fun e he => ?_)
  refine if_neg fun heq => h ?_
  rw [← heq]
  exact mem_map_of_mem he

section

omit [DecidableEq Key]

@[simp] lemma booked_nil : booked ([] : List (Key × ℤ)) = 0 := rfl

@[simp] lemma booked_append (l m : List (Key × ℤ)) : booked (l ++ m) = booked l + booked m := by
  simp [booked]

end

/-- No key is overdrawn at any point. -/
def Funded (l : List (Key × ℤ)) : Prop := ∀ pre, pre <+: l → ∀ k, 0 ≤ balance pre k

/-- Every holding is within the balance of its key. -/
def Covers (l : List (Key × ℤ)) (f : Key → ℤ) : Prop := ∀ k, f k ≤ balance l k

lemma Funded.balance_nonneg (h : Funded l) (k : Key) : 0 ≤ balance l k :=
  h l (prefix_refl l) k

variable {m : List (Key × ℤ)}

lemma Funded.of_append (h : Funded (l ++ m)) : Funded l :=
  fun pre hpre => h pre (hpre.trans (prefix_append l m))

lemma funded_nil : Funded ([] : List (Key × ℤ)) := by
  intro pre hpre k
  rw [prefix_nil.1 hpre, balance_nil]

lemma Funded.concat {v : ℤ} (h : Funded l) (hv : 0 ≤ balance l k + v) : Funded (l ++ [(k, v)]) := by
  intro pre hpre k'
  rcases prefix_concat_iff.1 hpre with rfl | hpre
  · rw [balance_append]
    by_cases hk : k' = k
    · rwa [hk, balance_singleton_self]
    · rw [balance_singleton_of_ne hk, add_zero]
      exact h.balance_nonneg k'
  · exact h pre hpre k'

variable {f g : Key → ℤ}

lemma Covers.withdraw (hl : Funded l) (h : Covers l f) (hself : g k = 0)
    (hother : ∀ k', k' ≠ k → g k' = f k') :
    Funded (l ++ [(k, -f k)]) ∧ Covers (l ++ [(k, -f k)]) g := by
  have hk := h k
  refine ⟨hl.concat (by omega), fun k' => ?_⟩
  rw [balance_append]
  by_cases heq : k' = k
  · rw [heq, hself, balance_singleton_self]
    omega
  · rw [hother k' heq, balance_singleton_of_ne heq, add_zero]
    exact h k'

/-- Booking in a new holding, whatever was held under its key before. -/
lemma Covers.deposit (hl : Funded l) (h : Covers l f) (hg : 0 ≤ g k)
    (hother : ∀ k', k' ≠ k → g k' = f k') :
    Funded (l ++ [(k, g k)]) ∧ Covers (l ++ [(k, g k)]) g := by
  have hk := hl.balance_nonneg k
  refine ⟨hl.concat (by omega), fun k' => ?_⟩
  rw [balance_append]
  by_cases heq : k' = k
  · rw [heq, balance_singleton_self]
    omega
  · rw [hother k' heq, balance_singleton_of_ne heq, add_zero]
    exact h k'

/-- Taking bookings back: the holdings under their keys are cleared. -/
lemma Covers.clear (hl : Funded l) (h : Covers (l ++ m) f)
    (hcleared : ∀ k ∈ m.map Prod.fst, g k = 0) (hother : ∀ k, g k = 0 ∨ g k = f k) :
    Covers l g := by
  intro k
  by_cases hk : k ∈ m.map Prod.fst
  · rw [hcleared k hk]
    exact hl.balance_nonneg k
  · rcases hother k with hzero | heq
    · rw [hzero]
      exact hl.balance_nonneg k
    · have hcover := h k
      rw [balance_append, balance_eq_zero hk, add_zero] at hcover
      exact heq.trans_le hcover

/-- Taking a withdrawal back: at most the amount withdrawn is held again. -/
lemma Covers.restore {v : ℤ} (hv : 0 ≤ v) (hl : Funded (l ++ [(k, -v)]))
    (h : Covers (l ++ [(k, -v)]) f) (hself : g k = v ∨ g k = f k)
    (hother : ∀ k', k' ≠ k → g k' = f k') : Covers l g := by
  intro k'
  by_cases heq : k' = k
  · have hfunds := hl.balance_nonneg k
    have hcover := h k
    rw [balance_append, balance_singleton_self] at hfunds hcover
    rw [heq]
    omega
  · have hcover := h k'
    rw [balance_append, balance_singleton_of_ne heq, add_zero] at hcover
    exact (hother k' heq).trans_le hcover

lemma sum_balance {s : Finset Key} (h : ∀ k ∈ l.map Prod.fst, k ∈ s) :
    ∑ k ∈ s, balance l k = booked l := by
  induction l with
  | nil => simp
  | cons e l ih =>
    have hsplit : ∀ k, balance (e :: l) k = (if e.1 = k then e.2 else 0) + balance l k :=
      fun k => by simp [balance]
    have hmem : e.1 ∈ s := h e.1 (by simp)
    have hrest := ih fun k hk => h k (by simp only [map_cons, mem_cons]; exact .inr hk)
    simp only [hsplit, Finset.sum_add_distrib, Finset.sum_ite_eq, hmem, if_true, hrest]
    simp [booked]

/-- **A covered table is worth at most what was booked.** -/
lemma Covers.sum_le (hl : Funded l) (h : Covers l f) (s : Finset Key) :
    ∑ k ∈ s, f k ≤ booked l := by
  calc ∑ k ∈ s, f k ≤ ∑ k ∈ s, balance l k := Finset.sum_le_sum fun k _ => h k
    _ ≤ ∑ k ∈ s ∪ (l.map Prod.fst).toFinset, balance l k :=
        Finset.sum_le_sum_of_subset_of_nonneg Finset.subset_union_left
          fun k _ _ => hl.balance_nonneg k
    _ = booked l := sum_balance fun k hk =>
        Finset.mem_union_right s (mem_toFinset.2 hk)

end SlithyTove.Framework
