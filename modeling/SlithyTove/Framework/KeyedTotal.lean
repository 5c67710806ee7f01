import Mathlib.Algebra.BigOperators.Group.Finset.Basic
import Mathlib.Data.List.AList
import Mathlib.Tactic.Abel

/-!
# Totals over a keyed map

The sum of a quantity over the values of a finite map, and how it changes when a key is erased or
written: by exactly what the map held there.  Over any set of keys that has all of the map's, the
contributions of the keys add up to the total (`keyedTotal_eq_sum`).
-/

namespace SlithyTove.Framework

open AList List

variable {α β M : Type} [AddCommMonoid M]

/-- The sum of `f` over the values of a map. -/
def keyedTotal (f : β → M) (m : AList fun _ : α => β) : M :=
  (m.entries.map fun p => f p.2).sum

@[simp] lemma keyedTotal_empty (f : β → M) : keyedTotal f (∅ : AList fun _ : α => β) = 0 := rfl

variable [DecidableEq α]

/-- What a key contributes to the total. -/
def contribution (f : β → M) (m : AList fun _ : α => β) (a : α) : M := ((m.lookup a).map f).getD 0

/-- The map with a key written, or erased where nothing is written. -/
def put (m : AList fun _ : α => β) (a : α) : Option β → AList fun _ : α => β
  | some b => m.insert a b
  | none => m.erase a

variable (f : β → M) (m : AList fun _ : α => β) (a : α)

lemma contribution_of_lookup {b : β} (h : m.lookup a = some b) : contribution f m a = f b := by
  rw [contribution, h]
  rfl

lemma contribution_of_none (h : m.lookup a = none) : contribution f m a = 0 := by
  rw [contribution, h]
  rfl

variable (b : Option β)

lemma lookup_put_self : (put m a b).lookup a = b := by
  cases b with
  | none => exact lookup_erase a m
  | some b => exact lookup_insert m

lemma lookup_put_of_ne {a' : α} (h : a' ≠ a) : (put m a b).lookup a' = m.lookup a' := by
  cases b with
  | none => exact lookup_erase_ne h
  | some b => exact lookup_insert_ne h

lemma keyedTotal_erase : keyedTotal f (m.erase a) + contribution f m a = keyedTotal f m := by
  by_cases hmem : a ∈ m
  · obtain ⟨b, l₁, l₂, hnot, hsplit, herase⟩ := exists_of_kerase (mem_keys.1 hmem)
    have hlookup : m.lookup a = some b := by
      refine mem_lookup_iff.2 ?_
      rw [hsplit]
      exact mem_append_right _ mem_cons_self
    have hentries : (m.erase a).entries = l₁ ++ l₂ := herase
    rw [keyedTotal, keyedTotal, hentries, hsplit, contribution, hlookup]
    simp only [map_append, map_cons, sum_append, sum_cons, Option.map_some,
      Option.getD_some]
    abel
  · have hentries : (m.erase a).entries = m.entries := kerase_of_notMem_keys hmem
    rw [keyedTotal, hentries, contribution, lookup_eq_none.2 hmem]
    exact add_zero _

lemma contribution_le (f : β → ℕ) (m : AList fun _ : α => β) (a : α) :
    contribution f m a ≤ keyedTotal f m :=
  (Nat.le_add_left ..).trans_eq (keyedTotal_erase f m a)

/-- **A write changes the total by the difference at its key.** -/
lemma keyedTotal_put :
    keyedTotal f (put m a b) + contribution f m a = keyedTotal f m + (b.map f).getD 0 := by
  have herase := keyedTotal_erase f m a
  cases b with
  | none => exact herase.trans (add_zero _).symm
  | some b =>
    have hinsert : keyedTotal f (m.insert a b) = f b + keyedTotal f (m.erase a) := by
      rw [keyedTotal, entries_insert, map_cons, sum_cons]
      rfl
    change keyedTotal f (m.insert a b) + _ = keyedTotal f m + f b
    rw [hinsert, add_assoc, herase, add_comm]

/-- **The total is the sum of the contributions** of any keys that include those of the map. -/
lemma keyedTotal_eq_sum {s : Finset α} (h : ∀ a ∈ m, a ∈ s) :
    keyedTotal f m = ∑ a ∈ s, contribution f m a := by
  induction m using AList.insertRec with
  | H0 => exact (Finset.sum_eq_zero fun _ _ => rfl).symm
  | IH a b m hnew ih =>
    have ha : a ∈ s := h a (mem_insert m |>.2 (.inl rfl))
    have hnone : m.lookup a = none := lookup_eq_none.2 hnew
    have hput := keyedTotal_put f m a (some b)
    rw [contribution_of_none f m a hnone, add_zero] at hput
    have hself : contribution f (m.insert a b) a = f b :=
      contribution_of_lookup f _ a (lookup_insert m)
    have hother : ∀ x ∈ s.erase a, contribution f (m.insert a b) x = contribution f m x := by
      intro x hx
      rw [contribution, contribution, lookup_insert_ne (Finset.ne_of_mem_erase hx)]
    calc keyedTotal f (m.insert a b)
        = keyedTotal f m + f b := hput
      _ = ∑ x ∈ s, contribution f m x + f b := by
          rw [ih fun x hx => h x (mem_insert m |>.2 (.inr hx))]
      _ = ∑ x ∈ s.erase a, contribution f m x + f b := by
          rw [← Finset.add_sum_erase s _ ha, contribution_of_none f m a hnone, zero_add]
      _ = ∑ x ∈ s, contribution f (m.insert a b) x := by
          rw [← Finset.add_sum_erase s _ ha, hself, Finset.sum_congr rfl hother, add_comm]

end SlithyTove.Framework
