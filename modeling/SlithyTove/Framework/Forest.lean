import Mathlib.Data.Option.Basic
import Mathlib.Tactic.Common

/-!
# Forests given by parent links

A set of nodes in which each node has at most one parent and a depth that counts the links
above it.  `up k x` follows `k` links, and `IsAncestor a x` says that some number of links leads
from `x` to `a`; a node is an ancestor of itself.

The depth decides everything: from `x` there is exactly one node at each depth up to its own
(`exists_up`), and a walk is as long as the difference of depths (`depth_of_up`).
-/

namespace SlithyTove.Framework

/-- Nodes with parent links; the depth of a node is the number of links above it. -/
structure Forest (Node : Type*) where
  parent : Node → Option Node
  depth : Node → ℕ
  depth_root : ∀ x, parent x = none → depth x = 0
  depth_child : ∀ x p, parent x = some p → depth x = depth p + 1

namespace Forest

variable {Node : Type*} (F : Forest Node)

/-- Follow `k` parent links. -/
def up : ℕ → Node → Option Node
  | 0, x => some x
  | k + 1, x => (F.parent x).bind (up k)

@[simp] lemma up_zero (x : Node) : F.up 0 x = some x := rfl

lemma up_succ (k : ℕ) (x : Node) : F.up (k + 1) x = (F.parent x).bind (F.up k) := rfl

variable {x : Node}

lemma up_succ_of_parent {p : Node} (h : F.parent x = some p) (k : ℕ) :
    F.up (k + 1) x = F.up k p := by
  rw [up_succ, h, Option.bind_some]

lemma up_add (j k : ℕ) (x : Node) : F.up (j + k) x = (F.up j x).bind (F.up k) := by
  induction j generalizing x with
  | zero => simp
  | succ j ih =>
    rw [Nat.add_right_comm, up_succ, up_succ, Option.bind_assoc]
    exact congrArg _ (funext ih)

variable {k : ℕ}

lemma depth_of_up {y : Node} (h : F.up k x = some y) : F.depth x = F.depth y + k := by
  induction k generalizing x with
  | zero =>
    rw [up_zero, Option.some.injEq] at h
    rw [h, Nat.add_zero]
  | succ k ih =>
    rw [up_succ, Option.bind_eq_some_iff] at h
    obtain ⟨p, hp, hy⟩ := h
    rw [F.depth_child x p hp, ih hy, Nat.add_assoc]

lemma exists_up (h : k ≤ F.depth x) : ∃ y, F.up k x = some y := by
  induction k generalizing x with
  | zero => exact ⟨x, rfl⟩
  | succ k ih =>
    cases hp : F.parent x with
    | none =>
      have := F.depth_root x hp
      omega
    | some p =>
      have := F.depth_child x p hp
      rw [up_succ_of_parent F hp]
      exact ih (by omega)

lemma exists_parent (h : 0 < F.depth x) : ∃ p, F.parent x = some p ∧ F.depth x = F.depth p + 1 := by
  cases hp : F.parent x with
  | none =>
    have := F.depth_root x hp
    omega
  | some p => exact ⟨p, rfl, F.depth_child x p hp⟩

/-! ## Ancestors -/

/-- `a` is `x` or lies above it. -/
def IsAncestor (a x : Node) : Prop := ∃ k, F.up k x = some a

lemma IsAncestor.refl (x : Node) : F.IsAncestor x x := ⟨0, rfl⟩

variable {F}

lemma IsAncestor.trans {a b c : Node} (hab : F.IsAncestor a b) (hbc : F.IsAncestor b c) :
    F.IsAncestor a c := by
  obtain ⟨j, hj⟩ := hab
  obtain ⟨k, hk⟩ := hbc
  exact ⟨k + j, by rw [up_add, hk, Option.bind_some, hj]⟩

lemma isAncestor_of_up {a : Node} (h : F.up k x = some a) : F.IsAncestor a x := ⟨k, h⟩

lemma isAncestor_of_parent {p : Node} (h : F.parent x = some p) : F.IsAncestor p x :=
  ⟨1, by rw [up_succ_of_parent F h, up_zero]⟩

lemma IsAncestor.depth_le {a : Node} (h : F.IsAncestor a x) : F.depth a ≤ F.depth x := by
  obtain ⟨k, hk⟩ := h
  have := F.depth_of_up hk
  omega

lemma IsAncestor.up_eq {a : Node} (h : F.IsAncestor a x) :
    F.up (F.depth x - F.depth a) x = some a := by
  obtain ⟨k, hk⟩ := h
  have hdepth := F.depth_of_up hk
  rwa [show F.depth x - F.depth a = k by omega]

lemma IsAncestor.eq_of_depth {a b : Node} (ha : F.IsAncestor a x) (hb : F.IsAncestor b x)
    (hdepth : F.depth a = F.depth b) : a = b := by
  have hup := ha.up_eq
  rw [hdepth, hb.up_eq, Option.some.injEq] at hup
  exact hup.symm

lemma IsAncestor.of_depth_le {a b : Node} (ha : F.IsAncestor a x) (hb : F.IsAncestor b x)
    (hdepth : F.depth a ≤ F.depth b) : F.IsAncestor a b := by
  have hup := ha.up_eq
  rw [show F.depth x - F.depth a = (F.depth x - F.depth b) + (F.depth b - F.depth a) by
    have := hb.depth_le
    omega, up_add, hb.up_eq, Option.bind_some] at hup
  exact ⟨_, hup⟩

lemma IsAncestor.of_ne {a : Node} (h : F.IsAncestor a x) (hne : a ≠ x) :
    ∃ p, F.parent x = some p ∧ F.IsAncestor a p := by
  obtain ⟨k, hk⟩ := h
  cases k with
  | zero => exact absurd (Option.some.inj hk).symm hne
  | succ k =>
    rw [up_succ, Option.bind_eq_some_iff] at hk
    obtain ⟨p, hp, ha⟩ := hk
    exact ⟨p, hp, k, ha⟩

/-- The ancestor at a depth. -/
def atDepth (F : Forest Node) (x : Node) (d : ℕ) : Option Node :=
  if d ≤ F.depth x then F.up (F.depth x - d) x else none

variable {d : ℕ}

lemma atDepth_eq_some_iff {a : Node} :
    F.atDepth x d = some a ↔ F.IsAncestor a x ∧ F.depth a = d := by
  rw [atDepth]
  constructor
  · intro h
    split at h
    · have := F.depth_of_up h
      exact ⟨isAncestor_of_up h, by omega⟩
    · cases h
  · rintro ⟨ha, rfl⟩
    rw [if_pos ha.depth_le, ha.up_eq]

lemma atDepth_of_isAncestor {y : Node} (h : F.IsAncestor x y) (hd : d ≤ F.depth x) :
    F.atDepth x d = F.atDepth y d := by
  obtain ⟨a, ha⟩ := F.exists_up (Nat.sub_le (F.depth x) d)
  have hdepth := F.depth_of_up ha
  have hax : F.IsAncestor a x := isAncestor_of_up ha
  rw [atDepth_eq_some_iff.2 ⟨hax, by omega⟩, atDepth_eq_some_iff.2 ⟨hax.trans h, by omega⟩]

lemma atDepth_of_parent {p : Node} (hp : F.parent x = some p) (hd : d ≤ F.depth p) :
    F.atDepth x d = F.atDepth p d :=
  (atDepth_of_isAncestor (isAncestor_of_parent hp) hd).symm

@[simp] lemma atDepth_self (F : Forest Node) (x : Node) : F.atDepth x (F.depth x) = some x :=
  atDepth_eq_some_iff.2 ⟨.refl _ _, rfl⟩

end Forest

end SlithyTove.Framework
