import Mathlib.Algebra.BigOperators.Group.List.Basic
import Mathlib.Data.Finset.Basic
import SlithyTove.Primitives.FeeFrac

/-!
# Dependency graphs

`DepGraph` (`cluster_linearize.h`) holds the transactions of a cluster: at each position that is in
use a fee and a size, and the sets of all ancestors and descendants, with the transaction itself in
both.  The sets are closed: they hold the ancestors of an ancestor.  Sizes are positive, which
`TxGraphImpl::AddTransaction` assumes of every transaction.

A `SetInfo` is a set of transactions with their combined fee and size.
-/

namespace SlithyTove

/-- `DepGraph`. -/
structure DepGraph where
  /-- `m_used` -/
  positions : Finset ℕ
  feeRate : ℕ → FeeFrac
  ancestors : ℕ → Finset ℕ
  descendants : ℕ → Finset ℕ
  size_pos : ∀ i ∈ positions, 0 < (feeRate i).size
  ancestors_subset : ∀ i ∈ positions, ancestors i ⊆ positions
  mem_ancestors_self : ∀ i ∈ positions, i ∈ ancestors i
  ancestors_trans : ∀ i ∈ positions, ∀ j ∈ ancestors i, ancestors j ⊆ ancestors i
  descendants_subset : ∀ i ∈ positions, descendants i ⊆ positions
  mem_descendants : ∀ i ∈ positions, ∀ j ∈ positions, j ∈ descendants i ↔ i ∈ ancestors j

namespace DepGraph

variable (g : DepGraph)

/-- The cumulative fee and size of transactions. -/
def sum (l : List ℕ) : FeeFrac := (l.map g.feeRate).sum

lemma sum_append (l₁ l₂ : List ℕ) : g.sum (l₁ ++ l₂) = g.sum l₁ + g.sum l₂ := by
  rw [sum, List.map_append, List.sum_append]
  rfl

lemma sum_flatten (groups : List (List ℕ)) : (groups.map g.sum).sum = g.sum groups.flatten := by
  induction groups with
  | nil => rfl
  | cons group groups ih => rw [List.map_cons, List.sum_cons, ih, List.flatten_cons, sum_append]

end DepGraph

/-- `SetInfo`. -/
structure SetInfo where
  transactions : Finset ℕ
  feerate : FeeFrac
  deriving DecidableEq

namespace SetInfo

/-- A single transaction. -/
def single (g : DepGraph) (pos : ℕ) : SetInfo := ⟨{pos}, g.feeRate pos⟩

/-- `operator|=`, which assumes that there is no overlap.  The sums of the fees and of the sizes
have to fit. -/
def union (a b : SetInfo) : Option SetInfo :=
  if Disjoint a.transactions b.transactions then do
    let feerate ← (a.feerate + b.feerate).checkedValue
    return ⟨a.transactions ∪ b.transactions, feerate⟩
  else none

end SetInfo

end SlithyTove
