import SlithyTove.Consensus.Amount

/-!
# The supply schedule

The subsidy is constant over each halving interval and zero from the 64th on, so the subsidies of
any number of blocks add up to at most 64 whole eras.  For the interval of 1051200 blocks that
every network of the chain uses, and without the genesis block, the sum is below `MAX_MONEY`.
-/

namespace SlithyTove

open Finset

/-- The most the blocks at heights `1` to `n` may create. -/
def scheduledSupply (params : Params) (n : ℕ) : ℤ :=
  ∑ k ∈ Finset.range n, getBlockSubsidy (k + 1) params

/-- The subsidy in the era with this number. -/
def eraSubsidy (era : ℕ) : ℤ := if era ≥ 64 then 0 else (10 * COIN) >>> era

lemma getBlockSubsidy_eq_eraSubsidy (nHeight : ℕ) (params : Params) :
    getBlockSubsidy nHeight params = eraSubsidy (nHeight / params.nSubsidyHalvingInterval) := rfl

section

variable (params : Params)

include params

@[simp] lemma scheduledSupply_succ (n : ℕ) :
    scheduledSupply params (n + 1) = scheduledSupply params n + getBlockSubsidy (n + 1) params :=
  sum_range_succ ..

lemma sum_eras (hpos : 0 < params.nSubsidyHalvingInterval) (eras : ℕ) :
    ∑ k ∈ Finset.range (eras * params.nSubsidyHalvingInterval), getBlockSubsidy k params =
      params.nSubsidyHalvingInterval * ∑ era ∈ Finset.range eras, eraSubsidy era := by
  induction eras with
  | zero => simp
  | succ eras ih =>
    have hera : ∀ j ∈ Finset.range params.nSubsidyHalvingInterval,
        getBlockSubsidy (eras * params.nSubsidyHalvingInterval + j) params =
          eraSubsidy eras := by
      intro j hj
      rw [getBlockSubsidy_eq_eraSubsidy, Nat.mul_comm, Nat.mul_add_div hpos,
        Nat.div_eq_of_lt (mem_range.1 hj), add_zero]
    rw [Nat.succ_mul, sum_range_add, ih, sum_congr rfl hera, sum_const,
      card_range, sum_range_succ, nsmul_eq_mul, mul_add]

lemma scheduledSupply_le_eras (hpos : 0 < params.nSubsidyHalvingInterval) (n : ℕ) :
    scheduledSupply params n ≤
      params.nSubsidyHalvingInterval * (∑ era ∈ Finset.range 64, eraSubsidy era) - 10 * COIN := by
  have hgenesis : getBlockSubsidy 0 params = 10 * COIN := by
    rw [getBlockSubsidy_eq_eraSubsidy, Nat.zero_div]
    decide
  have hall : ∑ k ∈ Finset.range (n + 1), getBlockSubsidy k params ≤
      ∑ k ∈ Finset.range (64 * params.nSubsidyHalvingInterval), getBlockSubsidy k params := by
    have hlate : ∀ k ∉ Finset.range (64 * params.nSubsidyHalvingInterval),
        getBlockSubsidy k params = 0 := by
      intro k hk
      rw [mem_range, not_lt] at hk
      exact if_pos ((Nat.le_div_iff_mul_le hpos).2 hk)
    calc ∑ k ∈ Finset.range (n + 1), getBlockSubsidy k params
        ≤ ∑ k ∈ Finset.range (max (n + 1) (64 * params.nSubsidyHalvingInterval)),
            getBlockSubsidy k params :=
          sum_le_sum_of_subset_of_nonneg (range_mono (le_max_left _ _))
            fun _ _ _ => getBlockSubsidy_nonneg _ _
      _ = ∑ k ∈ Finset.range (64 * params.nSubsidyHalvingInterval), getBlockSubsidy k params :=
          (sum_subset (range_mono (le_max_right _ _)) fun k _ hk => hlate k hk).symm
  rw [sum_range_succ', hgenesis, sum_eras params hpos] at hall
  rw [scheduledSupply]
  linarith

lemma scheduledSupply_le (h : params.nSubsidyHalvingInterval = 1051200) (n : ℕ) :
    scheduledSupply params n ≤ 2102398986334400 := by
  have hbound := scheduledSupply_le_eras params (by omega) n
  have hsum : ∑ era ∈ Finset.range 64, eraSubsidy era = 1999999987 := by decide +kernel
  rw [hsum, h] at hbound
  exact hbound

end

end SlithyTove
