import SlithyTove.Framework.Checked
import SlithyTove.Primitives.Transaction
import Mathlib.Tactic

/-!
# Amounts and the subsidy

`consensus/amount.h` and `GetBlockSubsidy`.  `GetValueOut` sums the outputs of a transaction and
throws as soon as a value or a partial sum leaves the money range; on non-negative values the
partial sums are below the total, so it returns exactly when the total is in range
(`getValueOut_eq_ok`).
-/

namespace SlithyTove

open Framework

/-- Base units in one SLTHY. -/
def COIN : ℤ := 100000000

/-- The largest amount consensus validation accepts. -/
def MAX_MONEY : ℤ := 21024000 * COIN

/-- `MoneyRange`. -/
def MoneyRange (nValue : ℤ) : Prop := 0 ≤ nValue ∧ nValue ≤ MAX_MONEY

instance (nValue : ℤ) : Decidable (MoneyRange nValue) := inferInstanceAs (Decidable (_ ∧ _))

/-- `GetBlockSubsidy`: ten coins, halved once per interval, and nothing from the 64th halving on,
where the shift would be undefined. -/
def getBlockSubsidy (nHeight : ℕ) (params : Params) : ℤ :=
  let halvings := nHeight / params.nSubsidyHalvingInterval
  if halvings ≥ 64 then 0 else (10 * COIN) >>> halvings

/-- The treasury's share of the subsidy; the division truncates. -/
def treasuryShare (nHeight : ℕ) (params : Params) : ℤ :=
  (getBlockSubsidy nHeight params * params.treasury_percent).tdiv 100

lemma getBlockSubsidy_nonneg (nHeight : ℕ) (params : Params) :
    0 ≤ getBlockSubsidy nHeight params := by
  rw [getBlockSubsidy]
  split
  · exact le_rfl
  · rw [Int.shiftRight_eq_div_pow]
    exact Int.ediv_nonneg (by decide) (by positivity)

/-! ## Output totals -/

/-- The sum of the output values. -/
def totalOut (vout : List CTxOut) : ℤ := (vout.map CTxOut.nValue).sum

/-- One pass of `GetValueOut`. -/
def valueOutStep (nValueOut : ℤ) (tx_out : CTxOut) : Except String ℤ := do
  ensure (MoneyRange tx_out.nValue ∧ MoneyRange (nValueOut + tx_out.nValue))
    "GetValueOut: value out of range"
  return nValueOut + tx_out.nValue

/-- `CTransaction::GetValueOut`. -/
def getValueOut (vout : List CTxOut) : Except String ℤ := vout.foldlM valueOutStep 0

lemma valueOutStep_eq_ok {n m : ℤ} {tx_out : CTxOut} :
    valueOutStep n tx_out = .ok m ↔
      MoneyRange tx_out.nValue ∧ MoneyRange (n + tx_out.nValue) ∧ m = n + tx_out.nValue := by
  simp only [valueOutStep, bind_eq_ok, ensure_eq_ok, pure_eq_ok]
  constructor
  · rintro ⟨-, ⟨h1, h2⟩, h3⟩
    exact ⟨h1, h2, h3.symm⟩
  · rintro ⟨h1, h2, h3⟩
    exact ⟨(), ⟨h1, h2⟩, h3.symm⟩

variable {vout : List CTxOut}

lemma totalOut_nonneg (h : ∀ o ∈ vout, 0 ≤ o.nValue) : 0 ≤ totalOut vout :=
  List.sum_nonneg (List.forall_mem_map.2 h)

@[simp] lemma totalOut_nil : totalOut [] = 0 := rfl

@[simp] lemma totalOut_cons (o : CTxOut) (vout : List CTxOut) :
    totalOut (o :: vout) = o.nValue + totalOut vout := by
  simp [totalOut]

@[simp] lemma totalOut_append (v w : List CTxOut) :
    totalOut (v ++ w) = totalOut v + totalOut w := by
  simp [totalOut]

lemma totalOut_filter_add (p : CTxOut → Prop) [DecidablePred p] (vout : List CTxOut) :
    totalOut (vout.filter fun o => p o) + totalOut (vout.filter fun o => ¬ p o) =
      totalOut vout := by
  induction vout with
  | nil => rfl
  | cons o vout ih =>
    by_cases h : p o
    · simp only [List.filter_cons, h, decide_true, not_true_eq_false, decide_false, if_true,
        totalOut_cons, Bool.false_eq_true, if_false]
      omega
    · simp only [List.filter_cons, h, decide_true, not_false_eq_true, decide_false, if_true,
        totalOut_cons, Bool.false_eq_true, if_false]
      omega

lemma foldlM_valueOutStep_eq_ok {n s : ℤ} (hn : MoneyRange n) : vout.foldlM valueOutStep n = .ok s ↔
      (∀ o ∈ vout, 0 ≤ o.nValue) ∧ n + totalOut vout ≤ MAX_MONEY ∧ s = n + totalOut vout := by
  induction vout generalizing n with
  | nil =>
    simp only [List.foldlM_nil, pure_eq_ok, List.not_mem_nil, false_implies, implies_true,
      totalOut_nil, add_zero, true_and]
    exact ⟨fun h => ⟨hn.2, h.symm⟩, fun h => h.2.symm⟩
  | cons o vout ih =>
    rw [foldlM_cons_eq_ok]
    constructor
    · rintro ⟨t, hpass, hrest⟩
      obtain ⟨ho, hsum, rfl⟩ := valueOutStep_eq_ok.1 hpass
      obtain ⟨hnonneg, hle, rfl⟩ := (ih hsum).1 hrest
      refine ⟨List.forall_mem_cons.2 ⟨ho.1, hnonneg⟩, ?_, ?_⟩ <;> rw [totalOut_cons] <;> omega
    · rintro ⟨hnonneg, hle, rfl⟩
      obtain ⟨ho, hrest⟩ := List.forall_mem_cons.1 hnonneg
      have htail := totalOut_nonneg hrest
      rw [totalOut_cons] at hle
      have hsum : MoneyRange (n + o.nValue) := ⟨by have := hn.1; omega, by omega⟩
      refine ⟨n + o.nValue, valueOutStep_eq_ok.2 ⟨⟨ho, ?_⟩, hsum, rfl⟩,
        (ih hsum).2 ⟨hrest, by omega, by rw [totalOut_cons]; omega⟩⟩
      have := hn.1
      omega

/-- **`GetValueOut` returns the total** exactly when no value is negative and the total is in
range. -/
lemma getValueOut_eq_ok {s : ℤ} : getValueOut vout = .ok s ↔
      (∀ o ∈ vout, 0 ≤ o.nValue) ∧ totalOut vout ≤ MAX_MONEY ∧ s = totalOut vout := by
  rw [getValueOut, foldlM_valueOutStep_eq_ok ⟨le_rfl, by decide⟩, zero_add]

end SlithyTove
