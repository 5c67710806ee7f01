import Mathlib.Tactic.NormNum
import Mathlib.Tactic.Ring

/-!
# Decimal arithmetic with a fixed number of digits

A decimal number is kept as an integer, in units of its last digit.  An operation of a context with
`p` significant digits computes the exact result and rounds it to `p` digits, half to even.  On
results that have no more digits the rounding does nothing (`roundDigits_of_lt`).
-/

namespace SlithyTove.Framework

/-- `n / d`, rounded to the nearest integer and half to even. -/
def roundHalfEven (n d : ℕ) : ℕ :=
  if 2 * (n % d) < d then n / d
  else if 2 * (n % d) > d then n / d + 1
  else n / d + n / d % 2

/-- The number of digits beyond the first `p`, looking for at most `fuel` of them. -/
def excessDigits (p : ℕ) : (fuel n : ℕ) → ℕ
  | 0, _ => 0
  | fuel + 1, n => if n < 10 ^ p then 0 else excessDigits p fuel (n / 10) + 1

/-- An integer rounded to `p` significant digits. -/
def roundDigits (p : ℕ) (x : ℤ) : ℤ :=
  let unit := 10 ^ excessDigits p x.natAbs x.natAbs
  x.sign * (roundHalfEven x.natAbs unit * unit : ℕ)

lemma roundHalfEven_one (n : ℕ) : roundHalfEven n 1 = n := by
  simp [roundHalfEven, Nat.mod_one]

variable {p : ℕ}

lemma excessDigits_of_lt {n : ℕ} (h : n < 10 ^ p) (fuel : ℕ) : excessDigits p fuel n = 0 := by
  cases fuel with
  | zero => rfl
  | succ fuel => exact if_pos h

lemma roundDigits_of_lt {x : ℤ} (h : x.natAbs < 10 ^ p) : roundDigits p x = x := by
  unfold roundDigits
  dsimp only
  rw [excessDigits_of_lt h, pow_zero, roundHalfEven_one, mul_one]
  exact Int.sign_mul_natAbs x

lemma div_le_roundHalfEven (n d : ℕ) : n / d ≤ roundHalfEven n d := by
  unfold roundHalfEven
  split
  · exact le_rfl
  · split <;> omega

lemma pow_le_excessDigits {n fuel : ℕ} (hn : 10 ^ (p + 1) ≤ n) :
    10 ^ p ≤ n / 10 ^ (excessDigits (p + 1) fuel n) ∧
      (0 < fuel → 0 < excessDigits (p + 1) fuel n) := by
  induction fuel generalizing n with
  | zero =>
    have hle : 10 ^ p ≤ 10 ^ (p + 1) := Nat.pow_le_pow_right (by decide) (Nat.le_succ p)
    exact ⟨by rw [excessDigits, pow_zero, Nat.div_one]; exact hle.trans hn, nofun⟩
  | succ fuel ih =>
    rw [excessDigits, if_neg (not_lt.2 hn)]
    refine ⟨?_, fun _ => Nat.succ_pos _⟩
    rw [pow_succ', ← Nat.div_div_eq_div_mul]
    by_cases hmore : 10 ^ (p + 1) ≤ n / 10
    · exact (ih hmore).1
    · rw [excessDigits_of_lt (not_le.1 hmore), pow_zero, Nat.div_one]
      refine (Nat.le_div_iff_mul_le (by decide)).2 ?_
      rwa [← pow_succ]

lemma pow_le_roundDigits {x : ℤ} (h : 10 ^ (p + 1) ≤ x) : 10 ^ (p + 1) ≤ roundDigits (p + 1) x := by
  have hpos : 0 < x := lt_of_lt_of_le (by positivity) h
  have hn : 10 ^ (p + 1) ≤ x.natAbs := by
    have : ((10 ^ (p + 1) : ℕ) : ℤ) ≤ x := by exact_mod_cast h
    omega
  have hfuel : 0 < x.natAbs := by omega
  obtain ⟨hdiv, hexcess⟩ := @pow_le_excessDigits p x.natAbs x.natAbs hn
  have hunit : 10 ≤ 10 ^ excessDigits (p + 1) x.natAbs x.natAbs :=
    Nat.le_self_pow (hexcess hfuel).ne' 10
  have hround := Nat.mul_le_mul (hdiv.trans (div_le_roundHalfEven _ _)) hunit
  unfold roundDigits
  rw [Int.sign_eq_one_of_pos hpos, one_mul]
  rw [← pow_succ] at hround
  exact_mod_cast hround

/-! ## Running sums -/

/-- A number `x` that was added up with `p` digits where the exact sum is `y`: it is exact, or both
are too large for the digits. -/
def Holds (p : ℕ) (x y : ℤ) : Prop := (x = y ∧ y < 10 ^ p) ∨ (10 ^ p ≤ x ∧ 10 ^ p ≤ y)

lemma Holds.add {x y b : ℤ} (h : Holds (p + 1) x y) (hy : 0 ≤ y) (hb : 0 ≤ b) :
    Holds (p + 1) (roundDigits (p + 1) (x + b)) (y + b) := by
  rcases h with ⟨rfl, hlt⟩ | ⟨hx, hy⟩
  · by_cases hfits : x + b < 10 ^ (p + 1)
    · refine .inl ⟨roundDigits_of_lt ?_, hfits⟩
      have : ((x + b).natAbs : ℤ) < (10 ^ (p + 1) : ℕ) := by
        rw [Int.natAbs_of_nonneg (by omega)]
        exact_mod_cast hfits
      exact_mod_cast this
    · exact .inr ⟨pow_le_roundDigits (not_lt.1 hfits), not_lt.1 hfits⟩
  · exact .inr ⟨pow_le_roundDigits (by omega), by omega⟩

end SlithyTove.Framework
