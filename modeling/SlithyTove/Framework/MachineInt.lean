import Mathlib.Data.Rat.Floor

/-!
# Signed machine integers

Signed arithmetic of a fixed width on mathematical integers.  A sum or product that leaves the range
is undefined, which `checked` shows as `none`; conversions and shifts wrap around.

Division of machine integers rounds towards zero.  `rounded` is the quotient rounded down or up, and
`rounded_eq` says how far a quotient with a small remainder of either sign is away from it.
-/

namespace SlithyTove.Framework

open Int

/-- In the range of a signed integer of this width. -/
def InRange (width : ℕ) (x : ℤ) : Prop := -2 ^ (width - 1) ≤ x ∧ x < 2 ^ (width - 1)

instance (width : ℕ) (x : ℤ) : Decidable (InRange width x) :=
  inferInstanceAs (Decidable (_ ∧ _))

variable {x : ℤ}

lemma inRange_64 : InRange 64 x ↔ -9223372036854775808 ≤ x ∧ x < 9223372036854775808 := by
  norm_num [InRange]

lemma inRange_32 : InRange 32 x ↔ -2147483648 ≤ x ∧ x < 2147483648 := by
  norm_num [InRange]

/-- The result of a signed operation. -/
def checked (width : ℕ) (x : ℤ) : Option ℤ := if InRange width x then some x else none

lemma checked_of_inRange {width : ℕ} (h : InRange width x) : checked width x = some x :=
  if_pos h

/-- A conversion to a signed integer. -/
def wrap (width : ℕ) (x : ℤ) : ℤ := x.bmod (2 ^ width)

lemma wrap_of_inRange_64 (h : InRange 64 x) : wrap 64 x = x := by
  rw [inRange_64] at h
  exact bmod_eq_of_le (by norm_num; omega) (by norm_num; omega)

lemma wrap_of_inRange_32 (h : InRange 32 x) : wrap 32 x = x := by
  rw [inRange_32] at h
  exact bmod_eq_of_le (by norm_num; omega) (by norm_num; omega)

lemma compare_congr {α β : Type*} [LinearOrder α] [LinearOrder β] {a b : α} {x y : β}
    (hlt : a < b ↔ x < y) (hgt : b < a ↔ y < x) : compare a b = compare x y := by
  obtain h | h | h := lt_trichotomy a b
  · rw [compare_lt_iff_lt.mpr h, compare_lt_iff_lt.mpr (hlt.mp h)]
  · have hxy : x = y := le_antisymm (not_lt.mp fun hyx => (hgt.mpr hyx).ne' h)
      (not_lt.mp fun hxy => (hlt.mpr hxy).ne h)
    rw [compare_eq_iff_eq.mpr h, compare_eq_iff_eq.mpr hxy]
  · rw [compare_gt_iff_gt.mpr h, compare_gt_iff_gt.mpr (hgt.mp h)]

/-! ## Rounding -/

/-- The quotient rounded down or up. -/
def rounded (n d : ℤ) (roundDown : Bool) : ℤ :=
  if roundDown then ⌊(n : ℚ) / d⌋ else ⌈(n : ℚ) / d⌉

/-- What a remainder with the sign of the dividend adds to the quotient. -/
def roundingFix (m : ℤ) (roundDown : Bool) : ℤ :=
  (if m > 0 then 1 else 0) - (if m ≠ 0 ∧ roundDown = true then 1 else 0)

variable {m : ℤ}

lemma roundingFix_nonneg (h : 0 ≤ m) (roundDown : Bool) : 0 ≤ roundingFix m roundDown := by
  unfold roundingFix
  split_ifs <;> omega

lemma roundingFix_nonpos (h : m ≤ 0) (roundDown : Bool) : roundingFix m roundDown ≤ 0 := by
  unfold roundingFix
  split_ifs <;> omega

lemma roundingFix_true : roundingFix m true = if m < 0 then -1 else 0 := by
  unfold roundingFix
  split_ifs <;> simp_all <;> omega

lemma roundingFix_false : roundingFix m false = if 0 < m then 1 else 0 := by
  unfold roundingFix
  split_ifs <;> simp_all

section Rounded

variable {n d q m z : ℤ} (hd : 0 < d)

include hd

lemma le_rounded (h : z * d ≤ n) (roundDown : Bool) : z ≤ rounded n d roundDown := by
  have hz : (z : ℚ) ≤ n / d := by
    rw [le_div_iff₀ (by exact_mod_cast hd)]
    exact_mod_cast h
  unfold rounded
  split
  · exact le_floor.mpr hz
  · exact_mod_cast hz.trans (le_ceil _)

lemma rounded_le (h : n ≤ z * d) (roundDown : Bool) : rounded n d roundDown ≤ z := by
  have hz : (n : ℚ) / d ≤ z := by
    rw [div_le_iff₀ (by exact_mod_cast hd)]
    exact_mod_cast h
  unfold rounded
  split
  · exact_mod_cast (floor_le _).trans hz
  · exact ceil_le.mpr hz

/-- **The quotient is off by the fix.** -/
lemma rounded_eq (hn : n = q * d + m) (hlow : -d < m) (hhigh : m < d) (roundDown : Bool) :
    rounded n d roundDown = q + roundingFix m roundDown := by
  have hd' : (0 : ℚ) < d := by exact_mod_cast hd
  cases roundDown with
  | true =>
    simp only [rounded, if_true]
    rw [floor_eq_iff, le_div_iff₀ hd', div_lt_iff₀ hd']
    norm_cast
    rw [roundingFix_true, hn]
    split_ifs
    · constructor <;> linarith
    · constructor <;> linarith
  | false =>
    simp only [rounded, Bool.false_eq_true, if_false]
    rw [ceil_eq_iff, lt_div_iff₀ hd', div_le_iff₀ hd']
    norm_cast
    rw [roundingFix_false, hn]
    split_ifs
    · constructor <;> linarith
    · constructor <;> linarith

lemma tmod_bounds : -d < n.tmod d ∧ n.tmod d < d := by
  have hneg : (-n).tmod d < d := tmod_lt_of_pos (-n) hd
  rw [neg_tmod] at hneg
  exact ⟨by omega, tmod_lt_of_pos n hd⟩

lemma tdiv_tmod_nonpos (hn : n < 0) : n.tdiv d ≤ 0 ∧ n.tmod d ≤ 0 := by
  have hdiv := Int.tdiv_nonneg (by omega : 0 ≤ -n) hd.le
  have hmod := tmod_nonneg d (by omega : 0 ≤ -n)
  rw [Int.neg_tdiv] at hdiv
  rw [neg_tmod] at hmod
  omega

lemma rounded_eq_tdiv (roundDown : Bool) :
    rounded n d roundDown = n.tdiv d + roundingFix (n.tmod d) roundDown := by
  obtain ⟨hlow, hhigh⟩ := tmod_bounds (n := n) hd
  exact rounded_eq hd (by rw [mul_comm]; exact (mul_tdiv_add_tmod n d).symm) hlow hhigh roundDown

lemma rounded_true_eq_ediv : rounded n d true = n / d := by
  have hmod := emod_nonneg n hd.ne'
  rw [rounded_eq hd (by rw [mul_comm]; exact (mul_ediv_add_emod n d).symm) (by omega)
    (emod_lt_of_pos n hd), roundingFix_true, if_neg (by omega), add_zero]

lemma rounded_false_eq_ediv : rounded n d false = (n + d - 1) / d := by
  have hmod := emod_nonneg (n + d - 1) hd.ne'
  have hmod' := emod_lt_of_pos (n + d - 1) hd
  have hdiv := mul_ediv_add_emod (n + d - 1) d
  rw [rounded_eq (q := (n + d - 1) / d) (m := (n + d - 1) % d - (d - 1)) hd (by linarith)
    (by omega) (by omega), roundingFix_false, if_neg (by omega), add_zero]

end Rounded

end SlithyTove.Framework
