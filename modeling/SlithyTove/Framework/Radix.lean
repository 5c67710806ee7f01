import Mathlib.Algebra.BigOperators.Intervals
import Mathlib.Algebra.BigOperators.Ring.Finset
import Mathlib.Data.Nat.Size
import Mathlib.Tactic.Ring

/-!
# Positional values

A multi-precision integer is stored as digits in a fixed base, least significant first.  This
file fixes its value, `radixValue B d n = ∑ i < n, d i * Bⁱ`, over an arbitrary digit
function, and the facts the limb arithmetic above it consumes:

* a value is below `Bⁿ` and splits at every digit boundary (`radixValue_lt`,
  `radixValue_add`);
* rewriting one digit moves the value by that digit's place (`radixValue_update`);
* values compare by their most significant differing digit (`radixValue_lt_of_digit_lt`);
* in base `2ʷ` the bits of the value are the bits of the digits (`testBit_radixValue`), which
  reduces every shift and every bitwise operation to digit bookkeeping.
-/

namespace SlithyTove.Framework

open Finset Nat

/-- The number whose base-`B` digits, least significant first, are `d 0, …, d (n-1)`. -/
def radixValue (B : ℕ) (d : ℕ → ℕ) (n : ℕ) : ℕ := ∑ i ∈ range n, d i * B ^ i

variable {B : ℕ} {d e : ℕ → ℕ} {n : ℕ}

@[simp] lemma radixValue_zero (B : ℕ) (d : ℕ → ℕ) : radixValue B d 0 = 0 := rfl

lemma radixValue_succ (B : ℕ) (d : ℕ → ℕ) (n : ℕ) :
    radixValue B d (n + 1) = radixValue B d n + d n * B ^ n :=
  sum_range_succ _ _

lemma radixValue_congr (h : ∀ i < n, d i = e i) : radixValue B d n = radixValue B e n :=
  sum_congr rfl fun i hi => by rw [h i (mem_range.1 hi)]

lemma radixValue_eq_zero (h : ∀ i < n, d i = 0) : radixValue B d n = 0 :=
  sum_eq_zero fun i hi => by rw [h i (mem_range.1 hi), zero_mul]

lemma radixValue_lt (h : ∀ i < n, d i < B) : radixValue B d n < B ^ n := by
  induction n with
  | zero => simp
  | succ n ih =>
    have hlow := ih fun i hi => h i (by omega)
    have hdigit : (d n + 1) * B ^ n ≤ B * B ^ n :=
      mul_le_mul_right _ (h n (by omega))
    rw [radixValue_succ, pow_succ, mul_comm (B ^ n)]
    rw [add_mul, one_mul] at hdigit
    omega

lemma radixValue_add (B : ℕ) (d : ℕ → ℕ) (m n : ℕ) :
    radixValue B d (m + n) = radixValue B d m + B ^ m * radixValue B (fun i => d (m + i)) n := by
  rw [radixValue, sum_range_add, radixValue, radixValue, mul_sum]
  congr 1
  refine sum_congr rfl fun i _ => ?_
  rw [pow_add]
  ring

lemma radixValue_eq_of_le {m : ℕ} (hmn : m ≤ n) (h : ∀ i, m ≤ i → i < n → d i = 0) :
    radixValue B d n = radixValue B d m := by
  obtain ⟨k, rfl⟩ := Nat.exists_eq_add_of_le hmn
  rw [radixValue_add, radixValue_eq_zero (fun i hi => h (m + i) (by omega) (by omega))]
  simp

lemma radixValue_update {k : ℕ} (hk : k < n) (x : ℕ) :
    radixValue B (Function.update d k x) n + d k * B ^ k = radixValue B d n + x * B ^ k := by
  have hmem : k ∈ range n := mem_range.2 hk
  rw [radixValue, radixValue, ← add_sum_erase _ _ hmem, ← add_sum_erase _
    (fun i => d i * B ^ i) hmem]
  have hrest : ∑ i ∈ (range n).erase k, Function.update d k x i * B ^ i =
      ∑ i ∈ (range n).erase k, d i * B ^ i :=
    sum_congr rfl fun i hi => by rw [Function.update_of_ne (ne_of_mem_erase hi)]
  rw [hrest, Function.update_self]
  ring

lemma radixValue_lt_of_digit_lt {k : ℕ} (hd : ∀ i < n, d i < B) (hk : k < n)
    (hlt : d k < e k) (habove : ∀ i, k < i → i < n → d i = e i) :
    radixValue B d n < radixValue B e n := by
  obtain ⟨m, rfl⟩ := Nat.exists_eq_add_of_le (show k + 1 ≤ n by omega)
  rw [radixValue_add, radixValue_add B e, radixValue_succ, radixValue_succ]
  have htop : radixValue B (fun i => d (k + 1 + i)) m = radixValue B (fun i => e (k + 1 + i)) m :=
    radixValue_congr fun i hi => habove _ (by omega) (by omega)
  have hlow : radixValue B d k < B ^ k := radixValue_lt fun i hi => hd i (by omega)
  have hdigit : (d k + 1) * B ^ k ≤ e k * B ^ k := mul_le_mul_right _ hlt
  rw [add_mul, one_mul] at hdigit
  rw [htop]
  omega

lemma digit_eq_of_radixValue_eq (hd : ∀ i < n, d i < B) (he : ∀ i < n, e i < B)
    (h : radixValue B d n = radixValue B e n) : ∀ i < n, d i = e i := by
  induction n with
  | zero => intro i hi; omega
  | succ n ih =>
    have hlt : ∀ {f g : ℕ → ℕ}, (∀ i < n + 1, f i < B) →
        radixValue B f (n + 1) = radixValue B g (n + 1) → ¬ f n < g n := by
      intro f g hf heq hlt
      exact absurd heq (radixValue_lt_of_digit_lt hf (lt_succ_self n) hlt
        (fun i h1 h2 => by omega)).ne
    have htop : d n = e n := by
      have h1 := hlt hd h
      have h2 := hlt he h.symm
      omega
    intro i hi
    by_cases hin : i = n
    · rw [hin, htop]
    · refine ih (fun j hj => hd j (by omega)) (fun j hj => he j (by omega)) ?_ i (by omega)
      rw [radixValue_succ, radixValue_succ, htop] at h
      omega

/-! ## Bits -/

lemma testBit_radixValue {w : ℕ} (hw : 0 < w) (hd : ∀ i < n, d i < 2 ^ w) (j : ℕ) :
    (radixValue (2 ^ w) d n).testBit j =
      if j / w < n then (d (j / w)).testBit (j % w) else false := by
  induction n with
  | zero => simp
  | succ n ih =>
    have hlow : radixValue (2 ^ w) d n < 2 ^ (w * n) := by
      rw [pow_mul]
      exact radixValue_lt fun i hi => hd i (by omega)
    have hform : radixValue (2 ^ w) d (n + 1) = 2 ^ (w * n) * d n + radixValue (2 ^ w) d n := by
      rw [radixValue_succ, ← pow_mul]
      ring
    rw [hform, testBit_two_pow_mul_add _ hlow, ih fun i hi => hd i (by omega)]
    have hdiv := div_add_mod j w
    by_cases hj : j < w * n
    · have hq : j / w < n := Nat.div_lt_of_lt_mul hj
      rw [if_pos hj, if_pos hq, if_pos (by omega)]
    · have hq : n ≤ j / w := (le_div_iff_mul_le hw).2 (by rw [mul_comm]; omega)
      rw [if_neg hj]
      by_cases hn : j / w = n
      · have hr : j - w * n = j % w := by rw [← hn]; omega
        rw [if_pos (by omega), hr, hn]
      · have hbig : w ≤ j - w * n := by
          have : w * (n + 1) ≤ w * (j / w) := mul_le_mul_left w (by omega)
          rw [mul_add, mul_one] at this
          omega
        rw [if_neg (by omega)]
        exact testBit_lt_two_pow
          (lt_of_lt_of_le (hd n (by omega)) (Nat.pow_le_pow_right (by omega) hbig))

end SlithyTove.Framework
