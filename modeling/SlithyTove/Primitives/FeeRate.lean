import Mathlib.Tactic.LinearCombination
import SlithyTove.Framework.MachineInt
import SlithyTove.Primitives.FeeFrac

/-!
# The arithmetic of fee rates

`FeeFrac` (`util/feefrac.h`) multiplies a fee of 64 bits by a size of 32 bits, and divides the
product by a size.  Where the compiler has integers of 128 bits these are used; `MulFallback` and
`DivFallback` do without, with a high word of 64 bits and a low word of 32 bits.  Both ways are
`WideInt`s here, and both are exact (`WideInt.Exact`): the products are those of the integers, with
their order, and the quotients are rounded as they should be.  Comparing fee rates and evaluating
them at a size use nothing else of the wide integers.

A signed operation that leaves its range, or an assumption that fails, is `none`.
-/

namespace SlithyTove

open Framework Int Option

namespace FeeFrac

/-- `MulFallback`. -/
def mulFallback (a b : ℤ) : Option (ℤ × ℤ) := do
  let low ← checked 64 (a % 2 ^ 32 * b)
  let high ← checked 64 (a / 2 ^ 32 * b)
  let first ← checked 64 (high + low / 2 ^ 32)
  return (first, low % 2 ^ 32)

/-- `DivFallback`. -/
def divFallback (n : ℤ × ℤ) (d : ℤ) (roundDown : Bool) : Option ℤ :=
  if d > 0 then do
    let quotHigh := n.1.tdiv d
    let nLow ← checked 64 (wrap 64 (n.1.tmod d * 2 ^ 32) + n.2)
    let quotLow := nLow.tdiv d
    let modLow := wrap 32 (nLow.tmod d)
    let quotLow ← checked 64 (quotLow + roundingFix modLow roundDown)
    checked 64 (wrap 64 (quotHigh * 2 ^ 32) + quotLow)
  else none

/-- `Mul`, with integers of 128 bits. -/
def mul128 (a b : ℤ) : Option ℤ := checked 128 (a * b)

/-- `Div`, with integers of 128 bits. -/
def div128 (n d : ℤ) (roundDown : Bool) : Option ℤ :=
  if d > 0 then
    checked 64 (wrap 64 (n.tdiv d) + roundingFix (wrap 32 (n.tmod d)) roundDown)
  else none

/-- The comparison of pairs. -/
def comparePair (m n : ℤ × ℤ) : Ordering := (compare m.1 n.1).then (compare m.2 n.2)

end FeeFrac

/-- The products that `Mul` returns and `Div` takes. -/
structure WideInt where
  Carrier : Type
  mul : ℤ → ℤ → Option Carrier
  div : Carrier → ℤ → Bool → Option ℤ
  compare : Carrier → Carrier → Ordering

namespace WideInt

/-- With integers of 128 bits. -/
def int128 : WideInt := ⟨ℤ, FeeFrac.mul128, FeeFrac.div128, Ord.compare⟩

/-- Without them. -/
def fallback : WideInt := ⟨ℤ × ℤ, FeeFrac.mulFallback, FeeFrac.divFallback, FeeFrac.comparePair⟩

end WideInt

namespace FeeFrac

section Model

variable (wide : WideInt)

/-- `FeeRateCompare`. -/
def feeRateCompare (a b : FeeFrac) : Option Ordering := do
  let crossA ← wide.mul a.fee b.size
  let crossB ← wide.mul b.fee a.size
  return wide.compare crossA crossB

/-- `EvaluateFee`: the general case uses `Mul` and `Div`. -/
def evaluateFee (roundDown : Bool) (f : FeeFrac) (atSize : ℤ) : Option ℤ :=
  if f.size > 0 ∧ atSize ≥ 0 then
    if f.fee ≥ 0 ∧ f.fee < 0x200000000 then
      let product := f.fee % 2 ^ 64 * (atSize % 2 ^ 64) % 2 ^ 64
      if roundDown then some (wrap 64 (product / (f.size % 2 ^ 32)))
      else
        let sum := ((product + f.size % 2 ^ 64) % 2 ^ 64 - 1) % 2 ^ 64
        some (wrap 64 (sum / (f.size % 2 ^ 32)))
    else do
      let n ← wide.mul f.fee atSize
      wide.div n f.size roundDown
  else none

/-- `EvaluateFeeDown`. -/
def evaluateFeeDown (f : FeeFrac) (atSize : ℤ) : Option ℤ := evaluateFee wide true f atSize

/-- `EvaluateFeeUp`. -/
def evaluateFeeUp (f : FeeFrac) (atSize : ℤ) : Option ℤ := evaluateFee wide false f atSize

end Model

/-! ## The two words -/

/-- A high word of 64 bits and a low word of 32 bits. -/
def IsWide (n : ℤ × ℤ) : Prop := InRange 64 n.1 ∧ 0 ≤ n.2 ∧ n.2 < 2 ^ 32

/-- The number of 96 bits. -/
def wideValue (n : ℤ × ℤ) : ℤ := n.1 * 2 ^ 32 + n.2

lemma mul_bounds {x b k : ℤ} (hb : InRange 32 b) (hlow : -k ≤ x) (hhigh : x ≤ k) :
    -(k * 2147483648) ≤ x * b ∧ x * b ≤ k * 2147483648 := by
  rw [inRange_32] at hb
  have hx : |x| ≤ k := abs_le.mpr ⟨hlow, hhigh⟩
  have hb' : |b| ≤ 2147483648 := abs_le.mpr ⟨by omega, by omega⟩
  have hproduct : |x * b| ≤ k * 2147483648 := by
    rw [abs_mul]
    exact mul_le_mul hx hb' (abs_nonneg b) ((abs_nonneg x).trans hx)
  exact abs_le.mp hproduct

/-- **`MulFallback` is exact.** -/
lemma mulFallback_eq {a b : ℤ} (ha : InRange 64 a) (hb : InRange 32 b) :
    ∃ n, mulFallback a b = some n ∧ IsWide n ∧ wideValue n = a * b := by
  have ha' := inRange_64.mp ha
  obtain ⟨hlow, hlow'⟩ := mul_bounds (x := a % 2 ^ 32) (k := 4294967295) hb (by omega) (by omega)
  obtain ⟨hhigh, hhigh'⟩ := mul_bounds (x := a / 2 ^ 32) (k := 2147483648) hb (by omega) (by omega)
  have hsplit : a / 2 ^ 32 * b * 2 ^ 32 + a % 2 ^ 32 * b = a * b := by
    have hmod := mul_ediv_add_emod a (2 ^ 32)
    calc a / 2 ^ 32 * b * 2 ^ 32 + a % 2 ^ 32 * b = (2 ^ 32 * (a / 2 ^ 32) + a % 2 ^ 32) * b := by
          ring
      _ = a * b := by rw [hmod]
  have hrun : mulFallback a b = some (a / 2 ^ 32 * b + a % 2 ^ 32 * b / 2 ^ 32,
      a % 2 ^ 32 * b % 2 ^ 32) := by
    simp only [mulFallback, checked_of_inRange (inRange_64.mpr ⟨by omega, by omega⟩ :
        InRange 64 (a % 2 ^ 32 * b)), checked_of_inRange (inRange_64.mpr ⟨by omega, by omega⟩ :
        InRange 64 (a / 2 ^ 32 * b)), bind_eq_bind, bind_some,
      checked_of_inRange (inRange_64.mpr ⟨by omega, by omega⟩ :
        InRange 64 (a / 2 ^ 32 * b + a % 2 ^ 32 * b / 2 ^ 32))]
    rfl
  refine ⟨_, hrun, ⟨inRange_64.mpr ⟨by omega, by omega⟩, ?_, ?_⟩, ?_⟩
  · show 0 ≤ a % 2 ^ 32 * b % 2 ^ 32
    omega
  · show a % 2 ^ 32 * b % 2 ^ 32 < 2 ^ 32
    omega
  · show (a / 2 ^ 32 * b + a % 2 ^ 32 * b / 2 ^ 32) * 2 ^ 32 + a % 2 ^ 32 * b % 2 ^ 32 = a * b
    omega

lemma comparePair_eq {m n : ℤ × ℤ} (hm : IsWide m) (hn : IsWide n) :
    comparePair m n = compare (wideValue m) (wideValue n) := by
  obtain ⟨-, hm₀, hm₁⟩ := hm
  obtain ⟨-, hn₀, hn₁⟩ := hn
  unfold comparePair wideValue
  obtain hlt | heq | hgt := lt_trichotomy m.1 n.1
  · rw [compare_lt_iff_lt.mpr hlt, eq_comm]
    exact compare_lt_iff_lt.mpr (by omega)
  · rw [heq, compare_eq_iff_eq.mpr rfl, Ordering.then]
    exact compare_congr (by omega) (by omega)
  · rw [compare_gt_iff_gt.mpr hgt, eq_comm]
    exact compare_gt_iff_gt.mpr (by omega)

/-- **`DivFallback` is exact**, where the result fits. -/
lemma divFallback_eq {n : ℤ × ℤ} {d : ℤ} {roundDown : Bool} (hn : IsWide n) (hd : InRange 32 d)
    (hpos : 0 < d) (hfits : InRange 64 (rounded (wideValue n) d roundDown)) :
    divFallback n d roundDown = some (rounded (wideValue n) d roundDown) := by
  obtain ⟨hfirst, hsecond, hsecond'⟩ := hn
  rw [inRange_64] at hfirst
  have hd' := inRange_32.mp hd
  obtain ⟨hrem, hrem'⟩ := tmod_bounds (n := n.1) hpos
  have hhigh := mul_tdiv_add_tmod n.1 d
  have hshift : wrap 64 (n.1.tmod d * 2 ^ 32) = n.1.tmod d * 2 ^ 32 :=
    wrap_of_inRange_64 (inRange_64.mpr ⟨by omega, by omega⟩)
  obtain ⟨nLow, hnLow⟩ : ∃ nLow, nLow = n.1.tmod d * 2 ^ 32 + n.2 := ⟨_, rfl⟩
  obtain ⟨hmod, hmod'⟩ := tmod_bounds (n := nLow) hpos
  have hmodLow : wrap 32 (nLow.tmod d) = nLow.tmod d :=
    wrap_of_inRange_32 (inRange_32.mpr ⟨by omega, by omega⟩)
  have hlow := rounded_eq_tdiv (n := nLow) hpos roundDown
  have hquotLow : -2 ^ 32 ≤ rounded nLow d roundDown := le_rounded hpos (by omega) roundDown
  have hquotLow' : rounded nLow d roundDown ≤ 2 ^ 32 := rounded_le hpos (by omega) roundDown
  have hresult : rounded (wideValue n) d roundDown =
      n.1.tdiv d * 2 ^ 32 + rounded nLow d roundDown := by
    have hvalue : wideValue n = (n.1.tdiv d * 2 ^ 32 + nLow.tdiv d) * d + nLow.tmod d := by
      have hdiv := mul_tdiv_add_tmod nLow d
      unfold wideValue
      linear_combination 2 ^ 32 * hhigh.symm + hdiv.symm - hnLow
    rw [rounded_eq hpos hvalue hmod hmod', hlow, add_assoc]
  rw [hresult, inRange_64] at hfits
  have hquotHigh : InRange 64 (n.1.tdiv d * 2 ^ 32) := by
    rw [inRange_64]
    obtain hsign | hsign := le_or_gt 0 n.1
    · have hquot := Int.tdiv_nonneg hsign hpos.le
      have hrem₀ := tmod_nonneg d hsign
      have hlow₀ : 0 ≤ rounded nLow d roundDown := le_rounded hpos (by omega) roundDown
      omega
    · obtain ⟨hquot, hrem₀⟩ := tdiv_tmod_nonpos hpos hsign
      have hlow₁ : rounded nLow d roundDown ≤ 2 ^ 32 - 1 :=
        rounded_le hpos (by omega) roundDown
      omega
  rw [divFallback, if_pos hpos, hshift, ← hnLow,
    checked_of_inRange (inRange_64.mpr ⟨by omega, by omega⟩ : InRange 64 nLow)]
  simp only [bind_eq_bind, bind_some]
  rw [hmodLow, ← hlow, checked_of_inRange (inRange_64.mpr ⟨by omega, by omega⟩ :
    InRange 64 (rounded nLow d roundDown))]
  simp only [bind_some]
  rw [wrap_of_inRange_64 hquotHigh, hresult, checked_of_inRange (inRange_64.mpr hfits)]

/-! ## Integers of 128 bits -/

lemma mul128_eq {a b : ℤ} (ha : InRange 64 a) (hb : InRange 32 b) :
    mul128 a b = some (a * b) := by
  have ha' := inRange_64.mp ha
  obtain ⟨hlow, hhigh⟩ := mul_bounds (x := a) (k := 9223372036854775808) hb (by omega) (by omega)
  refine checked_of_inRange ⟨?_, ?_⟩
  · norm_num
    omega
  · norm_num
    omega

lemma div128_eq {n d : ℤ} {roundDown : Bool} (hd : InRange 32 d) (hpos : 0 < d)
    (hfits : InRange 64 (rounded n d roundDown)) :
    div128 n d roundDown = some (rounded n d roundDown) := by
  have hd' := inRange_32.mp hd
  obtain ⟨hmod, hmod'⟩ := tmod_bounds (n := n) hpos
  have heq := rounded_eq_tdiv (n := n) hpos roundDown
  have hfits' := inRange_64.mp hfits
  have hquot : InRange 64 (n.tdiv d) := by
    rw [inRange_64]
    obtain hsign | hsign := le_or_gt 0 n
    · have hquot := Int.tdiv_nonneg hsign hpos.le
      have hfix := roundingFix_nonneg (tmod_nonneg d hsign) roundDown
      omega
    · obtain ⟨hquot, hmod₀⟩ := tdiv_tmod_nonpos hpos hsign
      have hfix := roundingFix_nonpos hmod₀ roundDown
      omega
  rw [div128, if_pos hpos, wrap_of_inRange_64 hquot,
    wrap_of_inRange_32 (inRange_32.mpr ⟨by omega, by omega⟩), ← heq, checked_of_inRange hfits]

end FeeFrac

/-! ## Either way -/

/-- Wide integers that stand for integers. -/
structure WideInt.Exact (wide : WideInt) (IsWide : wide.Carrier → Prop)
    (value : wide.Carrier → ℤ) : Prop where
  mul : ∀ {a b : ℤ}, InRange 64 a → InRange 32 b →
    ∃ n, wide.mul a b = some n ∧ IsWide n ∧ value n = a * b
  compare : ∀ {m n : wide.Carrier}, IsWide m → IsWide n →
    wide.compare m n = Ord.compare (value m) (value n)
  div : ∀ {n : wide.Carrier} {d : ℤ} {roundDown : Bool}, IsWide n → InRange 32 d → 0 < d →
    InRange 64 (rounded (value n) d roundDown) →
    wide.div n d roundDown = some (rounded (value n) d roundDown)

namespace WideInt

lemma fallback_exact : fallback.Exact FeeFrac.IsWide FeeFrac.wideValue where
  mul := FeeFrac.mulFallback_eq
  compare := FeeFrac.comparePair_eq
  div := FeeFrac.divFallback_eq

lemma int128_exact : int128.Exact (fun _ => True) id where
  mul ha hb := ⟨_, FeeFrac.mul128_eq ha hb, trivial, rfl⟩
  compare _ _ := rfl
  div _ := FeeFrac.div128_eq

lemma exists_exact {wide : WideInt} (h : wide = int128 ∨ wide = fallback) :
    ∃ IsWide value, wide.Exact IsWide value := by
  obtain rfl | rfl := h
  · exact ⟨_, _, int128_exact⟩
  · exact ⟨_, _, fallback_exact⟩

end WideInt

namespace FeeFrac

section Exact

variable {wide : WideInt} {IsWide : wide.Carrier → Prop} {value : wide.Carrier → ℤ}
  (hwide : wide.Exact IsWide value)

include hwide

lemma feeRateCompare_eq {a b : FeeFrac} (ha : InRange 64 a.fee) (ha' : InRange 32 a.size)
    (hb : InRange 64 b.fee) (hb' : InRange 32 b.size) :
    feeRateCompare wide a b = some (compare (a.fee * b.size) (b.fee * a.size)) := by
  obtain ⟨m, hm, hmWide, hmValue⟩ := hwide.mul ha hb'
  obtain ⟨n, hn, hnWide, hnValue⟩ := hwide.mul hb ha'
  simp only [feeRateCompare, hm, hn, bind_eq_bind, bind_some,
    hwide.compare hmWide hnWide, hmValue, hnValue]
  rfl

/-- **The comparisons of fractions** are those of the source. -/
lemma higher_eq_feeRateCompare {a b : FeeFrac} (ha : a.Representable) (hb : b.Representable) :
    a.higher b = decide (feeRateCompare wide a b = some .gt) ∧
      a.less b = decide (feeRateCompare wide a b = some .lt ∨
        feeRateCompare wide a b = some .eq ∧ b.size < a.size) := by
  rw [feeRateCompare_eq hwide ha.1 ha.2 hb.1 hb.2, FeeFrac.higher, FeeFrac.less]
  rcases lt_trichotomy (a.fee * b.size) (b.fee * a.size) with hlt | heq | hgt
  · simp [compare_lt_iff_lt.2 hlt, hlt, hlt.ne, hlt.le]
  · simp [heq]
  · simp [compare_gt_iff_gt.2 hgt, hgt, hgt.ne', hgt.le]

/-- **A fee at a size is the exact one, rounded.** -/
lemma evaluateFee_eq {f : FeeFrac} {atSize : ℤ} {roundDown : Bool} (hfee : InRange 64 f.fee)
    (hsize : InRange 32 f.size) (hpos : 0 < f.size) (hat : InRange 32 atSize) (hat' : 0 ≤ atSize)
    (hfits : InRange 64 (rounded (f.fee * atSize) f.size roundDown)) :
    evaluateFee wide roundDown f atSize = some (rounded (f.fee * atSize) f.size roundDown) := by
  rw [evaluateFee, if_pos ⟨hpos, hat'⟩]
  split
  next hfast =>
    rw [inRange_32] at hat hsize
    have hproduct : f.fee * atSize ≤ 8589934591 * 2147483647 :=
      mul_le_mul (by omega) (by omega) hat' (by omega)
    have hproduct₀ : 0 ≤ f.fee * atSize := mul_nonneg hfast.1 hat'
    rw [emod_eq_of_lt hfast.1 (by omega), emod_eq_of_lt hat' (by omega),
      emod_eq_of_lt hproduct₀ (by omega), emod_eq_of_lt hpos.le (by omega)]
    cases roundDown with
    | true =>
      rw [rounded_true_eq_ediv hpos] at hfits ⊢
      simp only [if_true]
      rw [wrap_of_inRange_64 hfits]
    | false =>
      rw [rounded_false_eq_ediv hpos] at hfits ⊢
      simp only [Bool.false_eq_true, if_false]
      rw [emod_eq_of_lt hpos.le (by omega),
        emod_eq_of_lt (by omega : 0 ≤ f.fee * atSize + f.size) (by omega),
        emod_eq_of_lt (by omega) (by omega), wrap_of_inRange_64 hfits]
  next hslow =>
    obtain ⟨n, hn, hnWide, hnValue⟩ := hwide.mul hfee hat
    rw [← hnValue] at hfits ⊢
    simp only [hn, bind_eq_bind, bind_some]
    exact hwide.div hnWide hsize hpos hfits

end Exact

/-! ## Exact rationals -/

lemma compare_mul_eq {a b : FeeFrac} (ha : 0 < a.size) (hb : 0 < b.size) :
    compare (a.fee * b.size) (b.fee * a.size) =
      compare ((a.fee : ℚ) / a.size) ((b.fee : ℚ) / b.size) := by
  have ha' : (0 : ℚ) < a.size := by exact_mod_cast ha
  have hb' : (0 : ℚ) < b.size := by exact_mod_cast hb
  refine compare_congr ?_ ?_
  · rw [div_lt_div_iff₀ ha' hb']
    norm_cast
  · rw [div_lt_div_iff₀ hb' ha']
    norm_cast

/-- **The arithmetic of fee rates is exact.**  `MulFallback` gives the product in two words that are
compared as the products are, `DivFallback` gives the floor or the ceiling of the quotient of any
two words, and with or without integers of 128 bits fee rates are compared as rational numbers and
are evaluated at a size to the floor or the ceiling of the rational number.  Quotients have to
fit. -/
theorem feeRate_arithmetic_exact :
    (∀ a b : ℤ, InRange 64 a → InRange 32 b →
      ∃ n, mulFallback a b = some n ∧ IsWide n ∧ wideValue n = a * b) ∧
    (∀ m n : ℤ × ℤ, IsWide m → IsWide n →
      comparePair m n = compare (wideValue m) (wideValue n)) ∧
    (∀ (n : ℤ × ℤ) (d : ℤ), IsWide n → InRange 32 d → 0 < d →
      (InRange 64 ⌊(wideValue n : ℚ) / d⌋ →
        divFallback n d true = some ⌊(wideValue n : ℚ) / d⌋) ∧
      (InRange 64 ⌈(wideValue n : ℚ) / d⌉ →
        divFallback n d false = some ⌈(wideValue n : ℚ) / d⌉)) ∧
    ∀ wide, wide = WideInt.int128 ∨ wide = WideInt.fallback →
      (∀ a b : FeeFrac, InRange 64 a.fee → InRange 32 a.size → InRange 64 b.fee →
        InRange 32 b.size → 0 < a.size → 0 < b.size →
        feeRateCompare wide a b =
          some (compare ((a.fee : ℚ) / a.size) ((b.fee : ℚ) / b.size))) ∧
      ∀ (f : FeeFrac) (atSize : ℤ), InRange 64 f.fee → InRange 32 f.size → 0 < f.size →
        InRange 32 atSize → 0 ≤ atSize →
        (InRange 64 ⌊(f.fee : ℚ) * atSize / f.size⌋ →
          evaluateFeeDown wide f atSize = some ⌊(f.fee : ℚ) * atSize / f.size⌋) ∧
        (InRange 64 ⌈(f.fee : ℚ) * atSize / f.size⌉ →
          evaluateFeeUp wide f atSize = some ⌈(f.fee : ℚ) * atSize / f.size⌉) := by
  refine ⟨fun a b ha hb => mulFallback_eq ha hb, fun m n hm hn => comparePair_eq hm hn, ?_, ?_⟩
  · intro n d hn hd hpos
    exact ⟨@divFallback_eq n d true hn hd hpos, @divFallback_eq n d false hn hd hpos⟩
  · intro wide hplatform
    obtain ⟨_, _, hwide⟩ := WideInt.exists_exact hplatform
    refine ⟨fun a b ha ha' hb hb' hpos hpos' => ?_,
      fun f atSize hfee hsize hpos hat hat' => ?_⟩
    · rw [feeRateCompare_eq hwide ha ha' hb hb', compare_mul_eq hpos hpos']
    · have hfloor := @evaluateFee_eq wide _ _ hwide f atSize true hfee hsize hpos hat hat'
      have hceil := @evaluateFee_eq wide _ _ hwide f atSize false hfee hsize hpos hat hat'
      simp only [rounded, if_true, Bool.false_eq_true, if_false, cast_mul] at hfloor hceil
      exact ⟨hfloor, hceil⟩

/-- Half of a negative fee of 64 bits, and a product that needs the high word. -/
theorem feeRate_arithmetic_exact_negative :
    (∃ n, mulFallback (-2 ^ 62 - 1) (2 ^ 31 - 1) = some n ∧ IsWide n ∧
      wideValue n = (-2 ^ 62 - 1) * (2 ^ 31 - 1)) ∧
    evaluateFeeDown WideInt.fallback ⟨-2 ^ 62 - 1, 2⟩ 1 =
      some ⌊((-2 ^ 62 - 1 : ℤ) : ℚ) * (1 : ℤ) / (2 : ℤ)⌋ := by
  obtain ⟨hmul, -, -, hwide⟩ := feeRate_arithmetic_exact
  have hfits : InRange 64 ⌊((-2 ^ 62 - 1 : ℤ) : ℚ) * (1 : ℤ) / (2 : ℤ)⌋ := by decide +kernel
  exact ⟨hmul _ _ (by decide) (by decide),
    ((hwide _ (.inr rfl)).2 ⟨-2 ^ 62 - 1, 2⟩ 1 (by decide) (by decide) (by decide) (by decide)
      (by decide)).1 hfits⟩

end FeeFrac

end SlithyTove
