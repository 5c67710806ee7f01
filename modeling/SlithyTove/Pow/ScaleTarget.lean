import SlithyTove.Arith.BaseUintValue

/-!
# `ScaleTarget`: a target times a ratio of times, saturated at a limit

`ScaleTarget(target, elapsed, interval, limit)` of `pow.cpp` computes
`target · elapsed / interval` on 256-bit values whose product with an `int64_t` does not fit.
It divides first: with `target = quotient · interval + remainder` the result is
`quotient · elapsed + remainder · elapsed / interval`, and each summand is compared with what
is left of the limit before it is formed.

`scaleLocals` are the four values the function computes before its first test,
`scaleTargetExit` is the function together with the `return` statement it leaves through, and
`scaleTarget` is the value it returns.  `scaleTarget_eq_min` reads all three over the exact
integers.
-/

namespace SlithyTove

open BaseUint Nat

/-! ## The function -/

/-- The locals of `ScaleTarget` up to its first test. -/
structure ScaleLocals where
  multiplier : ArithUint256
  divisor : ArithUint256
  quotient : ArithUint256
  remainder : ArithUint256

/-- The `return` statement `ScaleTarget` leaves through. -/
inductive ScaleExit
  /-- `if (quotient > limit / multiplier) return limit;` -/
  | quotientOverLimit
  /-- `if (tail > limit - base) return limit;` -/
  | tailOverLimit
  /-- `return base + tail;` -/
  | exact (result : ArithUint256)
  deriving DecidableEq

namespace ScaleExit

/-- The value returned. -/
def value (limit : ArithUint256) : ScaleExit → ArithUint256
  | quotientOverLimit => limit
  | tailOverLimit => limit
  | exact result => result

/-- The exit is one of the two saturation branches. -/
def Saturates : ScaleExit → Prop
  | exact _ => False
  | _ => True

end ScaleExit

/-- `ScaleTarget` up to its first test: the assertion, the two casts to `uint64_t` and the
split of the target. -/
def scaleLocals (target : ArithUint256) (elapsed interval : Int64) :
    Except String ScaleLocals := do
  if ¬ (0 < elapsed ∧ 0 < interval) then throw "elapsed > 0 && interval > 0"
  let multiplier : ArithUint256 := ofUInt64 elapsed.toUInt64
  let divisor : ArithUint256 := ofUInt64 interval.toUInt64
  let quotient ← div target divisor
  let remainder := sub target (mul quotient divisor)
  return { multiplier, divisor, quotient, remainder }

/-- `ScaleTarget`, with the exit it takes. -/
def scaleTargetExit (target : ArithUint256) (elapsed interval : Int64) (limit : ArithUint256) :
    Except String ScaleExit := do
  let l ← scaleLocals target elapsed interval
  let bound ← div limit l.multiplier
  if gt l.quotient bound then return .quotientOverLimit
  let base := mul l.quotient l.multiplier
  let tail ← div (mul l.remainder l.multiplier) l.divisor
  if gt tail (sub limit base) then return .tailOverLimit
  return .exact (add base tail)

/-- `ScaleTarget`. -/
def scaleTarget (target : ArithUint256) (elapsed interval : Int64) (limit : ArithUint256) :
    Except String ArithUint256 :=
  (scaleTargetExit target elapsed interval limit).map (ScaleExit.value limit)

/-! ## Over the exact integers -/

/-- `floor (target · elapsed / interval)`, the value `ScaleTarget` approximates. -/
def exactScale (target elapsed interval : ℕ) : ℕ := target * elapsed / interval

lemma exactScale_split (target elapsed : ℕ) {interval : ℕ} (hi : 0 < interval) :
    exactScale target elapsed interval =
      target / interval * elapsed + target % interval * elapsed / interval := by
  have hsplit : target * elapsed =
      interval * (target / interval * elapsed) + target % interval * elapsed := by
    conv_lhs => rw [← div_add_mod target interval]
    ring
  rw [exactScale, hsplit, mul_add_div hi]

lemma exactScale_mono {target e₁ e₂ : ℕ} (interval : ℕ) (h : e₁ ≤ e₂) :
    exactScale target e₁ interval ≤ exactScale target e₂ interval :=
  Nat.div_le_div_right (Nat.mul_le_mul_left _ h)

lemma toNat_toUInt64_of_pos {x : Int64} (hx : 0 < x) : x.toUInt64.toNat = x.toInt.toNat := by
  have hpos : 0 < x.toInt := Int64.lt_iff_toInt_lt.1 hx
  have hcast := BitVec.toInt_eq_toNat_cond x.toBitVec
  change x.toBitVec.toNat = x.toBitVec.toInt.toNat
  change 0 < x.toBitVec.toInt at hpos
  split at hcast <;> omega

lemma toInt_toNat_of_pos {x : Int64} (hx : 0 < x) :
    0 < x.toInt.toNat ∧ x.toInt.toNat < 2 ^ 63 := by
  have hpos : 0 < x.toInt := Int64.lt_iff_toInt_lt.1 hx
  have hlt := x.toInt_lt
  omega

section Positive

variable {target limit : ArithUint256} {elapsed interval : Int64}

/-- What `scaleLocals` leaves: the two operands, and quotient and remainder of the target. -/
structure ScaleLocals.Spec (target : ArithUint256) (elapsed interval : Int64) (l : ScaleLocals) :
    Prop where
  multiplier_eq : l.multiplier.toNat = elapsed.toInt.toNat
  divisor_eq : l.divisor.toNat = interval.toInt.toNat
  quotient_eq : l.quotient.toNat = target.toNat / interval.toInt.toNat
  remainder_eq : l.remainder.toNat = target.toNat % interval.toInt.toNat

variable {l : ScaleLocals}

lemma ScaleLocals.Spec.toNat_mul_divisor (h : ScaleLocals.Spec target elapsed interval l) :
    (mul l.quotient l.divisor).toNat = l.quotient.toNat * l.divisor.toNat := by
  rw [toNat_mul, h.quotient_eq, h.divisor_eq]
  exact mod_eq_of_lt (lt_of_le_of_lt (div_mul_le_self _ _) target.toNat_lt)

/-- `remainder * multiplier` does not wrap: both factors are below `2⁶³`. -/
lemma ScaleLocals.Spec.toNat_mul_remainder (he : 0 < elapsed)
    (hi : 0 < interval) (h : ScaleLocals.Spec target elapsed interval l) :
    (mul l.remainder l.multiplier).toNat = l.remainder.toNat * l.multiplier.toNat := by
  rw [toNat_mul]
  refine mod_eq_of_lt ?_
  obtain ⟨hipos, hilt⟩ := toInt_toNat_of_pos hi
  have hrem : l.remainder.toNat < 2 ^ 63 := by
    rw [h.remainder_eq]
    exact (mod_lt _ hipos).trans hilt
  have hmul : l.multiplier.toNat < 2 ^ 63 := by
    rw [h.multiplier_eq]
    exact (toInt_toNat_of_pos he).2
  calc l.remainder.toNat * l.multiplier.toNat < 2 ^ 63 * 2 ^ 63 :=
        mul_lt_mul'' hrem hmul
    _ ≤ 2 ^ (32 * 8) := by norm_num

lemma scaleLocals_spec (target : ArithUint256) (he : 0 < elapsed) (hi : 0 < interval) :
    ∃ l, scaleLocals target elapsed interval = .ok l ∧
      ScaleLocals.Spec target elapsed interval l := by
  have hmul : (ofUInt64 elapsed.toUInt64 : ArithUint256).toNat = elapsed.toInt.toNat := by
    rw [toNat_ofUInt64 (by decide), toNat_toUInt64_of_pos he]
  have hdivisor : (ofUInt64 interval.toUInt64 : ArithUint256).toNat = interval.toInt.toNat := by
    rw [toNat_ofUInt64 (by decide), toNat_toUInt64_of_pos hi]
  have hipos := (toInt_toNat_of_pos hi).1
  obtain ⟨q, hq, hqval⟩ := div_spec target (ofUInt64 interval.toUInt64 : ArithUint256)
    (by rw [hdivisor]; omega)
  rw [hdivisor] at hqval
  have hrun : scaleLocals target elapsed interval =
      .ok ⟨ofUInt64 elapsed.toUInt64, ofUInt64 interval.toUInt64, q,
        sub target (mul q (ofUInt64 interval.toUInt64))⟩ := by
    simp [scaleLocals, he, hi, hq, bind, Except.bind, pure, Except.pure]
  have hprod : (mul q (ofUInt64 interval.toUInt64)).toNat =
      target.toNat / interval.toInt.toNat * interval.toInt.toNat := by
    rw [toNat_mul, hqval, hdivisor]
    exact mod_eq_of_lt (lt_of_le_of_lt (div_mul_le_self _ _) target.toNat_lt)
  have hle : (mul q (ofUInt64 interval.toUInt64)).toNat ≤ target.toNat := by
    rw [hprod]
    exact div_mul_le_self _ _
  refine ⟨_, hrun, hmul, hdivisor, hqval, ?_⟩
  rw [toNat_sub_of_le hle, hprod]
  have := div_add_mod' target.toNat interval.toInt.toNat
  omega

/-- What the exit says about the exact integers. -/
structure ScaleExit.Spec (target : ArithUint256) (elapsed interval : Int64)
    (limit : ArithUint256) (l : ScaleLocals) (e : ScaleExit) : Prop where
  value_eq : (e.value limit).toNat =
    min limit.toNat (exactScale target.toNat elapsed.toInt.toNat interval.toInt.toNat)
  saturates_iff : e.Saturates ↔
    limit.toNat < exactScale target.toNat elapsed.toInt.toNat interval.toInt.toNat
  base_exact : e ≠ .quotientOverLimit →
    (mul l.quotient l.multiplier).toNat = l.quotient.toNat * l.multiplier.toNat

/-- The rest of `ScaleTarget` from correct locals: each saturation test compares one summand of
the split quotient with what is left of the limit. -/
lemma scaleTargetExit_spec (he : 0 < elapsed) (hi : 0 < interval)
    (hrun : scaleLocals target elapsed interval = .ok l)
    (hl : ScaleLocals.Spec target elapsed interval l) (limit : ArithUint256) :
    ∃ e, scaleTargetExit target elapsed interval limit = .ok e ∧
      ScaleExit.Spec target elapsed interval limit l e := by
  have hepos : 0 < l.multiplier.toNat := hl.multiplier_eq ▸ (toInt_toNat_of_pos he).1
  have hipos : 0 < l.divisor.toNat := hl.divisor_eq ▸ (toInt_toNat_of_pos hi).1
  obtain ⟨bound, hbound, hboundval⟩ := div_spec limit l.multiplier hepos.ne'
  obtain ⟨tail, htail, htailval⟩ := div_spec (mul l.remainder l.multiplier) l.divisor hipos.ne'
  rw [hl.toNat_mul_remainder he hi] at htailval
  -- The exact quotient is the sum of the two values the function compares with the limit.
  have hsum : exactScale target.toNat elapsed.toInt.toNat interval.toInt.toNat =
      l.quotient.toNat * l.multiplier.toNat + tail.toNat := by
    rw [exactScale_split _ _ (toInt_toNat_of_pos hi).1, htailval, hl.quotient_eq,
      hl.remainder_eq, hl.multiplier_eq, hl.divisor_eq]
  have hfirst : bound.toNat < l.quotient.toNat ↔
      limit.toNat < l.quotient.toNat * l.multiplier.toNat := by
    rw [hboundval, div_lt_iff_lt_mul hepos]
  by_cases hq : bound.toNat < l.quotient.toNat
  · have hover : limit.toNat < l.quotient.toNat * l.multiplier.toNat + tail.toNat :=
      lt_of_lt_of_le (hfirst.1 hq) (le_add_right _ _)
    refine ⟨.quotientOverLimit, ?_, ?_, ?_, by simp⟩
    · simp [scaleTargetExit, hrun, hbound, hq, bind, Except.bind, pure, Except.pure]
    · rw [hsum, min_eq_left hover.le, ScaleExit.value]
    · rw [hsum]
      exact iff_of_true trivial hover
  · -- The quotient's share fits the limit, so `base` is exact and `limit - base` is too.
    have hfits : l.quotient.toNat * l.multiplier.toNat ≤ limit.toNat := by
      rw [hfirst] at hq
      exact Nat.le_of_not_lt hq
    have hbase : (mul l.quotient l.multiplier).toNat =
        l.quotient.toNat * l.multiplier.toNat := by
      rw [toNat_mul]
      exact mod_eq_of_lt (lt_of_le_of_lt hfits limit.toNat_lt)
    have hleft : (sub limit (mul l.quotient l.multiplier)).toNat =
        limit.toNat - l.quotient.toNat * l.multiplier.toNat := by
      rw [toNat_sub_of_le (by rw [hbase]; exact hfits), hbase]
    by_cases ht : limit.toNat - l.quotient.toNat * l.multiplier.toNat < tail.toNat
    · have hover : limit.toNat < l.quotient.toNat * l.multiplier.toNat + tail.toNat :=
        (Nat.sub_lt_iff_lt_add' hfits).1 ht
      refine ⟨.tailOverLimit, ?_, ?_, ?_, fun _ => hbase⟩
      · simp [scaleTargetExit, hrun, hbound, hq, htail, hleft, ht, bind, Except.bind, pure,
          Except.pure]
      · rw [hsum, min_eq_left hover.le, ScaleExit.value]
      · rw [hsum]
        exact iff_of_true trivial hover
    · have hunder : l.quotient.toNat * l.multiplier.toNat + tail.toNat ≤ limit.toNat :=
        Nat.le_of_not_lt fun h => ht ((Nat.sub_lt_iff_lt_add' hfits).2 h)
      refine ⟨.exact (add (mul l.quotient l.multiplier) tail), ?_, ?_, ?_, fun _ => hbase⟩
      · simp [scaleTargetExit, hrun, hbound, hq, htail, hleft, ht, bind, Except.bind, pure,
          Except.pure]
      · rw [hsum, min_eq_right hunder, ScaleExit.value, toNat_add, hbase]
        exact mod_eq_of_lt (lt_of_le_of_lt hunder limit.toNat_lt)
      · rw [hsum]
        exact iff_of_false id hunder.not_gt

lemma scaleTarget_toNat (target limit : ArithUint256) (he : 0 < elapsed) (hi : 0 < interval) :
    ∃ r, scaleTarget target elapsed interval limit = .ok r ∧
      r.toNat =
        min limit.toNat (exactScale target.toNat elapsed.toInt.toNat interval.toInt.toNat) := by
  obtain ⟨l, hrun, hl⟩ := scaleLocals_spec target he hi
  obtain ⟨e, hexit, hspec⟩ := scaleTargetExit_spec he hi hrun hl limit
  exact ⟨e.value limit, by rw [scaleTarget, hexit]; rfl, hspec.value_eq⟩

/-- **`ScaleTarget` is exact and saturating.**  On every pair of positive times it returns
`min limit (target · elapsed / interval)` over the integers; its products do not wrap, and it
leaves through one of the saturating `return`s exactly when the exact quotient exceeds the
limit.  The product `quotient * multiplier` is formed only past the first test. -/
theorem scaleTarget_eq_min (target limit : ArithUint256) (elapsed interval : Int64)
    (he : 0 < elapsed) (hi : 0 < interval) :
    ∃ l e r, scaleLocals target elapsed interval = .ok l ∧
      scaleTargetExit target elapsed interval limit = .ok e ∧
      scaleTarget target elapsed interval limit = .ok r ∧
      r.toNat = min limit.toNat (target.toNat * elapsed.toInt.toNat / interval.toInt.toNat) ∧
      (e.Saturates ↔
        limit.toNat < target.toNat * elapsed.toInt.toNat / interval.toInt.toNat) ∧
      (mul l.quotient l.divisor).toNat = l.quotient.toNat * l.divisor.toNat ∧
      (mul l.remainder l.multiplier).toNat = l.remainder.toNat * l.multiplier.toNat ∧
      (e ≠ .quotientOverLimit →
        (mul l.quotient l.multiplier).toNat = l.quotient.toNat * l.multiplier.toNat) := by
  obtain ⟨l, hrun, hl⟩ := scaleLocals_spec target he hi
  obtain ⟨e, hexit, hspec⟩ := scaleTargetExit_spec he hi hrun hl limit
  exact ⟨l, e, e.value limit, hrun, hexit, by rw [scaleTarget, hexit]; rfl, hspec.value_eq,
    hspec.saturates_iff, hl.toNat_mul_divisor, hl.toNat_mul_remainder he hi, hspec.base_exact⟩

/-- The hypotheses are met, here with a saturated result: `100 · 7 / 3 = 233 > 200`. -/
theorem scaleTarget_eq_min_saturated :
    ∃ l e r, scaleLocals (ofUInt64 100) 7 3 = .ok l ∧
      scaleTargetExit (ofUInt64 100) 7 3 (ofUInt64 200) = .ok e ∧
      scaleTarget (ofUInt64 100) 7 3 (ofUInt64 200) = .ok r ∧ r.toNat = 200 ∧ e.Saturates := by
  have h100 : (ofUInt64 100 : ArithUint256).toNat = 100 := by rw [toNat_ofUInt64 (by decide)]; rfl
  have h200 : (ofUInt64 200 : ArithUint256).toNat = 200 := by rw [toNat_ofUInt64 (by decide)]; rfl
  obtain ⟨l, e, r, hl, he, hr, hval, hsat, -⟩ :=
    scaleTarget_eq_min (ofUInt64 100) (ofUInt64 200) 7 3 (by decide) (by decide)
  rw [h100, h200] at hval hsat
  exact ⟨l, e, r, hl, he, hr, by rw [hval]; decide, hsat.2 (by decide)⟩

end Positive

end SlithyTove
