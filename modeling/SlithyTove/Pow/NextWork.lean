import SlithyTove.Arith.Compact
import SlithyTove.Chain.BlockIndex
import SlithyTove.Consensus.Params
import SlithyTove.Pow.ScaleTarget

/-!
# Required work and the permitted transition

Two functions of `pow.cpp` decide what the `nBits` of a header may be.  `GetNextWorkRequired`
computes the one value full validation accepts, from the parent's index entry and the block
times of a whole period.  `PermittedDifficultyTransition` sees only two consecutive `nBits` and
a height, and is what header pre-synchronisation uses before any index entry exists.

The two retarget with the same `ScaleTarget` and the same compact rounding, the first at the
clamped elapsed time and the second at both ends of the clamp; since both steps are monotone,
`permittedDifficultyTransition_of_validChain` shows that the second never rejects what the
first requires.  The period's `nBits` enter through `nBits_eq_of_period`: inside a period every
header repeats its parent's value.
-/

namespace SlithyTove

open Framework BaseUint Nat

/-! ## The functions -/

/-- A block index whose entries carry the header fields proof of work reads. -/
structure HeaderTree (Node : Type) extends BlockTree Node where
  nTime : Node → UInt32
  nBits : Node → UInt32

/-- `GetBlockTime()`: the cast of `nTime` to `int64_t`. -/
def getBlockTime (nTime : UInt32) : Int64 := nTime.toUInt64.toInt64

/-- The scaled target, cut at the limit: the step every retarget computation shares. -/
def retarget (params : Params) (target : ArithUint256) (timespan : Int64) :
    Except String ArithUint256 := do
  let bnNew ← scaleTarget target timespan params.nPowTargetTimespan params.powLimit
  return if gt bnNew params.powLimit then params.powLimit else bnNew

/-- The clamp of `nActualTimespan` in `CalculateNextWorkRequired`. -/
def limitTimespan (params : Params) (nActualTimespan : Int64) : Int64 :=
  let low := if nActualTimespan < params.nPowTargetTimespan / 4
    then params.nPowTargetTimespan / 4 else nActualTimespan
  if low > params.nPowTargetTimespan * 4 then params.nPowTargetTimespan * 4 else low

section

variable {Node : Type} (H : HeaderTree Node) (params : Params)

/-- The first block of the period that ends with `pindexLast`. -/
def periodFirst (pindexLast : Node) : Except String (Option Node) := do
  let interval ← params.difficultyAdjustmentInterval
  H.getAncestor pindexLast ((H.depth pindexLast : ℤ) - (interval.toInt - 1))

/-- The target a retarget starts from: the last block's, or the period's first under BIP94. -/
def retargetBase (pindexLast : Node) : Except String ArithUint256 := do
  if params.enforce_BIP94 then
    match ← periodFirst H params pindexLast with
    | some pindexFirst => return (setCompact (H.nBits pindexFirst)).value
    | none => throw "pindexFirst is null"
  else return (setCompact (H.nBits pindexLast)).value

/-- `CalculateNextWorkRequired`. -/
def calculateNextWorkRequired (pindexLast : Node) (nFirstBlockTime : Int64) :
    Except String UInt32 := do
  if params.fPowNoRetargeting then return H.nBits pindexLast
  let nActualTimespan :=
    limitTimespan params (getBlockTime (H.nTime pindexLast) - nFirstBlockTime)
  let bnNew ← retargetBase H params pindexLast
  let bnNew ← retarget params bnNew nActualTimespan
  getCompact bnNew false

/-- The loop of the minimum-difficulty rule: back over blocks that took the exception. -/
def lastRegularBits (interval : Int64) (nProofOfWorkLimit : UInt32) : (fuel : ℕ) → Node → UInt32
  | 0, pindex => H.nBits pindex
  | fuel + 1, pindex =>
    match H.parent pindex with
    | some pprev =>
      if (H.depth pindex : ℤ).tmod interval.toInt ≠ 0 ∧ H.nBits pindex = nProofOfWorkLimit
      then lastRegularBits interval nProofOfWorkLimit fuel pprev
      else H.nBits pindex
    | none => H.nBits pindex

/-- `GetNextWorkRequired` for a block on top of `pindexLast` whose header time is `nTime`. -/
def getNextWorkRequired (pindexLast : Node) (nTime : UInt32) : Except String UInt32 := do
  let nProofOfWorkLimit ← getCompact params.powLimit false
  let interval ← params.difficultyAdjustmentInterval
  -- Only change once per difficulty adjustment interval.
  if (← remInt64 (H.depth pindexLast + 1) interval) ≠ 0 then
    if params.fPowAllowMinDifficultyBlocks then
      if getBlockTime nTime > getBlockTime (H.nTime pindexLast) + params.nPowTargetSpacing * 2
      then return nProofOfWorkLimit
      else return lastRegularBits H interval nProofOfWorkLimit (H.depth pindexLast) pindexLast
    else return H.nBits pindexLast
  else
    if (H.depth pindexLast : ℤ) - (interval.toInt - 1) < 0 then throw "nHeightFirst >= 0"
    match ← periodFirst H params pindexLast with
    | some pindexFirst =>
      calculateNextWorkRequired H params pindexLast (getBlockTime (H.nTime pindexFirst))
    | none => throw "pindexFirst"

/-- `DeriveTarget`. -/
def deriveTarget (nBits : UInt32) (pow_limit : ArithUint256) : Option ArithUint256 :=
  let d := setCompact nBits
  if d.fNegative ∨ equalTo d.value 0 ∨ d.fOverflow ∨ gt d.value pow_limit then none
  else some d.value

/-- `PermittedDifficultyTransition`. -/
def permittedDifficultyTransition (height : ℤ) (old_nbits new_nbits : UInt32) :
    Except String Bool := do
  if params.fPowAllowMinDifficultyBlocks then return true
  let interval ← params.difficultyAdjustmentInterval
  if (← remInt64 height interval) = 0 then
    let smallest_timespan := params.nPowTargetTimespan / 4
    let largest_timespan := params.nPowTargetTimespan * 4
    let observed_new_target := (setCompact new_nbits).value
    -- The largest target, rounded, against what is observed.
    let largest ← retarget params (setCompact old_nbits).value largest_timespan
    let maximum_new_target := (setCompact (← getCompact largest false)).value
    if lt maximum_new_target observed_new_target then return false
    -- The smallest target, rounded, against what is observed.
    let smallest ← retarget params (setCompact old_nbits).value smallest_timespan
    let minimum_new_target := (setCompact (← getCompact smallest false)).value
    if gt minimum_new_target observed_new_target then return false
    return true
  else return old_nbits = new_nbits

end

/-! ## Retargeting over the integers -/

/-- The timespans that leave room for the clamp: a quarter is positive, four times fit. -/
structure Params.TimespanInRange (params : Params) : Prop where
  four_le : 4 ≤ params.nPowTargetTimespan
  le_max : params.nPowTargetTimespan ≤ Int64.maxValue / 4

/-- The retargeted value over the integers. -/
def retargetValue (params : Params) (target timespan : ℕ) : ℕ :=
  min params.powLimit.toNat (exactScale target timespan params.nPowTargetTimespan.toInt.toNat)

lemma retargetValue_mono (params : Params) (target : ℕ) {t₁ t₂ : ℕ} (h : t₁ ≤ t₂) :
    retargetValue params target t₁ ≤ retargetValue params target t₂ :=
  min_le_min_left _ (exactScale_mono _ h)

namespace Params.TimespanInRange

variable {params : Params} (hr : params.TimespanInRange)

include hr

lemma toInt_bounds : 4 ≤ params.nPowTargetTimespan.toInt ∧
    params.nPowTargetTimespan.toInt ≤ 2305843009213693951 := by
  have h4 := Int64.le_iff_toInt_le.1 hr.four_le
  have hmax := Int64.le_iff_toInt_le.1 hr.le_max
  rw [show (4 : Int64).toInt = 4 by decide] at h4
  rw [show (Int64.maxValue / 4).toInt = 2305843009213693951 by decide] at hmax
  exact ⟨h4, hmax⟩

lemma pos : 0 < params.nPowTargetTimespan := by
  have := hr.toInt_bounds
  rw [Int64.lt_iff_toInt_lt, show (0 : Int64).toInt = 0 by decide]
  omega

lemma toInt_quarter :
    (params.nPowTargetTimespan / 4).toInt = params.nPowTargetTimespan.toInt / 4 := by
  have := hr.toInt_bounds
  rw [Int64.toInt_div_of_ne_right _ _ (by decide), show (4 : Int64).toInt = 4 by decide,
    Int.tdiv_eq_ediv_of_nonneg (by omega)]

lemma toInt_fourfold :
    (params.nPowTargetTimespan * 4).toInt = params.nPowTargetTimespan.toInt * 4 := by
  have := hr.toInt_bounds
  rw [Int64.toInt_mul, show (4 : Int64).toInt = 4 by decide]
  exact Int.bmod_eq_of_le (by omega) (by omega)

lemma quarter_pos : 0 < params.nPowTargetTimespan / 4 := by
  have := hr.toInt_bounds
  rw [Int64.lt_iff_toInt_lt, hr.toInt_quarter, show (0 : Int64).toInt = 0 by decide]
  omega

lemma fourfold_pos : 0 < params.nPowTargetTimespan * 4 := by
  have := hr.toInt_bounds
  rw [Int64.lt_iff_toInt_lt, hr.toInt_fourfold, show (0 : Int64).toInt = 0 by decide]
  omega

lemma limitTimespan_bounds (t : Int64) :
    params.nPowTargetTimespan / 4 ≤ limitTimespan params t ∧
      limitTimespan params t ≤ params.nPowTargetTimespan * 4 := by
  have hbounds := hr.toInt_bounds
  have hq := hr.toInt_quarter
  have hf := hr.toInt_fourfold
  simp only [limitTimespan, Int64.le_iff_toInt_le, Int64.lt_iff_toInt_lt, gt_iff_lt]
  split <;> split <;> omega

variable (target : ArithUint256)

lemma retarget_toNat {t : Int64} (ht : 0 < t) : ∃ r, retarget params target t = .ok r ∧
      r.toNat = retargetValue params target.toNat t.toInt.toNat := by
  obtain ⟨r, hrun, hval⟩ := scaleTarget_toNat target params.powLimit ht hr.pos
  have hle : ¬ params.powLimit.toNat < r.toNat := by
    rw [hval]
    exact (min_le_left _ _).not_gt
  refine ⟨r, ?_, hval⟩
  simp [retarget, hrun, hle, bind, Except.bind, pure, Except.pure]

lemma compact_retarget {t : Int64} (ht : 0 < t) :
    ∃ r c, retarget params target t = .ok r ∧ getCompact r false = .ok c ∧
      (setCompact c).value.toNat =
        compactRound (retargetValue params target.toNat t.toInt.toNat) := by
  obtain ⟨r, hrun, hval⟩ := hr.retarget_toNat target ht
  obtain ⟨c, hc, hround⟩ := setCompact_getCompact r
  exact ⟨r, c, hrun, hc, by rw [hround, hval]⟩

/-- `PermittedDifficultyTransition` at a retarget height is the interval test between the
rounded extremes. -/
lemma permittedDifficultyTransition_of_bounds {height : ℤ} {interval : Int64}
    {old new : UInt32} (hmin : params.fPowAllowMinDifficultyBlocks = false)
    (hinterval : params.difficultyAdjustmentInterval = .ok interval)
    (hrem : remInt64 height interval = .ok 0)
    (hhigh : (setCompact new).value.toNat ≤ compactRound (retargetValue params
      (setCompact old).value.toNat (params.nPowTargetTimespan * 4).toInt.toNat))
    (hlow : compactRound (retargetValue params (setCompact old).value.toNat
      (params.nPowTargetTimespan / 4).toInt.toNat) ≤ (setCompact new).value.toNat) :
    permittedDifficultyTransition params height old new = .ok true := by
  obtain ⟨rmax, cmax, hrmax, hcmax, hvmax⟩ :=
    hr.compact_retarget (setCompact old).value hr.fourfold_pos
  obtain ⟨rmin, cmin, hrmin, hcmin, hvmin⟩ :=
    hr.compact_retarget (setCompact old).value hr.quarter_pos
  rw [← hvmax] at hhigh
  rw [← hvmin] at hlow
  simp [permittedDifficultyTransition, hmin, hinterval, hrem, hrmax, hcmax, hrmin, hcmin,
    hhigh.not_gt, hlow.not_gt, bind, Except.bind, pure, Except.pure]

end Params.TimespanInRange

/-! ## Chains of required headers -/

section Chain

variable {Node : Type} {H : HeaderTree Node} {params : Params}

/-- The chain that ends in `tip` carries the required `nBits` in every header, and every `nBits`
is a target. -/
structure ValidHeaderChain (H : HeaderTree Node) (params : Params) (tip : Node) : Prop where
  required : ∀ x p, H.IsAncestor x tip → H.parent x = some p →
    getNextWorkRequired H params p (H.nTime x) = .ok (H.nBits x)
  derived : ∀ x, H.IsAncestor x tip → (deriveTarget (H.nBits x) params.powLimit).isSome

lemma ValidHeaderChain.of_isAncestor {tip x : Node} (h : ValidHeaderChain H params tip)
    (hx : H.IsAncestor x tip) : ValidHeaderChain H params x where
  required y p hy hp := h.required y p (hy.trans hx) hp
  derived y hy := h.derived y (hy.trans hx)

lemma deriveTarget_isSome {nBits : UInt32} {limit : ArithUint256}
    (h : (deriveTarget nBits limit).isSome) :
    (setCompact nBits).fOverflow = false ∧ (setCompact nBits).value.toNat ≤ limit.toNat := by
  rw [deriveTarget] at h
  split at h
  · simp at h
  · next hchecks =>
    simp only [not_or, gt_iff, not_lt, Bool.not_eq_true] at hchecks
    exact ⟨hchecks.2.2.1, hchecks.2.2.2⟩

/-- Without the minimum-difficulty rule, `GetNextWorkRequired` repeats the parent's value inside
a period and recalculates at its end. -/
lemma getNextWorkRequired_cases {p : Node} {t bits : UInt32}
    (hmin : params.fPowAllowMinDifficultyBlocks = false)
    (h : getNextWorkRequired H params p t = .ok bits) :
    ∃ interval, params.difficultyAdjustmentInterval = .ok interval ∧ interval ≠ 0 ∧
      ((((H.depth p + 1 : ℕ) : ℤ).tmod interval.toInt ≠ 0 ∧ bits = H.nBits p) ∨
        (((H.depth p + 1 : ℕ) : ℤ).tmod interval.toInt = 0 ∧ ∃ first,
          periodFirst H params p = .ok (some first) ∧
          calculateNextWorkRequired H params p (getBlockTime (H.nTime first)) = .ok bits)) := by
  obtain ⟨limitBits, hlimit, -⟩ := getCompact_spec params.powLimit
  cases hinterval : params.difficultyAdjustmentInterval with
  | error e => simp [getNextWorkRequired, hlimit, hinterval, bind, Except.bind] at h
  | ok interval =>
    refine ⟨interval, rfl, ?_⟩
    by_cases hzero : interval = 0
    · simp [getNextWorkRequired, hlimit, hinterval, remInt64, hzero, bind, Except.bind] at h
    · refine ⟨hzero, ?_⟩
      simp only [getNextWorkRequired, hlimit, hinterval, remInt64, hzero, bind, Except.bind,
        if_false, hmin, Bool.false_eq_true] at h
      split at h
      · next hrem => exact .inl ⟨hrem, (Except.ok.inj h).symm⟩
      · next hrem =>
        refine .inr ⟨not_not.1 hrem, ?_⟩
        split at h
        · cases h
        · cases hfirst : periodFirst H params p with
          | error e => simp [hfirst] at h
          | ok first =>
            cases first with
            | none => simp [hfirst] at h
            | some first => exact ⟨first, rfl, by simpa [hfirst] using h⟩

lemma exists_interval_eq {interval : Int64} (hspacing : 1 ≤ params.nPowTargetSpacing)
    (hr : params.TimespanInRange) (h : params.difficultyAdjustmentInterval = .ok interval)
    (hne : interval ≠ 0) : ∃ D : ℕ, 0 < D ∧ interval.toInt = D := by
  have hts := hr.toInt_bounds
  have hsp := Int64.le_iff_toInt_le.1 hspacing
  rw [show (1 : Int64).toInt = 1 by decide] at hsp
  have hnonneg : 0 ≤ interval.toInt := by
    rw [Params.difficultyAdjustmentInterval] at h
    split at h
    · cases h
    · rw [← Except.ok.inj h, Int64.toInt_div_of_ne_right]
      · exact Int.tdiv_nonneg (by omega) (by omega)
      · intro hneg
        rw [hneg, show (-1 : Int64).toInt = -1 by decide] at hsp
        omega
  have hzero : interval.toInt ≠ 0 := fun h0 => hne (Int64.toInt_inj.1 h0)
  exact ⟨interval.toInt.toNat, by omega, by omega⟩

lemma mod_of_succ_mod {n D r : ℕ} (hD : 0 < D) (hr : (n + 1) % D = r + 1) : n % D = r := by
  have hlt : r + 1 < D := hr ▸ mod_lt _ hD
  have hdiv := div_add_mod (n + 1) D
  have hn : n = D * ((n + 1) / D) + r := by omega
  rw [hn, mul_add_mod, mod_eq_of_lt (by omega)]

lemma mod_of_succ_mod_zero {n D : ℕ} (hD : 0 < D) (hr : (n + 1) % D = 0) : n % D = D - 1 := by
  have hdiv := div_add_mod (n + 1) D
  obtain ⟨q, hq⟩ : ∃ q, (n + 1) / D = q + 1 :=
    exists_eq_add_one_of_ne_zero fun h => by rw [h] at hdiv; omega
  rw [hq, mul_add, mul_one] at hdiv
  have hn : n = D * q + (D - 1) := by omega
  rw [hn, mul_add_mod, mod_eq_of_lt (by omega)]

section

variable {D : ℕ} {interval : Int64} (hD : 0 < D)
  (hmin : params.fPowAllowMinDifficultyBlocks = false)
  (hinterval : params.difficultyAdjustmentInterval = .ok interval) (hval : interval.toInt = D)

include hD hmin hinterval hval

/-- **Inside a period `nBits` does not change**: a header repeats the value of every block back
to the first of its period. -/
lemma nBits_eq_of_period (k : ℕ) :
    ∀ {x y : Node}, ValidHeaderChain H params x → k ≤ H.depth x % D → H.up k x = some y →
      H.nBits y = H.nBits x := by
  induction k with
  | zero =>
    intro x y _ _ hy
    rw [H.up_zero, Option.some.injEq] at hy
    rw [hy]
  | succ k ih =>
    intro x y hchain hk hy
    rw [H.up_succ, Option.bind_eq_some_iff] at hy
    obtain ⟨p, hp, hy⟩ := hy
    have hdepth := H.depth_child x p hp
    obtain ⟨r, hmod⟩ := Nat.exists_eq_add_of_le hk
    have hpmod : H.depth p % D = k + r := mod_of_succ_mod hD (by rw [← hdepth]; omega)
    have hrepeat : H.nBits x = H.nBits p := by
      obtain ⟨i, hi, -, hcase⟩ :=
        getNextWorkRequired_cases hmin (hchain.required x p (.refl _ _) hp)
      obtain rfl : i = interval := by simpa using hi.symm.trans hinterval
      rcases hcase with ⟨-, hbits⟩ | ⟨hrem, -⟩
      · exact hbits
      · rw [hval, ← hdepth, ← Int.ofNat_tmod] at hrem
        omega
    rw [hrepeat]
    exact ih (hchain.of_isAncestor (Forest.isAncestor_of_parent hp)) (by omega) hy

lemma retargetBase_eq {p : Node} (hchain : ValidHeaderChain H params p)
    (hend : (H.depth p + 1) % D = 0) :
    retargetBase H params p = .ok (setCompact (H.nBits p)).value := by
  have hmod := mod_of_succ_mod_zero hD hend
  have hle : D - 1 ≤ H.depth p := hmod ▸ mod_le _ _
  obtain ⟨first, hup, hget⟩ := H.getAncestor_eq_up p (sub_le (H.depth p) (D - 1))
  rw [Nat.sub_sub_self hle] at hup
  have hperiod : periodFirst H params p = .ok (some first) := by
    rw [periodFirst, hinterval, ← hget]
    simp only [bind, Except.bind, hval]
    congr 1
    omega
  have hbits := nBits_eq_of_period hD hmin hinterval hval (D - 1) hchain hmod.ge hup
  rw [retargetBase, hperiod]
  simp only [bind, Except.bind, hbits]
  split <;> rfl

end

lemma retargetValue_brackets (hr : params.TimespanInRange) {target : ℕ}
    (hlimit : target ≤ params.powLimit.toNat) :
    retargetValue params target (params.nPowTargetTimespan / 4).toInt.toNat ≤ target ∧
      target ≤ retargetValue params target (params.nPowTargetTimespan * 4).toInt.toNat := by
  have hts := hr.toInt_bounds
  have hpos : 0 < params.nPowTargetTimespan.toInt.toNat := by omega
  rw [hr.toInt_quarter, hr.toInt_fourfold, retargetValue, retargetValue, exactScale, exactScale]
  constructor
  · refine (min_le_right _ _).trans (Nat.div_le_of_le_mul ?_)
    rw [Nat.mul_comm]
    exact mul_le_mul_right _ (by omega)
  · refine le_min hlimit ((le_div_iff_mul_le hpos).2 (mul_le_mul_left _ (by omega)))

/-- The two ways a period can end: with the same value, or with a retarget inside the clamp. -/
lemma calculateNextWorkRequired_bounds {p : Node} {time : Int64} {bits : UInt32}
    (hr : params.TimespanInRange) (hbase : retargetBase H params p =
      .ok (setCompact (H.nBits p)).value)
    (hderived : (deriveTarget (H.nBits p) params.powLimit).isSome)
    (h : calculateNextWorkRequired H params p time = .ok bits) :
    (setCompact bits).value.toNat ≤ compactRound (retargetValue params
        (setCompact (H.nBits p)).value.toNat (params.nPowTargetTimespan * 4).toInt.toNat) ∧
      compactRound (retargetValue params (setCompact (H.nBits p)).value.toNat
        (params.nPowTargetTimespan / 4).toInt.toNat) ≤ (setCompact bits).value.toNat := by
  obtain ⟨hoverflow, hlimit⟩ := deriveTarget_isSome hderived
  by_cases hno : params.fPowNoRetargeting = true
  · -- The same `nBits` again: its target is its own rounding, and the clamp brackets it.
    have hbits : bits = H.nBits p := by
      simpa [calculateNextWorkRequired, hno, pure, Except.pure] using h.symm
    obtain ⟨hlow, hhigh⟩ := retargetValue_brackets hr hlimit
    rw [hbits]
    refine ⟨?_, (compactRound_le _).trans hlow⟩
    calc (setCompact (H.nBits p)).value.toNat
        = compactRound (setCompact (H.nBits p)).value.toNat :=
          (compactRound_setCompact hoverflow).symm
      _ ≤ _ := compactRound_mono hhigh
  · set t := limitTimespan params (getBlockTime (H.nTime p) - time) with ht
    obtain ⟨hlow, hhigh⟩ := hr.limitTimespan_bounds (getBlockTime (H.nTime p) - time)
    rw [← ht] at hlow hhigh
    have hpos : 0 < t := Int64.lt_of_lt_of_le hr.quarter_pos hlow
    obtain ⟨r, c, hrun, hc, hround⟩ := hr.compact_retarget (setCompact (H.nBits p)).value hpos
    have hbits : bits = c := by
      simpa [calculateNextWorkRequired, hno, hbase, ← ht, hrun, hc, bind, Except.bind]
        using h.symm
    rw [hbits, hround]
    exact ⟨compactRound_mono (retargetValue_mono _ _
        (Int.toNat_le_toNat (Int64.le_iff_toInt_le.1 hhigh))),
      compactRound_mono (retargetValue_mono _ _
        (Int.toNat_le_toNat (Int64.le_iff_toInt_le.1 hlow)))⟩

/-- **Pre-synchronisation accepts every chain full validation requires.**  Without the
minimum-difficulty rule, if every header of a chain has the `nBits` that `GetNextWorkRequired`
asks for and every `nBits` is a target, `PermittedDifficultyTransition` holds between each
header and its parent, whatever the block times. -/
theorem permittedDifficultyTransition_of_validChain (H : HeaderTree Node) (params : Params)
    (tip : Node) (hmin : params.fPowAllowMinDifficultyBlocks = false)
    (hspacing : 1 ≤ params.nPowTargetSpacing) (hlow : 4 ≤ params.nPowTargetTimespan)
    (hhigh : params.nPowTargetTimespan ≤ Int64.maxValue / 4)
    (hchain : ValidHeaderChain H params tip) :
    ∀ x p, H.IsAncestor x tip → H.parent x = some p →
      permittedDifficultyTransition params (H.depth x) (H.nBits p) (H.nBits x) = .ok true := by
  intro x p hx hp
  have hr : params.TimespanInRange := ⟨hlow, hhigh⟩
  have hdepth := H.depth_child x p hp
  have hpchain := hchain.of_isAncestor ((Forest.isAncestor_of_parent hp).trans hx)
  obtain ⟨interval, hinterval, hne, hcase⟩ :=
    getNextWorkRequired_cases hmin (hchain.required x p hx hp)
  obtain ⟨D, hD, hval⟩ := exists_interval_eq hspacing hr hinterval hne
  rw [← hdepth] at hcase
  rcases hcase with ⟨hrem, hbits⟩ | ⟨hrem, first, -, hcalc⟩
  · simp [permittedDifficultyTransition, hmin, hinterval, remInt64, hne, hrem, hbits, bind,
      Except.bind, pure, Except.pure]
  · have hend : (H.depth p + 1) % D = 0 := by
      rw [hval, ← Int.ofNat_tmod, hdepth] at hrem
      exact_mod_cast hrem
    have hbase := retargetBase_eq hD hmin hinterval hval hpchain hend
    obtain ⟨hupper, hlower⟩ := calculateNextWorkRequired_bounds hr hbase
      (hpchain.derived p (.refl _ _)) hcalc
    exact hr.permittedDifficultyTransition_of_bounds hmin hinterval
      (by rw [remInt64, if_neg hne, hrem]) hupper hlower

end Chain

/-! ## A chain that retargets at every block -/

/-- Three headers one second apart under a four-second timespan: each target is a quarter of the
one before. -/
def quarteringHeaders : HeaderTree (Fin 3) where
  parent x := if x = 0 then none else some (x - 1)
  depth x := x.val
  depth_root := by decide
  depth_child := by decide
  pskip x := if x = 0 then none else some 0
  skip_root := by decide
  skip_child := by decide
  nTime x := x.val.toUInt32
  nBits x := if x = 0 then 0x02010000 else if x = 1 then 0x01400000 else 0x01100000

/-- Parameters under which every height ends a period. -/
def everyBlockParams : Params where
  nSubsidyHalvingInterval := 1
  treasury_script_pub_key := []
  powLimit := ofUInt64 0x200
  fPowAllowMinDifficultyBlocks := false
  enforce_BIP94 := true
  fPowNoRetargeting := false
  nPowTargetSpacing := 4
  nPowTargetTimespan := 4

lemma validHeaderChain_quarteringHeaders :
    ValidHeaderChain quarteringHeaders everyBlockParams 2 where
  required := by
    have h : ∀ x p, quarteringHeaders.parent x = some p →
        getNextWorkRequired quarteringHeaders everyBlockParams p (quarteringHeaders.nTime x) =
          .ok (quarteringHeaders.nBits x) := by decide +kernel
    exact fun x p _ => h x p
  derived := by
    have h : ∀ x, (deriveTarget (quarteringHeaders.nBits x) everyBlockParams.powLimit).isSome := by
      decide +kernel
    exact fun x _ => h x

theorem permittedDifficultyTransition_quarteringHeaders :
    permittedDifficultyTransition everyBlockParams 2 0x01400000 0x01100000 = .ok true :=
  permittedDifficultyTransition_of_validChain quarteringHeaders everyBlockParams 2 rfl
    (by decide) (by decide) (by decide) validHeaderChain_quarteringHeaders 2 1
    (.refl _ _) rfl

end SlithyTove
