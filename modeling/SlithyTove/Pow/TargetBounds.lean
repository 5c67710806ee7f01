import SlithyTove.Framework.Checked
import SlithyTove.Pow.NextWork

/-!
# Required targets can be met

A retarget moves the target by at most a factor of four either way, cuts it at the limit and rounds
it to the compact encoding.  Each of the three could leave a word that `DeriveTarget` refuses, and
then no block could follow.

From a base target of at least four none does (`nextWork_satisfiable`): what is required decodes
without flags to a target between the rounded quarter of the base and the rounded fourfold of it,
cut at the limit.  The words that are not computed, the limit's own encoding and those of earlier
blocks, pass as well.
-/

namespace SlithyTove

open Framework BaseUint Nat

variable {params : Params}

/-! ## `DeriveTarget` -/

lemma deriveTarget_eq_some {nBits : UInt32} {limit : ArithUint256}
    (hneg : (setCompact nBits).fNegative = false) (hover : (setCompact nBits).fOverflow = false)
    (hzero : (setCompact nBits).value.toNat ≠ 0)
    (hlimit : (setCompact nBits).value.toNat ≤ limit.toNat) :
    deriveTarget nBits limit = some (setCompact nBits).value := by
  have hchecks : ¬ ((setCompact nBits).fNegative = true ∨
      equalTo (setCompact nBits).value 0 = true ∨ (setCompact nBits).fOverflow = true ∨
      gt (setCompact nBits).value limit = true) := by
    simp [hneg, hover, hzero, hlimit]
  rw [deriveTarget, if_neg hchecks]

lemma compactRound_pos {x : ℕ} (h : 0 < x) : 0 < compactRound x := by
  rw [pos_iff_ne_zero, Ne, ← size_eq_zero, size_compactRound, size_eq_zero]
  exact h.ne'

lemma deriveTarget_getCompact {a limit : ArithUint256} {c : UInt32} (hpos : 0 < a.toNat)
    (hlimit : a.toNat ≤ limit.toNat) (hc : getCompact a false = .ok c) :
    ∃ T, deriveTarget c limit = some T ∧ T.toNat = compactRound a.toNat := by
  obtain ⟨c', hc', hround⟩ := setCompact_getCompact a
  obtain rfl : c = c' := Except.ok.inj (hc.symm.trans hc')
  obtain ⟨hneg, hover⟩ := setCompact_getCompact_flags hc
  refine ⟨_, deriveTarget_eq_some hneg hover ?_ ?_, hround⟩
  · rw [hround]
    exact (compactRound_pos hpos).ne'
  · rw [hround]
    exact (compactRound_le _).trans hlimit

/-! ## Retargeting -/

lemma retargetValue_bounds (hr : params.TimespanInRange)
    (hfour : 4 ∣ params.nPowTargetTimespan.toInt) {target : ℕ} {t : Int64}
    (hlimit : target ≤ params.powLimit.toNat) (hlow : params.nPowTargetTimespan / 4 ≤ t)
    (hhigh : t ≤ params.nPowTargetTimespan * 4) :
    target / 4 ≤ retargetValue params target t.toInt.toNat ∧
      retargetValue params target t.toInt.toNat ≤ min params.powLimit.toNat (4 * target) := by
  have hts := hr.toInt_bounds
  have hq := Int64.le_iff_toInt_le.1 hlow
  have hf := Int64.le_iff_toInt_le.1 hhigh
  rw [hr.toInt_quarter] at hq
  rw [hr.toInt_fourfold] at hf
  obtain ⟨q, hspan⟩ : ∃ q : ℕ, params.nPowTargetTimespan.toInt.toNat = 4 * q ∧ 0 < q := by
    obtain ⟨k, hk⟩ := hfour
    exact ⟨k.toNat, by omega, by omega⟩
  obtain ⟨hspan, hpos⟩ := hspan
  have hge : q ≤ t.toInt.toNat := by omega
  have hle : t.toInt.toNat ≤ 4 * (4 * q) := by omega
  rw [retargetValue, exactScale, hspan]
  constructor
  · refine le_min ((div_le_self _ _).trans hlimit) ?_
    calc target / 4 = target * q / (4 * q) := (Nat.mul_div_mul_right _ _ hpos).symm
      _ ≤ target * t.toInt.toNat / (4 * q) := Nat.div_le_div_right (Nat.mul_le_mul_left _ hge)
  · refine min_le_min_left _ ?_
    calc target * t.toInt.toNat / (4 * q) ≤ target * (4 * (4 * q)) / (4 * q) :=
          Nat.div_le_div_right (Nat.mul_le_mul_left _ hle)
      _ = 4 * target := by
          rw [← Nat.mul_assoc, Nat.mul_div_cancel _ (by omega), Nat.mul_comm]

section Chain

variable {Node : Type} {H : HeaderTree Node} {last : Node} {base : ArithUint256}

lemma retargetBase_le
    (hchain : ∀ x, H.IsAncestor x last → (deriveTarget (H.nBits x) params.powLimit).isSome)
    (h : retargetBase H params last = .ok base) : base.toNat ≤ params.powLimit.toNat := by
  have hblock : ∃ x, H.IsAncestor x last ∧ base = (setCompact (H.nBits x)).value := by
    rw [retargetBase] at h
    split at h
    · obtain ⟨first, hfirst, h⟩ := bind_eq_ok.1 h
      cases first with
      | none => cases h
      | some first =>
        obtain ⟨interval, -, hfirst⟩ := bind_eq_ok.1 hfirst
        refine ⟨first, ?_, (Except.ok.inj h).symm⟩
        exact H.isAncestor_of_getAncestor hfirst
    · exact ⟨last, .refl _ _, (Except.ok.inj h).symm⟩
  obtain ⟨x, hx, rfl⟩ := hblock
  exact (deriveTarget_isSome (hchain x hx)).2

/-- **A retarget from four or more ends in a target** within the factor of four. -/
lemma calculateNextWorkRequired_target (time : Int64)
    (hno : params.fPowNoRetargeting = false) (hr : params.TimespanInRange)
    (hfour : 4 ∣ params.nPowTargetTimespan.toInt)
    (hbase : retargetBase H params last = .ok base) (hlimit : base.toNat ≤ params.powLimit.toNat)
    (hge : 4 ≤ base.toNat) : ∃ bits T, calculateNextWorkRequired H params last time = .ok bits ∧
      deriveTarget bits params.powLimit = some T ∧ compactRound (base.toNat / 4) ≤ T.toNat ∧
      T.toNat ≤ compactRound (min params.powLimit.toNat (4 * base.toNat)) := by
  set t := limitTimespan params (getBlockTime (H.nTime last) - time) with ht
  obtain ⟨hlow, hhigh⟩ := hr.limitTimespan_bounds (getBlockTime (H.nTime last) - time)
  rw [← ht] at hlow hhigh
  have hpos : 0 < t := Int64.lt_of_lt_of_le hr.quarter_pos hlow
  obtain ⟨r, hrun, hval⟩ := hr.retarget_toNat base hpos
  obtain ⟨hquarter, hfourfold⟩ := retargetValue_bounds hr hfour hlimit hlow hhigh
  rw [← hval] at hquarter hfourfold
  obtain ⟨c, hc, -⟩ := getCompact_spec r
  have hcut : r.toNat ≤ params.powLimit.toNat := hfourfold.trans (min_le_left _ _)
  obtain ⟨T, hT, hround⟩ := deriveTarget_getCompact (by omega) hcut hc
  refine ⟨c, T, ?_, hT, ?_, ?_⟩
  · simp [calculateNextWorkRequired, hno, hbase, ← ht, hrun, hc, bind, Except.bind]
  · rw [hround]
    exact compactRound_mono hquarter
  · rw [hround]
    exact compactRound_mono hfourfold

lemma exists_lastRegularBits (interval : Int64) (nProofOfWorkLimit : UInt32) (fuel : ℕ) :
    ∀ x : Node, ∃ y, H.IsAncestor y x ∧
      lastRegularBits H interval nProofOfWorkLimit fuel x = H.nBits y := by
  induction fuel with
  | zero => exact fun x => ⟨x, .refl _ _, rfl⟩
  | succ fuel ih =>
    intro x
    rw [lastRegularBits]
    cases hp : H.parent x with
    | none => exact ⟨x, .refl _ _, rfl⟩
    | some p =>
      dsimp only
      split
      · obtain ⟨y, hy, hbits⟩ := ih p
        exact ⟨y, hy.trans (Forest.isAncestor_of_parent hp), hbits⟩
      · exact ⟨x, .refl _ _, rfl⟩

/-- Where the word `GetNextWorkRequired` returns comes from: the limit, a block of the chain, or a
retarget. -/
lemma getNextWorkRequired_source {nTime bits : UInt32}
    (h : getNextWorkRequired H params last nTime = .ok bits) :
    getCompact params.powLimit false = .ok bits ∨
      (∃ y, H.IsAncestor y last ∧ bits = H.nBits y) ∨
      ∃ first, calculateNextWorkRequired H params last (getBlockTime (H.nTime first)) =
        .ok bits := by
  obtain ⟨limitBits, hlimit, h⟩ := bind_eq_ok.1 h
  obtain ⟨interval, -, h⟩ := bind_eq_ok.1 h
  obtain ⟨rem, -, h⟩ := bind_eq_ok.1 h
  split at h
  · split at h
    · split at h
      · exact .inl (by rw [hlimit, ← Except.ok.inj h])
      · obtain ⟨y, hy, hbits⟩ := exists_lastRegularBits interval limitBits (H.depth last) last
        exact .inr (.inl ⟨y, hy, by rw [← hbits, ← Except.ok.inj h]⟩)
    · exact .inr (.inl ⟨last, .refl _ _, (Except.ok.inj h).symm⟩)
  · split at h
    · cases h
    · obtain ⟨first, -, h⟩ := bind_eq_ok.1 h
      cases first with
      | none => cases h
      | some first => exact .inr (.inr ⟨first, h⟩)

lemma exists_periodFirst {D : ℕ} {interval : Int64}
    (hinterval : params.difficultyAdjustmentInterval = .ok interval) (hval : interval.toInt = D)
    (hD : 0 < D) (hend : (H.depth last + 1) % D = 0) :
    0 ≤ (H.depth last : ℤ) - (interval.toInt - 1) ∧
      ∃ first, periodFirst H params last = .ok (some first) := by
  have hle : D ≤ H.depth last + 1 := le_of_dvd (by omega) (dvd_of_mod_eq_zero hend)
  refine ⟨by omega, ?_⟩
  obtain ⟨first, -, hget⟩ := H.getAncestor_eq_up last (h := H.depth last + 1 - D) (by omega)
  refine ⟨first, ?_⟩
  rw [periodFirst, hinterval, ← hget]
  simp only [bind, Except.bind, hval]
  congr 1
  omega

/-- `GetNextWorkRequired` returns, if a period is at least one block long. -/
lemma exists_getNextWorkRequired (nTime : UInt32) (hspacing : 1 ≤ params.nPowTargetSpacing)
    (hperiod : params.nPowTargetSpacing ≤ params.nPowTargetTimespan) (hr : params.TimespanInRange)
    (hretarget : ∀ base time, retargetBase H params last = .ok base →
      ∃ bits, calculateNextWorkRequired H params last time = .ok bits) :
    ∃ bits, getNextWorkRequired H params last nTime = .ok bits := by
  obtain ⟨limitBits, hlimit, -⟩ := getCompact_spec params.powLimit
  have hsp := Int64.le_iff_toInt_le.1 hspacing
  have hle := Int64.le_iff_toInt_le.1 hperiod
  rw [show (1 : Int64).toInt = 1 by decide] at hsp
  have hspne : params.nPowTargetSpacing ≠ 0 := by
    intro h0
    rw [h0, show (0 : Int64).toInt = 0 by decide] at hsp
    omega
  have hinterval : params.difficultyAdjustmentInterval =
      .ok (params.nPowTargetTimespan / params.nPowTargetSpacing) := by
    rw [Params.difficultyAdjustmentInterval, if_neg hspne]
  have hne : params.nPowTargetTimespan / params.nPowTargetSpacing ≠ 0 := by
    intro h0
    have hquot := congrArg Int64.toInt h0
    rw [Int64.toInt_div_of_ne_right _ _ (by
        intro hneg
        rw [hneg, show (-1 : Int64).toInt = -1 by decide] at hsp
        omega), show (0 : Int64).toInt = 0 by decide,
      Int.tdiv_eq_ediv_of_nonneg (by omega)] at hquot
    have hone := Int.ediv_le_ediv (by omega : 0 < params.nPowTargetSpacing.toInt) hle
    rw [Int.ediv_self (by omega)] at hone
    omega
  obtain ⟨D, hD, hval⟩ := exists_interval_eq hspacing hr hinterval hne
  by_cases hrem : ((H.depth last + 1 : ℕ) : ℤ).tmod (D : ℤ) = 0
  · have hend : (H.depth last + 1) % D = 0 := by
      rw [← Int.ofNat_tmod] at hrem
      exact_mod_cast hrem
    obtain ⟨hfirst, first, hperiodFirst⟩ := exists_periodFirst hinterval hval hD hend
    have hbase : ∃ base, retargetBase H params last = .ok base := by
      rw [retargetBase, hperiodFirst]
      split
      · exact ⟨_, rfl⟩
      · exact ⟨_, rfl⟩
    obtain ⟨base, hbase⟩ := hbase
    obtain ⟨bits, hbits⟩ := hretarget base (getBlockTime (H.nTime first)) hbase
    refine ⟨bits, ?_⟩
    push_cast at hrem
    simp [getNextWorkRequired, hlimit, hinterval, remInt64, hne, hval, hrem, hperiodFirst, hbits,
      bind, Except.bind]
    omega
  · push_cast at hrem
    simp only [getNextWorkRequired, hlimit, hinterval, remInt64, hne, hval, hrem, bind, Except.bind,
      if_false, ne_eq, not_false_iff, if_true]
    split
    · split
      · exact ⟨_, rfl⟩
      · exact ⟨_, rfl⟩
    · exact ⟨_, rfl⟩

/-- **Required targets can be met.**  On a chain of targets, a retarget from a base target of at
least four returns a word that passes `DeriveTarget`, with a target between the rounded quarter and
the rounded fourfold of the base, cut at the limit; and whatever `GetNextWorkRequired` returns
passes `DeriveTarget`, with the minimum-difficulty rule or without.  It does return where a period
is at least one block long. -/
theorem nextWork_satisfiable (H : HeaderTree Node) (params : Params) (last : Node)
    (hno : params.fPowNoRetargeting = false) (hfour : 4 ∣ params.nPowTargetTimespan.toInt)
    (hlow : 4 ≤ params.nPowTargetTimespan)
    (hhigh : params.nPowTargetTimespan ≤ Int64.maxValue / 4) (hlimit : 1 ≤ params.powLimit.toNat)
    (hchain : ∀ x, H.IsAncestor x last → (deriveTarget (H.nBits x) params.powLimit).isSome)
    (hbase : ∀ base, retargetBase H params last = .ok base → 4 ≤ base.toNat) :
    (∀ (firstTime : UInt32) (base : ArithUint256), retargetBase H params last = .ok base →
      ∃ bits T, calculateNextWorkRequired H params last (getBlockTime firstTime) = .ok bits ∧
        deriveTarget bits params.powLimit = some T ∧ compactRound (base.toNat / 4) ≤ T.toNat ∧
        T.toNat ≤ compactRound (min params.powLimit.toNat (4 * base.toNat))) ∧
    (∀ nTime bits : UInt32, getNextWorkRequired H params last nTime = .ok bits →
      (deriveTarget bits params.powLimit).isSome) ∧
    (1 ≤ params.nPowTargetSpacing → params.nPowTargetSpacing ≤ params.nPowTargetTimespan →
      ∀ nTime : UInt32, ∃ bits, getNextWorkRequired H params last nTime = .ok bits) := by
  have hr : params.TimespanInRange := ⟨hlow, hhigh⟩
  have hretarget : ∀ base time, retargetBase H params last = .ok base →
      ∃ bits T, calculateNextWorkRequired H params last time = .ok bits ∧
        deriveTarget bits params.powLimit = some T ∧ compactRound (base.toNat / 4) ≤ T.toNat ∧
        T.toNat ≤ compactRound (min params.powLimit.toNat (4 * base.toNat)) :=
    fun base time h => calculateNextWorkRequired_target time hno hr hfour h
      (retargetBase_le hchain h) (hbase base h)
  refine ⟨fun firstTime base h => hretarget base _ h, fun nTime bits h => ?_,
    fun hspacing hperiod nTime => ?_⟩
  · rcases getNextWorkRequired_source h with hpow | ⟨y, hy, rfl⟩ | ⟨first, hcalc⟩
    · obtain ⟨T, hT, -⟩ := deriveTarget_getCompact hlimit le_rfl hpow
      rw [hT]
      rfl
    · exact hchain y hy
    · -- A retarget that returned had a base.
      obtain ⟨base, hb⟩ : ∃ base, retargetBase H params last = .ok base := by
        simp only [calculateNextWorkRequired, hno, Bool.false_eq_true, if_false] at hcalc
        obtain ⟨base, hb, -⟩ := bind_eq_ok.1 hcalc
        exact ⟨base, hb⟩
      obtain ⟨bits', T, hcalc', hT, -⟩ := hretarget base (getBlockTime (H.nTime first)) hb
      obtain rfl : bits = bits' := Except.ok.inj (hcalc.symm.trans hcalc')
      rw [hT]
      rfl
  · refine exists_getNextWorkRequired nTime hspacing hperiod hr fun base time h => ?_
    obtain ⟨bits, -, hcalc, -⟩ := hretarget base time h
    exact ⟨bits, hcalc⟩

/-- The first two headers of `quarteringHeaders`, the second of which has a base target of 64. -/
theorem nextWork_satisfiable_quarteringHeaders :
    (∃ bits T, calculateNextWorkRequired quarteringHeaders everyBlockParams 1 (getBlockTime 1) =
        .ok bits ∧ deriveTarget bits everyBlockParams.powLimit = some T ∧
        compactRound 16 ≤ T.toNat) ∧
      ∃ bits, getNextWorkRequired quarteringHeaders everyBlockParams 1 2 = .ok bits ∧
        (deriveTarget bits everyBlockParams.powLimit).isSome := by
  have hderived : ∀ x, (deriveTarget (quarteringHeaders.nBits x)
    everyBlockParams.powLimit).isSome :=
    fun x => by revert x; decide +kernel
  have hretargetBase : retargetBase quarteringHeaders everyBlockParams 1 = .ok (ofUInt64 64) := by
    decide +kernel
  have h64 : (ofUInt64 64 : ArithUint256).toNat = 64 := by
    rw [toNat_ofUInt64 (by decide)]
    rfl
  have hlimit : 1 ≤ everyBlockParams.powLimit.toNat := by
    change 1 ≤ (ofUInt64 0x200 : ArithUint256).toNat
    rw [toNat_ofUInt64 (by decide)]
    decide
  obtain ⟨hcalc, hpasses, hreturns⟩ := nextWork_satisfiable quarteringHeaders everyBlockParams 1 rfl
    (by decide) (by decide) (by decide) hlimit (fun x _ => hderived x) (by
      intro base hb
      rw [hretargetBase, Except.ok.injEq] at hb
      rw [← hb, h64]
      decide)
  refine ⟨?_, ?_⟩
  · obtain ⟨bits, T, hrun, hT, hlow, -⟩ := hcalc 1 _ hretargetBase
    rw [h64] at hlow
    exact ⟨bits, T, hrun, hT, hlow⟩
  · obtain ⟨bits, hbits⟩ := hreturns (by decide) (by decide) 2
    exact ⟨bits, hbits, hpasses 2 bits hbits⟩

end Chain

end SlithyTove
