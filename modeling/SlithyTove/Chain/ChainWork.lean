import SlithyTove.Pow.NextWork

/-!
# The work of a chain

The work of a header is the number of hashes it takes on average to meet its target,
`2²⁵⁶ / (T + 1)`. That dividend does not fit in 256 bits, so `GetBitsProof` (`chain.cpp`) divides
the complement of the target and adds one, all in the wrapping arithmetic of `arith_uint256`.
`nChainWork` adds up the work of a chain in the same arithmetic (`BlockManager::AddToBlockIndex`).

`ArithUint256.getBitsProof` is that computation on limbs and `getBitsProof` the same over the
integers. Nothing wraps (`getBitsProof_spec`): a target decoded without overflow is never
`2²⁵⁶ - 1`.
-/

namespace SlithyTove

open Framework BaseUint Nat

/-! ## `GetBitsProof` -/

/-- `GetBitsProof`, over the integers. -/
def getBitsProof (bits : UInt32) : ℕ :=
  let decoded := setCompact bits
  let bnTarget := decoded.value.toNat
  if decoded.fNegative ∨ decoded.fOverflow ∨ bnTarget = 0 then 0
  else (2 ^ 256 - 1 - bnTarget) / (bnTarget + 1) + 1

/-- `GetBitsProof`. -/
def ArithUint256.getBitsProof (bits : UInt32) : Except String ArithUint256 :=
  let decoded := setCompact bits
  let bnTarget := decoded.value
  if decoded.fNegative ∨ decoded.fOverflow ∨ equalTo bnTarget 0 then .ok zero
  else do
    let quotient ← div (complement bnTarget) (add bnTarget (ofUInt64 1))
    return add quotient (ofUInt64 1)

/-- The words that `SetCompact` decodes to a target: neither flag is raised, and it is not zero. -/
structure IsTarget (bits : UInt32) : Prop where
  fNegative : (setCompact bits).fNegative = false
  fOverflow : (setCompact bits).fOverflow = false
  ne_zero : (setCompact bits).value.toNat ≠ 0

/-- The work of a target. -/
def targetWork (T : ℕ) : ℕ := 2 ^ 256 / (T + 1)

lemma div_complement {B T : ℕ} (h : T < B) : (B - 1 - T) / (T + 1) + 1 = B / (T + 1) := by
  rw [← add_div_right _ (succ_pos T)]
  congr 1
  omega

lemma targetWork_pos {T : ℕ} (h : T < 2 ^ 256) : 1 ≤ targetWork T :=
  (one_le_div_iff (succ_pos T)).2 h

lemma targetWork_anti {T T' : ℕ} (h : T ≤ T') : targetWork T' ≤ targetWork T :=
  div_le_div_left (by omega) (succ_pos T)

lemma targetWork_lt {T : ℕ} (h : T ≠ 0) : targetWork T < 2 ^ 256 :=
  div_lt_self (by positivity) (by omega)

/-- A target that comes from `SetCompact` leaves room for the successor: all ones have more
significant bits than a mantissa. -/
lemma IsTarget.succ_lt {bits : UInt32} (h : IsTarget bits) :
    (setCompact bits).value.toNat + 1 < 2 ^ 256 := by
  have hlt : (setCompact bits).value.toNat < 2 ^ 256 := toNat_lt _
  by_contra hfull
  have hones : (setCompact bits).value.toNat = 2 ^ 256 - 1 := by omega
  have hsize : 256 ≤ Nat.size (setCompact bits).value.toNat := by
    rw [hones]
    exact lt_size.2 (by norm_num)
  have hshift : 1 ≤ roundShift (setCompact bits).value.toNat := by
    rw [roundShift]
    omega
  have hdvd : 2 ∣ (setCompact bits).value.toNat := by
    rw [← compactRound_setCompact h.fOverflow, compactRound]
    exact (dvd_pow_self 2 (by omega)).mul_left _
  rw [hones] at hdvd
  omega

lemma getBitsProof_eq {bits : UInt32} (h : IsTarget bits) :
    getBitsProof bits = targetWork (setCompact bits).value.toNat := by
  have hchecks : ¬ ((setCompact bits).fNegative ∨ (setCompact bits).fOverflow ∨
      (setCompact bits).value.toNat = 0) := by
    simp [h.fNegative, h.fOverflow, h.ne_zero]
  have hlt := h.succ_lt
  simp only [getBitsProof]
  rw [if_neg hchecks, div_complement (by omega), targetWork]

/-- **`GetBitsProof` does not wrap.** -/
lemma getBitsProof_spec (bits : UInt32) :
    ∃ w, ArithUint256.getBitsProof bits = .ok w ∧ w.toNat = getBitsProof bits := by
  by_cases hchecks : (setCompact bits).fNegative ∨ (setCompact bits).fOverflow ∨
      (setCompact bits).value.toNat = 0
  · refine ⟨zero, ?_, ?_⟩
    · simp only [ArithUint256.getBitsProof, equalTo_zero_iff]
      rw [if_pos hchecks]
    · simp only [getBitsProof]
      rw [if_pos hchecks, toNat_zero]
  · have htarget : IsTarget bits := by
      simp only [not_or, Bool.not_eq_true] at hchecks
      exact ⟨hchecks.1, hchecks.2.1, hchecks.2.2⟩
    have hsucc := htarget.succ_lt
    have hone : (ofUInt64 1 : ArithUint256).toNat = 1 := by
      rw [toNat_ofUInt64 (by decide)]
      rfl
    have hdivisor : (add (setCompact bits).value (ofUInt64 1)).toNat =
        (setCompact bits).value.toNat + 1 := by
      rw [toNat_add, hone]
      exact mod_eq_of_lt hsucc
    obtain ⟨q, hq, hqval⟩ := div_spec (complement (setCompact bits).value)
      (add (setCompact bits).value (ofUInt64 1)) (by rw [hdivisor]; omega)
    rw [hdivisor, toNat_complement] at hqval
    have hwork : q.toNat + 1 = getBitsProof bits := by
      simp only [getBitsProof]
      rw [if_neg hchecks, hqval]
    refine ⟨add q (ofUInt64 1), ?_, ?_⟩
    · simp only [ArithUint256.getBitsProof, equalTo_zero_iff]
      rw [if_neg hchecks, hq]
      rfl
    · rw [toNat_add, hone, hwork, getBitsProof_eq htarget]
      exact mod_eq_of_lt (targetWork_lt htarget.ne_zero)

/-! ## `nChainWork` -/

section Chain

variable {Node : Type} (H : HeaderTree Node)

/-- `nChainWork` of a node, computed from the root down as `AddToBlockIndex` does node by node:
`(pprev ? pprev->nChainWork : 0) + GetBlockProof`.  The fuel is the height. -/
def chainWorkFrom : (fuel : ℕ) → Node → Except String ArithUint256
  | 0, x => do return add zero (← ArithUint256.getBitsProof (H.nBits x))
  | fuel + 1, x =>
    match H.parent x with
    | none => do return add zero (← ArithUint256.getBitsProof (H.nBits x))
    | some p => do
        let before ← chainWorkFrom fuel p
        return add before (← ArithUint256.getBitsProof (H.nBits x))

/-- `nChainWork`. -/
def nChainWork (x : Node) : Except String ArithUint256 := chainWorkFrom H (H.depth x) x

/-- The exact sum of the work along the `k` links above a node, the node included. -/
def exactWorkFrom : (k : ℕ) → Node → ℕ
  | 0, x => targetWork (setCompact (H.nBits x)).value.toNat
  | k + 1, x => (H.parent x).elim 0 (exactWorkFrom k) +
      targetWork (setCompact (H.nBits x)).value.toNat

/-- The exact sum of the work of the chain that ends in a node. -/
def exactWork (x : Node) : ℕ := exactWorkFrom H (H.depth x) x

variable {H} {x : Node}

lemma exactWork_root (h : H.parent x = none) :
    exactWork H x = targetWork (setCompact (H.nBits x)).value.toNat := by
  rw [exactWork, H.depth_root x h, exactWorkFrom]

lemma exactWork_child {p : Node} (h : H.parent x = some p) :
    exactWork H x = exactWork H p + targetWork (setCompact (H.nBits x)).value.toNat := by
  rw [exactWork, H.depth_child x p h, exactWorkFrom, h]
  rfl

lemma nChainWork_root (h : H.parent x = none) {w : ArithUint256}
    (hw : ArithUint256.getBitsProof (H.nBits x) = .ok w) : nChainWork H x = .ok (add zero w) := by
  rw [nChainWork, H.depth_root x h, chainWorkFrom, hw]
  rfl

lemma nChainWork_child {p : Node} (h : H.parent x = some p) {before w : ArithUint256}
    (hbefore : nChainWork H p = .ok before)
    (hw : ArithUint256.getBitsProof (H.nBits x) = .ok w) :
    nChainWork H x = .ok (add before w) := by
  rw [nChainWork] at hbefore
  rw [nChainWork, H.depth_child x p h, chainWorkFrom, h]
  simp only [hbefore, hw, bind, Except.bind, pure, Except.pure]

lemma exactWork_le {a : Node} (h : H.IsAncestor a x) : exactWork H a ≤ exactWork H x := by
  obtain ⟨k, hk⟩ := h
  induction k generalizing x with
  | zero =>
    rw [H.up_zero, Option.some.injEq] at hk
    rw [hk]
  | succ k ih =>
    rw [H.up_succ, Option.bind_eq_some_iff] at hk
    obtain ⟨p, hp, hk⟩ := hk
    rw [exactWork_child hp]
    exact (ih hk).trans (le_add_right _ _)

lemma exactWork_lt {a : Node} (h : H.IsAncestor a x) (hne : a ≠ x) :
    exactWork H a < exactWork H x := by
  obtain ⟨p, hp, hap⟩ := h.of_ne hne
  have hpos := targetWork_pos (toNat_lt (setCompact (H.nBits x)).value)
  have hle := exactWork_le hap
  rw [exactWork_child hp]
  omega

lemma nChainWork_eq (n : ℕ) : ∀ {x : Node}, H.depth x = n →
    (∀ y, H.IsAncestor y x → IsTarget (H.nBits y)) → exactWork H x < 2 ^ 256 →
    ∃ w, nChainWork H x = .ok w ∧ w.toNat = exactWork H x := by
  induction n with
  | zero =>
    intro x hdepth htargets hfits
    have hroot : H.parent x = none := by
      cases hp : H.parent x with
      | none => rfl
      | some p =>
        have := H.depth_child x p hp
        omega
    obtain ⟨w, hw, hval⟩ := getBitsProof_spec (H.nBits x)
    rw [exactWork_root hroot] at hfits ⊢
    refine ⟨add zero w, nChainWork_root hroot hw, ?_⟩
    rw [toNat_add, toNat_zero, zero_add, hval, getBitsProof_eq (htargets x (.refl _ _))]
    exact mod_eq_of_lt hfits
  | succ n ih =>
    intro x hdepth htargets hfits
    obtain ⟨p, hp, hpdepth⟩ := H.exists_parent (by omega : 0 < H.depth x)
    have hparent := Forest.isAncestor_of_parent hp
    obtain ⟨before, hbefore, hbval⟩ := ih (by omega) (fun y hy => htargets y (hy.trans hparent))
      ((exactWork_le hparent).trans_lt hfits)
    obtain ⟨w, hw, hval⟩ := getBitsProof_spec (H.nBits x)
    refine ⟨add before w, nChainWork_child hp hbefore hw, ?_⟩
    rw [exactWork_child hp] at hfits ⊢
    rw [toNat_add, hbval, hval, getBitsProof_eq (htargets x (.refl _ _))]
    exact mod_eq_of_lt hfits

end Chain

/-- **Work is exact, and grows along every chain.**  For every word that decodes to a target,
`GetBitsProof` is the quotient `2²⁵⁶ / (T + 1)`, at least one and the smaller the larger the target;
along a chain of such words whose exact sum stays below `2²⁵⁶`, `nChainWork` grows from every block
to every later one. -/
theorem getBitsProof_exact :
    (∀ nBits : UInt32, IsTarget nBits → ∃ w, ArithUint256.getBitsProof nBits = .ok w ∧
      w.toNat = 2 ^ 256 / ((setCompact nBits).value.toNat + 1) ∧ 1 ≤ w.toNat) ∧
    (∀ (nBits nBits' : UInt32) (w w' : ArithUint256), IsTarget nBits → IsTarget nBits' →
      (setCompact nBits).value.toNat ≤ (setCompact nBits').value.toNat →
      ArithUint256.getBitsProof nBits = .ok w → ArithUint256.getBitsProof nBits' = .ok w' →
      w'.toNat ≤ w.toNat) ∧
    ∀ (Node : Type) (H : HeaderTree Node) (tip : Node),
      (∀ x, H.IsAncestor x tip → IsTarget (H.nBits x)) → exactWork H tip < 2 ^ 256 →
      ∀ a x, H.IsAncestor a x → a ≠ x → H.IsAncestor x tip →
        ∃ wa wx, nChainWork H a = .ok wa ∧ nChainWork H x = .ok wx ∧ wa.toNat < wx.toNat := by
  refine ⟨fun nBits h => ?_, fun nBits nBits' w w' h h' hle hw hw' => ?_,
    fun Node H tip htargets hfits a x hax hne hx => ?_⟩
  · obtain ⟨w, hw, hval⟩ := getBitsProof_spec nBits
    rw [getBitsProof_eq h] at hval
    refine ⟨w, hw, hval, ?_⟩
    rw [hval]
    exact targetWork_pos (toNat_lt _)
  · obtain ⟨v, hv, hval⟩ := getBitsProof_spec nBits
    obtain ⟨v', hv', hval'⟩ := getBitsProof_spec nBits'
    obtain rfl : w = v := Except.ok.inj (hw.symm.trans hv)
    obtain rfl : w' = v' := Except.ok.inj (hw'.symm.trans hv')
    rw [hval, hval', getBitsProof_eq h, getBitsProof_eq h']
    exact targetWork_anti hle
  · have hfitsx := (exactWork_le hx).trans_lt hfits
    obtain ⟨wa, hwa, hvala⟩ := nChainWork_eq _ rfl
      (fun y hy => htargets y (hy.trans (hax.trans hx))) ((exactWork_le hax).trans_lt hfitsx)
    obtain ⟨wx, hwx, hvalx⟩ := nChainWork_eq _ rfl (fun y hy => htargets y (hy.trans hx)) hfitsx
    refine ⟨wa, wx, hwa, hwx, ?_⟩
    rw [hvala, hvalx]
    exact exactWork_lt hax hne

/-- The three headers of `quarteringHeaders` are a chain of targets whose work fits. -/
theorem getBitsProof_exact_quarteringHeaders :
    (∃ w, ArithUint256.getBitsProof 0x02010000 = .ok w ∧ 1 ≤ w.toNat) ∧
    ∃ wa wx, nChainWork quarteringHeaders 0 = .ok wa ∧ nChainWork quarteringHeaders 2 = .ok wx ∧
      wa.toNat < wx.toNat := by
  have htarget : ∀ x, IsTarget (quarteringHeaders.nBits x) := by
    intro x
    refine ⟨?_, ?_, ?_⟩
    · revert x; decide +kernel
    · revert x; decide +kernel
    · rw [toNat_setCompact]; revert x; decide +kernel
  refine ⟨?_, ?_⟩
  · obtain ⟨w, hw, -, hpos⟩ := getBitsProof_exact.1 0x02010000 (htarget 0)
    exact ⟨w, hw, hpos⟩
  · refine getBitsProof_exact.2.2 (Fin 3) quarteringHeaders 2 (fun x _ => htarget x) ?_ 0 2
      ⟨2, rfl⟩ (by decide) (.refl _ _)
    rw [exactWork_child (p := 1) rfl, exactWork_child (p := 0) rfl, exactWork_root rfl,
      toNat_setCompact, toNat_setCompact, toNat_setCompact]
    decide +kernel

end SlithyTove
