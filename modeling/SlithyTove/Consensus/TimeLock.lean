import SlithyTove.Validation.ContextualCheck

/-!
# Lock times, from the script to the chain

An output can be locked until a height or a time.  The script says so: `OP_CHECKLOCKTIMEVERIFY`
compares its operand with the lock time of the spending transaction (`CheckLockTime`), and
`OP_CHECKSEQUENCEVERIFY` compares it with the sequence number of the spending input
(`CheckSequence`).  The chain is asked elsewhere: `IsFinalTx` compares the lock time with the block,
and the sequence locks compare the sequence numbers with the heights and times of the spent coins.

Each side speaks of the transaction only.  Put together they speak of the operand and the chain
(`timeLocks_enforced`).  The additions on `int` are checked: a sum outside of 32 bits is an error.
-/

namespace SlithyTove

open Framework

variable {Hash : Type}

/-! ## Sequence numbers -/

def SEQUENCE_LOCKTIME_DISABLE_FLAG : UInt32 := 0x80000000

def SEQUENCE_LOCKTIME_TYPE_FLAG : UInt32 := 0x400000

def SEQUENCE_LOCKTIME_MASK : UInt32 := 0xffff

def SEQUENCE_LOCKTIME_GRANULARITY : UInt32 := 9

/-- `LOCKTIME_VERIFY_SEQUENCE`. -/
def LOCKTIME_VERIFY_SEQUENCE : UInt32 := 1

/-- A `uint32_t` as an `int64_t`. -/
def widen (x : UInt32) : Int64 := x.toUInt64.toInt64

/-! ## The checks of the script -/

/-- `CheckLockTime`. -/
def checkLockTime (txTo : CTransaction Hash) (nIn : Fin txTo.vin.length) (nLockTime : Int64) :
    Bool :=
  if ¬ ((txTo.nLockTime.toNat < LOCKTIME_THRESHOLD ∧ nLockTime.toInt < LOCKTIME_THRESHOLD) ∨
      (txTo.nLockTime.toNat ≥ LOCKTIME_THRESHOLD ∧ nLockTime.toInt ≥ LOCKTIME_THRESHOLD)) then false
  else if nLockTime.toInt > txTo.nLockTime.toNat then false
  else if SEQUENCE_FINAL = (txTo.vin.get nIn).nSequence then false
  else true

/-- `CheckSequence`. -/
def checkSequence (txTo : CTransaction Hash) (nIn : Fin txTo.vin.length) (nSequence : Int64) :
    Bool :=
  let txToSequence := widen (txTo.vin.get nIn).nSequence
  let nLockTimeMask := SEQUENCE_LOCKTIME_TYPE_FLAG ||| SEQUENCE_LOCKTIME_MASK
  let txToSequenceMasked := (txToSequence &&& widen nLockTimeMask).toInt
  let nSequenceMasked := (nSequence &&& widen nLockTimeMask).toInt
  let type_flag : ℤ := SEQUENCE_LOCKTIME_TYPE_FLAG.toNat
  if txTo.version < 2 then false
  else if txToSequence &&& widen SEQUENCE_LOCKTIME_DISABLE_FLAG ≠ 0 then false
  else if ¬ ((txToSequenceMasked < type_flag ∧ nSequenceMasked < type_flag) ∨
      (txToSequenceMasked ≥ type_flag ∧ nSequenceMasked ≥ type_flag)) then false
  else if nSequenceMasked > txToSequenceMasked then false
  else true

/-! ## The checks against the chain -/

section Chain

variable {Node : Type} (H : HeaderTree Node)

/-- A sum of `int`s. -/
def addInt (a b : ℤ) : Except String ℤ := do
  ensure (-2 ^ 31 ≤ a + b ∧ a + b < 2 ^ 31) "signed integer overflow"
  return a + b

/-- What one input adds to the locks; the third result is what becomes of its coin height. -/
def inputSequenceLock (block : Node) (txin : CTxIn Hash) (nCoinHeight nMinHeight nMinTime : ℤ) :
    Except String (ℤ × ℤ × ℤ) :=
  if txin.nSequence &&& SEQUENCE_LOCKTIME_DISABLE_FLAG ≠ 0 then
    .ok (nMinHeight, nMinTime, 0)
  else
    let locktime := txin.nSequence &&& SEQUENCE_LOCKTIME_MASK
    if txin.nSequence &&& SEQUENCE_LOCKTIME_TYPE_FLAG ≠ 0 then do
      let some ancestor ← H.getAncestor block (max (nCoinHeight - 1) 0)
        | .error "block.GetAncestor(std::max(nCoinHeight - 1, 0))"
      let nCoinTime := getMedianTimePast H ancestor
      return (nMinHeight,
        max nMinTime (nCoinTime + (locktime <<< SEQUENCE_LOCKTIME_GRANULARITY).toNat - 1),
        nCoinHeight)
    else do
      let lock ← addInt nCoinHeight locktime.toNat
      let lock ← addInt lock (-1)
      return (max nMinHeight lock, nMinTime, nCoinHeight)

/-- The loop of `CalculateSequenceLocks` over the inputs and their coin heights, which are written
as well. -/
def sequenceLockLoop (block : Node) :
    List (CTxIn Hash × ℤ) → (nMinHeight nMinTime : ℤ) → Except String ((ℤ × ℤ) × List ℤ)
  | [], nMinHeight, nMinTime => .ok ((nMinHeight, nMinTime), [])
  | (txin, nCoinHeight) :: rest, nMinHeight, nMinTime => do
      let (nMinHeight, nMinTime, nCoinHeight) ←
        inputSequenceLock H block txin nCoinHeight nMinHeight nMinTime
      let (locks, prevHeights) ← sequenceLockLoop block rest nMinHeight nMinTime
      return (locks, nCoinHeight :: prevHeights)

/-- `CalculateSequenceLocks`: the locks, and the heights as it leaves them. -/
def calculateSequenceLocks (tx : CTransaction Hash) (flags : UInt32) (prevHeights : List ℤ)
    (block : Node) : Except String ((ℤ × ℤ) × List ℤ) := do
  ensure (prevHeights.length = tx.vin.length) "prevHeights.size() == tx.vin.size()"
  let fEnforceBIP68 := tx.version ≥ 2 ∧ flags &&& LOCKTIME_VERIFY_SEQUENCE ≠ 0
  if ¬ fEnforceBIP68 then return ((-1, -1), prevHeights)
  sequenceLockLoop H block (tx.vin.zip prevHeights) (-1) (-1)

/-- `EvaluateSequenceLocks`. -/
def evaluateSequenceLocks (block : Node) (lockPair : ℤ × ℤ) : Except String Bool :=
  match H.parent block with
  | none => .error "block.pprev"
  | some pprev =>
    let nBlockTime := getMedianTimePast H pprev
    .ok (¬ (lockPair.1 ≥ H.depth block ∨ lockPair.2 ≥ nBlockTime))

end Chain

/-! ## Masks -/

variable (x : UInt32)

lemma toNat_widen : (widen x).toBitVec.toNat = x.toNat := by
  simp [widen]

variable {n : Int64}

lemma toInt_and_widen : (n &&& widen x).toInt = (n.toBitVec.toNat &&& x.toNat : ℕ) := by
  have hlt : n.toBitVec.toNat &&& x.toNat < 2 ^ 32 :=
    Nat.and_le_right.trans_lt x.toNat_lt
  change (n.toBitVec &&& (widen x).toBitVec).toInt = _
  rw [BitVec.toInt_eq_toNat_of_lt, BitVec.toNat_and, toNat_widen]
  rw [BitVec.toNat_and, toNat_widen]
  omega

/-- The bits of the locktime mask: the type flag and the lowest sixteen. -/
lemma and_lockTimeMask (n : ℕ) :
    n &&& (SEQUENCE_LOCKTIME_TYPE_FLAG ||| SEQUENCE_LOCKTIME_MASK).toNat =
      (n &&& SEQUENCE_LOCKTIME_TYPE_FLAG.toNat) + n % 65536 := by
  change n &&& (0x400000 ||| 0xffff) = (n &&& 0x400000) + n % 65536
  have hlow : n &&& 0xffff = n % 65536 := Nat.and_two_pow_sub_one_eq_mod n 16
  rw [Nat.and_or_distrib_left, hlow]
  have hlt : n % 65536 < 2 ^ 22 := (Nat.mod_lt n (by decide)).trans (by decide)
  have hflag : n &&& 0x400000 = (n.testBit 22).toNat * 2 ^ 22 := Nat.and_two_pow n 22
  rw [hflag]
  cases n.testBit 22 with
  | false => simp
  | true =>
    exact (Nat.two_pow_add_eq_or_of_lt hlt 1).symm

lemma and_typeFlag (n : ℕ) : n &&& SEQUENCE_LOCKTIME_TYPE_FLAG.toNat = 0 ∨
    n &&& SEQUENCE_LOCKTIME_TYPE_FLAG.toNat = SEQUENCE_LOCKTIME_TYPE_FLAG.toNat := by
  have hflag : n &&& SEQUENCE_LOCKTIME_TYPE_FLAG.toNat = (n.testBit 22).toNat * 2 ^ 22 :=
    Nat.and_two_pow n 22
  rw [hflag]
  cases n.testBit 22 with
  | false => exact .inl (zero_mul _)
  | true => exact .inr (one_mul _)

lemma toNat_lockTime : (x &&& SEQUENCE_LOCKTIME_MASK).toNat = x.toNat % 65536 := by
  rw [UInt32.toNat_and]
  exact Nat.and_two_pow_sub_one_eq_mod x.toNat 16

/-! ## What the checks of the script say of the transaction -/

/-- The operand of a lock by height. -/
def IsHeightLock (n : Int64) : Prop := n &&& widen SEQUENCE_LOCKTIME_TYPE_FLAG = 0

instance (n : Int64) : Decidable (IsHeightLock n) := inferInstanceAs (Decidable (_ = _))

lemma isHeightLock_iff (n : Int64) :
    IsHeightLock n ↔ n.toBitVec.toNat &&& SEQUENCE_LOCKTIME_TYPE_FLAG.toNat = 0 := by
  unfold IsHeightLock
  rw [← Int64.toInt_inj, toInt_and_widen]
  exact Int.natCast_eq_zero

lemma lock_of_checkSequence {txTo : CTransaction Hash} {nIn : Fin txTo.vin.length}
    (h : checkSequence txTo nIn n = true) : txTo.version ≥ 2 ∧
      (txTo.vin.get nIn).nSequence &&& SEQUENCE_LOCKTIME_DISABLE_FLAG = 0 ∧
      (IsHeightLock n ↔ (txTo.vin.get nIn).nSequence &&& SEQUENCE_LOCKTIME_TYPE_FLAG = 0) ∧
      n.toBitVec.toNat % 65536 ≤
        ((txTo.vin.get nIn).nSequence &&& SEQUENCE_LOCKTIME_MASK).toNat := by
  obtain ⟨seq, hseq⟩ : ∃ seq, (txTo.vin.get nIn).nSequence = seq := ⟨_, rfl⟩
  simp only [checkSequence, hseq] at h ⊢
  split at h
  · cases h
  next hversion =>
  split at h
  · cases h
  next hdisable =>
  split at h
  · cases h
  next htype =>
  split at h
  · cases h
  next hle =>
  have hand : ∀ mask : UInt32, (widen seq &&& widen mask).toInt = ((seq &&& mask).toNat : ℤ) := by
    intro mask
    rw [toInt_and_widen, toNat_widen, UInt32.toNat_and]
  have hzero : ∀ mask : UInt32, seq &&& mask = 0 ↔ (seq.toNat &&& mask.toNat) = 0 := by
    intro mask
    rw [← UInt32.toNat_inj, UInt32.toNat_and]
    rfl
  rw [isHeightLock_iff, hzero SEQUENCE_LOCKTIME_TYPE_FLAG, toNat_lockTime]
  rw [not_not, ← Int64.toInt_inj, hand] at hdisable
  rw [hand, toInt_and_widen, UInt32.toNat_and, and_lockTimeMask, and_lockTimeMask] at htype hle
  have hflag : SEQUENCE_LOCKTIME_TYPE_FLAG.toNat = 4194304 := rfl
  refine ⟨UInt32.not_lt.1 hversion, UInt32.toNat_inj.1 (Int.natCast_eq_zero.1 hdisable), ?_⟩
  rcases and_typeFlag seq.toNat with hs | hs <;>
    rcases and_typeFlag n.toBitVec.toNat with hn | hn <;>
    rw [hs, hn] at htype hle ⊢ <;> omega

/-! ## What the locks say of the chain -/

section Locks

variable {Node : Type} {H : HeaderTree Node} {block : Node}

/-- The locks cover what the sequence number of an input asks for. -/
structure Covers (H : HeaderTree Node) (block : Node) (txin : CTxIn Hash) (nCoinHeight : ℤ)
    (locks : ℤ × ℤ) : Prop where
  height : txin.nSequence &&& SEQUENCE_LOCKTIME_TYPE_FLAG = 0 →
    nCoinHeight + (txin.nSequence &&& SEQUENCE_LOCKTIME_MASK).toNat - 1 ≤ locks.1
  time : txin.nSequence &&& SEQUENCE_LOCKTIME_TYPE_FLAG ≠ 0 →
    ∃ ancestor, H.getAncestor block (max (nCoinHeight - 1) 0) = .ok (some ancestor) ∧
      getMedianTimePast H ancestor +
        512 * (txin.nSequence &&& SEQUENCE_LOCKTIME_MASK).toNat - 1 ≤ locks.2

variable {txin : CTxIn Hash}

lemma Covers.mono {nCoinHeight : ℤ} {locks locks' : ℤ × ℤ}
    (h : Covers H block txin nCoinHeight locks) (hheight : locks.1 ≤ locks'.1)
    (htime : locks.2 ≤ locks'.2) : Covers H block txin nCoinHeight locks' := by
  refine ⟨fun htype => (h.height htype).trans hheight, fun htype => ?_⟩
  obtain ⟨ancestor, hancestor, hle⟩ := h.time htype
  exact ⟨ancestor, hancestor, hle.trans htime⟩

lemma toNat_shift_lockTime (x : UInt32) :
    ((x &&& SEQUENCE_LOCKTIME_MASK) <<< SEQUENCE_LOCKTIME_GRANULARITY).toNat =
      512 * (x &&& SEQUENCE_LOCKTIME_MASK).toNat := by
  have hlt : (x &&& SEQUENCE_LOCKTIME_MASK).toNat < 65536 := by
    rw [toNat_lockTime]
    exact Nat.mod_lt _ (by decide)
  rw [UInt32.toNat_shiftLeft]
  change ((x &&& SEQUENCE_LOCKTIME_MASK).toNat <<< 9) % 2 ^ 32 = _
  rw [Nat.shiftLeft_eq]
  omega

lemma inputSequenceLock_spec {nCoinHeight nMinHeight nMinTime : ℤ} {r : ℤ × ℤ × ℤ}
    (h : inputSequenceLock H block txin nCoinHeight nMinHeight nMinTime = .ok r) :
    nMinHeight ≤ r.1 ∧ nMinTime ≤ r.2.1 ∧
      (txin.nSequence &&& SEQUENCE_LOCKTIME_DISABLE_FLAG = 0 →
        Covers H block txin nCoinHeight (r.1, r.2.1)) := by
  unfold inputSequenceLock at h
  split at h
  · next hdisable =>
    cases h
    exact ⟨le_rfl, le_rfl, fun hzero => absurd hzero hdisable⟩
  · dsimp only at h
    split at h
    · next htype =>
      obtain ⟨found, hfound, h⟩ := bind_eq_ok.1 h
      cases found with
      | none => cases h
      | some ancestor =>
        cases h
        refine ⟨le_rfl, le_max_left _ _, fun _ => ⟨fun hzero => absurd hzero htype, fun _ => ?_⟩⟩
        refine ⟨ancestor, hfound, ?_⟩
        rw [toNat_shift_lockTime]
        exact le_max_right _ _
    · next htype =>
      rw [not_not] at htype
      simp only [addInt, bind_eq_ok, ensure_eq_ok, pure_eq_ok] at h
      obtain ⟨sum, ⟨⟨⟩, -, rfl⟩, lock, ⟨⟨⟩, -, rfl⟩, rfl⟩ := h
      refine ⟨le_max_left _ _, le_rfl, fun _ => ⟨fun _ => ?_, fun hne => absurd htype hne⟩⟩
      rw [← sub_eq_add_neg]
      exact le_max_right _ _

/-- **The loop covers every input** that is not disabled. -/
lemma sequenceLockLoop_spec {inputs : List (CTxIn Hash × ℤ)} {nMinHeight nMinTime : ℤ}
    {locks : ℤ × ℤ} {heights : List ℤ}
    (h : sequenceLockLoop H block inputs nMinHeight nMinTime = .ok (locks, heights)) :
    nMinHeight ≤ locks.1 ∧ nMinTime ≤ locks.2 ∧
      ∀ input ∈ inputs, input.1.nSequence &&& SEQUENCE_LOCKTIME_DISABLE_FLAG = 0 →
        Covers H block input.1 input.2 locks := by
  induction inputs generalizing nMinHeight nMinTime locks heights with
  | nil =>
    cases h
    exact ⟨le_rfl, le_rfl, nofun⟩
  | cons input inputs ih =>
    obtain ⟨txin, nCoinHeight⟩ := input
    obtain ⟨⟨minHeight, minTime, coinHeight⟩, hinput, h⟩ := bind_eq_ok.1 h
    obtain ⟨⟨locks', heights'⟩, hrest, h⟩ := bind_eq_ok.1 h
    cases h
    obtain ⟨hheight, htime, hcovers⟩ := inputSequenceLock_spec hinput
    obtain ⟨hheight', htime', hothers⟩ := ih hrest
    refine ⟨hheight.trans hheight', htime.trans htime', List.forall_mem_cons.2 ⟨?_, hothers⟩⟩
    exact fun hzero => (hcovers hzero).mono hheight' htime'

end Locks

/-! ## The operand against the chain -/

/-- An operand of `OP_CHECKLOCKTIMEVERIFY` that was checked is behind the block of a final
transaction. -/
lemma checkLockTime_isFinalTx {tx : CTransaction Hash} {nIn : Fin tx.vin.length}
    (hcheck : checkLockTime tx nIn n = true) {h : ℕ} (hh : 1 ≤ h) {t : ℤ}
    (hfinal : isFinalTx tx h t = true) :
    (n.toInt < LOCKTIME_THRESHOLD → n.toInt < h) ∧
    (n.toInt ≥ LOCKTIME_THRESHOLD → n.toInt < t) := by
  unfold checkLockTime at hcheck
  split at hcheck
  · cases hcheck
  next hkind =>
  split at hcheck
  · cases hcheck
  next hle =>
  split at hcheck
  · cases hcheck
  next hsequence =>
  rw [not_not] at hkind
  simp only [isFinalTx, decide_eq_true_eq] at hfinal
  rcases hfinal with hzero | hlt | hall
  · have hthreshold : LOCKTIME_THRESHOLD = 500000000 := rfl
    have hzero' : tx.nLockTime.toNat = 0 := congrArg UInt32.toNat hzero
    omega
  · split at hlt <;> omega
  · exact absurd (hall _ (List.get_mem _ nIn)).symm hsequence

/-- **Lock times are enforced.**  An operand that passes the check of its opcode, in a transaction
that is final for a block or whose sequence locks are satisfied for it, is not ahead of the
block. -/
theorem timeLocks_enforced {Node : Type} (H : HeaderTree Node) (tx : CTransaction Hash)
    (nIn : Fin tx.vin.length) (n : Int64) :
    (∀ (h : ℕ) (t : ℤ), 1 ≤ h → checkLockTime tx nIn n = true → isFinalTx tx h t = true →
      (n.toInt < LOCKTIME_THRESHOLD → n.toInt < h) ∧
      (n.toInt ≥ LOCKTIME_THRESHOLD → n.toInt < t)) ∧
    ∀ (flags : UInt32) (prevHeights : List ℤ) (nCoinHeight : ℤ) (block pprev : Node)
      (locks : ℤ × ℤ) (heights : List ℤ), flags &&& LOCKTIME_VERIFY_SEQUENCE ≠ 0 →
      prevHeights[nIn.val]? = some nCoinHeight → H.parent block = some pprev →
      checkSequence tx nIn n = true →
      calculateSequenceLocks H tx flags prevHeights block = .ok (locks, heights) →
      evaluateSequenceLocks H block locks = .ok true →
      (IsHeightLock n → nCoinHeight + n.toInt % 65536 ≤ H.depth block) ∧
      (¬ IsHeightLock n → ∃ before, H.getAncestor block (max (nCoinHeight - 1) 0) =
          .ok (some before) ∧
        getMedianTimePast H before + 512 * (n.toInt % 65536) ≤ getMedianTimePast H pprev) := by
  refine ⟨fun h t hh hcheck hfinal => checkLockTime_isFinalTx hcheck hh hfinal, ?_⟩
  intro flags prevHeights nCoinHeight block pprev locks heights hflags hcoin hparent hcheck hlocks
    hevaluate
  obtain ⟨hversion, hdisable, htype, hle⟩ := lock_of_checkSequence hcheck
  -- The locks cover the input that the script has checked.
  have hcovers : Covers H block (tx.vin.get nIn) nCoinHeight locks := by
    simp only [calculateSequenceLocks, bind_eq_ok, ensure_eq_ok] at hlocks
    obtain ⟨⟨⟩, hlength, hloop⟩ := hlocks
    rw [if_neg (not_not.2 ⟨hversion, hflags⟩)] at hloop
    have hmem : (tx.vin.get nIn, nCoinHeight) ∈ tx.vin.zip prevHeights := by
      have hinput : tx.vin[nIn.val]? = some (tx.vin.get nIn) := List.getElem?_eq_getElem nIn.isLt
      exact List.mem_of_getElem? (List.getElem?_zip_eq_some.2 ⟨hinput, hcoin⟩)
    exact (sequenceLockLoop_spec hloop).2.2 _ hmem hdisable
  have hoperand : n.toInt % 65536 = (n.toBitVec.toNat % 65536 : ℕ) := by
    change n.toBitVec.toInt % 65536 = _
    rw [BitVec.toInt_eq_toNat_cond]
    split <;> omega
  have hblock : locks.1 < H.depth block ∧ locks.2 < getMedianTimePast H pprev := by
    simp only [evaluateSequenceLocks, hparent, Except.ok.injEq, decide_eq_true_eq, not_or,
      not_le] at hevaluate
    exact hevaluate
  rw [hoperand]
  constructor
  · intro hheight
    have := hcovers.height (htype.1 hheight)
    omega
  · intro htime
    obtain ⟨before, hbefore, hlock⟩ := hcovers.time (fun hzero => htime (htype.2 hzero))
    exact ⟨before, hbefore, by omega⟩

/-- A transaction that spends a coin of the first block under two locks: not before height two, and
one block after the coin. -/
def lockedSpend : CTransaction ℕ where
  version := 2
  vin := [⟨⟨1, 0⟩, [], 1, []⟩]
  vout := []
  nLockTime := 1

/-- The same with two locks in time. -/
def timedSpend : CTransaction ℕ where
  version := 2
  vin := [⟨⟨1, 0⟩, [], 0x400001, []⟩]
  vout := []
  nLockTime := 500000100

/-- Three blocks, ten minutes apart. -/
def slowHeaders : HeaderTree (Fin 3) :=
  { quarteringHeaders with nTime := fun x => (500000000 + 600 * x.val).toUInt32 }

lemma evaluateSequenceLocks_slowHeaders :
    evaluateSequenceLocks slowHeaders 2 (-1, 500000511) = .ok true := by
  have htimes : pastTimes slowHeaders nMedianTimeSpan 1 = [500000600, 500000000] := by decide
  have hparent : slowHeaders.parent 2 = some 1 := rfl
  rw [evaluateSequenceLocks, hparent]
  simp [getMedianTimePast, htimes, List.mergeSort, List.MergeSort.Internal.splitInTwo]
  decide

theorem timeLocks_enforced_lockedSpend :
    (checkLockTime lockedSpend ⟨0, by decide⟩ 1 = true ∧ isFinalTx lockedSpend 2 0 = true ∧
      (1 : ℤ) < 2) ∧
    (checkSequence lockedSpend ⟨0, by decide⟩ 1 = true ∧
      evaluateSequenceLocks quarteringHeaders 1 (0, -1) = .ok true ∧
      (0 : ℤ) + 1 ≤ quarteringHeaders.depth 1) ∧
    (checkLockTime timedSpend ⟨0, by decide⟩ 500000100 = true ∧
      isFinalTx timedSpend 2 500000600 = true ∧ (500000100 : ℤ) < 500000600) ∧
    checkSequence timedSpend ⟨0, by decide⟩ 0x400001 = true ∧
      evaluateSequenceLocks slowHeaders 2 (-1, 500000511) = .ok true ∧
      getMedianTimePast slowHeaders 0 + 512 * 1 ≤ getMedianTimePast slowHeaders 1 := by
  obtain ⟨hheight, hsequence⟩ := timeLocks_enforced quarteringHeaders lockedSpend ⟨0, by decide⟩ 1
  refine ⟨⟨by decide, by decide, ?_⟩, ⟨by decide, by decide +kernel, ?_⟩,
    ⟨by decide, by decide, ?_⟩, by decide, evaluateSequenceLocks_slowHeaders, ?_⟩
  · exact (hheight 2 0 (by decide) (by decide) (by decide)).1 (by decide)
  · exact (hsequence LOCKTIME_VERIFY_SEQUENCE [0] 0 1 0 (0, -1) [0] (by decide) (by decide)
      (by decide) (by decide) (by decide +kernel) (by decide +kernel)).1 (by decide)
  · exact ((timeLocks_enforced slowHeaders timedSpend ⟨0, by decide⟩ 500000100).1 2 500000600
      (by decide) (by decide) (by decide)).2 (by decide)
  · obtain ⟨before, hbefore, hle⟩ := ((timeLocks_enforced slowHeaders timedSpend ⟨0, by decide⟩
      0x400001).2 LOCKTIME_VERIFY_SEQUENCE [1] 1 2 1 (-1, 500000511) [1] (by decide) (by decide)
      (by decide) (by decide) (by decide +kernel) evaluateSequenceLocks_slowHeaders).2 (by decide)
    have hgenesis : slowHeaders.getAncestor 2 (max (1 - 1) 0) = .ok (some 0) := by decide +kernel
    rw [hgenesis, Except.ok.injEq, Option.some.injEq] at hbefore
    rw [hbefore]
    exact hle

end SlithyTove
