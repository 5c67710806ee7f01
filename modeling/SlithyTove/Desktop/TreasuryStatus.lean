import SlithyTove.Consensus.SupplySchedule
import SlithyTove.Services.TreasuryIndex
import SlithyTove.Validation.ConnectBlock

/-!
# What the treasury has received

Three programs say what the blocks up to some height paid to the treasury.  Consensus decides it:
`ConnectBlock` accepts a block only if its coinbase pays the treasury's share of the subsidy.  The
status server adds up what it finds in the blocks.  The desktop application computes it from the
height alone, era by era: the first era has one block less, since the genesis block pays nothing.

All three agree at every height, for the parameters the desktop application is written for.
-/

namespace SlithyTove

open Framework List

/-! ## `TreasuryStatusCalculator` -/

/-- `TreasuryStatus`. -/
structure TreasuryStatus where
  ChainHeight : ℤ
  Accrued : ℚ
  Address : String
  IsDevelopment : Bool

/-- `DevelopmentTreasuryAddress`. -/
def DevelopmentTreasuryAddress : String := "tslithy1quwm9s9qq9k03vdlus547p2x69uqvh50v3wffcu"

/-- `HalvingInterval`. -/
def HalvingInterval : ℤ := 1051200

/-- `InitialSubsidyAtomic`. -/
def InitialSubsidyAtomic : ℤ := 1000000000

/-- A whole number as a `decimal`, which has 96 bits; a larger one is an overflow. -/
def decimalOf (x : ℤ) : Except String ℤ := do
  ensure (x.natAbs < 2 ^ 96) "OverflowException"
  return x

/-- The loop over the eras, for at most `left` more of them. -/
def accrueEras : (left era : ℕ) → (remaining accruedAtomic : ℤ) → Except String ℤ
  | 0, _, _, accruedAtomic => .ok accruedAtomic
  | left + 1, era, remaining, accruedAtomic =>
    if remaining > 0 then
      let subsidy := InitialSubsidyAtomic >>> era
      if subsidy = 0 then .ok accruedAtomic
      else do
        let eraBlocks := min remaining (if era = 0 then HalvingInterval - 1 else HalvingInterval)
        let earned ← decimalOf (eraBlocks * subsidy.tdiv 10)
        let accruedAtomic ← decimalOf (accruedAtomic + earned)
        accrueEras left (era + 1) (remaining - eraBlocks) accruedAtomic
    else .ok accruedAtomic

/-- `TreasuryStatusCalculator.FromChainHeight`.  A whole number below `2^96` divided by `10^8` is a
`decimal` exactly. -/
def fromChainHeight (chainHeight : ℤ) : Except String TreasuryStatus := do
  let accruedAtomic ← accrueEras 64 0 (max 0 chainHeight) 0
  return ⟨chainHeight, accruedAtomic / 100000000, DevelopmentTreasuryAddress, true⟩

/-! ## The schedule of the treasury -/

/-- The shares of the subsidy for the blocks at heights `1` to `n`. -/
def scheduledTreasury (params : Params) (n : ℕ) : ℤ :=
  ∑ k ∈ Finset.range n, getBlockSubsidy (k + 1) params * 10 / 100

@[simp] lemma scheduledTreasury_succ (params : Params) (n : ℕ) :
    scheduledTreasury params (n + 1) =
      scheduledTreasury params n + getBlockSubsidy (n + 1) params * 10 / 100 :=
  Finset.sum_range_succ ..

lemma scheduledTreasury_nonneg (params : Params) (n : ℕ) : 0 ≤ scheduledTreasury params n := by
  refine Finset.sum_nonneg fun k _ => ?_
  have := getBlockSubsidy_nonneg (k + 1) params
  omega

lemma scheduledTreasury_le (params : Params) (h : params.nSubsidyHalvingInterval = 1051200)
    (n : ℕ) : scheduledTreasury params n ≤ 2102398986334400 := by
  refine le_trans ?_ (scheduledSupply_le params h n)
  refine Finset.sum_le_sum fun k _ => ?_
  have := getBlockSubsidy_nonneg (k + 1) params
  omega

lemma scheduledTreasury_add (params : Params) {n m : ℕ} {share : ℤ}
    (h : ∀ k, n < k → k ≤ n + m → getBlockSubsidy k params * 10 / 100 = share) :
    scheduledTreasury params (n + m) = scheduledTreasury params n + m * share := by
  unfold scheduledTreasury
  rw [Finset.sum_range_add]
  congr 1
  rw [Finset.sum_congr rfl fun j hj => h (n + j + 1) (by omega) (by
    have := Finset.mem_range.1 hj
    omega), Finset.sum_const, Finset.card_range, nsmul_eq_mul]

/-! ## The desktop application -/

variable {params : Params} {era : ℕ}

section

variable (h : params.nSubsidyHalvingInterval = 1051200)

include h

lemma share_of_era {k : ℕ} (hera : era < 64)
    (hlow : era * 1051200 ≤ k) (hhigh : k < (era + 1) * 1051200) :
    getBlockSubsidy k params * 10 / 100 = (InitialSubsidyAtomic >>> era).tdiv 10 := by
  have hdiv : k / 1051200 = era := by omega
  have hsubsidy : getBlockSubsidy k params = InitialSubsidyAtomic >>> era := by
    rw [getBlockSubsidy_eq_eraSubsidy, h, hdiv, eraSubsidy, if_neg (by omega)]
    rfl
  have hnonneg := getBlockSubsidy_nonneg k params
  rw [hsubsidy] at hnonneg ⊢
  rw [Int.tdiv_eq_ediv_of_nonneg hnonneg]
  omega

lemma share_of_late_era {k : ℕ}
    (hera : 64 ≤ era ∨ InitialSubsidyAtomic >>> era = 0) (hlow : era * 1051200 ≤ k) :
    getBlockSubsidy k params * 10 / 100 = 0 := by
  have hdiv : era ≤ k / 1051200 := by omega
  have hsubsidy : getBlockSubsidy k params = 0 := by
    rw [getBlockSubsidy_eq_eraSubsidy, h, eraSubsidy]
    split
    · rfl
    · next hlt =>
      obtain ⟨d, hd⟩ := Nat.exists_eq_add_of_le hdiv
      have hzero : (10 * COIN) >>> era = 0 := hera.resolve_left (by omega)
      rw [hd, Int.shiftRight_add, hzero, Int.zero_shiftRight]
  rw [hsubsidy]
  rfl

omit h in
lemma decimalOf_eq {x : ℤ} (hlow : 0 ≤ x) (hhigh : x ≤ 2102398986334400) :
    decimalOf x = .ok x := by
  refine ensure_bind ?_ _
  omega

lemma scheduledTreasury_of_late {height counted : ℕ} (hle : counted ≤ height)
    (hlate : 64 ≤ era ∨ InitialSubsidyAtomic >>> era = 0) (hnext : era * 1051200 ≤ counted + 1) :
    scheduledTreasury params counted = scheduledTreasury params height := by
  obtain ⟨m, rfl⟩ := Nat.exists_eq_add_of_le hle
  rw [scheduledTreasury_add params fun k hk _ => share_of_late_era h hlate (by omega), mul_zero,
    add_zero]

omit h in
/-- What is counted once an era is added: everything, or all blocks before the next era. -/
lemma counted_of_era {height counted m : ℕ} (hle : counted ≤ height)
    (hnext : counted + 1 = max 1 (era * 1051200))
    (hm : m = min (height - counted) (if era = 0 then 1051200 - 1 else 1051200)) :
    counted + m ≤ height ∧
      (counted + m = height ∨ counted + m + 1 = max 1 ((era + 1) * 1051200)) := by
  rcases Nat.eq_zero_or_pos era with rfl | hpos
  · rw [if_pos rfl] at hm
    omega
  · rw [if_neg hpos.ne'] at hm
    omega

/-- The loop over the eras, once the blocks up to height `counted` are counted. -/
lemma accrueEras_eq {height left counted : ℕ} (hleft : left + era = 64) (hle : counted ≤ height)
    (hnext : counted = height ∨ counted + 1 = max 1 (era * 1051200)) :
    accrueEras left era (height - counted) (scheduledTreasury params counted) =
      .ok (scheduledTreasury params height) := by
  induction left generalizing era counted with
  | zero =>
    rw [accrueEras]
    rcases hnext with rfl | hnext
    · rfl
    · rw [scheduledTreasury_of_late h hle (.inl (show 64 ≤ era by omega)) (by omega)]
  | succ left ih =>
    rw [accrueEras]
    split
    · next hpos =>
      have hlt : counted < height := by omega
      replace hnext := hnext.resolve_left hlt.ne
      dsimp only
      split
      · next hzero => rw [scheduledTreasury_of_late h hle (.inr hzero) (by omega)]
      · -- The blocks of this era, each with the same share.
        obtain ⟨m, hm⟩ : ∃ m, m = min (height - counted)
          (if era = 0 then 1051200 - 1 else 1051200) := ⟨_, rfl⟩
        obtain ⟨share, hshare⟩ : ∃ share, share = (InitialSubsidyAtomic >>> era).tdiv 10 :=
          ⟨_, rfl⟩
        have hblocks : min ((height : ℤ) - counted)
            (if era = 0 then HalvingInterval - 1 else HalvingInterval) = m := by
          rw [hm, HalvingInterval]
          split <;> omega
        have hadd : scheduledTreasury params (counted + m) =
            scheduledTreasury params counted + m * share := by
          refine scheduledTreasury_add params fun k hlow hhigh => ?_
          rw [hshare]
          refine share_of_era h (by omega) (by omega) ?_
          split at hm <;> omega
        have hshare_nonneg : 0 ≤ share := by
          rw [hshare, Int.shiftRight_eq_div_pow]
          exact Int.tdiv_nonneg (Int.ediv_nonneg (by decide) (by positivity)) (by decide)
        have hearned : 0 ≤ m * share := by positivity
        have hbound := scheduledTreasury_le params h (counted + m)
        have hnonneg := scheduledTreasury_nonneg params counted
        have hrest : (height : ℤ) - counted - m = height - (counted + m : ℕ) := by
          push_cast
          ring
        rw [hblocks, ← hshare, decimalOf_eq hearned (by omega)]
        change (decimalOf _ >>= _) = _
        rw [decimalOf_eq (by omega) (by omega), ← hadd, hrest]
        obtain ⟨hcounted, hera⟩ := counted_of_era hle hnext hm
        exact ih (by omega) hcounted hera
    · next hnot =>
      obtain rfl : counted = height := by omega
      rfl

/-- **The desktop application's figure.** -/
lemma fromChainHeight_eq (height : ℕ) :
    fromChainHeight height = .ok ⟨height, scheduledTreasury params height / 100000000,
      DevelopmentTreasuryAddress, true⟩ := by
  have hrun : accrueEras 64 0 (max 0 (height : ℤ)) 0 = .ok (scheduledTreasury params height) := by
    have hloop := accrueEras_eq h (show 64 + 0 = 64 from rfl) (Nat.zero_le height) (.inr rfl)
    rw [Nat.cast_zero, sub_zero] at hloop
    rw [max_eq_right (Int.natCast_nonneg height)]
    exact hloop
  rw [fromChainHeight, hrun]
  rfl

end

/-! ## The blocks -/

variable {Hash : Type} [DecidableEq Hash] [Zero Hash]

/-- An accepted block as far as the treasury is concerned: only its first transaction is a coinbase,
and that pays the treasury its share. -/
structure PaysShare (params : Params) (nHeight : ℕ) (block : CBlock Hash) : Prop where
  coinbase : ∀ tx ∈ block.vtx.head?, tx.isCoinBase = true
  rest : ∀ tx ∈ block.vtx.tail, tx.isCoinBase = false
  nonneg : ∀ tx ∈ block.vtx.head?, ∀ out ∈ tx.vout, 0 ≤ out.nValue
  paid : treasuryPaid params ((block.vtx.head?.map CTransaction.vout).getD []) =
    treasuryShare nHeight params

variable {rules : ConsensusRules Hash} {view : CoinsView Hash} {block : CBlock Hash}

lemma PaysShare.of_connectBlock {pindex : IndexEntry Hash}
    {view' : CoinsView Hash} {undo : CBlockUndo} (hgenesis : pindex.hash ≠ rules.hashGenesisBlock)
    (hpos : 0 < pindex.nHeight) (hscript : rules.params.treasury_script_pub_key ≠ [])
    (hconnect : connectBlock rules block pindex false view = .ok (view', undo)) :
    PaysShare rules.params pindex.nHeight block := by
  simp only [connectBlock, if_neg hgenesis, bind_eq_ok, ensure_eq_ok, pure_eq_ok] at hconnect
  obtain ⟨_, -, ⟨⟩, hblock, _, -, s, hrun, -⟩ := hconnect
  simp only [checkBlock, bind_eq_ok, ensure_eq_ok] at hblock
  obtain ⟨_, -, _, -, _, -, _, hfirst, _, hrest, -⟩ := hblock
  simp only [connectTransactions, bind_eq_ok, pure_eq_ok] at hrun
  obtain ⟨_, -, _, -, s', -, _, hcheck, -⟩ := hrun
  obtain ⟨hnonneg, -, -, hpaid⟩ := checkCoinbase_eq_ok.1 hcheck
  refine ⟨hfirst, ?_, ?_, hpaid hpos hscript⟩
  · intro tx htx
    exact Bool.eq_false_of_not_eq_true (hrest tx htx)
  · intro tx htx out hout
    refine hnonneg out ?_
    rw [Option.mem_def] at htx
    rwa [htx]

/-- The blocks at heights `1` and up were connected one after the other.  The genesis block is in
the index only at height zero. -/
inductive ConnectedChain (rules : ConsensusRules Hash) : List (CBlock Hash) → CoinsView Hash → Prop
  | genesis : ConnectedChain rules [] ⟨.empty, rules.hashGenesisBlock⟩
  | connect {chain : List (CBlock Hash)} {view view' : CoinsView Hash} {block : CBlock Hash}
      {pindex : IndexEntry Hash} {undo : CBlockUndo} (hchain : ConnectedChain rules chain view)
      (hheight : pindex.nHeight = chain.length + 1)
      (hgenesis : pindex.hash ≠ rules.hashGenesisBlock)
      (hconnect : connectBlock rules block pindex false view = .ok (view', undo)) :
      ConnectedChain rules (chain ++ [block]) view'

variable {chain : List (CBlock Hash)}

lemma ConnectedChain.paysShare (h : ConnectedChain rules chain view)
    (hscript : rules.params.treasury_script_pub_key ≠ []) {k : ℕ}
    (hk : chain[k]? = some block) : PaysShare rules.params (k + 1) block := by
  induction h with
  | genesis => cases hk
  | @connect chain view view' last pindex undo _ hheight hgenesis hconnect ih =>
    rcases lt_trichotomy k chain.length with hlt | heq | hgt
    · rw [List.getElem?_append_left hlt] at hk
      exact ih hk
    · rw [heq, List.getElem?_concat_length, Option.some.injEq] at hk
      rw [← hk, heq, ← hheight]
      exact .of_connectBlock hgenesis (by omega) hscript hconnect
    · rw [List.getElem?_eq_none (by rw [length_append, length_singleton]; omega)] at hk
      cases hk

/-! ## The status server -/

/-- An output as `getblock` shows it. -/
def rpcOutput (p : CTxOut × ℕ) : RpcOutput := ⟨p.1.nValue, p.2, p.1.scriptPubKey⟩

/-- A transaction as `getblock` shows it: every input of a coinbase has the key `coinbase`. -/
def rpcTx (rules : ConsensusRules Hash) (tx : CTransaction Hash) : RpcTx Hash where
  txid := rules.txid tx
  vin := tx.vin.map fun txin =>
    if tx.isCoinBase then ⟨true, none⟩ else ⟨false, some (txin.prevout.hash, txin.prevout.n)⟩
  vout := tx.vout.zipIdx.map rpcOutput

/-- The node shows these blocks on the chain that ends in `x`. -/
structure ShowsChain (rules : ConsensusRules Hash) (node : NodeBlocks Hash) (x : Hash)
    (chain : List (CBlock Hash)) : Prop where
  depth : node.depth x = chain.length
  blocks : ∀ k y, node.atDepth x (k + 1) = some y →
    ∃ block, chain[k]? = some block ∧ node.tx y = block.vtx.map (rpcTx rules)

variable {config : CollectorConfig}

omit [Zero Hash] in
lemma scanInput_rewards (vin : List (RpcInput Hash)) (s : TxScan Hash) :
    (vin.foldl scanInput s).rewards = s.rewards := by
  induction vin generalizing s with
  | nil => rfl
  | cons v vin ih =>
    rw [foldl_cons, ih]
    unfold scanInput
    split
    · rfl
    · split <;> rfl

lemma rpcTx_coinbase {tx : CTransaction Hash} :
    ((rpcTx rules tx).vin.any fun v => v.coinbase) = tx.isCoinBase := by
  cases hcb : tx.isCoinBase with
  | false =>
    rw [any_eq_false]
    refine forall_mem_map.2 fun _ _ => ?_
    rw [hcb]
    exact Bool.false_ne_true
  | true =>
    obtain ⟨txin, hvin⟩ : ∃ txin, tx.vin = [txin] := by
      unfold CTransaction.isCoinBase at hcb
      split at hcb
      · next txin hvin => exact ⟨txin, hvin⟩
      · cases hcb
    rw [rpcTx, hvin, hcb]
    rfl

section Rewards

variable {params : Params} (hscript : config.TREASURY_SCRIPT = params.treasury_script_pub_key)

include hscript

variable {s : TxScan Hash} (txid : Hash)

omit [Zero Hash] in
lemma scanOutput_rewards (height : ℕ) {p : CTxOut × ℕ} (hs : 0 ≤ s.rewards) (hp : 0 ≤ p.1.nValue)
    (hbound : s.rewards + treasuryPaid params [p.1] < 10 ^ 28) :
    (scanOutput config txid height true s (rpcOutput p)).rewards =
      s.rewards + treasuryPaid params [p.1] := by
  rw [treasuryPaid_singleton] at hbound ⊢
  unfold scanOutput rpcOutput
  rw [hscript]
  by_cases hpays : p.1.scriptPubKey = params.treasury_script_pub_key
  · rw [if_pos hpays] at hbound ⊢
    rw [if_neg (not_not.2 hpays)]
    refine roundDigits_of_lt ?_
    dsimp only
    unfold DECIMAL_PRECISION
    omega
  · rw [if_neg hpays, if_pos hpays, add_zero]

omit [Zero Hash] in
lemma scanOutputs_rewards (height : ℕ) {outs : List (CTxOut × ℕ)} (hs : 0 ≤ s.rewards)
    (hnonneg : ∀ p ∈ outs, 0 ≤ p.1.nValue)
    (hbound : s.rewards + treasuryPaid params (outs.map Prod.fst) < 10 ^ 28) :
    ((outs.map rpcOutput).foldl (scanOutput config txid height true) s).rewards =
      s.rewards + treasuryPaid params (outs.map Prod.fst) := by
  induction outs generalizing s with
  | nil => simp
  | cons p outs ih =>
    obtain ⟨hp, houts⟩ := forall_mem_cons.1 hnonneg
    obtain ⟨hsplit, hfirst, hrest⟩ := treasuryPaid_map_cons params hnonneg
    rw [hsplit] at hbound ⊢
    have hstep := scanOutput_rewards hscript txid height hs hp (by omega)
    rw [map_cons, foldl_cons, ih (by omega) houts (by omega), hstep]
    ring

omit [Zero Hash] hscript in
lemma scanOutputs_rewards_of_not_coinbase (height : ℕ) (outs : List RpcOutput) (s : TxScan Hash) :
    (outs.foldl (scanOutput config txid height false) s).rewards = s.rewards := by
  induction outs generalizing s with
  | nil => rfl
  | cons out outs ih =>
    rw [foldl_cons, ih]
    unfold scanOutput
    split <;> rfl

variable {rules : ConsensusRules Hash} {tx : CTransaction Hash} {c : TreasuryIndex Hash}

lemma indexTx_rewards (height : ℕ) (hc : 0 ≤ c.rewards) (hnonneg : ∀ out ∈ tx.vout, 0 ≤ out.nValue)
    (hcoinbase : tx.isCoinBase = true)
    (hbound : c.rewards + treasuryPaid params tx.vout < 10 ^ 28) :
    (indexTx config height c (rpcTx rules tx)).rewards =
      c.rewards + treasuryPaid params tx.vout := by
  unfold indexTx
  have hvout : tx.vout.zipIdx.map Prod.fst = tx.vout := zipIdx_map_fst ..
  have hinputs := scanInput_rewards (rpcTx rules tx).vin ⟨c.utxos, c.rewards, 0, 0⟩
  obtain ⟨s, hs⟩ : ∃ s, s = (rpcTx rules tx).vin.foldl scanInput ⟨c.utxos, c.rewards, 0, 0⟩ :=
    ⟨_, rfl⟩
  rw [← hs] at hinputs ⊢
  have houtputs := scanOutputs_rewards hscript (rpcTx rules tx).txid height
    (show 0 ≤ s.rewards by rwa [hinputs])
    (fun p hp => hnonneg p.1 (fst_mem_of_mem_zipIdx hp)) (by rwa [hinputs, hvout])
  rw [rpcTx_coinbase, hcoinbase]
  rw [hinputs, hvout] at houtputs
  exact houtputs

omit hscript in
lemma indexTx_rewards_of_not_coinbase (height : ℕ) (c : TreasuryIndex Hash)
    (hcoinbase : tx.isCoinBase = false) :
    (indexTx config height c (rpcTx rules tx)).rewards = c.rewards := by
  unfold indexTx
  dsimp only
  rw [rpcTx_coinbase, hcoinbase, scanOutputs_rewards_of_not_coinbase, scanInput_rewards]

lemma indexBlock_rewards {height : ℕ} {block : CBlock Hash} (h : PaysShare params height block)
    (hc : 0 ≤ c.rewards)
    (hshare : c.rewards + treasuryShare height params < 10 ^ 28) :
    ((block.vtx.map (rpcTx rules)).foldl (indexTx config height) c).rewards =
      c.rewards + treasuryShare height params := by
  have hrest : ∀ (txs : List (CTransaction Hash)) (c : TreasuryIndex Hash),
      (∀ tx ∈ txs, tx.isCoinBase = false) →
      ((txs.map (rpcTx rules)).foldl (indexTx config height) c).rewards = c.rewards := by
    intro txs
    induction txs with
    | nil => exact fun c _ => rfl
    | cons tx txs ih =>
      intro c htxs
      obtain ⟨htx, htxs⟩ := forall_mem_cons.1 htxs
      rw [map_cons, foldl_cons, ih _ htxs, indexTx_rewards_of_not_coinbase _ _ htx]
  obtain ⟨hfirst, hothers, hnonneg, hpaid⟩ := h
  cases hvtx : block.vtx with
  | nil =>
    rw [hvtx] at hpaid
    rw [← hpaid]
    simp
  | cons tx txs =>
    rw [hvtx] at hfirst hothers hnonneg hpaid
    have hpaid' : treasuryPaid params tx.vout = treasuryShare height params := hpaid
    rw [map_cons, foldl_cons, hrest txs _ hothers,
      indexTx_rewards hscript height hc (hnonneg tx rfl) (hfirst tx rfl) (by rwa [hpaid']), hpaid']

end Rewards

lemma indexChain_rewards {node : NodeBlocks Hash} {x : Hash}
    (hchain : ConnectedChain rules chain view) (hshows : ShowsChain rules node x chain)
    (hinterval : rules.params.nSubsidyHalvingInterval = 1051200)
    (hpercent : rules.params.treasury_percent = 10)
    (hscript : rules.params.treasury_script_pub_key ≠ [])
    (hconfig : config.TREASURY_SCRIPT = rules.params.treasury_script_pub_key) :
    (indexChain config node x).rewards = scheduledTreasury rules.params chain.length := by
  rw [indexChain, hshows.depth]
  suffices hprefix : ∀ n ≤ chain.length,
      ((List.range n).foldl (indexAncestor config node x) .reset).rewards =
        scheduledTreasury rules.params n from hprefix _ le_rfl
  intro n
  induction n with
  | zero => exact fun _ => rfl
  | succ n ih =>
    intro hn
    have hrewards := ih (by omega)
    have hshare : treasuryShare (n + 1) rules.params =
        getBlockSubsidy (n + 1) rules.params * 10 / 100 := by
      have := getBlockSubsidy_nonneg (n + 1) rules.params
      rw [treasuryShare, hpercent, Int.tdiv_eq_ediv_of_nonneg (by omega)]
    have hnext := scheduledTreasury_succ rules.params n
    have hbound := scheduledTreasury_le rules.params hinterval (n + 1)
    have hnonneg := scheduledTreasury_nonneg rules.params n
    -- The block at this height is one of the chain.
    obtain ⟨y, hup⟩ := node.exists_up (show chain.length - (n + 1) ≤ node.depth x by
      rw [hshows.depth]
      omega)
    have hy : node.atDepth x (n + 1) = some y := by
      have hdepth := node.depth_of_up hup
      rw [hshows.depth] at hdepth
      exact Forest.atDepth_eq_some_iff.2 ⟨Forest.isAncestor_of_up hup, by omega⟩
    obtain ⟨block, hblock, htx⟩ := hshows.blocks n y hy
    rw [range_succ, foldl_append, foldl_cons, foldl_nil, indexAncestor, hy]
    change ((node.tx y).foldl (indexTx config (n + 1)) _).rewards = _
    rw [htx, indexBlock_rewards hconfig (hchain.paysShare hscript hblock) (by omega) (by
      rw [hrewards, hshare]
      omega), hrewards, hshare, hnext]

/-- **Three figures for one amount.**  Where the blocks at heights `1` to `h` were accepted and the
status server is set up for the treasury script: whenever its index has arrived at the last of them,
the rewards it counted, the amount the desktop application computes from the height `h`, and the sum
of the treasury's shares of the subsidies are equal. -/
theorem treasury_figures_agree (rules : ConsensusRules Hash) (node : NodeBlocks Hash) (x : Hash)
    (chain : List (CBlock Hash)) (view : CoinsView Hash) (config : CollectorConfig)
    (hchain : ConnectedChain rules chain view) (hshows : ShowsChain rules node x chain)
    (hinterval : rules.params.nSubsidyHalvingInterval = 1051200)
    (hpercent : rules.params.treasury_percent = 10)
    (hscript : rules.params.treasury_script_pub_key ≠ [])
    (hconfig : config.TREASURY_SCRIPT = rules.params.treasury_script_pub_key) :
    (∀ env heights, (afterCalls config node env heights).index.height = chain.length →
      (chain ≠ [] → (afterCalls config node env heights).index.hash = some x) →
      (afterCalls config node env heights).index.rewards =
        ∑ k ∈ Finset.range chain.length, getBlockSubsidy (k + 1) rules.params * 10 / 100) ∧
    ∃ status, fromChainHeight chain.length = .ok status ∧
      status.Accrued * 10 ^ 8 =
        (∑ k ∈ Finset.range chain.length, getBlockSubsidy (k + 1) rules.params * 10 / 100 : ℤ) := by
  constructor
  · intro env heights hheight hhash
    rcases afterCalls_indexed config node env heights with hreset | ⟨y, hy, hindex⟩
    · rw [hreset] at hheight ⊢
      rw [← hheight]
      rfl
    · obtain ⟨hdepth, hlast⟩ := indexChain_last config hy
      rw [hindex, hlast, Option.some.injEq] at hhash
      rw [hindex, hdepth] at hheight
      have hxy : y = x := hhash (ne_nil_of_length_pos (by omega))
      rw [hindex, hxy, indexChain_rewards hchain hshows hinterval hpercent hscript hconfig]
      rfl
  · refine ⟨_, fromChainHeight_eq hinterval chain.length, ?_⟩
    change (scheduledTreasury rules.params chain.length : ℚ) / 100000000 * 10 ^ 8 =
      (scheduledTreasury rules.params chain.length : ℤ)
    ring

/-- A node that knows the blocks of the chain by their hashes, the genesis block being `1`. -/
def chainNode : NodeBlocks ℕ where
  parent n := if n ≤ 1 then none else some (n - 1)
  depth n := n - 1
  depth_root n hn := by
    split at hn
    · omega
    · cases hn
  depth_child n p hp := by
    split at hp
    · cases hp
    · obtain rfl := Option.some.inj hp
      omega
  tx n := (chainBlock (n - 1)).vtx.map (rpcTx (lenientRules mainParams))

lemma chainNode_showsChain (height : ℕ) :
    ShowsChain (lenientRules mainParams) chainNode (height + 1)
    ((List.range height).map fun k => chainBlock (k + 1)) := by
  refine ⟨by simp [chainNode], fun k y hy => ?_⟩
  obtain ⟨hanc, hdepth⟩ := Forest.atDepth_eq_some_iff.1 hy
  have hle : k + 1 ≤ height := hdepth ▸ hanc.depth_le
  have hy' : y - 1 = k + 1 := hdepth
  refine ⟨chainBlock (k + 1), by rw [getElem?_map, getElem?_range (by omega)]; rfl, ?_⟩
  rw [← hy']
  rfl

/-- A server set up for the treasury, and a node whose tip stays at height `101`. -/
def chainConfig : CollectorConfig := ⟨mainParams.treasury_script_pub_key, "treasury"⟩

def chainEnvironment : Environment ℕ := ⟨fun _ => some 102, fun _ => false⟩

lemma connectedChain_chainState {k : ℕ} {p : CoinsView ℕ × CBlockUndo} (h : chainState k = .ok p) :
    ConnectedChain (lenientRules mainParams)
      ((List.range k).map fun i => chainBlock (i + 1)) p.1 := by
  induction k generalizing p with
  | zero =>
    obtain rfl := Except.ok.inj h
    exact .genesis
  | succ k ih =>
    obtain ⟨q, hq, hconnect⟩ := chainState_succ.1 h
    rw [range_succ, map_append]
    exact .connect (ih hq) (by rw [length_map, length_range]; rfl)
      (by simp [chainIndex, lenientRules]) hconnect

/-- The second call for height `101` gets there; the figures are those of all blocks. -/
theorem treasury_figures_agree_chain :
    (afterCalls chainConfig chainNode chainEnvironment [101, 101]).index.rewards = 10100000000 ∧
      ∃ status, fromChainHeight 101 = .ok status ∧ status.Accrued * 10 ^ 8 = (10100000000 : ℤ) := by
  obtain ⟨p, hp⟩ := exists_chainState (k := 101) le_rfl
  obtain ⟨hserver, hdesktop⟩ := treasury_figures_agree (lenientRules mainParams) chainNode 102 _ p.1
    chainConfig (connectedChain_chainState hp) (chainNode_showsChain 101) rfl rfl (by decide) rfl
  rw [length_map, length_range] at hserver hdesktop
  have hsum : ∑ k ∈ Finset.range 101,
      getBlockSubsidy (k + 1) (lenientRules mainParams).params * 10 / 100 = 10100000000 := by
    decide +kernel
  rw [hsum] at hserver hdesktop
  exact ⟨hserver chainEnvironment [101, 101] (by decide +kernel) (fun _ => by decide +kernel),
    hdesktop⟩

end SlithyTove
