import SlithyTove.Mining.Assembler

/-!
# The assembler's coinbase and the validator's checks

`CreateNewBlock` splits fees and subsidy between the miner and the treasury; `ConnectBlock`
computes the same share again, adds up every output that pays the treasury script, and bounds
the coinbase by fees plus subsidy.  This file shows that the two agree on the node's own
coinbase (`buildTemplate_checkCoinbase`), and what happens to a coinbase that a mining client
builds from the template's `CoinbaseTx` instead.

A coinbase is judged only by two numbers, the total of its outputs and the part that pays the
treasury script; `checkCoinbase_eq_ok` says so, and the appended commitment, being worth nothing,
changes neither.
-/

namespace SlithyTove

open Framework List MempoolEntry

variable {Hash : Type}

/-! ## Commitments -/

lemma isWitnessCommitment_commitmentScript (ctx : TemplateContext Hash)
    (vtx : List (CTransaction Hash)) : isWitnessCommitment (commitmentScript ctx vtx) = true := by
  have hlen := (ctx.witnessHash vtx).property
  simp [isWitnessCommitment, commitmentScript, commitmentHeader, MINIMUM_WITNESS_COMMITMENT, hlen]

@[simp] lemma getWitnessCommitmentIndex_nil : getWitnessCommitmentIndex [] = none := rfl

variable (vout : List CTxOut)

lemma getWitnessCommitmentIndex_concat (out : CTxOut) : getWitnessCommitmentIndex (vout ++ [out]) =
      if isWitnessCommitment out.scriptPubKey then some vout.length
      else getWitnessCommitmentIndex vout := by
  rw [getWitnessCommitmentIndex, zipIdx_append, foldl_append, zipIdx_singleton,
    Nat.zero_add]
  rfl

/-- The commitment outputs of a coinbase. -/
def commitmentOutputs (vout : List CTxOut) : List CTxOut :=
  vout.filter fun out => isWitnessCommitment out.scriptPubKey

lemma commitmentOutputs_append (v w : List CTxOut) :
    commitmentOutputs (v ++ w) = commitmentOutputs v ++ commitmentOutputs w :=
  filter_append ..

lemma commitmentOutputs_singleton (out : CTxOut) :
    commitmentOutputs [out] = if isWitnessCommitment out.scriptPubKey then [out] else [] :=
  filter_cons

lemma getWitnessCommitmentIndex_eq_none {vout : List CTxOut} :
    getWitnessCommitmentIndex vout = none ↔ commitmentOutputs vout = [] := by
  induction vout using List.reverseRecOn with
  | nil => simp [commitmentOutputs]
  | append_singleton vout out ih =>
    rw [getWitnessCommitmentIndex_concat, commitmentOutputs_append, commitmentOutputs_singleton]
    split
    · simp
    · rw [ih, append_nil]

lemma requiredOutputs_eq : requiredOutputs vout = .ok (commitmentOutputs vout).getLast?.toList := by
  induction vout using List.reverseRecOn with
  | nil => rfl
  | append_singleton vout out ih =>
    rw [commitmentOutputs_append, commitmentOutputs_singleton, requiredOutputs,
      getWitnessCommitmentIndex_concat]
    by_cases h : isWitnessCommitment out.scriptPubKey
    · simp [h]
    · rw [if_neg h, if_neg h, append_nil]
      rw [requiredOutputs] at ih
      cases hi : getWitnessCommitmentIndex vout with
      | none =>
        rw [hi] at ih
        exact ih
      | some i =>
        rw [hi] at ih
        cases hout : vout[i]? with
        | none => simp [hout] at ih
        | some found =>
          have hlt : i < vout.length := (List.getElem?_eq_some_iff.1 hout).1
          simpa [hout, List.getElem?_append_left hlt] using ih

/-! ## The node's own coinbase -/

lemma addSelected_spec (options : AssemblerOptions) (selected : List (MempoolEntry Hash)) :
    (addSelected options selected).vtx = selected.map tx ∧
      (addSelected options selected).vTxFees = selected.map fee ∧
      (addSelected options selected).nFees = (selected.map fee).sum := by
  induction selected using List.reverseRecOn with
  | nil => exact ⟨rfl, rfl, rfl⟩
  | append_singleton selected entry ih =>
    obtain ⟨hvtx, hfees, hsum⟩ := ih
    have hstep : addSelected options (selected ++ [entry]) =
        addToBlock (addSelected options selected) entry := by
      rw [addSelected, foldl_append, foldl_cons, foldl_nil, addSelected]
    rw [hstep, addToBlock]
    simp [hvtx, hfees, hsum]

section

variable (ctx : TemplateContext Hash) (tx : CTransaction Hash) (rest : List (CTransaction Hash))

lemma generateCoinbaseCommitment_vout :
    (generateCoinbaseCommitment ctx tx rest).vout =
      match getWitnessCommitmentIndex tx.vout with
      | none => tx.vout ++ [⟨0, commitmentScript ctx (tx :: rest)⟩]
      | some _ => tx.vout := by
  have hupdate : ∀ t : CTransaction Hash, (updateUncommitted ctx t).vout = t.vout := by
    intro t
    rw [updateUncommitted]
    split <;> rfl
  rw [generateCoinbaseCommitment, hupdate]
  cases getWitnessCommitmentIndex tx.vout <;> rfl

variable {ctx tx rest} in
lemma forall_mem_generateCoinbaseCommitment (h : ∀ out ∈ tx.vout, 0 ≤ out.nValue) :
    ∀ out ∈ (generateCoinbaseCommitment ctx tx rest).vout, 0 ≤ out.nValue := by
  rw [generateCoinbaseCommitment_vout]
  split
  · exact forall_mem_append.2 ⟨h, forall_mem_singleton.2 le_rfl⟩
  · exact h

lemma totalOut_generateCoinbaseCommitment :
    totalOut (generateCoinbaseCommitment ctx tx rest).vout = totalOut tx.vout := by
  rw [generateCoinbaseCommitment_vout]
  split <;> simp

lemma treasuryPaid_generateCoinbaseCommitment (params : Params) :
    treasuryPaid params (generateCoinbaseCommitment ctx tx rest).vout =
      treasuryPaid params tx.vout := by
  rw [generateCoinbaseCommitment_vout]
  split
  · rw [treasuryPaid_append, treasuryPaid_cons]
    simp
  · rfl

end

section Template

variable [Zero Hash]

lemma exists_coinbaseWitness (ctx : TemplateContext Hash) (options : AssemblerOptions)
    (nHeight : ℕ) (nFees : ℤ) (rest : List (CTransaction Hash)) :
    ∃ w, coinbaseWitness (generateCoinbaseCommitment ctx
      (coinbaseTx ctx.rules.params options nHeight nFees) rest) = .ok w := by
  have hbare : ∀ t : CTransaction Hash,
      t.vin = (coinbaseTx ctx.rules.params options nHeight nFees : CTransaction Hash).vin →
      ∃ w, coinbaseWitness (updateUncommitted ctx t) = .ok w := by
    intro t ht
    rw [updateUncommitted]
    split
    · exact ⟨some (List.replicate 32 0), by
        simp [coinbaseWitness, CTransaction.hasWitness, ht, coinbaseTx]⟩
    · exact ⟨none, by simp [coinbaseWitness, CTransaction.hasWitness, ht, coinbaseTx]⟩
  rw [generateCoinbaseCommitment]
  split <;> exact hbare _ rfl

lemma exists_buildTemplate (ctx : TemplateContext Hash) (options : AssemblerOptions)
    (selected : List (MempoolEntry Hash)) :
    ∃ t, buildTemplate ctx options selected = .ok t := by
  obtain ⟨w, hw⟩ := exists_coinbaseWitness ctx options (ctx.tip.nHeight + 1)
    (addSelected options selected).nFees (addSelected options selected).vtx
  exact ⟨_, by simp only [buildTemplate, hw, requiredOutputs_eq]; rfl⟩

/-- The coinbase outputs of a template and the fields of its `CoinbaseTx`. -/
structure TemplateSpec (ctx : TemplateContext Hash) (options : AssemblerOptions)
    (selected : List (MempoolEntry Hash)) (t : CBlockTemplate Hash) : Prop where
  vtx_eq : t.block.vtx = generateCoinbaseCommitment ctx
    (coinbaseTx ctx.rules.params options (ctx.tip.nHeight + 1) (selected.map fee).sum)
    (selected.map tx) :: selected.map tx
  fees_eq : t.vTxFees = selected.map fee
  reward_eq : t.m_coinbase_tx.block_reward_remaining =
    (selected.map fee).sum + getBlockSubsidy (ctx.tip.nHeight + 1) ctx.rules.params
  required_eq : requiredOutputs (generateCoinbaseCommitment ctx
    (coinbaseTx ctx.rules.params options (ctx.tip.nHeight + 1) (selected.map fee).sum)
    (selected.map tx)).vout = .ok t.m_coinbase_tx.required_outputs

variable {ctx : TemplateContext Hash} {options : AssemblerOptions}
  {selected : List (MempoolEntry Hash)} {t : CBlockTemplate Hash}

lemma buildTemplate_spec
    (h : buildTemplate ctx options selected = .ok t) : TemplateSpec ctx options selected t := by
  obtain ⟨hvtx, hfees, hsum⟩ := addSelected_spec options selected
  simp only [buildTemplate, bind_eq_ok, pure_eq_ok, hvtx, hfees, hsum] at h
  obtain ⟨w, -, outs, houts, rfl⟩ := h
  exact ⟨rfl, rfl, rfl, houts⟩

variable {params : Params} {nHeight : ℕ} {nFees : ℤ} {script : CScript}

lemma totalOut_coinbaseOutputs (hreward : 0 ≤ treasuryReward params nHeight) :
    totalOut (coinbaseOutputs params script nHeight nFees) =
      nFees + getBlockSubsidy nHeight params := by
  rw [coinbaseOutputs]
  split
  · simp
  · have : treasuryReward params nHeight = 0 := by omega
    simp [this]

lemma treasuryPaid_coinbaseOutputs (hreward : 0 ≤ treasuryReward params nHeight)
    (hscript : script ≠ params.treasury_script_pub_key) :
    treasuryPaid params (coinbaseOutputs params script nHeight nFees) =
      treasuryReward params nHeight := by
  rw [coinbaseOutputs, treasuryPaid_cons, if_neg hscript]
  split
  · rw [treasuryPaid_cons]
    simp
  · simp only [treasuryPaid_nil]
    omega

lemma treasuryReward_bounds (nHeight : ℕ) (hlow : 0 ≤ params.treasury_percent)
    (hhigh : params.treasury_percent ≤ 100) :
    0 ≤ treasuryReward params nHeight ∧
      treasuryReward params nHeight ≤ getBlockSubsidy nHeight params := by
  have hsub := getBlockSubsidy_nonneg nHeight params
  have hprod : 0 ≤ getBlockSubsidy nHeight params * params.treasury_percent := by positivity
  have hle : getBlockSubsidy nHeight params * params.treasury_percent ≤
      getBlockSubsidy nHeight params * 100 := by gcongr
  rw [treasuryReward]
  split
  · exact ⟨le_rfl, hsub⟩
  · rw [treasuryShare, Int.tdiv_eq_ediv_of_nonneg hprod]
    omega

/-- **The node's own coinbase passes the coinbase checks.**  For every tip, selection with fees in
range, treasury script and percentage, and miner script other than the treasury's, the template
is built, its coinbase outputs add up to fees plus subsidy, and `ConnectBlock` accepts them for a
block with those fees. -/
theorem buildTemplate_checkCoinbase (ctx : TemplateContext Hash) (options : AssemblerOptions)
    (selected : List (MempoolEntry Hash)) (hlow : 0 ≤ ctx.rules.params.treasury_percent)
    (hhigh : ctx.rules.params.treasury_percent ≤ 100)
    (hscript : options.coinbase_output_script ≠ ctx.rules.params.treasury_script_pub_key)
    (hfees : ∀ entry ∈ selected, MoneyRange entry.fee)
    (hrange : MoneyRange ((selected.map fee).sum +
      getBlockSubsidy (ctx.tip.nHeight + 1) ctx.rules.params)) :
    ∃ t coinbase, buildTemplate ctx options selected = .ok t ∧
      t.block.vtx = coinbase :: selected.map tx ∧
      t.vTxFees = selected.map fee ∧
      checkCoinbase ctx.rules.params (ctx.tip.nHeight + 1) (selected.map fee).sum
        coinbase.vout = .ok () ∧
      totalOut coinbase.vout = (selected.map fee).sum +
        getBlockSubsidy (ctx.tip.nHeight + 1) ctx.rules.params := by
  obtain ⟨t, ht⟩ := exists_buildTemplate ctx options selected
  have hspec := buildTemplate_spec ht
  obtain ⟨hreward, hpart⟩ := treasuryReward_bounds (ctx.tip.nHeight + 1) hlow hhigh
  have hsum : 0 ≤ (selected.map fee).sum :=
    sum_nonneg (forall_mem_map.2 fun entry hmem => (hfees entry hmem).1)
  refine ⟨t, _, ht, hspec.vtx_eq, hspec.fees_eq, checkCoinbase_eq_ok.2 ⟨?_, ?_, ?_, ?_⟩, ?_⟩
  · refine forall_mem_generateCoinbaseCommitment fun out hout => ?_
    simp only [coinbaseTx, coinbaseOutputs, mem_cons] at hout
    rcases hout with rfl | hout
    · change 0 ≤ _ - _
      omega
    · split at hout
      · rw [mem_singleton.1 hout]
        exact hreward
      · cases hout
  · rw [totalOut_generateCoinbaseCommitment]
    exact (totalOut_coinbaseOutputs hreward).trans_le hrange.2
  · rw [totalOut_generateCoinbaseCommitment]
    exact (totalOut_coinbaseOutputs hreward).le
  · intro _ hne
    rw [treasuryPaid_generateCoinbaseCommitment]
    refine (treasuryPaid_coinbaseOutputs hreward hscript).trans ?_
    rw [treasuryReward, if_neg hne]
  · rw [totalOut_generateCoinbaseCommitment]
    exact totalOut_coinbaseOutputs hreward

/-- A node of the main network whose chain is the genesis block, about to build the block at
height one. -/
def firstBlockContext : TemplateContext ℕ where
  rules := lenientRules mainParams
  tip := { hash := 1, pprev := none, nHeight := 0, bip34Ancestor := none }
  coinsTip := { coins := .empty, hashBlock := 1 }
  bip34Ancestor := none
  segwitActive := true
  nVersion := 0x20000000
  nTime := 1
  nBits := 0x1e3fffff
  witnessHash _ := ⟨List.replicate 32 0, by decide⟩
  contextualChecks _ := .ok ()

/-- The options of `getblocktemplate`: the defaults with a dummy extra nonce, without which a
block at a height up to 16 has too short a coinbase script. -/
def templateOptions : AssemblerOptions := { include_dummy_extranonce := true }

/-- The block at height `101` with two transactions that pay fees. -/
theorem buildTemplate_treasurySpend :
    ∃ t coinbase, buildTemplate { firstBlockContext with tip := chainIndex 100 } templateOptions
        (treasurySpend.map fun tx => ⟨tx, 10000000, 0, 400⟩) = .ok t ∧
      t.block.vtx = coinbase :: treasurySpend ∧
      checkCoinbase mainParams 101 20000000 coinbase.vout = .ok () ∧
      totalOut coinbase.vout = 1020000000 := by
  obtain ⟨t, coinbase, ht, hvtx, -, hcheck, htotal⟩ :=
    buildTemplate_checkCoinbase { firstBlockContext with tip := chainIndex 100 } templateOptions
      (treasurySpend.map fun tx => ⟨tx, 10000000, 0, 400⟩) (by decide) (by decide) (by decide)
      (by decide) (by decide)
  exact ⟨t, coinbase, ht, hvtx, hcheck, htotal.trans (by decide)⟩

/-! ## Coinbases built from the `CoinbaseTx` -/

lemma requiredOutputs_cases {rest : List (CTransaction Hash)} {outs : List CTxOut}
    (h : requiredOutputs (generateCoinbaseCommitment ctx
      (coinbaseTx ctx.rules.params options nHeight nFees) rest).vout = .ok outs) :
    (isWitnessCommitment options.coinbase_output_script = false ∧
        ∃ script, outs = [⟨0, script⟩]) ∨
      (0 < treasuryReward ctx.rules.params nHeight ∧
        outs = [⟨treasuryReward ctx.rules.params nHeight,
          ctx.rules.params.treasury_script_pub_key⟩]) ∨
      (isWitnessCommitment options.coinbase_output_script = true ∧
        outs = [⟨nFees + getBlockSubsidy nHeight ctx.rules.params -
          treasuryReward ctx.rules.params nHeight, options.coinbase_output_script⟩]) := by
  rw [generateCoinbaseCommitment_vout, requiredOutputs_eq, Except.ok.injEq] at h
  have hvout : commitmentOutputs
      (coinbaseTx ctx.rules.params options nHeight nFees : CTransaction Hash).vout =
      commitmentOutputs [⟨nFees + getBlockSubsidy nHeight ctx.rules.params -
        treasuryReward ctx.rules.params nHeight, options.coinbase_output_script⟩] ++
      commitmentOutputs (if treasuryReward ctx.rules.params nHeight > 0 then
        [⟨treasuryReward ctx.rules.params nHeight, ctx.rules.params.treasury_script_pub_key⟩]
        else []) := commitmentOutputs_append [_] _
  cases hi : getWitnessCommitmentIndex
      (coinbaseTx ctx.rules.params options nHeight nFees : CTransaction Hash).vout with
  | none =>
    -- No output was a commitment, so the appended one is the last.
    have hempty := getWitnessCommitmentIndex_eq_none.1 hi
    have hcommit : isWitnessCommitment (commitmentScript ctx
        (coinbaseTx ctx.rules.params options nHeight nFees :: rest)) = true :=
      isWitnessCommitment_commitmentScript ctx _
    refine .inl ⟨?_, commitmentScript ctx
      (coinbaseTx ctx.rules.params options nHeight nFees :: rest), ?_⟩
    · rw [hvout, append_eq_nil_iff] at hempty
      simpa [commitmentOutputs] using hempty.1
    · rw [hi] at h
      simp only at h
      rw [commitmentOutputs_append, hempty, commitmentOutputs_singleton, if_pos hcommit] at h
      exact h.symm
  | some i =>
    have hne : commitmentOutputs
        (coinbaseTx ctx.rules.params options nHeight nFees : CTransaction Hash).vout ≠ [] :=
      fun hempty => by rw [getWitnessCommitmentIndex_eq_none.2 hempty] at hi; cases hi
    rw [hi] at h
    simp only at h
    rw [hvout] at h hne
    by_cases ht : treasuryReward ctx.rules.params nHeight > 0 ∧
        isWitnessCommitment ctx.rules.params.treasury_script_pub_key
    · refine .inr (.inl ⟨ht.1, ?_⟩)
      simpa [commitmentOutputs, ht.1, ht.2] using h.symm
    · have hnone : commitmentOutputs (if treasuryReward ctx.rules.params nHeight > 0 then
          [⟨treasuryReward ctx.rules.params nHeight,
            ctx.rules.params.treasury_script_pub_key⟩] else []) = [] := by
        split
        · next hpos => simpa [commitmentOutputs, hpos] using ht
        · rfl
      rw [hnone, append_nil] at h hne
      have hm : isWitnessCommitment options.coinbase_output_script = true := by
        simpa [commitmentOutputs] using hne
      refine .inr (.inr ⟨hm, ?_⟩)
      simpa [commitmentOutputs, hm] using h.symm

/-- The coinbase outputs a client puts together as the `CoinbaseTx` documentation says: outputs
of its own to scripts other than the treasury's that add up to the remaining reward, then the
required outputs. -/
structure ClientOutputs (params : Params) (tx : CoinbaseTx) (own : List CTxOut) : Prop where
  nonneg : ∀ out ∈ own, 0 ≤ out.nValue
  not_treasury : ∀ out ∈ own, out.scriptPubKey ≠ params.treasury_script_pub_key
  total_eq : totalOut own = tx.block_reward_remaining

lemma exists_clientOutputs {tx : CoinbaseTx} (hscript : params.treasury_script_pub_key ≠ [])
    (hreward : 0 ≤ tx.block_reward_remaining) :
    ClientOutputs params tx [⟨tx.block_reward_remaining, []⟩] where
  nonneg := by simpa using hreward
  not_treasury := by simpa using hscript.symm
  total_eq := by simp

/-- The checks on a client's coinbase come down to its required outputs: they have to be worth
nothing and still pay the treasury its share. -/
lemma checkCoinbase_client_iff {tx : CoinbaseTx} {own : List CTxOut} (hpos : 0 < nHeight)
    (hscript : params.treasury_script_pub_key ≠ [])
    (hreward : tx.block_reward_remaining = nFees + getBlockSubsidy nHeight params)
    (hmax : tx.block_reward_remaining ≤ MAX_MONEY) (hown : ClientOutputs params tx own) :
    checkCoinbase params nHeight nFees (own ++ tx.required_outputs) = .ok () ↔
      (∀ out ∈ tx.required_outputs, 0 ≤ out.nValue) ∧ totalOut tx.required_outputs ≤ 0 ∧
        treasuryPaid params tx.required_outputs = treasuryShare nHeight params := by
  rw [checkCoinbase_eq_ok, totalOut_append, treasuryPaid_append, hown.total_eq,
    treasuryPaid_eq_zero hown.not_treasury, ← hreward, zero_add]
  constructor
  · rintro ⟨hnonneg, -, hle, hpaid⟩
    exact ⟨fun out hout => hnonneg out (mem_append_right _ hout), by omega,
      hpaid hpos hscript⟩
  · rintro ⟨hnonneg, hle, hpaid⟩
    exact ⟨forall_mem_append.2 ⟨hown.nonneg, hnonneg⟩, by omega, by omega, fun _ _ => hpaid⟩

variable [DecidableEq Hash]

lemma buildTemplate_of_createNewBlock (h : createNewBlock ctx options selected = .ok t) :
    buildTemplate ctx options selected = .ok t := by
  simp only [createNewBlock, bind_eq_ok, pure_eq_ok] at h
  obtain ⟨t', ht', -, -, rfl⟩ := h
  exact ht'

/-- **When a client's coinbase passes.**  On a network with a treasury script, every coinbase a
client assembles from a template's `CoinbaseTx` passes the coinbase checks exactly when the
treasury's share at that height is zero and the required output is worth nothing, that is, the
node's own miner output was not itself taken for the commitment (or fees and subsidy are zero). -/
theorem clientCoinbase_accepted_iff (ctx : TemplateContext Hash) (options : AssemblerOptions)
    (selected : List (MempoolEntry Hash)) (t : CBlockTemplate Hash)
    (hscript : ctx.rules.params.treasury_script_pub_key ≠ [])
    (ht : createNewBlock ctx options selected = .ok t)
    (hrange : MoneyRange ((selected.map fee).sum +
      getBlockSubsidy (ctx.tip.nHeight + 1) ctx.rules.params)) :
    (∀ own, ClientOutputs ctx.rules.params t.m_coinbase_tx own →
        checkCoinbase ctx.rules.params (ctx.tip.nHeight + 1) (selected.map fee).sum
          (own ++ t.m_coinbase_tx.required_outputs) = .ok ()) ↔
      treasuryShare (ctx.tip.nHeight + 1) ctx.rules.params = 0 ∧
        (isWitnessCommitment options.coinbase_output_script = false ∨
          (selected.map fee).sum + getBlockSubsidy (ctx.tip.nHeight + 1) ctx.rules.params = 0) := by
  have hspec := buildTemplate_spec (buildTemplate_of_createNewBlock ht)
  have hreward := hspec.reward_eq
  rw [← hreward] at hrange ⊢
  have hshare : treasuryReward ctx.rules.params (ctx.tip.nHeight + 1) =
      treasuryShare (ctx.tip.nHeight + 1) ctx.rules.params := if_neg hscript
  have hheight : 0 < ctx.tip.nHeight + 1 := by omega
  have hiff := fun own (hown : ClientOutputs ctx.rules.params t.m_coinbase_tx own) =>
    checkCoinbase_client_iff hheight hscript hreward hrange.2 hown
  have hcases := requiredOutputs_cases hspec.required_eq
  rw [hshare, ← hreward] at hcases
  constructor
  · intro haccept
    have hown := exists_clientOutputs hscript hrange.1
    obtain ⟨hnonneg, hle, hpaid⟩ := (hiff _ hown).1 (haccept _ hown)
    rcases hcases with ⟨hm, script, hreq⟩ | ⟨hpos, hreq⟩ | ⟨hm, hreq⟩
    · -- The zero commitment pays the treasury nothing.
      rw [hreq, treasuryPaid_cons] at hpaid
      simp only [ite_self, treasuryPaid_nil, add_zero] at hpaid
      exact ⟨hpaid.symm, .inl hm⟩
    · rw [hreq] at hle
      simp only [totalOut_cons, totalOut_nil] at hle
      omega
    · rw [hreq] at hnonneg hle hpaid
      simp only [totalOut_cons, totalOut_nil] at hle
      rw [treasuryPaid_cons, treasuryPaid_nil] at hpaid
      dsimp only at hnonneg hle hpaid
      have hreward0 := hrange.1
      split at hpaid <;> exact ⟨by omega, .inr (by omega)⟩
  · rintro ⟨hzero, hworth⟩ own hown
    rw [hzero] at hcases
    refine (hiff own hown).2 ?_
    rw [hzero]
    rcases hcases with ⟨hm, script, hreq⟩ | ⟨hpos, -⟩ | ⟨hm, hreq⟩
    · rw [hreq, treasuryPaid_cons]
      simp
    · omega
    · rw [hm] at hworth
      have hreward0 : t.m_coinbase_tx.block_reward_remaining = 0 := hworth.resolve_left (by decide)
      rw [hreq, hreward0, treasuryPaid_cons]
      simp

end Template

/-- The template for height one on the main network: the whole subsidy is offered to the client
and the only required output is the commitment. -/
lemma createNewBlock_firstBlock :
    ∃ t, createNewBlock firstBlockContext templateOptions [] = .ok t ∧
      t.m_coinbase_tx.block_reward_remaining = 1000000000 ∧
      t.m_coinbase_tx.required_outputs =
        [⟨0, commitmentHeader ++ List.replicate 32 0⟩] := by
  have hok : (createNewBlock firstBlockContext templateOptions []).isOk = true := by decide
  cases hrun : createNewBlock firstBlockContext templateOptions [] with
  | error e =>
    rw [hrun] at hok
    cases hok
  | ok t =>
    have hspec := buildTemplate_spec (buildTemplate_of_createNewBlock hrun)
    refine ⟨t, rfl, hspec.reward_eq.trans (by decide), ?_⟩
    have hrequired := hspec.required_eq
    rw [requiredOutputs_eq, Except.ok.injEq] at hrequired
    exact hrequired.symm.trans (by decide)

/-- At height one on the main network the treasury is owed a tenth of the subsidy, and a client
that follows the template's `CoinbaseTx` is rejected. -/
theorem clientCoinbase_rejected_firstBlock :
    ∃ t, createNewBlock firstBlockContext templateOptions [] = .ok t ∧
      ClientOutputs mainParams t.m_coinbase_tx [⟨1000000000, [0x51]⟩] ∧
      checkCoinbase mainParams 1 0
        ([⟨1000000000, [0x51]⟩] ++ t.m_coinbase_tx.required_outputs) =
          .error "bad-cb-treasury" := by
  obtain ⟨t, ht, hreward, hrequired⟩ := createNewBlock_firstBlock
  refine ⟨t, ht, ⟨by decide, by decide, ?_⟩, ?_⟩
  · rw [hreward]
    decide
  · rw [hrequired]
    decide

/-- The criterion at height one: the share is not zero, so some client is rejected. -/
theorem clientCoinbase_accepted_iff_firstBlock :
    ∃ t, createNewBlock firstBlockContext templateOptions [] = .ok t ∧
      ¬ ∀ own, ClientOutputs mainParams t.m_coinbase_tx own →
        checkCoinbase mainParams 1 0 (own ++ t.m_coinbase_tx.required_outputs) = .ok () := by
  obtain ⟨t, ht, -⟩ := createNewBlock_firstBlock
  refine ⟨t, ht, fun haccept => ?_⟩
  have hcriterion := (clientCoinbase_accepted_iff firstBlockContext templateOptions [] t
    (by decide) ht (by decide)).1 haccept
  exact absurd hcriterion.1 (by decide)

end SlithyTove
