import SlithyTove.Mining.CoinbaseRules
import SlithyTove.Mining.NewBlock
import SlithyTove.Script.ScriptNum

/-!
# The block a CPU worker hashes

`SlithyCpuMinerThread` takes a template, appends a random number of 32 bytes and a counter to the
script of the coinbase, and computes the merkle root again; then it tries header nonces.  The
template has passed the validity test of `CreateNewBlock`, but the worker's block is another one:
its coinbase is longer, and so the block is heavier, and its merkle root is new.

The checks that look at what the worker leaves alone give the same answer as for the template.  The
height stays at the start of the script; the witness commitment does not cover the coinbase; and the
weight reserved for the coinbase covers the longer one, for scripts of at most 100 bytes
(`weight_cpuCoinbase_le`).  The merkle root is the recomputed one, and no pair of transactions is
reported as repeated unless two hashes collide.
-/

namespace SlithyTove

open Framework List

variable {Hash Node : Type}

/-! ## The worker's block -/

/-- What the worker appends to the script of the coinbase. -/
def workPushes (work_nonce : List UInt8) (work_id : UInt64) : CScript :=
  pushData work_nonce ++ pushInt64 work_id.toInt64.toInt

/-- The worker's coinbase. -/
def cpuCoinbase (work_nonce : List UInt8) (work_id : UInt64) (tx : CTransaction Hash) :
    CTransaction Hash :=
  { tx with vin := tx.vin.modifyHead fun txin =>
      { txin with scriptSig := txin.scriptSig ++ workPushes work_nonce work_id } }

/-- The block `SlithyCpuMinerThread` hashes. -/
def cpuBlock [DecidableEq Hash] [Zero Hash] (hashing : Hashing Hash) (trees : WitnessHashing Hash)
    (work_nonce : List UInt8) (work_id : UInt64) (nNonce : UInt32) (block : CBlock Hash) :
    CBlock Hash :=
  let vtx := block.vtx.modifyHead (cpuCoinbase work_nonce work_id)
  { block with vtx, hashMerkleRoot := (blockMerkleRoot hashing trees vtx).1, nNonce }

/-- The hashes of a block's transactions and of the nodes over them do not collide. -/
structure NoHashCollision (hashing : Hashing Hash) (trees : WitnessHashing Hash)
    (vtx : List (CTransaction Hash)) : Prop where
  txids : hashing.DistinctTxids vtx
  nodes : NoCollision trees.node vtx.length (vtx.map hashing.txid)

/-! ## The appended bytes -/

lemma natAbs_toInt64 (n : UInt64) : n.toInt64.toInt.natAbs < 2 ^ 64 := by
  have hlow := n.toInt64.le_toInt
  have hhigh := n.toInt64.toInt_lt
  omega

lemma length_workPushes {work_nonce : List UInt8} (h : work_nonce.length = 32) (work_id : UInt64) :
    (workPushes work_nonce work_id).length ≤ 43 := by
  have := length_pushInt64_le work_id.toInt64.toInt
  rw [workPushes, pushData_of_lt (by omega), length_append, length_cons]
  omega

/-- **The appended bytes determine the random number and the counter.** -/
lemma workPushes_injective {n₁ n₂ : List UInt8} {i₁ i₂ : UInt64} (h₁ : n₁.length = 32)
    (h₂ : n₂.length = 32) (h : workPushes n₁ i₁ = workPushes n₂ i₂) : n₁ = n₂ ∧ i₁ = i₂ := by
  unfold workPushes at h
  rw [pushData_of_lt (by omega), pushData_of_lt (by omega), cons_append, cons_append] at h
  injection h with _ h
  obtain ⟨hnonce, hid⟩ := append_inj h (h₁.trans h₂.symm)
  refine ⟨hnonce, ?_⟩
  have hint := pushInt64_injective (natAbs_toInt64 i₁) (natAbs_toInt64 i₂) hid
  simpa using congrArg Int64.toUInt64 (Int64.toInt_inj.1 hint)

/-! ## The selected transactions -/

variable {nBlockMaxWeight : ℕ}

lemma sum_weight_selected {hashing : Hashing Hash} {options : AssemblerOptions}
    {selected : List (MempoolEntry Hash)} (h : Selection hashing options nBlockMaxWeight selected) :
    options.block_reserved_weight +
      ((selected.map MempoolEntry.tx).map CTransaction.weight).sum ≤ nBlockMaxWeight := by
  have hweights : (selected.map MempoolEntry.tx).map CTransaction.weight =
      selected.map MempoolEntry.txWeight := by
    rw [map_map]
    exact map_congr_left fun entry hentry => (h.weight_eq entry hentry).symm
  have hcounted := (foldl_addToBlock selected (resetBlock options)).1
  have hle := h.weight_le
  unfold addSelected at hle
  rw [hcounted] at hle
  rw [hweights]
  exact hle

/-! ## The template's coinbase -/

section Template

variable [Zero Hash]

/-- What the checks read of the coinbase of a template. -/
structure TemplateCoinbase (options : AssemblerOptions) (nHeight : ℕ) (tx : CTransaction Hash) :
    Prop where
  vin : ∃ witness, tx.vin =
      [⟨.null, coinbaseScriptSig options nHeight, MAX_SEQUENCE_NONFINAL, witness⟩] ∧
    (witness = [] ∨ witness = [List.replicate 32 0])
  outputs : tx.vout.length ≤ 3
  outputs_size : (tx.vout.map CTxOut.size).sum ≤ 265

variable {ctx : TemplateContext Hash} {options : AssemblerOptions}

lemma size_generateCoinbaseCommitment (nHeight : ℕ) (nFees : ℤ) (rest : List (CTransaction Hash))
    (hscript : options.coinbase_output_script.length ≤ 100)
    (htreasury : ctx.rules.params.treasury_script_pub_key.length ≤ 100) :
    let vout := (generateCoinbaseCommitment ctx
      (coinbaseTx ctx.rules.params options nHeight nFees) rest).vout
    vout.length ≤ 3 ∧ (vout.map CTxOut.size).sum ≤ 265 := by
  have hown :
      (coinbaseTx ctx.rules.params options nHeight nFees : CTransaction Hash).vout.length ≤ 2 ∧
      ((coinbaseTx ctx.rules.params options nHeight nFees :
        CTransaction Hash).vout.map CTxOut.size).sum ≤ 218 := by
    simp only [coinbaseTx, coinbaseOutputs]
    split
    · simp [CTxOut.size, bytesSize_of_lt
        (show options.coinbase_output_script.length < 253 by omega),
        bytesSize_of_lt (show ctx.rules.params.treasury_script_pub_key.length < 253 by omega)]
      omega
    · simp [CTxOut.size, bytesSize_of_lt
        (show options.coinbase_output_script.length < 253 by omega)]
      omega
  rw [generateCoinbaseCommitment_vout]
  split
  · have hcommitment : ∀ vtx : List (CTransaction Hash),
        (commitmentScript ctx vtx).length = 38 := by
      intro vtx
      rw [commitmentScript, length_append, (ctx.witnessHash vtx).property]
      rfl
    simp only [length_append, map_append, sum_append, map_cons, map_nil,
      sum_cons, sum_nil, length_cons, length_nil, CTxOut.size]
    rw [bytesSize_of_lt (by rw [hcommitment]; decide), hcommitment]
    omega
  · omega

lemma templateCoinbase_of_generate {nHeight : ℕ} {nFees : ℤ} {rest : List (CTransaction Hash)}
    (hscript : options.coinbase_output_script.length ≤ 100)
    (htreasury : ctx.rules.params.treasury_script_pub_key.length ≤ 100) :
    TemplateCoinbase options nHeight (generateCoinbaseCommitment ctx
      (coinbaseTx ctx.rules.params options nHeight nFees) rest) := by
  obtain ⟨houtputs, hsize⟩ :=
    size_generateCoinbaseCommitment nHeight nFees rest hscript htreasury
  refine ⟨?_, houtputs, hsize⟩
  have hupdate : ∀ tx : CTransaction Hash,
      tx.vin = [⟨.null, coinbaseScriptSig options nHeight, MAX_SEQUENCE_NONFINAL, []⟩] →
      ∃ witness, (updateUncommitted ctx tx).vin =
          [⟨.null, coinbaseScriptSig options nHeight, MAX_SEQUENCE_NONFINAL, witness⟩] ∧
        (witness = [] ∨ witness = [List.replicate 32 0]) := by
    intro tx htx
    unfold updateUncommitted
    split
    · exact ⟨[List.replicate 32 0], by simp [htx], .inr rfl⟩
    · exact ⟨[], htx, .inl rfl⟩
  unfold generateCoinbaseCommitment
  split <;> exact hupdate _ rfl

/-! ## Weight -/

lemma length_scriptNumSerialize_le (n : ℕ) : (scriptNumSerialize n).length ≤ 9 := by
  have hbytes := length_scriptNumBytes_le 8 n
  unfold scriptNumSerialize
  dsimp only
  split
  · rw [length_append]
    exact Nat.add_le_add_right hbytes 1
  · omega

lemma length_scriptPushHeight_le (nHeight : ℕ) : (scriptPushHeight nHeight).length ≤ 10 := by
  have hbytes := length_scriptNumSerialize_le nHeight
  unfold scriptPushHeight
  split
  · exact Nat.le_add_left 1 9
  · split
    · exact Nat.le_add_left 1 9
    · rw [length_cons]
      omega

lemma length_cpuScriptSig (hextra : options.include_dummy_extranonce) (nHeight : ℕ)
    {work_nonce : List UInt8} (hnonce : work_nonce.length = 32) (work_id : UInt64) :
    2 ≤ (coinbaseScriptSig options nHeight ++ workPushes work_nonce work_id).length ∧
      (coinbaseScriptSig options nHeight ++ workPushes work_nonce work_id).length ≤ 54 := by
  have hheight := length_scriptPushHeight_le nHeight
  have hpushes := length_workPushes hnonce work_id
  have hlong : 33 ≤ (workPushes work_nonce work_id).length := by
    rw [workPushes, pushData_of_lt (by omega), length_append, length_cons]
    omega
  simp only [coinbaseScriptSig, hextra, if_true, length_append, length_cons,
    length_nil]
  omega

/-- **The worker's coinbase is lighter than what is reserved for it.** -/
lemma weight_cpuCoinbase_le (hextra : options.include_dummy_extranonce) {nHeight : ℕ}
    {tx : CTransaction Hash} (h : TemplateCoinbase options nHeight tx) {work_nonce : List UInt8}
    (hnonce : work_nonce.length = 32) (work_id : UInt64) :
    (cpuCoinbase work_nonce work_id tx).weight ≤ 1516 := by
  obtain ⟨⟨witness, hvin, hwitness⟩, houtputs, hsize⟩ := h
  obtain ⟨-, hscript⟩ := length_cpuScriptSig hextra nHeight hnonce work_id
  have hcount : getSizeOfCompactSize tx.vout.length = 1 := if_pos (by omega)
  have hbase : (cpuCoinbase work_nonce work_id tx).baseSize ≤ 370 := by
    simp only [CTransaction.baseSize, cpuCoinbase, hvin, modifyHead_cons, map_cons,
      map_nil, sum_cons, sum_nil, length_cons, length_nil, CTxIn.size,
      hcount]
    rw [bytesSize_of_lt (by omega), show getSizeOfCompactSize (0 + 1) = 1 from rfl]
    omega
  have htotal : (cpuCoinbase work_nonce work_id tx).totalSize ≤
      (cpuCoinbase work_nonce work_id tx).baseSize + 36 := by
    unfold CTransaction.totalSize
    split
    · rcases hwitness with rfl | rfl
      · simp [cpuCoinbase, hvin, witnessSize, getSizeOfCompactSize]
      · simp [cpuCoinbase, hvin, witnessSize, bytesSize, getSizeOfCompactSize]
    · omega
  rw [CTransaction.weight, WITNESS_SCALE_FACTOR]
  omega

end Template

/-! ## What the worker leaves alone -/

section Checks

variable [Zero Hash] {options : AssemblerOptions} {nHeight : ℕ}
  {tx : CTransaction Hash} (work_nonce : List UInt8) (work_id : UInt64)
  (h : TemplateCoinbase options nHeight tx)

include h

lemma isFinalTx_cpuCoinbase (height : ℕ) (time : ℤ) :
    isFinalTx (cpuCoinbase work_nonce work_id tx) height time = isFinalTx tx height time := by
  obtain ⟨⟨witness, hvin, -⟩, -, -⟩ := h
  simp [isFinalTx, cpuCoinbase, hvin]

lemma hasWitness_cpuCoinbase : (cpuCoinbase work_nonce work_id tx).hasWitness = tx.hasWitness := by
  obtain ⟨⟨witness, hvin, -⟩, -, -⟩ := h
  simp [CTransaction.hasWitness, cpuCoinbase, hvin]

variable [DecidableEq Hash]

lemma checkWitnessMalleation_cpuCoinbase
    (trees : WitnessHashing Hash) (expect : Bool) (rest : List (CTransaction Hash)) :
    checkWitnessMalleation trees expect (cpuCoinbase work_nonce work_id tx :: rest) =
      checkWitnessMalleation trees expect (tx :: rest) := by
  have hwitness : (coinbaseIn (cpuCoinbase work_nonce work_id tx :: rest)).map
      CTxIn.scriptWitness = (coinbaseIn (tx :: rest)).map CTxIn.scriptWitness := by
    obtain ⟨⟨witness, hvin, -⟩, -, -⟩ := h
    simp [coinbaseIn, cpuCoinbase, hvin]
  have hnone : checkNoWitness (cpuCoinbase work_nonce work_id tx :: rest) =
      checkNoWitness (tx :: rest) := by
    simp only [checkNoWitness, forall_mem_cons,
      hasWitness_cpuCoinbase work_nonce work_id h]
  have houts : coinbaseOuts (cpuCoinbase work_nonce work_id tx :: rest) =
      coinbaseOuts (tx :: rest) := rfl
  have hroot : blockWitnessMerkleRoot trees (cpuCoinbase work_nonce work_id tx :: rest) =
      blockWitnessMerkleRoot trees (tx :: rest) := rfl
  simp only [checkWitnessMalleation, checkCommitment, hwitness, hnone, houts, hroot]

lemma isCoinBase_cpuCoinbase : (cpuCoinbase work_nonce work_id tx).isCoinBase = true := by
  obtain ⟨⟨witness, hvin, -⟩, -, -⟩ := h
  simp [CTransaction.isCoinBase, cpuCoinbase, hvin]

omit work_nonce work_id h in
lemma isCoinBase_stripWitness (tx : CTransaction Hash) :
    tx.stripWitness.isCoinBase = tx.isCoinBase := by
  unfold CTransaction.isCoinBase CTransaction.stripWitness
  cases tx.vin with
  | nil => rfl
  | cons txin rest => cases rest <;> rfl

lemma nodup_txids {hashing : Hashing Hash} {rest : List (CTransaction Hash)}
    (hrest : ∀ t ∈ rest, ¬ t.isCoinBase)
    (hnodup : (rest.map hashing.txid).Nodup)
    (hdistinct : hashing.DistinctTxids (cpuCoinbase work_nonce work_id tx :: rest)) :
    ((cpuCoinbase work_nonce work_id tx :: rest).map hashing.txid).Nodup := by
  rw [map_cons, nodup_cons]
  refine ⟨fun hmem => ?_, hnodup⟩
  obtain ⟨t, ht, hid⟩ := mem_map.1 hmem
  have hstrip := hdistinct t (mem_cons_of_mem _ ht) _ mem_cons_self hid
  refine hrest t ht ?_
  rw [← isCoinBase_stripWitness, hstrip, isCoinBase_stripWitness]
  exact isCoinBase_cpuCoinbase work_nonce work_id h

end Checks

/-! ## The checks -/

variable [DecidableEq Hash] [Zero Hash]

/-- What is known of a template the CPU miner gets. -/
structure CpuTemplate (view : MiningView Node Hash) (clock : ClockReadings)
    (options : AssemblerOptions) (selected : List (MempoolEntry Hash)) (block : CBlock Hash) :
    Prop where
  vtx : ∃ tx, block.vtx = tx :: selected.map MempoolEntry.tx ∧
    TemplateCoinbase options (view.H.depth view.tip + 1) tx
  length_le : block.vtx.length * WITNESS_SCALE_FACTOR ≤ MAX_BLOCK_WEIGHT
  rest : ∀ tx ∈ block.vtx.tail, ¬ tx.isCoinBase
  header : contextualCheckBlockHeader view.H view.rules.params view.active view.tip clock.test
    block.toCBlockHeader = .ok ()
  contextual : contextualCheckBlock view.H view.trees view.active view.tip block = .ok ()

lemma cpuTemplate_of_eq_ok {view : MiningView Node Hash} {clock : ClockReadings}
    {reserved : Option ℕ} {script : CScript}
    {builder : BlockBuilder view.rules.toHashing} {template : CBlockTemplate Hash}
    (hscript : script.length ≤ 100)
    (htreasury : view.rules.params.treasury_script_pub_key.length ≤ 100)
    (h : cpuMinerTemplate view clock reserved nBlockMaxWeight script builder = .ok template) :
    CpuTemplate view clock (cpuMinerOptions reserved script)
      (selectEntries view (cpuMinerOptions reserved script) nBlockMaxWeight builder)
      template.block := by
  obtain ⟨ctx, hctx, hnew⟩ := bind_eq_ok.1 h
  obtain ⟨nTime, -, hctx⟩ := bind_eq_ok.1 hctx
  obtain ⟨nBits, -, hctx⟩ := bind_eq_ok.1 hctx
  cases hctx
  have hspec := buildTemplate_spec (buildTemplate_of_createNewBlock hnew)
  simp only [createNewBlock, bind_eq_ok, pure_eq_ok, whenever_eq_ok] at hnew
  obtain ⟨t, -, -, htest, rfl⟩ := hnew
  have hvalid := htest rfl
  simp only [testBlockValidity, bind_eq_ok, ensure_eq_ok] at hvalid
  obtain ⟨⟨⟩, -, ⟨⟩, hblock, ⟨⟩, ⟨⟨⟩, hheader, hcontextual⟩, -⟩ := hvalid
  simp only [checkBlock, bind_eq_ok, ensure_eq_ok] at hblock
  obtain ⟨⟨⟩, -, ⟨⟩, -, ⟨⟩, ⟨-, hlength, -⟩, ⟨⟩, -, ⟨⟩, hrest, -⟩ := hblock
  refine ⟨⟨_, hspec.vtx_eq, ?_⟩, hlength, hrest, hheader, hcontextual⟩
  rw [← view.entry_height]
  exact templateCoinbase_of_generate hscript htreasury

/-! ## The worker's block against the template -/

section Block

variable {view : MiningView Node Hash} {clock : ClockReadings} {reserved : Option ℕ}
  {script : CScript} {selected : List (MempoolEntry Hash)} {block : CBlock Hash}
  (work_nonce : List UInt8) (work_id : UInt64) (nNonce : UInt32)

section

variable (h : CpuTemplate view clock (cpuMinerOptions reserved script) selected block)

include h

lemma CpuTemplate.vtx_cpuBlock :
    ∃ tx, TemplateCoinbase (cpuMinerOptions reserved script) (view.H.depth view.tip + 1) tx ∧
      block.vtx = tx :: selected.map MempoolEntry.tx ∧
      (cpuBlock view.rules.toHashing view.trees work_nonce work_id nNonce block).vtx =
        cpuCoinbase work_nonce work_id tx :: selected.map MempoolEntry.tx := by
  obtain ⟨tx, hvtx, hcoinbase⟩ := h.vtx
  refine ⟨tx, hcoinbase, hvtx, ?_⟩
  change block.vtx.modifyHead _ = _
  rw [hvtx]
  rfl

lemma CpuTemplate.scriptSig_cpuBlock :
    (coinbaseIn (cpuBlock view.rules.toHashing view.trees work_nonce work_id nNonce block).vtx).map
        CTxIn.scriptSig =
      some (coinbaseScriptSig (cpuMinerOptions reserved script) (view.H.depth view.tip + 1) ++
        workPushes work_nonce work_id) := by
  obtain ⟨tx, ⟨⟨witness, hvin, -⟩, -, -⟩, -, hblock⟩ := h.vtx_cpuBlock work_nonce work_id nNonce
  simp [hblock, coinbaseIn, cpuCoinbase, hvin]

/-- The weight of the worker's block: a template has few enough transactions for their number to
take five bytes, and the reserved weight covers the coinbase, the number and the header. -/
lemma CpuTemplate.weight_le
    (hselection : Selection view.rules.toHashing (cpuMinerOptions reserved script)
      MAX_BLOCK_WEIGHT selected) {work_nonce : List UInt8} (hnonce : work_nonce.length = 32) :
    (cpuBlock view.rules.toHashing view.trees work_nonce work_id nNonce block).weight ≤
      MAX_BLOCK_WEIGHT := by
  obtain ⟨tx, hcoinbase, hvtx, hblock⟩ := h.vtx_cpuBlock work_nonce work_id nNonce
  have hlength := h.length_le
  have hreserved := (clampReservedWeight_bounds reserved).1
  have hrest : clampReservedWeight reserved + _ ≤ _ := sum_weight_selected hselection
  have hown := weight_cpuCoinbase_le rfl hcoinbase hnonce work_id
  rw [hvtx, length_cons, WITNESS_SCALE_FACTOR, MAX_BLOCK_WEIGHT] at hlength
  have hcount : getSizeOfCompactSize ((selected.map MempoolEntry.tx).length + 1) ≤ 5 := by
    unfold getSizeOfCompactSize
    split_ifs <;> omega
  rw [CBlock.weight_eq, hblock, length_cons, map_cons, sum_cons]
  omega

end

lemma CpuTemplate.checkMerkleRoot
    (h : CpuTemplate view clock (cpuMinerOptions reserved script) selected block)
    (hselection : Selection view.rules.toHashing (cpuMinerOptions reserved script)
      MAX_BLOCK_WEIGHT selected)
    (hcollision : NoHashCollision view.rules.toHashing view.trees
      (cpuBlock view.rules.toHashing view.trees work_nonce work_id nNonce block).vtx) :
    SlithyTove.checkMerkleRoot view.rules.toHashing view.trees
      (cpuBlock view.rules.toHashing view.trees work_nonce work_id nNonce block) = .ok () := by
  obtain ⟨tx, hcoinbase, hvtx, hblock⟩ := h.vtx_cpuBlock work_nonce work_id nNonce
  have hrest := h.rest
  rw [hvtx, tail_cons] at hrest
  have hselected : ((selected.map MempoolEntry.tx).map view.rules.txid).Nodup := by
    rw [map_map]
    exact hselection.nodup
  have hnodup : ((cpuBlock view.rules.toHashing view.trees work_nonce work_id nNonce
      block).vtx.map view.rules.txid).Nodup := by
    have hdistinct := hcollision.txids
    rw [hblock] at hdistinct ⊢
    exact nodup_txids work_nonce work_id hcoinbase hrest hselected hdistinct
  simp only [SlithyTove.checkMerkleRoot, bind_eq_ok, ensure_eq_ok]
  refine ⟨(), rfl, merkleRoot_snd _ hnodup ?_⟩
  rw [length_map]
  exact hcollision.nodes

lemma CpuTemplate.contextualCheckBlock
    (h : CpuTemplate view clock (cpuMinerOptions reserved script) selected block)
    (hweight : (cpuBlock view.rules.toHashing view.trees work_nonce work_id nNonce block).weight ≤
      MAX_BLOCK_WEIGHT) :
    SlithyTove.contextualCheckBlock view.H view.trees view.active view.tip
      (cpuBlock view.rules.toHashing view.trees work_nonce work_id nNonce block) = .ok () := by
  obtain ⟨tx, hcoinbase, hvtx, hblock⟩ := h.vtx_cpuBlock work_nonce work_id nNonce
  have hscript := h.scriptSig_cpuBlock work_nonce work_id nNonce
  have hcontextual := h.contextual
  simp only [SlithyTove.contextualCheckBlock, bind_eq_ok, ensure_eq_ok, whenever_eq_ok, hvtx,
    forall_mem_cons] at hcontextual
  obtain ⟨⟨⟩, ⟨hfinal, hfinals⟩, ⟨⟩, -, ⟨⟩, hwitness, -⟩ := hcontextual
  simp only [SlithyTove.contextualCheckBlock, bind_eq_ok, ensure_eq_ok, whenever_eq_ok, hblock,
    forall_mem_cons, isFinalTx_cpuCoinbase work_nonce work_id hcoinbase,
    checkWitnessMalleation_cpuCoinbase work_nonce work_id hcoinbase]
  refine ⟨(), ⟨hfinal, hfinals⟩, (), fun _ => ?_, (), hwitness, hweight⟩
  rw [hblock] at hscript
  rw [hscript]
  simp [coinbaseScriptSig, append_assoc]

end Block

/-- **The block a CPU worker hashes passes the checks.**  For every tip and every template the miner
gets, every random number, counter and header nonce, as long as the clock does not go back and no
two hashes of the block collide; and the script of the coinbase tells the random number and the
counter. -/
theorem cpuBlock_passes_checks (view : MiningView Node Hash) (clock : ClockReadings)
    (reserved : Option ℕ) (nBlockMaxWeight : ℕ) (script : CScript)
    (builder : BlockBuilder view.rules.toHashing) (template : CBlockTemplate Hash)
    (hscript : script.length ≤ 100)
    (htreasury : view.rules.params.treasury_script_pub_key.length ≤ 100)
    (htemplate : cpuMinerTemplate view clock reserved nBlockMaxWeight script builder = .ok template)
    (later : ℤ) (hlater : clock.test ≤ later) :
    (∀ work_nonce work_id nNonce, work_nonce.length = 32 →
      let block := cpuBlock view.rules.toHashing view.trees work_nonce work_id nNonce template.block
      NoHashCollision view.rules.toHashing view.trees block.vtx →
      contextualCheckBlockHeader view.H view.rules.params view.active view.tip later
        block.toCBlockHeader = .ok () ∧
      checkMerkleRoot view.rules.toHashing view.trees block = .ok () ∧
      (∃ scriptSig, (coinbaseIn block.vtx).map CTxIn.scriptSig = some scriptSig ∧
        2 ≤ scriptSig.length ∧ scriptSig.length ≤ 100) ∧
      (block.vtx ≠ [] ∧ block.vtx.length * WITNESS_SCALE_FACTOR ≤ MAX_BLOCK_WEIGHT ∧
        block.baseSize * WITNESS_SCALE_FACTOR ≤ MAX_BLOCK_WEIGHT) ∧
      contextualCheckBlock view.H view.trees view.active view.tip block = .ok ()) ∧
    ∀ n₁ n₂ i₁ i₂ nNonce₁ nNonce₂, n₁.length = 32 → n₂.length = 32 → (n₁, i₁) ≠ (n₂, i₂) →
      (coinbaseIn (cpuBlock view.rules.toHashing view.trees n₁ i₁ nNonce₁ template.block).vtx).map
          CTxIn.scriptSig ≠
        (coinbaseIn (cpuBlock view.rules.toHashing view.trees n₂ i₂ nNonce₂ template.block).vtx).map
          CTxIn.scriptSig := by
  have h := cpuTemplate_of_eq_ok hscript htreasury htemplate
  have hselection := selectEntries_selection view reserved script nBlockMaxWeight builder
  constructor
  · intro work_nonce work_id nNonce hnonce block hcollision
    have hweight := h.weight_le work_id nNonce hselection hnonce
    obtain ⟨tx, -, hvtx, hblock⟩ := h.vtx_cpuBlock work_nonce work_id nNonce
    obtain ⟨hmin, hmax⟩ := @length_cpuScriptSig (cpuMinerOptions reserved script) rfl
      (view.H.depth view.tip + 1) work_nonce hnonce work_id
    refine ⟨?_, h.checkMerkleRoot work_nonce work_id nNonce hselection hcollision,
      ⟨_, h.scriptSig_cpuBlock work_nonce work_id nNonce, hmin, by omega⟩, ⟨?_, ?_, ?_⟩,
      h.contextualCheckBlock work_nonce work_id nNonce hweight⟩
    · refine contextualCheckBlockHeader_mono view.H hlater ?_
      rw [← h.header]
      exact contextualCheckBlockHeader_congr view.H rfl rfl rfl
    · exact hblock ▸ cons_ne_nil _ _
    · have hlength := h.length_le
      rw [hvtx, length_cons] at hlength
      rw [hblock, length_cons]
      exact hlength
    · exact (CBlock.baseSize_le_weight _).trans hweight
  · intro n₁ n₂ i₁ i₂ nNonce₁ nNonce₂ h₁ h₂ hne heq
    rw [h.scriptSig_cpuBlock, h.scriptSig_cpuBlock, Option.some_inj,
      append_cancel_left_eq] at heq
    obtain ⟨rfl, rfl⟩ := workPushes_injective h₁ h₂ heq
    exact hne rfl

/-- The genesis block of the main network, alone. -/
def genesisHeaders : HeaderTree Unit where
  parent _ := none
  depth _ := 0
  depth_root _ _ := rfl
  depth_child _ _ h := by cases h
  pskip _ := none
  skip_root _ _ := rfl
  skip_child _ _ h := by cases h
  nTime _ := 1
  nBits _ := 0x1e3fffff

lemma length_replicate_zero : (List.replicate 32 (0 : UInt8)).length = 32 := rfl

/-- A coin that no coinbase made. -/
def spendableCoin : Coin := ⟨⟨50, [0x51]⟩, 0, false⟩

/-- Its spend, which leaves a fee of ten. -/
def feeSpend : CTransaction ℕ := ⟨1, [⟨⟨5, 0⟩, [], 0xffffffff, []⟩], [⟨40, [0x51]⟩], 7⟩

/-- A miner of the main network whose chain is the genesis block. -/
def genesisView : MiningView Unit ℕ where
  H := genesisHeaders
  tip := ()
  entry := { hash := 1, pprev := none, nHeight := 0, bip34Ancestor := none }
  entry_height := rfl
  rules := lenientRules mainParams
  trees := ⟨fun a b => 100 * a + b, fun _ => 0,
    fun _ _ => ⟨List.replicate 32 0, length_replicate_zero⟩⟩
  active := ⟨true, true, true, true, true⟩
  signalled := []
  coinsTip := { coins := CoinsMap.empty.insert ⟨5, 0⟩ spendableCoin ⟨rfl, rfl⟩, hashBlock := 1 }
  bip34Ancestor := none

/-- The mempool with the one transaction. -/
def feeSpendBuilder : BlockBuilder genesisView.rules.toHashing where
  chunks := [⟨[⟨feeSpend, 10, 0, feeSpend.weight⟩], feeSpend.weight, false, by simp, by simp⟩]
  nodup := by decide

theorem cpuBlock_passes_checks_genesis :
    ∃ template, cpuMinerTemplate genesisView ⟨100, 100, 100⟩ none 4000000 [0x51]
        feeSpendBuilder = .ok template ∧
      template.block.vtx.tail = [feeSpend] ∧ template.vTxFees = [10] ∧
      contextualCheckBlock genesisView.H genesisView.trees genesisView.active genesisView.tip
        (cpuBlock genesisView.rules.toHashing genesisView.trees (List.replicate 32 7) 5 9
          template.block) = .ok () := by
  have hrun : ((cpuMinerTemplate genesisView ⟨100, 100, 100⟩ none 4000000 [0x51]
      feeSpendBuilder).toOption.any fun template =>
        template.block.vtx.tail = [feeSpend] ∧ template.vTxFees = [10] ∧
          (cpuBlock genesisView.rules.toHashing genesisView.trees (List.replicate 32 7) 5 9
            template.block).vtx.map genesisView.rules.txid = [1, 8]) = true := by decide +kernel
  cases htemplate : cpuMinerTemplate genesisView ⟨100, 100, 100⟩ none 4000000 [0x51]
      feeSpendBuilder with
  | error e =>
    rw [htemplate] at hrun
    cases hrun
  | ok template =>
    rw [htemplate] at hrun
    obtain ⟨hspend, hfees, hids⟩ := of_decide_eq_true hrun
    refine ⟨template, rfl, hspend, hfees, ?_⟩
    have hlength := congrArg List.length hids
    rw [length_map] at hlength
    have hcollision : NoHashCollision genesisView.rules.toHashing genesisView.trees
        (cpuBlock genesisView.rules.toHashing genesisView.trees (List.replicate 32 7) 5 9
          template.block).vtx := by
      refine ⟨fun tx htx tx' htx' heq => congrArg _ ?_, ?_⟩
      · exact inj_on_of_nodup_map (f := genesisView.rules.txid) (by rw [hids]; decide) htx htx' heq
      · rw [hlength, hids]
        simp [NoCollision, InjectiveOn, pairUp, genesisView]
    exact ((cpuBlock_passes_checks genesisView ⟨100, 100, 100⟩ none 4000000 [0x51] _ template
      (by decide) (by decide) htemplate 100 le_rfl).1 (List.replicate 32 7) 5 9 rfl
        hcollision).2.2.2.2

end SlithyTove
