import SlithyTove.Validation.ContextualCheck

/-!
# What a template takes from the mempool and from the chain

`Mining/Assembler` builds a template from a list of selected transactions and from a
`TemplateContext`.  This file supplies both as `CreateNewBlock` does (`node/miner.cpp`): `addChunks`
takes chunks of the mempool as long as they fit, and `newBlockContext` fills in the version, the
time, the target and the contextual checks of the validity test from the tip of the chain and the
clock, which is read three times.
-/

namespace SlithyTove

open Framework List

variable {Hash : Type}

/-! ## Selecting chunks -/

/-- `MINIMUM_BLOCK_RESERVED_WEIGHT`. -/
def MINIMUM_BLOCK_RESERVED_WEIGHT : ℕ := 2000

/-- `DEFAULT_BLOCK_RESERVED_WEIGHT`. -/
def DEFAULT_BLOCK_RESERVED_WEIGHT : ℕ := 8000

/-- `ClampOptions` on the weight reserved for the coinbase. -/
def clampReservedWeight (block_reserved_weight : Option ℕ) : ℕ :=
  max MINIMUM_BLOCK_RESERVED_WEIGHT
    (min (block_reserved_weight.getD DEFAULT_BLOCK_RESERVED_WEIGHT) MAX_BLOCK_WEIGHT)

/-- `ClampOptions` on the weight of the block. -/
def clampBlockMaxWeight (block_reserved_weight nBlockMaxWeight : ℕ) : ℕ :=
  max block_reserved_weight (min nBlockMaxWeight MAX_BLOCK_WEIGHT)

/-- The options the CPU miner's call leads to: its own script, a dummy extra nonce, the validity
test, and the weight reserved on the command line. -/
def cpuMinerOptions (block_reserved_weight : Option ℕ) (coinbase_output_script : CScript) :
    AssemblerOptions where
  block_reserved_weight := clampReservedWeight block_reserved_weight
  coinbase_output_script := coinbase_output_script
  include_dummy_extranonce := true

/-- A chunk the mempool offers.  Its size counts every transaction with its weight, or more if it
has many signature operations. -/
structure MempoolChunk (Hash : Type) where
  txs : List (MempoolEntry Hash)
  /-- `chunk_feerate.size`. -/
  size : ℕ
  /-- `chunk_feerate_vsize << blockMinFeeRate`. -/
  belowMinFee : Bool
  weight_eq : ∀ entry ∈ txs, entry.txWeight = entry.tx.weight
  size_ge : (txs.map MempoolEntry.txWeight).sum ≤ size

/-- The chunks in the order in which the mempool offers them.  A transaction is in the mempool
once. -/
structure BlockBuilder (hashing : Hashing Hash) where
  chunks : List (MempoolChunk Hash)
  nodup : (chunks.flatMap fun chunk => chunk.txs.map fun entry => hashing.txid entry.tx).Nodup

/-- `TestChunkBlockLimits`. -/
def testChunkBlockLimits (nBlockMaxWeight : ℕ) (s : AssemblerState Hash)
    (chunk : MempoolChunk Hash) : Bool :=
  s.nBlockWeight + chunk.size < nBlockMaxWeight ∧
    s.nBlockSigOpsCost + (chunk.txs.map MempoolEntry.sigOpCost).sum < MAX_BLOCK_SIGOPS_COST

/-- `TestChunkTransactions`. -/
def testChunkTransactions (nHeight : ℕ) (m_lock_time_cutoff : ℤ) (chunk : MempoolChunk Hash) :
    Bool :=
  chunk.txs.all fun entry => isFinalTx entry.tx nHeight m_lock_time_cutoff

/-- The loop of `addChunks`, on the entries selected so far; the counters of the assembler are
those of `addSelected`. -/
def addChunks (options : AssemblerOptions) (nBlockMaxWeight nHeight : ℕ) (m_lock_time_cutoff : ℤ) :
    List (MempoolChunk Hash) → (nConsecutiveFailed : ℕ) → List (MempoolEntry Hash) →
      List (MempoolEntry Hash)
  | [], _, selected => selected
  | chunk :: chunks, nConsecutiveFailed, selected =>
    if chunk.txs = [] ∨ chunk.belowMinFee then selected
    else
      let s := addSelected options selected
      if testChunkBlockLimits nBlockMaxWeight s chunk ∧
          testChunkTransactions nHeight m_lock_time_cutoff chunk then
        addChunks options nBlockMaxWeight nHeight m_lock_time_cutoff chunks 0
          (selected ++ chunk.txs)
      else if nConsecutiveFailed + 1 > 1000 ∧ s.nBlockWeight + 4000 > nBlockMaxWeight then selected
      else addChunks options nBlockMaxWeight nHeight m_lock_time_cutoff chunks
        (nConsecutiveFailed + 1) selected

/-! ## The header -/

/-- `VERSIONBITS_TOP_BITS`. -/
def VERSIONBITS_TOP_BITS : UInt32 := 0x20000000

/-- `ComputeBlockVersion`: the bit of every deployment that is started or locked in. -/
def computeBlockVersion (signalled : List UInt32) : Int32 :=
  (signalled.foldl (fun nVersion bit => nVersion ||| (1 : UInt32) <<< bit)
    VERSIONBITS_TOP_BITS).toInt32

section Chain

variable {Node : Type} (H : HeaderTree Node)

/-- `GetMinimumTime`. -/
def getMinimumTime (pindexPrev : Node) (difficulty_adjustment_interval : Int64) :
    Except String ℤ := do
  let min_time := getMedianTimePast H pindexPrev + 1
  let r ← remInt64 (H.depth pindexPrev + 1) difficulty_adjustment_interval
  return if r = 0 then max min_time ((H.nTime pindexPrev).toNat - MAX_TIMEWARP) else min_time

/-- The time `UpdateTime` leaves in a header; the header holds 32 bits of it. -/
def updateTime (params : Params) (pindexPrev : Node) (nTime : UInt32) (now : ℤ) :
    Except String UInt32 := do
  let interval ← params.difficultyAdjustmentInterval
  let min_time ← getMinimumTime H pindexPrev interval
  let nNewTime := max min_time now
  return if (nTime.toNat : ℤ) < nNewTime then UInt32.ofInt nNewTime else nTime

end Chain

/-! ## The context -/

/-- The node as `CreateNewBlock` finds it. -/
structure MiningView (Node Hash : Type) where
  H : HeaderTree Node
  /-- The tip of the active chain, and what validation reads of its index entry. -/
  tip : Node
  entry : IndexEntry Hash
  entry_height : entry.nHeight = H.depth tip
  rules : ConsensusRules Hash
  trees : WitnessHashing Hash
  active : Deployments
  /-- The bits of the deployments that are started or locked in. -/
  signalled : List UInt32
  coinsTip : CoinsView Hash
  bip34Ancestor : Option Hash

/-- The three readings of the clock in `CreateNewBlock`: for the first time of the header, for
`UpdateTime`, and for the validity test. -/
structure ClockReadings where
  first : ℤ
  update : ℤ
  test : ℤ

variable {Node : Type}

/-- The entries a template takes from the mempool. -/
def selectEntries (view : MiningView Node Hash) (options : AssemblerOptions)
    (nBlockMaxWeight : ℕ) (builder : BlockBuilder view.rules.toHashing) :
    List (MempoolEntry Hash) :=
  addChunks options (clampBlockMaxWeight options.block_reserved_weight nBlockMaxWeight)
    (view.H.depth view.tip + 1) (getMedianTimePast view.H view.tip) builder.chunks 0 []

section Template

variable [DecidableEq Hash] [Zero Hash]

/-- What `CreateNewBlock` fills the header with, and the checks of its validity test. -/
def newBlockContext (view : MiningView Node Hash) (clock : ClockReadings) :
    Except String (TemplateContext Hash) := do
  let nTime ← updateTime view.H view.rules.params view.tip (UInt32.ofInt clock.first) clock.update
  let nBits ← getNextWorkRequired view.H view.rules.params view.tip nTime
  return {
    rules := view.rules
    tip := view.entry
    coinsTip := view.coinsTip
    bip34Ancestor := view.bip34Ancestor
    segwitActive := view.active.segwit
    nVersion := computeBlockVersion view.signalled
    nTime
    nBits
    witnessHash := fun vtx =>
      view.trees.commitment (blockWitnessMerkleRoot view.trees vtx) (List.replicate 32 0)
    contextualChecks := fun block => do
      contextualCheckBlockHeader view.H view.rules.params view.active view.tip clock.test
        block.toCBlockHeader
      contextualCheckBlock view.H view.trees view.active view.tip block }

/-- The template the CPU miner asks for. -/
def cpuMinerTemplate (view : MiningView Node Hash) (clock : ClockReadings)
    (block_reserved_weight : Option ℕ) (nBlockMaxWeight : ℕ) (coinbase_output_script : CScript)
    (builder : BlockBuilder view.rules.toHashing) : Except String (CBlockTemplate Hash) := do
  let options := cpuMinerOptions block_reserved_weight coinbase_output_script
  let ctx ← newBlockContext view clock
  createNewBlock ctx options (selectEntries view options nBlockMaxWeight builder)

end Template

/-! ## What is selected -/

lemma addSelected_append (options : AssemblerOptions)
    (selected entries : List (MempoolEntry Hash)) :
    addSelected options (selected ++ entries) = entries.foldl addToBlock
      (addSelected options selected) :=
  foldl_append ..

lemma foldl_addToBlock (entries : List (MempoolEntry Hash)) (s : AssemblerState Hash) :
    (entries.foldl addToBlock s).nBlockWeight =
        s.nBlockWeight + (entries.map MempoolEntry.txWeight).sum ∧
      (entries.foldl addToBlock s).vtx = s.vtx ++ entries.map MempoolEntry.tx := by
  induction entries generalizing s with
  | nil => simp
  | cons entry entries ih =>
    obtain ⟨hweight, hvtx⟩ := ih (addToBlock s entry)
    rw [foldl_cons, hweight, hvtx]
    constructor
    · simp only [addToBlock, map_cons, sum_cons]
      omega
    · simp [addToBlock]

/-- What the selection guarantees: the block is not too heavy, the counted weights are the
transactions', and no transaction comes twice. -/
structure Selection (hashing : Hashing Hash) (options : AssemblerOptions) (nBlockMaxWeight : ℕ)
    (selected : List (MempoolEntry Hash)) : Prop where
  weight_le : (addSelected options selected).nBlockWeight ≤ nBlockMaxWeight
  weight_eq : ∀ entry ∈ selected, entry.txWeight = entry.tx.weight
  nodup : (selected.map fun entry => hashing.txid entry.tx).Nodup

/-- **The loop over the chunks.**  What is selected and what is still offered have no transaction in
common. -/
lemma addChunks_selection {hashing : Hashing Hash} {options : AssemblerOptions}
    {nBlockMaxWeight nHeight : ℕ} {cutoff : ℤ} {chunks : List (MempoolChunk Hash)} {failed : ℕ}
    {selected : List (MempoolEntry Hash)}
    (hweight : (addSelected options selected).nBlockWeight ≤ nBlockMaxWeight)
    (heq : ∀ entry ∈ selected, entry.txWeight = entry.tx.weight)
    (hnodup : ((selected.map fun entry => hashing.txid entry.tx) ++
      chunks.flatMap fun chunk => chunk.txs.map fun entry => hashing.txid entry.tx).Nodup) :
    Selection hashing options nBlockMaxWeight
      (addChunks options nBlockMaxWeight nHeight cutoff chunks failed selected) := by
  induction chunks generalizing selected failed with
  | nil =>
    rw [flatMap_nil, append_nil] at hnodup
    exact ⟨hweight, heq, hnodup⟩
  | cons chunk chunks ih =>
    rw [flatMap_cons] at hnodup
    have hstop : Selection hashing options nBlockMaxWeight selected :=
      ⟨hweight, heq, (nodup_append.1 hnodup).1⟩
    unfold addChunks
    split
    · exact hstop
    · dsimp only
      split
      · next hfits =>
        have hlimit : (addSelected options selected).nBlockWeight + chunk.size <
            nBlockMaxWeight := (of_decide_eq_true hfits.1).1
        refine ih ?_ ?_ ?_
        · have hsize := chunk.size_ge
          rw [addSelected_append, (foldl_addToBlock ..).1]
          omega
        · exact forall_mem_append.2 ⟨heq, chunk.weight_eq⟩
        · rwa [map_append, append_assoc]
      · split
        · exact hstop
        · refine ih hweight heq ?_
          refine hnodup.sublist ?_
          exact List.Sublist.append_left (sublist_append_right _ _) _

lemma clampReservedWeight_bounds (w : Option ℕ) :
    2000 ≤ clampReservedWeight w ∧ clampReservedWeight w ≤ MAX_BLOCK_WEIGHT := by
  unfold clampReservedWeight MINIMUM_BLOCK_RESERVED_WEIGHT MAX_BLOCK_WEIGHT
  omega

lemma selectEntries_selection (view : MiningView Node Hash) (block_reserved_weight : Option ℕ)
    (script : CScript) (nBlockMaxWeight : ℕ) (builder : BlockBuilder view.rules.toHashing) :
    Selection view.rules.toHashing (cpuMinerOptions block_reserved_weight script) MAX_BLOCK_WEIGHT
      (selectEntries view (cpuMinerOptions block_reserved_weight script) nBlockMaxWeight
        builder) := by
  obtain ⟨-, hreserved⟩ := clampReservedWeight_bounds block_reserved_weight
  have hmax : clampBlockMaxWeight (clampReservedWeight block_reserved_weight) nBlockMaxWeight ≤
      MAX_BLOCK_WEIGHT := by
    unfold clampBlockMaxWeight
    omega
  have hselection : Selection view.rules.toHashing (cpuMinerOptions block_reserved_weight script)
      (clampBlockMaxWeight (clampReservedWeight block_reserved_weight) nBlockMaxWeight)
      (selectEntries view (cpuMinerOptions block_reserved_weight script) nBlockMaxWeight builder) :=
    addChunks_selection (le_max_left _ _) nofun builder.nodup
  exact ⟨hselection.weight_le.trans hmax, hselection.weight_eq, hselection.nodup⟩

end SlithyTove
