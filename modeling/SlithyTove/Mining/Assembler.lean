import SlithyTove.Validation.ConnectBlock

/-!
# Block templates

`BlockAssembler::CreateNewBlock` (`node/miner.cpp`): the transactions the mempool selects are
added one by one, then the coinbase is built from the accumulated fees, the subsidy and the
treasury share, a witness commitment is appended, and a second description of the coinbase, the
`CoinbaseTx` of the mining interface, is filled in alongside.

The order in which the mempool offers its transactions is not modelled: `selected` is any list of
entries, handed to `AddToBlock` in turn.  Version, time and target of the header come from
outside (`TemplateContext`), as do the witness merkle root and the contextual checks; the
validity test at the end runs the modelled `CheckBlock` and `ConnectBlock`.
-/

namespace SlithyTove

open Framework

variable {Hash : Type} [DecidableEq Hash] [Zero Hash]

/-! ## Witness commitments -/

/-- The length of a witness commitment script. -/
def MINIMUM_WITNESS_COMMITMENT : ℕ := 38

/-- The first bytes of a witness commitment: `OP_RETURN`, a push of 36 bytes, the tag. -/
def commitmentHeader : List UInt8 := [OP_RETURN, 0x24, 0xaa, 0x21, 0xa9, 0xed]

/-- The test of `GetWitnessCommitmentIndex` on one output script. -/
def isWitnessCommitment (script : CScript) : Bool :=
  script.length ≥ MINIMUM_WITNESS_COMMITMENT ∧ script.take 6 = commitmentHeader

/-- `GetWitnessCommitmentIndex` on the coinbase outputs: the last match, or none. -/
def getWitnessCommitmentIndex (vout : List CTxOut) : Option ℕ :=
  vout.zipIdx.foldl
    (fun commitpos (out, o) => if isWitnessCommitment out.scriptPubKey then some o else commitpos)
    none

/-! ## Data -/

/-- A mempool entry, as far as the assembler reads it. -/
structure MempoolEntry (Hash : Type) where
  tx : CTransaction Hash
  fee : ℤ
  sigOpCost : ℕ
  txWeight : ℕ

/-- `BlockAssembler::Options`, restricted to what shapes the coinbase and the counters. -/
structure AssemblerOptions where
  block_reserved_weight : ℕ := 8000
  coinbase_output_max_additional_sigops : ℕ := 400
  /-- The default pays anyone: `OP_TRUE`. -/
  coinbase_output_script : CScript := [0x51]
  include_dummy_extranonce : Bool := false
  test_block_validity : Bool := true

/-- `node::CoinbaseTx`: the coinbase fields a mining client needs to build its own. -/
structure CoinbaseTx where
  version : UInt32
  sequence : UInt32
  script_sig_prefix : CScript
  witness : Option (List UInt8)
  block_reward_remaining : ℤ
  required_outputs : List CTxOut
  lock_time : UInt32

/-- `CBlockTemplate`. -/
structure CBlockTemplate (Hash : Type) where
  block : CBlock Hash
  vTxFees : List ℤ
  vTxSigOpsCost : List ℕ
  m_coinbase_tx : CoinbaseTx

/-- What `CreateNewBlock` takes from the rest of the node. -/
structure TemplateContext (Hash : Type) where
  rules : ConsensusRules Hash
  /-- The chain tip. -/
  tip : IndexEntry Hash
  /-- `CoinsTip()`. -/
  coinsTip : CoinsView Hash
  /-- The hash of `tip->GetAncestor(BIP34Height)`. -/
  bip34Ancestor : Option Hash
  /-- `DeploymentActiveAfter(tip, DEPLOYMENT_SEGWIT)`. -/
  segwitActive : Bool
  nVersion : Int32
  nTime : UInt32
  nBits : UInt32
  /-- The double hash of the witness merkle root and 32 zero bytes. -/
  witnessHash : List (CTransaction Hash) → { bytes : List UInt8 // bytes.length = 32 }
  /-- `ContextualCheckBlockHeader` and `ContextualCheckBlock`. -/
  contextualChecks : CBlock Hash → Except String Unit

/-! ## Selecting transactions -/

/-- The counters of a `BlockAssembler` and the lists of the template under construction. -/
structure AssemblerState (Hash : Type) where
  vtx : List (CTransaction Hash)
  vTxFees : List ℤ
  vTxSigOpsCost : List ℕ
  nBlockWeight : ℕ
  nBlockTx : ℕ
  nBlockSigOpsCost : ℕ
  nFees : ℤ

/-- `resetBlock`. -/
def resetBlock (options : AssemblerOptions) : AssemblerState Hash where
  vtx := []
  vTxFees := []
  vTxSigOpsCost := []
  nBlockWeight := options.block_reserved_weight
  nBlockTx := 0
  nBlockSigOpsCost := options.coinbase_output_max_additional_sigops
  nFees := 0

/-- `AddToBlock`. -/
def addToBlock (s : AssemblerState Hash) (entry : MempoolEntry Hash) : AssemblerState Hash where
  vtx := s.vtx ++ [entry.tx]
  vTxFees := s.vTxFees ++ [entry.fee]
  vTxSigOpsCost := s.vTxSigOpsCost ++ [entry.sigOpCost]
  nBlockWeight := s.nBlockWeight + entry.txWeight
  nBlockTx := s.nBlockTx + 1
  nBlockSigOpsCost := s.nBlockSigOpsCost + entry.sigOpCost
  nFees := s.nFees + entry.fee

/-- The state once every selected entry has been added. -/
def addSelected (options : AssemblerOptions) (selected : List (MempoolEntry Hash)) :
    AssemblerState Hash :=
  selected.foldl addToBlock (resetBlock options)

/-! ## The coinbase -/

/-- The bytes of a positive number, least significant first, for at most `fuel` bytes. -/
def scriptNumBytes : (fuel : ℕ) → ℕ → List UInt8
  | 0, _ => []
  | fuel + 1, n => if n = 0 then [] else (n % 256).toUInt8 :: scriptNumBytes fuel (n / 256)

/-- `CScriptNum::serialize` of a non-negative number: a leading byte keeps the sign clear. -/
def scriptNumSerialize (n : ℕ) : List UInt8 :=
  let result := scriptNumBytes 8 n
  if (result.getLast?.getD 0) &&& 0x80 ≠ 0 then result ++ [0] else result

/-- `CScript() << nHeight`. -/
def scriptPushHeight (nHeight : ℕ) : CScript :=
  if 1 ≤ nHeight ∧ nHeight ≤ 16 then [(0x50 + nHeight).toUInt8]
  else if nHeight = 0 then [0x00]
  else
    let bytes := scriptNumSerialize nHeight
    bytes.length.toUInt8 :: bytes

/-- The treasury output of a coinbase at a height, as `CreateNewBlock` computes it. -/
def treasuryReward (params : Params) (nHeight : ℕ) : ℤ :=
  if params.treasury_script_pub_key = [] then 0 else treasuryShare nHeight params

/-- The outputs the coinbase starts with: the miner's, and the treasury's if it is positive. -/
def coinbaseOutputs (params : Params) (script : CScript) (nHeight : ℕ) (nFees : ℤ) :
    List CTxOut :=
  let treasury_reward := treasuryReward params nHeight
  let miner_reward := nFees + getBlockSubsidy nHeight params - treasury_reward
  ⟨miner_reward, script⟩ ::
    if treasury_reward > 0 then [⟨treasury_reward, params.treasury_script_pub_key⟩] else []

/-- `CTxIn::MAX_SEQUENCE_NONFINAL`. -/
def MAX_SEQUENCE_NONFINAL : UInt32 := 0xfffffffe

/-- The start of the coinbase script: the height, and on request a dummy extra nonce. -/
def coinbaseScriptSig (options : AssemblerOptions) (nHeight : ℕ) : CScript :=
  scriptPushHeight nHeight ++ if options.include_dummy_extranonce then [0x00] else []

/-- The coinbase before the commitment is added. -/
def coinbaseTx (params : Params) (options : AssemblerOptions) (nHeight : ℕ) (nFees : ℤ) :
    CTransaction Hash where
  version := 2
  vin := [{
    prevout := .null
    scriptSig := coinbaseScriptSig options nHeight
    nSequence := MAX_SEQUENCE_NONFINAL
    scriptWitness := [] }]
  vout := coinbaseOutputs params options.coinbase_output_script nHeight nFees
  nLockTime := (nHeight - 1).toUInt32

variable (ctx : TemplateContext Hash)

/-- `UpdateUncommittedBlockStructures` on the coinbase: a committed block gets the witness
reserved value. -/
def updateUncommitted (tx : CTransaction Hash) : CTransaction Hash :=
  if (getWitnessCommitmentIndex tx.vout).isSome ∧ ctx.segwitActive ∧ ¬ tx.hasWitness then
    { tx with vin := tx.vin.modifyHead fun txin =>
        { txin with scriptWitness := [List.replicate 32 0] } }
  else tx

/-- The commitment script of a block with the given transactions. -/
def commitmentScript (vtx : List (CTransaction Hash)) : CScript :=
  commitmentHeader ++ (ctx.witnessHash vtx).val

/-- `GenerateCoinbaseCommitment` on the coinbase of a block with the other transactions `rest`: a
zero-value commitment is appended unless an output already is one. -/
def generateCoinbaseCommitment (tx : CTransaction Hash) (rest : List (CTransaction Hash)) :
    CTransaction Hash :=
  updateUncommitted ctx <|
    match getWitnessCommitmentIndex tx.vout with
    | none => { tx with vout := tx.vout ++ [⟨0, commitmentScript ctx (tx :: rest)⟩] }
    | some _ => tx

/-! ## `CreateNewBlock` -/

/-- The witness field of the `CoinbaseTx`, with its assertion. -/
def coinbaseWitness (tx : CTransaction Hash) : Except String (Option (List UInt8)) :=
  if tx.hasWitness then
    match tx.vin.head?.map CTxIn.scriptWitness with
    | some [witness] =>
      if witness.length = 32 then .ok (some witness)
      else .error "witness_stack.size() == 1 && witness_stack[0].size() == 32"
    | _ => .error "witness_stack.size() == 1 && witness_stack[0].size() == 32"
  else .ok none

/-- The required outputs of the `CoinbaseTx`: the commitment, looked up in the final coinbase. -/
def requiredOutputs (vout : List CTxOut) : Except String (List CTxOut) :=
  match getWitnessCommitmentIndex vout with
  | none => .ok []
  | some witness_index =>
    match vout[witness_index]? with
    | some out => .ok [out]
    | none => .error "witness_index < final_coinbase->vout.size()"

/-- `CreateNewBlock` up to the validity test. -/
def buildTemplate (options : AssemblerOptions) (selected : List (MempoolEntry Hash)) :
    Except String (CBlockTemplate Hash) := do
  let nHeight := ctx.tip.nHeight + 1
  let s := addSelected options selected
  let coinbase := generateCoinbaseCommitment ctx
    (coinbaseTx ctx.rules.params options nHeight s.nFees) s.vtx
  let witness ← coinbaseWitness coinbase
  let required_outputs ← requiredOutputs coinbase.vout
  return {
    block := {
      nVersion := ctx.nVersion
      hashPrevBlock := ctx.tip.hash
      hashMerkleRoot := 0
      nTime := ctx.nTime
      nBits := ctx.nBits
      nNonce := 0
      vtx := coinbase :: s.vtx }
    vTxFees := s.vTxFees
    vTxSigOpsCost := s.vTxSigOpsCost
    m_coinbase_tx := {
      version := coinbase.version
      sequence := MAX_SEQUENCE_NONFINAL
      script_sig_prefix := coinbaseScriptSig options nHeight
      witness
      block_reward_remaining := s.nFees + getBlockSubsidy nHeight ctx.rules.params
      required_outputs
      lock_time := coinbase.nLockTime } }

/-- `TestBlockValidity` of a block on the tip, without proof of work and merkle root. -/
def testBlockValidity (block : CBlock Hash) : Except String Unit := do
  ensure (block.hashPrevBlock = ctx.tip.hash) "inconclusive-not-best-prevblk"
  checkBlock ctx.rules block false false
  ctx.contextualChecks block
  let index_dummy : IndexEntry Hash := {
    hash := ctx.rules.ofBlock block
    pprev := some ctx.tip.hash
    nHeight := ctx.tip.nHeight + 1
    bip34Ancestor := ctx.bip34Ancestor }
  let _ ← connectBlock ctx.rules block index_dummy true ctx.coinsTip

/-- `CreateNewBlock`. -/
def createNewBlock (options : AssemblerOptions) (selected : List (MempoolEntry Hash)) :
    Except String (CBlockTemplate Hash) := do
  let t ← buildTemplate ctx options selected
  whenever options.test_block_validity (testBlockValidity ctx t.block)
  return t

end SlithyTove
