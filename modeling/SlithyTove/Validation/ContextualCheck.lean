import SlithyTove.Framework.MerkleTree
import SlithyTove.Mining.Assembler
import SlithyTove.Pow.NextWork
import SlithyTove.Primitives.Weight

/-!
# Checks of a block against the chain it extends

`CheckMerkleRoot`, `CheckWitnessMalleation`, `ContextualCheckBlockHeader` and `ContextualCheckBlock`
(`validation.cpp`), for a block on top of a given entry of the block index.  Times are whole
seconds; the clock is an argument.  Which deployments are active after the tip is data
(`Deployments`), and so are the hashes of witness transactions, of pairs of nodes, and of a witness
root with the reserved value (`WitnessHashing`).
-/

namespace SlithyTove

open Framework

variable {Hash : Type} [DecidableEq Hash] [Zero Hash]

/-! ## Merkle roots -/

/-- The hash functions of the two trees and of the commitment. -/
structure WitnessHashing (Hash : Type) where
  /-- `SHA256D64` of one pair. -/
  node : Hash → Hash → Hash
  /-- `GetWitnessHash`. -/
  wtxid : CTransaction Hash → Hash
  /-- `CHash256` of the witness root and the reserved value. -/
  commitment : Hash → List UInt8 → { bytes : List UInt8 // bytes.length = 32 }

/-- `BlockMerkleRoot`, with the flag for repeated transactions. -/
def blockMerkleRoot (hashing : Hashing Hash) (trees : WitnessHashing Hash)
    (vtx : List (CTransaction Hash)) : Hash × Bool :=
  merkleRoot trees.node 0 (vtx.map hashing.txid)

/-- `BlockWitnessMerkleRoot`: the coinbase counts as zero. -/
def blockWitnessMerkleRoot (trees : WitnessHashing Hash) (vtx : List (CTransaction Hash)) : Hash :=
  (merkleRoot trees.node 0 (0 :: vtx.tail.map trees.wtxid)).1

/-- `CheckMerkleRoot`. -/
def checkMerkleRoot (hashing : Hashing Hash) (trees : WitnessHashing Hash) (block : CBlock Hash) :
    Except String Unit := do
  let (merkle_root, mutated) := blockMerkleRoot hashing trees block.vtx
  ensure (block.hashMerkleRoot = merkle_root) "bad-txnmrklroot"
  ensure (mutated = false) "bad-txns-duplicate"

/-! ## Witness commitments -/

/-- The outputs of a block's first transaction. -/
def coinbaseOuts (vtx : List (CTransaction Hash)) : List CTxOut :=
  (vtx.head?.map CTransaction.vout).getD []

/-- The first input of a block's first transaction. -/
def coinbaseIn (vtx : List (CTransaction Hash)) : Option (CTxIn Hash) :=
  vtx.head?.bind fun tx => tx.vin.head?

/-- The comparison of `CheckWitnessMalleation` with the commitment at index `commitpos`. -/
def checkCommitment (trees : WitnessHashing Hash) (vtx : List (CTransaction Hash))
    (commitpos : ℕ) : Except String Unit :=
  match (coinbaseIn vtx).map CTxIn.scriptWitness with
  | none => .error "!block.vtx.empty() && !block.vtx[0]->vin.empty()"
  | some [reserved] => do
      ensure (reserved.length = 32) "bad-witness-nonce-size"
      let script := ((coinbaseOuts vtx)[commitpos]?.map CTxOut.scriptPubKey).getD []
      ensure ((trees.commitment (blockWitnessMerkleRoot trees vtx) reserved).val =
        (script.drop 6).take 32) "bad-witness-merkle-match"
  | some _ => .error "bad-witness-nonce-size"

/-- The end of `CheckWitnessMalleation`: without a commitment no witness is allowed. -/
def checkNoWitness (vtx : List (CTransaction Hash)) : Except String Unit :=
  ensure (∀ tx ∈ vtx, tx.hasWitness = false) "unexpected-witness"

/-- `CheckWitnessMalleation`. -/
def checkWitnessMalleation (trees : WitnessHashing Hash) (expect_witness_commitment : Bool)
    (vtx : List (CTransaction Hash)) : Except String Unit :=
  if expect_witness_commitment then
    match getWitnessCommitmentIndex (coinbaseOuts vtx) with
    | some commitpos => checkCommitment trees vtx commitpos
    | none => checkNoWitness vtx
  else checkNoWitness vtx

/-! ## Finality -/

def LOCKTIME_THRESHOLD : ℕ := 500000000

def SEQUENCE_FINAL : UInt32 := 0xffffffff

/-- `IsFinalTx`. -/
def isFinalTx (tx : CTransaction Hash) (nBlockHeight : ℕ) (nBlockTime : ℤ) : Bool :=
  tx.nLockTime = 0 ∨
    (tx.nLockTime.toNat : ℤ) <
      (if tx.nLockTime.toNat < LOCKTIME_THRESHOLD then (nBlockHeight : ℤ) else nBlockTime) ∨
    ∀ txin ∈ tx.vin, txin.nSequence = SEQUENCE_FINAL

/-! ## The chain -/

/-- The deployments active after a block, among those the checks ask for. -/
structure Deployments where
  heightincb : Bool
  dersig : Bool
  cltv : Bool
  csv : Bool
  segwit : Bool
  deriving DecidableEq, Repr

section Chain

variable {Node : Type} (H : HeaderTree Node)

/-- The times of a block and of at most `n - 1` blocks before it. -/
def pastTimes : (n : ℕ) → Node → List ℤ
  | 0, _ => []
  | n + 1, pindex =>
    ((H.nTime pindex).toNat : ℤ) ::
      match H.parent pindex with
      | some pprev => pastTimes n pprev
      | none => []

/-- `nMedianTimeSpan`. -/
def nMedianTimeSpan : ℕ := 11

/-- `GetMedianTimePast`. -/
def getMedianTimePast (pindex : Node) : ℤ :=
  let times := (pastTimes H nMedianTimeSpan pindex).mergeSort
  times[times.length / 2]?.getD 0

def MAX_TIMEWARP : ℤ := 600

def MAX_FUTURE_BLOCK_TIME : ℤ := 7200

/-- `%08x`. -/
def hex08 (n : ℕ) : String :=
  let digits := Nat.toDigits 16 n
  String.ofList (List.replicate (8 - digits.length) '0' ++ digits)

/-- The deployments that ask for a version above the header's. -/
def outdatedVersion (nVersion : Int32) (active : Deployments) : Bool :=
  (nVersion < 2 ∧ active.heightincb) ∨ (nVersion < 3 ∧ active.dersig) ∨
    (nVersion < 4 ∧ active.cltv)

/-- `ContextualCheckBlockHeader` for a header on top of `pindexPrev`, at clock `now`. -/
def contextualCheckBlockHeader (params : Params) (active : Deployments) (pindexPrev : Node)
    (now : ℤ) (header : CBlockHeader Hash) : Except String Unit := do
  let nHeight : ℤ := H.depth pindexPrev + 1
  let time : ℤ := header.nTime.toNat
  let required ← getNextWorkRequired H params pindexPrev header.nTime
  ensure (header.nBits = required) "bad-diffbits"
  ensure (¬ time ≤ getMedianTimePast H pindexPrev) "time-too-old"
  whenever params.enforce_BIP94 do
    let interval ← params.difficultyAdjustmentInterval
    let r ← remInt64 nHeight interval
    ensure (¬ (r = 0 ∧ time < (H.nTime pindexPrev).toNat - MAX_TIMEWARP)) "time-timewarp-attack"
  ensure (¬ time > now + MAX_FUTURE_BLOCK_TIME) "time-too-new"
  ensure (¬ outdatedVersion header.nVersion active)
    ("bad-version(0x" ++ hex08 header.nVersion.toUInt32.toNat ++ ")")

/-- `ContextualCheckBlock` for a block on top of `pindexPrev`. -/
def contextualCheckBlock (trees : WitnessHashing Hash) (active : Deployments) (pindexPrev : Node)
    (block : CBlock Hash) : Except String Unit := do
  let nHeight := H.depth pindexPrev + 1
  let nLockTimeCutoff : ℤ :=
    if active.csv then getMedianTimePast H pindexPrev else block.nTime.toNat
  ensure (∀ tx ∈ block.vtx, isFinalTx tx nHeight nLockTimeCutoff) "bad-txns-nonfinal"
  whenever active.heightincb do
    let expect := scriptPushHeight nHeight
    let scriptSig := ((coinbaseIn block.vtx).map CTxIn.scriptSig).getD []
    ensure (scriptSig.take expect.length = expect) "bad-cb-height"
  checkWitnessMalleation trees active.segwit block.vtx
  ensure (block.weight ≤ MAX_BLOCK_WEIGHT) "bad-blk-weight"

variable {active : Deployments} {pindexPrev : Node} {params : Params}

omit [DecidableEq Hash] [Zero Hash] in
lemma contextualCheckBlockHeader_mono
    {now later : ℤ} {header : CBlockHeader Hash} (hle : now ≤ later)
    (h : contextualCheckBlockHeader H params active pindexPrev now header = .ok ()) :
    contextualCheckBlockHeader H params active pindexPrev later header = .ok () := by
  simp only [contextualCheckBlockHeader, bind_eq_ok, ensure_eq_ok] at h ⊢
  obtain ⟨bits, hbits, u1, h1, u2, h2, u3, h3, u4, h4, h5⟩ := h
  exact ⟨bits, hbits, u1, h1, u2, h2, u3, h3, u4, by omega, h5⟩

omit [DecidableEq Hash] [Zero Hash] in
lemma contextualCheckBlockHeader_congr {now : ℤ} {header header' : CBlockHeader Hash}
    (htime : header'.nTime = header.nTime) (hbits : header'.nBits = header.nBits)
    (hversion : header'.nVersion = header.nVersion) :
    contextualCheckBlockHeader H params active pindexPrev now header' =
      contextualCheckBlockHeader H params active pindexPrev now header := by
  simp only [contextualCheckBlockHeader, htime, hbits, hversion]

end Chain

end SlithyTove
