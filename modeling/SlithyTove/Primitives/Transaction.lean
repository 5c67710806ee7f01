import SlithyTove.Consensus.Params

/-!
# Transactions and blocks

The data of `primitives/transaction.h` and `primitives/block.h`.  Hashes are an arbitrary type
with a null element `0`: a transaction's and a header's hash are given by a `Hashing`, and what
a result needs of them (that distinct transactions have distinct txids) is a hypothesis of that
result.  Amounts (`CAmount`) are exact
integers; an outpoint's index has no upper bound, and the null index
is the largest `uint32_t`.
-/

namespace SlithyTove

variable {Hash : Type}

/-- `COutPoint`: an output of a transaction. -/
structure COutPoint (Hash : Type) where
  hash : Hash
  n : ℕ
  deriving DecidableEq

/-- `COutPoint::NULL_INDEX`. -/
def NULL_INDEX : ℕ := 0xffffffff

/-- The null outpoint, which only a coinbase input names. -/
def COutPoint.null [Zero Hash] : COutPoint Hash := ⟨0, NULL_INDEX⟩

/-- `CTxIn`. -/
structure CTxIn (Hash : Type) where
  prevout : COutPoint Hash
  scriptSig : CScript
  nSequence : UInt32
  scriptWitness : List (List UInt8)
  deriving DecidableEq

/-- `CTxOut`. -/
structure CTxOut where
  nValue : ℤ
  scriptPubKey : CScript
  deriving DecidableEq

/-- `CTransaction`. -/
structure CTransaction (Hash : Type) where
  version : UInt32
  vin : List (CTxIn Hash)
  vout : List CTxOut
  nLockTime : UInt32
  deriving DecidableEq

namespace CTransaction

/-- The transaction as it is hashed for its txid: without witness data. -/
def stripWitness (tx : CTransaction Hash) : CTransaction Hash :=
  { tx with vin := tx.vin.map fun txin => { txin with scriptWitness := [] } }

/-- `IsCoinBase()`: one input, naming the null outpoint. -/
def isCoinBase [DecidableEq Hash] [Zero Hash] (tx : CTransaction Hash) : Bool :=
  match tx.vin with
  | [txin] => txin.prevout = .null
  | _ => false

/-- `HasWitness()`. -/
def hasWitness (tx : CTransaction Hash) : Bool :=
  tx.vin.any fun txin => txin.scriptWitness ≠ []

end CTransaction

/-- `CBlockHeader`. -/
structure CBlockHeader (Hash : Type) where
  nVersion : Int32
  hashPrevBlock : Hash
  hashMerkleRoot : Hash
  nTime : UInt32
  nBits : UInt32
  nNonce : UInt32
  deriving DecidableEq

/-- `CBlock`. -/
structure CBlock (Hash : Type) extends CBlockHeader Hash where
  vtx : List (CTransaction Hash)
  deriving DecidableEq

/-- The hash functions: `CTransaction::GetHash` and `CBlockHeader::GetHash`. -/
structure Hashing (Hash : Type) where
  txid : CTransaction Hash → Hash
  blockHash : CBlockHeader Hash → Hash

namespace Hashing

variable (hashing : Hashing Hash)

/-- The block's hash is its header's. -/
abbrev ofBlock (block : CBlock Hash) : Hash := hashing.blockHash block.toCBlockHeader

/-- Among the given transactions, equal txids mean equal transactions up to witness data. -/
def DistinctTxids (txs : List (CTransaction Hash)) : Prop :=
  ∀ tx ∈ txs, ∀ tx' ∈ txs, hashing.txid tx = hashing.txid tx' →
    tx.stripWitness = tx'.stripWitness

end Hashing

end SlithyTove
