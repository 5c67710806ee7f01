import SlithyTove.Consensus.TxCheck

/-!
# Serialised sizes and weights

How many bytes transactions and blocks take on the wire, without witness data and with it, and the
weight consensus limits: three times the first plus the second (`consensus/validation.h`).
-/

namespace SlithyTove

variable {Hash : Type}

/-- `GetSizeOfCompactSize`. -/
def getSizeOfCompactSize (n : ℕ) : ℕ :=
  if n < 253 then 1 else if n ≤ 0xffff then 3 else if n ≤ 0xffffffff then 5 else 9

/-- A vector of bytes with its length. -/
def bytesSize (bytes : List UInt8) : ℕ := getSizeOfCompactSize bytes.length + bytes.length

/-- `CTxIn`: the outpoint, the script, the sequence number. -/
def CTxIn.size (txin : CTxIn Hash) : ℕ := 36 + bytesSize txin.scriptSig + 4

def CTxOut.size (txout : CTxOut) : ℕ := 8 + bytesSize txout.scriptPubKey

/-- The stack of a witness. -/
def witnessSize (stack : List (List UInt8)) : ℕ :=
  getSizeOfCompactSize stack.length + (stack.map bytesSize).sum

namespace CTransaction

variable (tx : CTransaction Hash)

/-- `GetSerializeSize(TX_NO_WITNESS(tx))`. -/
def baseSize : ℕ :=
  4 + (getSizeOfCompactSize tx.vin.length + (tx.vin.map CTxIn.size).sum) +
    (getSizeOfCompactSize tx.vout.length + (tx.vout.map CTxOut.size).sum) + 4

/-- `GetSerializeSize(TX_WITH_WITNESS(tx))`: with a marker, a flag and the stacks, if there is a
witness. -/
def totalSize : ℕ :=
  if tx.hasWitness then tx.baseSize + 2 +
    (tx.vin.map fun txin => witnessSize txin.scriptWitness).sum
  else tx.baseSize

/-- `GetTransactionWeight`. -/
def weight : ℕ :=
  tx.baseSize * (WITNESS_SCALE_FACTOR - 1) + tx.totalSize

lemma baseSize_le_totalSize : tx.baseSize ≤ tx.totalSize := by
  unfold totalSize
  split <;> omega

end CTransaction

namespace CBlock

/-- `GetSerializeSize(TX_NO_WITNESS(block))`. -/
def baseSize (block : CBlock Hash) : ℕ :=
  80 + getSizeOfCompactSize block.vtx.length + (block.vtx.map CTransaction.baseSize).sum

/-- `GetSerializeSize(TX_WITH_WITNESS(block))`. -/
def totalSize (block : CBlock Hash) : ℕ :=
  80 + getSizeOfCompactSize block.vtx.length + (block.vtx.map CTransaction.totalSize).sum

/-- `GetBlockWeight`. -/
def weight (block : CBlock Hash) : ℕ :=
  block.baseSize * (WITNESS_SCALE_FACTOR - 1) + block.totalSize

lemma weight_eq (block : CBlock Hash) :
    block.weight = 4 * (80 + getSizeOfCompactSize block.vtx.length) +
      (block.vtx.map CTransaction.weight).sum := by
  have hsum : (block.vtx.map CTransaction.weight).sum =
      3 * (block.vtx.map CTransaction.baseSize).sum +
        (block.vtx.map CTransaction.totalSize).sum := by
    induction block.vtx with
    | nil => rfl
    | cons tx vtx ih =>
      simp only [List.map_cons, List.sum_cons, ih, CTransaction.weight, WITNESS_SCALE_FACTOR]
      omega
  rw [hsum, weight, baseSize, totalSize, WITNESS_SCALE_FACTOR]
  omega

lemma baseSize_le_totalSize (block : CBlock Hash) : block.baseSize ≤ block.totalSize := by
  have hsum : (block.vtx.map CTransaction.baseSize).sum ≤
      (block.vtx.map CTransaction.totalSize).sum :=
    List.sum_le_sum fun tx _ => tx.baseSize_le_totalSize
  rw [baseSize, totalSize]
  omega

lemma baseSize_le_weight (block : CBlock Hash) :
    block.baseSize * WITNESS_SCALE_FACTOR ≤ block.weight := by
  have := block.baseSize_le_totalSize
  rw [weight, WITNESS_SCALE_FACTOR]
  omega

end CBlock

lemma bytesSize_of_lt {bytes : List UInt8} (h : bytes.length < 253) :
    bytesSize bytes = 1 + bytes.length := by
  rw [bytesSize, getSizeOfCompactSize, if_pos h]

end SlithyTove
