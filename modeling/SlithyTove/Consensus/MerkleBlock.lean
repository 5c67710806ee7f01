import SlithyTove.Consensus.MerklePath
import SlithyTove.Primitives.Serialize

/-!
# Partial Merkle trees

A `CPartialMerkleTree` (`merkleblock.cpp`) shows that some transactions are in a block.  It is the
tree of the block without the parts that have nothing to show: going through the tree depth first, a
bit for each node says whether a shown transaction is below it, and where none is, or at a leaf, the
hash of the node stands for all that is below it.

`TraverseAndBuild` makes the bits and the hashes from the transaction ids, and `TraverseAndExtract`
uses them up again on the same way through the tree.  Indices that are out of range give `none`, as
does a loop that does not end.
-/

namespace SlithyTove

open Framework

/-- `MIN_TRANSACTION_WEIGHT`. -/
def MIN_TRANSACTION_WEIGHT : ℕ := WITNESS_SCALE_FACTOR * 60

/-- `CPartialMerkleTree`. -/
structure CPartialMerkleTree (Hash : Type) where
  nTransactions : ℕ
  vBits : List Bool
  vHash : List Hash
  fBad : Bool
  deriving DecidableEq

namespace CPartialMerkleTree

/-- `CalcTreeWidth`, in 32 bits. -/
def calcTreeWidth (nTransactions height : ℕ) : ℕ :=
  (nTransactions + 2 ^ height - 1) % 2 ^ 32 / 2 ^ height

/-- The loop for the height; shifting ends at 32. -/
def calcHeight (nTransactions : ℕ) : (left nHeight : ℕ) → Option ℕ
  | 0, _ => none
  | left + 1, nHeight =>
    if calcTreeWidth nTransactions nHeight > 1 then calcHeight nTransactions left (nHeight + 1)
    else some nHeight

variable {Hash : Type} [Zero Hash]

/-! ## Building -/

section Build

variable (node : Hash → Hash → Hash) (nTransactions : ℕ) (vTxid : List Hash) (vMatch : List Bool)

/-- `CalcHash`. -/
def calcHash : (height pos : ℕ) → Hash
  | 0, pos => vTxid.getD pos 0
  | height + 1, pos =>
    let left := calcHash height (pos * 2)
    let right :=
      if pos * 2 + 1 < calcTreeWidth nTransactions height then calcHash height (pos * 2 + 1)
      else left
    node left right

/-- The leaves below a node. -/
def leavesBelow (height pos : ℕ) : List ℕ :=
  List.range' (pos * 2 ^ height) (min ((pos + 1) * 2 ^ height) nTransactions - pos * 2 ^ height)

/-- The loop of `TraverseAndBuild`: a matched leaf is below the node. -/
def parentOfMatch (height pos : ℕ) : Bool :=
  (leavesBelow nTransactions height pos).any fun p => vMatch.getD p false

/-- `TraverseAndBuild`. -/
def traverseAndBuild : (height pos : ℕ) → List Bool × List Hash → List Bool × List Hash
  | 0, pos, (vBits, vHash) =>
    (vBits ++ [parentOfMatch nTransactions vMatch 0 pos],
      vHash ++ [calcHash node nTransactions vTxid 0 pos])
  | height + 1, pos, (vBits, vHash) =>
    let fParentOfMatch := parentOfMatch nTransactions vMatch (height + 1) pos
    if fParentOfMatch then
      let s := traverseAndBuild height (pos * 2) (vBits ++ [fParentOfMatch], vHash)
      if pos * 2 + 1 < calcTreeWidth nTransactions height then
        traverseAndBuild height (pos * 2 + 1) s
      else s
    else
      (vBits ++ [fParentOfMatch], vHash ++ [calcHash node nTransactions vTxid (height + 1) pos])

end Build

/-- The constructor from transaction ids and a mask. -/
def build (node : Hash → Hash → Hash) (vTxid : List Hash) (vMatch : List Bool) :
    Option (CPartialMerkleTree Hash) := do
  let nTransactions := vTxid.length
  let nHeight ← calcHeight nTransactions 32 0
  let s := traverseAndBuild node nTransactions vTxid vMatch nHeight 0 ([], [])
  return { nTransactions, vBits := s.1, vHash := s.2, fBad := false }

/-! ## Extracting -/

/-- The variables of `ExtractMatches`. -/
structure Extraction (Hash : Type) where
  nBitsUsed : ℕ
  nHashUsed : ℕ
  vMatch : List Hash
  vnIndex : List ℕ
  fBad : Bool

/-- A hash is used up; at a leaf with its bit set it is a match. -/
def takeHash (t : CPartialMerkleTree Hash) (matched : Bool) (pos : ℕ) (s : Extraction Hash) :
    Option (Hash × Extraction Hash) :=
  if s.nHashUsed ≥ t.vHash.length then some (0, { s with fBad := true })
  else do
    let hash ← t.vHash[s.nHashUsed]?
    return (hash, { s with
      nHashUsed := s.nHashUsed + 1
      vMatch := if matched then s.vMatch ++ [hash] else s.vMatch
      vnIndex := if matched then s.vnIndex ++ [pos] else s.vnIndex })

/-- `TraverseAndExtract`. -/
def traverseAndExtract [DecidableEq Hash] (node : Hash → Hash → Hash)
    (t : CPartialMerkleTree Hash) :
    (height pos : ℕ) → Extraction Hash → Option (Hash × Extraction Hash)
  | 0, pos, s =>
    if s.nBitsUsed ≥ t.vBits.length then some (0, { s with fBad := true })
    else do
      let fParentOfMatch ← t.vBits[s.nBitsUsed]?
      t.takeHash fParentOfMatch pos { s with nBitsUsed := s.nBitsUsed + 1 }
  | height + 1, pos, s =>
    if s.nBitsUsed ≥ t.vBits.length then some (0, { s with fBad := true })
    else do
      let fParentOfMatch ← t.vBits[s.nBitsUsed]?
      let s := { s with nBitsUsed := s.nBitsUsed + 1 }
      if fParentOfMatch then
        let (left, s) ← traverseAndExtract node t height (pos * 2) s
        if pos * 2 + 1 < calcTreeWidth t.nTransactions height then
          let (right, s) ← traverseAndExtract node t height (pos * 2 + 1) s
          return (node left right, { s with fBad := s.fBad || right = left })
        else return (node left left, s)
      else t.takeHash false pos s

/-- `ExtractMatches`, with the vectors it leaves in `vMatch` and `vnIndex`.  The first is cleared at
the beginning, the second is not. -/
def extractMatches [DecidableEq Hash] (node : Hash → Hash → Hash) (t : CPartialMerkleTree Hash)
    (vnIndex : List ℕ) : Option (Hash × List Hash × List ℕ) :=
  if t.nTransactions = 0 then some (0, [], vnIndex)
  else if t.nTransactions > MAX_BLOCK_WEIGHT / MIN_TRANSACTION_WEIGHT then some (0, [], vnIndex)
  else if t.vHash.length > t.nTransactions then some (0, [], vnIndex)
  else if t.vBits.length < t.vHash.length then some (0, [], vnIndex)
  else do
    let nHeight ← calcHeight t.nTransactions 32 0
    let (hashMerkleRoot, s) ← t.traverseAndExtract node nHeight 0
      { nBitsUsed := 0, nHashUsed := 0, vMatch := [], vnIndex, fBad := t.fBad }
    let good := !s.fBad && (s.nBitsUsed + 7) / 8 = (t.vBits.length + 7) / 8 &&
      s.nHashUsed = t.vHash.length
    return (if good then hashMerkleRoot else 0, s.vMatch, s.vnIndex)

/-! ## Serialization -/

/-- Eight bits from a position on, the first the least significant. -/
def packByte (bits : List Bool) (p : ℕ) : UInt8 :=
  (List.range 8).foldl
    (fun byte k => byte ||| (if bits.getD (p + k) false then 1 else 0) <<< k.toUInt8) 0

/-- `BitsToBytes`. -/
def bitsToBytes (bits : List Bool) : List UInt8 :=
  (List.range ((bits.length + 7) / 8)).map fun i => packByte bits (8 * i)

/-- `BytesToBits`. -/
def bytesToBits (bytes : List UInt8) : List Bool :=
  (List.range (bytes.length * 8)).map fun p =>
    bytes.getD (p / 8) 0 &&& 1 <<< (p % 8).toUInt8 ≠ 0

end CPartialMerkleTree

/-- Hashes as 32 bytes. -/
structure HashFormat (Hash : Type) where
  write : Hash → List UInt8
  read : List UInt8 → Hash
  length_write : ∀ hash, (write hash).length = 32
  read_write : ∀ hash, read (write hash) = hash

namespace CPartialMerkleTree

variable {Hash : Type} (format : HashFormat Hash)

/-- A hash from the stream. -/
def readHash : StreamReader Hash := format.read <$> readSymbols END_OF_DATA 32

/-- Writing with `SERIALIZE_METHODS`. -/
def serialize (t : CPartialMerkleTree Hash) : List UInt8 :=
  serWriteData 4 t.nTransactions ++ (writeVector format.write t.vHash ++
    writeBytes (bitsToBytes t.vBits))

/-- Reading with `SERIALIZE_METHODS`. -/
def unserialize : StreamReader (CPartialMerkleTree Hash) := do
  let nTransactions ← serReadData 4
  let vHash ← readVector (readHash format)
  let bytes ← readBytes
  return { nTransactions, vBits := bytesToBits bytes, vHash, fBad := false }

end CPartialMerkleTree

end SlithyTove
