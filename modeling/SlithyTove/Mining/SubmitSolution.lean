import SlithyTove.Consensus.MerklePath

/-!
# Solutions of an outside miner

A client asks once for the path of the coinbase, hashes its own coinbases with it and works on the
header.  `submitSolution` (`node/interfaces.cpp`) writes the client's coinbase into the template and
hashes all transactions again.
-/

namespace SlithyTove

open Framework

variable {Hash : Type} [DecidableEq Hash] [Zero Hash] (hashing : Hashing Hash)
  (trees : WitnessHashing Hash)

/-- `TransactionMerklePath`. -/
def transactionMerklePath (block : CBlock Hash) (position : ℕ) : Option (List Hash) :=
  computeMerklePath trees.node (block.vtx.map hashing.txid) position

/-- `getCoinbaseMerklePath`, for the template's block. -/
def getCoinbaseMerklePath (block : CBlock Hash) : Option (List Hash) :=
  transactionMerklePath hashing trees block 0

/-- The arguments of `submitSolution`. -/
structure Solution (Hash : Type) where
  version : UInt32
  timestamp : UInt32
  nonce : UInt32
  coinbase : CTransaction Hash

/-- `AddMerkleRootAndCoinbase`: what `submitSolution` leaves in the template and processes. -/
def addMerkleRootAndCoinbase (block : CBlock Hash) (s : Solution Hash) : CBlock Hash :=
  let vtx := if block.vtx.length = 0 then [s.coinbase] else block.vtx.set 0 s.coinbase
  { block with
    vtx
    nVersion := s.version.toInt32
    nTime := s.timestamp
    nNonce := s.nonce
    hashMerkleRoot := (blockMerkleRoot hashing trees vtx).1 }

/-- The header a client makes of the template's, a path and a solution. -/
def clientHeader (header : CBlockHeader Hash) (path : List Hash) (s : Solution Hash) :
    CBlockHeader Hash :=
  { header with
    nVersion := s.version.toInt32
    hashMerkleRoot := foldPath trees.node 0 path (hashing.txid s.coinbase)
    nTime := s.timestamp
    nNonce := s.nonce }

lemma exists_firstPath (node : Hash → Hash → Hash) (rest : List Hash)
    (hn : rest.length + 1 ≤ 2 ^ 31) : ∃ path, ∀ first,
      computeMerklePath node (first :: rest) 0 = some path ∧
        foldPath node 0 path first = (merkleRoot node 0 (first :: rest)).1 := by
  let n := rest.length + 1
  refine ⟨siblings node ((0 :: rest).getD · 0) n 0 (Nat.clog 2 n), fun first => ?_⟩
  have hleaf : ∀ i, (h : i < (first :: rest).length) →
      (first :: rest).getD i 0 = (first :: rest)[i] := fun i => List.getD_eq_getElem _ 0
  have hsame : ∀ i > 0, (0 :: rest).getD i 0 = (first :: rest).getD i 0
    | i + 1, _ => rfl
  rw [siblings_first_congr node _ hsame]
  refine ⟨merkleComputation_eq node hn (Nat.succ_pos _) hleaf, ?_⟩
  rw [merkleRoot_eq node _ 0 (List.cons_ne_nil _ _) hleaf]
  have hfold := foldPath_siblings node ((first :: rest).getD · 0) n (Nat.succ_pos _) (Nat.clog 2 n)
  rwa [Nat.zero_div] at hfold

lemma vtx_addMerkleRootAndCoinbase (block : CBlock Hash) (s : Solution Hash) :
    (addMerkleRootAndCoinbase hashing trees block s).vtx = s.coinbase :: block.vtx.tail := by
  rcases block with ⟨_, _ | _⟩ <;> rfl

lemma submissions_keep (block : CBlock Hash) (earlier : List (Solution Hash)) :
    let block' := earlier.foldl (addMerkleRootAndCoinbase hashing trees) block
    block'.vtx.tail = block.vtx.tail ∧ block'.hashPrevBlock = block.hashPrevBlock ∧
      block'.nBits = block.nBits := by
  induction earlier generalizing block with
  | nil => exact ⟨rfl, rfl, rfl⟩
  | cons s earlier ih =>
    have hrest := ih (addMerkleRootAndCoinbase hashing trees block s)
    rwa [vtx_addMerkleRootAndCoinbase] at hrest

/-- **The block that is processed has the client's header**, made with the template and the path of
before all submissions, and the path stays the same. -/
theorem submitSolution_clientHeader (block : CBlock Hash) (hne : block.vtx ≠ [])
    (hn : block.vtx.length ≤ 2 ^ 31) :
    ∃ path, getCoinbaseMerklePath hashing trees block = some path ∧
      ∀ (earlier : List (Solution Hash)) (s : Solution Hash),
        let block' := addMerkleRootAndCoinbase hashing trees
          (earlier.foldl (addMerkleRootAndCoinbase hashing trees) block) s
        block'.toCBlockHeader = clientHeader hashing trees block.toCBlockHeader path s ∧
          block'.vtx = s.coinbase :: block.vtx.tail ∧
          getCoinbaseMerklePath hashing trees block' = some path := by
  have hvtx := (List.cons_head_tail hne).symm
  rw [hvtx] at hn
  obtain ⟨path, hfirst⟩ :=
    exists_firstPath trees.node (block.vtx.tail.map hashing.txid) (by rwa [List.length_map])
  have hpath : ∀ (block' : CBlock Hash) coinbase, block'.vtx = coinbase :: block.vtx.tail →
      getCoinbaseMerklePath hashing trees block' = some path := by
    intro block' coinbase h
    rw [getCoinbaseMerklePath, transactionMerklePath, h]
    exact (hfirst _).1
  refine ⟨path, hpath block _ hvtx, fun earlier s => ?_⟩
  intro block'
  obtain ⟨htail, hprev, hbits⟩ := submissions_keep hashing trees block earlier
  have hvtx' : block'.vtx = s.coinbase :: block.vtx.tail := by
    rw [vtx_addMerkleRootAndCoinbase, htail]
  have hroot : block'.hashMerkleRoot = foldPath trees.node 0 path (hashing.txid s.coinbase) :=
    (congrArg (fun vtx => (blockMerkleRoot hashing trees vtx).1) hvtx').trans (hfirst _).2.symm
  refine ⟨?_, hvtx', hpath block' _ hvtx'⟩
  rw [clientHeader, ← hroot, ← hprev, ← hbits]
  rfl

/-- A template of two transactions, whose ids are their lock times. -/
theorem submitSolution_clientHeader_two :
    let hashing : Hashing ℕ := ⟨fun tx => tx.nLockTime.toNat, fun _ => 0⟩
    let trees : WitnessHashing ℕ :=
      ⟨fun a b => 100 * a + b, fun _ => 0, fun _ _ => ⟨.replicate 32 0, rfl⟩⟩
    let block : CBlock ℕ := ⟨⟨4, 7, 0, 0, 0, 0⟩, [⟨2, [], [], 1⟩, ⟨2, [], [], 2⟩]⟩
    ∃ path, getCoinbaseMerklePath hashing trees block = some path ∧
      (addMerkleRootAndCoinbase hashing trees block ⟨4, 9, 5, ⟨2, [], [], 8⟩⟩).hashMerkleRoot =
        foldPath trees.node 0 path 8 := by
  intro hashing trees block
  obtain ⟨path, hpath, hsubmit⟩ :=
    submitSolution_clientHeader hashing trees block (by decide) (by decide)
  exact ⟨path, hpath, congrArg CBlockHeader.hashMerkleRoot (hsubmit [] _).1⟩

end SlithyTove
