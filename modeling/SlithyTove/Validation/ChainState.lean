import SlithyTove.Chain.BlockIndex
import SlithyTove.Framework.Checked
import Mathlib.Data.List.MinMax
import Mathlib.Data.Prod.Lex

/-!
# Blocks, candidates and the active chain

Which chain a node follows is decided over the block index alone.  Every entry says whether the
block's data was received, whether the data of all its ancestors was (`m_chain_tx_count`), and
whether the block is known to be invalid; `setBlockIndexCandidates` holds blocks that could become
the tip, ordered by `CBlockIndexWorkComparator`: more work first, then data completed earlier.

`Blocks` is what is fixed about the blocks, including whether `ConnectBlock` accepts a block on top
of its parent.  `ChainState` is what changes, and this module has the two ways in which the outside
changes it: a header is added to the index (`AddToBlockIndex`) or the data of a block arrives
(`ReceivedBlockTransactions`), in any order.

Sequence numbers are natural numbers here and `int32_t`s in the code.  They count up by one when a
block is linked, so they fit as long as fewer than `2^31 - 2` blocks are linked.
-/

namespace SlithyTove

open Framework

/-! ## Blocks -/

/-- The blocks that may turn up, with everything about them that does not change. -/
structure Blocks (Node : Type) extends BlockTree Node where
  genesis : Node
  genesis_root : parent genesis = none
  nChainWork : Node → ℕ
  /-- Every header proves some work. -/
  nChainWork_child : ∀ x p, parent x = some p → nChainWork p < nChainWork x
  nTx : Node → ℕ
  nTx_pos : ∀ x, 0 < nTx x
  /-- The address of the index entry, the last tie breaker of the comparator. -/
  address : Node → ℕ
  address_injective : Function.Injective address
  /-- Whether `ConnectBlock` accepts the block on top of its parent. -/
  connects : Node → Bool

/-- The failures of the modelled functions: their assertions, and a block that cannot be read. -/
inductive ChainError
  /-- `FindMostWorkChain`: `pindexTest->HaveNumChainTxs() || pindexTest->nHeight == 0`. -/
  | haveNumChainTxs
  /-- `PruneBlockIndexCandidates`: `!setBlockIndexCandidates.empty()`. -/
  | candidatesEmpty
  /-- `InvalidChainFound`: `tip`. -/
  | noTip
  /-- `ConnectTip`: `pindexNew->pprev == m_chain.Tip()`. -/
  | notOnTip
  /-- `DisconnectTip`: `pindexDelete->pprev`. -/
  | disconnectGenesis
  /-- `ConnectTip`, `DisconnectTip`: the block cannot be read. -/
  | readBlock
  | nullPointer
  | outOfFuel
  deriving DecidableEq

/-! ## The state -/

/-- `SEQ_ID_INIT_FROM_DISK`. -/
def SEQ_ID_INIT_FROM_DISK : ℕ := 1

/-- The block index, the candidates and the active chain, which is determined by its tip. -/
structure ChainState (Node : Type) where
  m_block_index : List Node
  /-- `BLOCK_HAVE_DATA`. -/
  haveData : Node → Bool
  /-- `BLOCK_FAILED_VALID`. -/
  failedValid : Node → Bool
  m_chain_tx_count : Node → ℕ
  nSequenceId : Node → ℕ
  nBlockSequenceId : ℕ
  m_blocks_unlinked : List (Node × Node)
  setBlockIndexCandidates : List Node
  /-- `m_chain.Tip()`. -/
  tip : Option Node

namespace ChainState

variable {Node : Type}

/-- Before anything is loaded. -/
def init : ChainState Node where
  m_block_index := []
  haveData _ := false
  failedValid _ := false
  m_chain_tx_count _ := 0
  nSequenceId _ := SEQ_ID_INIT_FROM_DISK
  nBlockSequenceId := SEQ_ID_INIT_FROM_DISK + 1
  m_blocks_unlinked := []
  setBlockIndexCandidates := []
  tip := none

/-- `HaveNumChainTxs`. -/
def haveNumChainTxs (s : ChainState Node) (n : Node) : Bool := s.m_chain_tx_count n ≠ 0

end ChainState

variable {Node : Type} [DecidableEq Node] (B : Blocks Node)

/-- `GetAncestor`, as the walk by `pprev` links that it amounts to (`ancestor_eq_getAncestor`). -/
def Blocks.ancestor (x : Node) (height : ℕ) : Option Node := B.atDepth x height

omit [DecidableEq Node] in
lemma Blocks.ancestor_eq_some_iff {x a : Node} {height : ℕ} :
    B.ancestor x height = some a ↔ B.IsAncestor a x ∧ B.depth a = height :=
  Forest.atDepth_eq_some_iff

variable (s : ChainState Node)

/-- `m_chain.Contains`. -/
def ChainState.contains (n : Node) : Bool :=
  s.tip.any fun t => B.ancestor t (B.depth n) = some n

lemma ChainState.contains_iff {s : ChainState Node} {n : Node} :
    s.contains B n = true ↔ ∃ t, s.tip = some t ∧ B.IsAncestor n t := by
  cases ht : s.tip with
  | none => simp [contains, ht]
  | some t => simp [contains, ht, B.ancestor_eq_some_iff]

/-! ## The order of the candidates -/

/-- `CBlockIndexWorkComparator`: whether `pa` is worse than `pb`. -/
def workComparator (pa pb : Node) : Bool :=
  if B.nChainWork pa > B.nChainWork pb then false
  else if B.nChainWork pa < B.nChainWork pb then true
  else if s.nSequenceId pa < s.nSequenceId pb then false
  else if s.nSequenceId pa > s.nSequenceId pb then true
  else if B.address pa < B.address pb then false
  else if B.address pa > B.address pb then true
  else false

/-- What the comparator compares. -/
def sortKey (n : Node) : ℕ ×ₗ ℕᵒᵈ ×ₗ ℕᵒᵈ :=
  toLex (B.nChainWork n, toLex (OrderDual.toDual (s.nSequenceId n), OrderDual.toDual (B.address n)))

section

omit [DecidableEq Node]

lemma sortKey_lt_iff {s : ChainState Node} {pa pb : Node} :
    sortKey B s pa < sortKey B s pb ↔ B.nChainWork pa < B.nChainWork pb ∨
      (B.nChainWork pa = B.nChainWork pb ∧ (s.nSequenceId pb < s.nSequenceId pa ∨
        (s.nSequenceId pa = s.nSequenceId pb ∧ B.address pb < B.address pa))) := by
  simp [sortKey, Prod.Lex.toLex_lt_toLex]

lemma workComparator_iff {s : ChainState Node} {pa pb : Node} :
    workComparator B s pa pb = true ↔ sortKey B s pa < sortKey B s pb := by
  rw [sortKey_lt_iff, workComparator]
  split_ifs <;> simp <;> omega

lemma sortKey_injective : Function.Injective (sortKey B s) := by
  intro pa pb h
  simp only [sortKey, EmbeddingLike.apply_eq_iff_eq, Prod.mk.injEq] at h
  exact B.address_injective h.2.2

end

/-- `*setBlockIndexCandidates.rbegin()`. -/
def bestCandidate : Option Node :=
  s.setBlockIndexCandidates.argmax (sortKey B s)

/-- `setBlockIndexCandidates.insert`. -/
def ChainState.insertCandidate (n : Node) : ChainState Node :=
  { s with setBlockIndexCandidates := s.setBlockIndexCandidates.insert n }

/-- `setBlockIndexCandidates.erase`. -/
def ChainState.eraseCandidate (n : Node) : ChainState Node :=
  { s with setBlockIndexCandidates := s.setBlockIndexCandidates.filter fun x => x ≠ n }

/-- `nStatus |= BLOCK_FAILED_VALID`. -/
def ChainState.setFailed (n : Node) : ChainState Node :=
  { s with failedValid := Function.update s.failedValid n true }

/-! ## Headers and block data -/

/-- `AddToBlockIndex`, for the genesis block and headers whose parent is known; others are
rejected before. -/
def addToBlockIndex (n : Node) : ChainState Node :=
  if n ∈ s.m_block_index then s
  else if n = B.genesis ∨ ∃ p ∈ s.m_block_index, B.parent n = some p then
    { s with
      m_block_index := n :: s.m_block_index
      nSequenceId := Function.update s.nSequenceId n SEQ_ID_INIT_FROM_DISK }
  else s

/-- `TryAddBlockIndexCandidate`. -/
def tryAddBlockIndexCandidate (pindex : Node) : ChainState Node :=
  if s.tip.any fun t => workComparator B s pindex t then s else s.insertCandidate pindex

/-- `prev_tx_sum`. -/
def prevTxSum (n : Node) : ℕ :=
  B.nTx n + ((B.parent n).map s.m_chain_tx_count).getD 0

/-- A block whose ancestors have all their data gets its transaction count and the next sequence
number. -/
def ChainState.setCounts (pindex : Node) : ChainState Node :=
  { s with
    m_chain_tx_count := Function.update s.m_chain_tx_count pindex (prevTxSum B s pindex)
    nSequenceId := Function.update s.nSequenceId pindex s.nBlockSequenceId
    nBlockSequenceId := s.nBlockSequenceId + 1 }

/-- The blocks that wait for `pindex`, in the order they were inserted. -/
def ChainState.waitingFor (pindex : Node) : List Node :=
  (s.m_blocks_unlinked.filter fun q => q.1 = pindex).map Prod.snd

/-- The state without the blocks that wait for `pindex`. -/
def ChainState.dropWaiting (pindex : Node) : ChainState Node :=
  { s with m_blocks_unlinked := s.m_blocks_unlinked.filter fun q => q.1 ≠ pindex }

/-- One block of the queue in `ReceivedBlockTransactions`. -/
def linkBlock (pindex : Node) : ChainState Node :=
  (tryAddBlockIndexCandidate B (s.setCounts B pindex) pindex).dropWaiting pindex

/-- The queue of `ReceivedBlockTransactions`, for at most `fuel` blocks. -/
def linkQueue : (fuel : ℕ) → (queue : List Node) → ChainState Node → ChainState Node
  | fuel + 1, pindex :: queue, s =>
    linkQueue fuel (queue ++ s.waitingFor pindex) (linkBlock B s pindex)
  | _, _, s => s

/-- `ReceivedBlockTransactions`, for blocks in the index without data; others are not processed.
Every block of the queue but the first comes from `m_blocks_unlinked`. -/
def receivedBlockTransactions (pindexNew : Node) : ChainState Node :=
  if pindexNew ∈ s.m_block_index ∧ s.haveData pindexNew = false then
    let s := { s with haveData := Function.update s.haveData pindexNew true }
    match B.parent pindexNew with
    | none => linkQueue B (1 + s.m_blocks_unlinked.length) [pindexNew] s
    | some pprev =>
      if s.haveNumChainTxs pprev then
        linkQueue B (1 + s.m_blocks_unlinked.length) [pindexNew] s
      else if s.failedValid pprev then s
      else { s with m_blocks_unlinked := s.m_blocks_unlinked ++ [(pprev, pindexNew)] }
  else s

end SlithyTove
