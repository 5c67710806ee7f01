import SlithyTove.Validation.ChainState

/-!
# `ActivateBestChain`

`FindMostWorkChain` picks the best candidate none of whose blocks outside the active chain is known
to be invalid; `ActivateBestChainStep` moves the tip towards it, at most until the new tip has more
work than the old one; `ActivateBestChain` repeats both until the picked block is the tip.  A block
that `ConnectBlock` rejects is marked, with its descendants, and taken out of the candidates, and
another one is picked.

Loops of the source that end by themselves are recursions on a bound that they do not reach.
-/

namespace SlithyTove

open Framework

variable {Node : Type} [DecidableEq Node] (B : Blocks Node)

/-! ## `FindMostWorkChain` -/

/-- The walk from a candidate back to the active chain: the first block that is known to be invalid
or lacks its data. -/
def findUnusable (s : ChainState Node) :
    (fuel : ℕ) → (pindexTest : Option Node) → Except ChainError (Option Node)
  | _, none => .ok none
  | 0, some _ => .error .outOfFuel
  | fuel + 1, some pindexTest =>
    if s.contains B pindexTest then .ok none
    else do
      ensure (s.haveNumChainTxs pindexTest ∨ B.depth pindexTest = 0) ChainError.haveNumChainTxs
      if s.failedValid pindexTest ∨ ¬ s.haveData pindexTest then return some pindexTest
      else findUnusable s fuel (B.parent pindexTest)

/-- The loop that takes the blocks from `pindexFailed` down to `pindexTest` out of the
candidates. -/
def removeChain (fFailedChain : Bool) (pindexTest : Node) :
    (fuel : ℕ) → (pindexFailed : Node) → ChainState Node → Except ChainError (ChainState Node)
  | fuel, pindexFailed, s =>
    if pindexTest = pindexFailed then .ok (s.eraseCandidate pindexTest)
    else
      match fuel, B.parent pindexFailed with
      | fuel + 1, some pprev =>
        let s := if fFailedChain then s.setFailed pindexFailed
          else { s with m_blocks_unlinked := s.m_blocks_unlinked ++ [(pprev, pindexFailed)] }
        removeChain fFailedChain pindexTest fuel pprev (s.eraseCandidate pindexFailed)
      | 0, some _ => .error .outOfFuel
      | _, none => .error .nullPointer

/-- `FindMostWorkChain`; every pass that goes on takes a candidate out. -/
def findMostWorkChainLoop :
    (fuel : ℕ) → ChainState Node → Except ChainError (ChainState Node × Option Node)
  | 0, _ => .error .outOfFuel
  | fuel + 1, s =>
    match bestCandidate B s with
    | none => .ok (s, none)
    | some pindexNew => do
      match ← findUnusable B s (B.depth pindexNew + 1) (some pindexNew) with
      | none => return (s, some pindexNew)
      | some pindexTest =>
        let s ← removeChain B (s.failedValid pindexTest) pindexTest (B.depth pindexNew) pindexNew s
        findMostWorkChainLoop fuel s

variable (s : ChainState Node)

/-- `FindMostWorkChain`. -/
def findMostWorkChain : Except ChainError (ChainState Node × Option Node) :=
  findMostWorkChainLoop B (s.setBlockIndexCandidates.length + 1) s

/-! ## Connecting and disconnecting -/

/-- `PruneBlockIndexCandidates`: the candidates worse than the tip are those at the beginning of the
set. -/
def pruneBlockIndexCandidates : Except ChainError (ChainState Node) := do
  let s := { s with setBlockIndexCandidates := s.setBlockIndexCandidates.filter fun c =>
    !(s.tip.any fun t => workComparator B s c t) }
  ensure (s.setBlockIndexCandidates ≠ []) ChainError.candidatesEmpty
  return s

/-- `SetBlockFailureFlags`. -/
def setBlockFailureFlags (invalid_block : Node) : ChainState Node :=
  { s with failedValid := fun n => s.failedValid n || decide (n ∈ s.m_block_index ∧
      invalid_block ≠ n ∧ B.ancestor n (B.depth invalid_block) = some invalid_block) }

/-- `InvalidChainFound`. -/
def invalidChainFound (pindexNew : Node) :
    Except ChainError (ChainState Node) := do
  let s := setBlockFailureFlags B s pindexNew
  ensure s.tip.isSome ChainError.noTip
  return s

/-- `InvalidBlockFound`. -/
def invalidBlockFound (pindex : Node) : Except ChainError (ChainState Node) :=
  invalidChainFound B ((s.setFailed pindex).eraseCandidate pindex) pindex

/-- `ConnectTip`, and whether the block was accepted. -/
def connectTip (pindexNew : Node) :
    Except ChainError (ChainState Node × Bool) := do
  ensure (B.parent pindexNew = s.tip) ChainError.notOnTip
  ensure (s.haveData pindexNew) ChainError.readBlock
  if B.connects pindexNew then return ({ s with tip := some pindexNew }, true)
  else
    let s ← invalidBlockFound B s pindexNew
    return (s, false)

/-- The loop of `FindFork`. -/
def ChainState.findForkLoop (s : ChainState Node) :
    (fuel : ℕ) → (pindex : Option Node) → Option Node
  | fuel + 1, some pindex => if s.contains B pindex then some pindex
    else findForkLoop s fuel (B.parent pindex)
  | _, _ => none

/-- `m_chain.FindFork`.  An empty chain has height `-1`, at which there is no ancestor. -/
def ChainState.findFork (pindex : Node) : Option Node :=
  match s.tip with
  | none => none
  | some t => s.findForkLoop B (B.depth pindex + 1)
      (if B.depth pindex > B.depth t then B.ancestor pindex (B.depth t) else some pindex)

/-- The loop of `ActivateBestChainStep` that calls `DisconnectTip`. -/
def disconnectTo (pindexFork : Option Node) :
    (fuel : ℕ) → ChainState Node → Except ChainError (ChainState Node)
  | fuel, s =>
    match s.tip with
    | none => .ok s
    | some t =>
      if s.tip = pindexFork then .ok s
      else
        match fuel, B.parent t with
        | fuel + 1, some pprev =>
          if s.haveData t then disconnectTo pindexFork fuel { s with tip := some pprev }
          else .error .readBlock
        | 0, some _ => .error .outOfFuel
        | _, none => .error .disconnectGenesis

/-! ## `ActivateBestChainStep` -/

/-- How the blocks of one batch were connected: all of them, up to one with more work than the old
tip, or up to an invalid one. -/
inductive BatchResult
  | connected
  | improved
  | invalid
  deriving DecidableEq

/-- The blocks from `x` back, `k` of them. -/
def ancestry : (k : ℕ) → (x : Option Node) → List Node
  | k + 1, some x => x :: ancestry k (B.parent x)
  | _, _ => []

/-- The loop over the blocks of a batch, in ascending order; `front` is the highest of them. -/
def connectBatch (pindexOldTip : Option Node) (front : Node) :
    List Node → ChainState Node → Except ChainError (ChainState Node × BatchResult)
  | [], s => .ok (s, .connected)
  | pindexConnect :: rest, s => do
    match ← connectTip B s pindexConnect with
    | (s, false) =>
      let s ← invalidChainFound B s front
      return (s, .invalid)
    | (s, true) =>
      let s ← pruneBlockIndexCandidates B s
      if pindexOldTip.all fun t => B.nChainWork t < B.nChainWork pindexConnect then
        return (s, .improved)
      else connectBatch pindexOldTip front rest s

/-- The outer loop: batches of at most 32 blocks from height `next` on, which is `nHeight + 1`.
The result says whether an invalid block was found. -/
def connectBatches (pindexMostWork : Node) (pindexOldTip : Option Node) :
    (fuel : ℕ) → (next : ℕ) → ChainState Node → Except ChainError (ChainState Node × Bool)
  | fuel, next, s =>
    if next = B.depth pindexMostWork + 1 then .ok (s, false)
    else
      match fuel with
      | 0 => .error .outOfFuel
      | fuel + 1 =>
        let nTargetHeight := min (next + 31) (B.depth pindexMostWork)
        match B.ancestor pindexMostWork nTargetHeight with
        | none => .error .nullPointer
        | some front => do
          let vpindexToConnect := ancestry B (nTargetHeight + 1 - next) (some front)
          match ← connectBatch B pindexOldTip front vpindexToConnect.reverse s with
          | (s, .connected) =>
            connectBatches pindexMostWork pindexOldTip fuel (nTargetHeight + 1) s
          | (s, .improved) => return (s, false)
          | (s, .invalid) => return (s, true)

/-- `ActivateBestChainStep`, and whether an invalid block was found. -/
def activateBestChainStep (pindexMostWork : Node) :
    Except ChainError (ChainState Node × Bool) := do
  let pindexOldTip := s.tip
  let pindexFork := s.findFork B pindexMostWork
  let s ← disconnectTo B pindexFork ((pindexOldTip.map B.depth).getD 0) s
  connectBatches B pindexMostWork pindexOldTip (B.depth pindexMostWork + 1)
    ((pindexFork.map fun f => B.depth f + 1).getD 0) s

/-! ## `ActivateBestChain` -/

/-- The variables of `ActivateBestChain`. -/
structure ActivateLocals (Node : Type) where
  state : ChainState Node
  pindexMostWork : Option Node
  pindexNewTip : Option Node
  blocks_connected : Bool

/-- The picked block of an earlier pass is used again; otherwise one is picked. -/
def pickMostWork (v : ActivateLocals Node) : Except ChainError (ChainState Node × Option Node) :=
  match v.pindexMostWork with
  | none => findMostWorkChain B v.state
  | some m => .ok (v.state, some m)

/-- The inner loop: until the tip is not worse than the one it started from. -/
def activateInner (starting_tip : Option Node) :
    (fuel : ℕ) → ActivateLocals Node → Except ChainError (ActivateLocals Node)
  | 0, _ => .error .outOfFuel
  | fuel + 1, v => do
    let (s, pindexMostWork) ← pickMostWork B v
    match pindexMostWork with
    | none => return { v with state := s, pindexMostWork := none }
    | some m =>
      if s.tip = some m then return { v with state := s, pindexMostWork := some m }
      else
        let (s, fInvalidFound) ← activateBestChainStep B s m
        let v : ActivateLocals Node :=
          { state := s
            pindexMostWork := if fInvalidFound then none else some m
            pindexNewTip := s.tip
            blocks_connected := true }
        match s.tip with
        | none => activateInner starting_tip fuel v
        | some t =>
          if starting_tip.any fun t₀ => workComparator B s t t₀ then
            activateInner starting_tip fuel v
          else return v

/-- The outer loop: until the picked block is the tip. -/
def activateOuter : (fuel : ℕ) → (pindexMostWork pindexNewTip : Option Node) → ChainState Node →
      Except ChainError (ChainState Node)
  | 0, _, _, _ => .error .outOfFuel
  | fuel + 1, pindexMostWork, pindexNewTip, s => do
    let v ← activateInner B s.tip (fuel + 1) ⟨s, pindexMostWork, pindexNewTip, false⟩
    if ¬ v.blocks_connected ∨ v.pindexNewTip = v.pindexMostWork then return v.state
    else activateOuter fuel v.pindexMostWork v.pindexNewTip v.state

/-- The height of the block index. -/
def ChainState.maxHeight : ℕ := (s.m_block_index.map B.depth).foldr max 0

/-- A bound on the passes of the loops: every pass marks a block of the index as failed or brings
the tip closer to the picked block. -/
def activationFuel : ℕ :=
  s.m_block_index.length * (s.maxHeight B + 2) + (s.maxHeight B + 2)

/-- `ActivateBestChain`. -/
def activateBestChain : Except ChainError (ChainState Node) :=
  activateOuter B (activationFuel B s) none none s

end SlithyTove
