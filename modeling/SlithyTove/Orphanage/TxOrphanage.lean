import SlithyTove.Framework.OrderedIndex
import SlithyTove.Primitives.FeeFrac
import SlithyTove.Primitives.Weight
import Mathlib.Data.List.AList

/-!
# The transaction orphanage

`TxOrphanageImpl` (`node/txorphanage.cpp`): announcements of transactions whose inputs are missing,
with totals per peer and for all distinct transactions that are kept up to date with every
announcement, and `LimitOrphans`, which evicts announcements of the peers that use the most when the
totals are over the limits.

The container has an index by wtxid and peer and one by peer, `m_reconsider` and sequence number.
An `Assume` or `assert` that fails is an error, and so is the use of an iterator at the end.
Sequence numbers and totals are unbounded; the randomness of `AddChildrenToWorkSet` is an argument.

The totals of the code do not wrap.  A standard transaction has at most 2439 inputs and so a latency
score of at most 244, and there are no more announcements than the limit of the latency score, apart
from one that was just added.  The largest sum, that of the scores of all peers in `SanityCheck`, is
then below `2^32` (`latency_lt`); those of the memory usage have 64 bits.
-/

namespace SlithyTove

open Framework

/-! ## Data -/

/-- `MAX_STANDARD_TX_WEIGHT`. -/
def MAX_STANDARD_TX_WEIGHT : ℕ := 400000

/-- The limits of an orphanage.  Both are the denominator of a `FeeFrac`, an `int32_t`; the first
one leaves room for the sums of latency scores in an `unsigned int`. -/
structure OrphanageLimits where
  m_max_global_latency_score : ℕ
  m_reserved_usage_per_peer : ℕ
  latency_lt : (m_max_global_latency_score + 1) * 244 < 2 ^ 32
  usage_pos : 0 < m_reserved_usage_per_peer
  usage_lt : m_reserved_usage_per_peer < 2 ^ 31

/-- `Announcement`. -/
structure Announcement (Hash NodeId : Type) where
  m_tx : CTransaction Hash
  m_announcer : NodeId
  m_entry_sequence : ℕ
  m_reconsider : Bool := false
  deriving DecidableEq

namespace Announcement

variable {Hash NodeId : Type}

/-- `GetMemUsage`. -/
def getMemUsage (ann : Announcement Hash NodeId) : ℕ := ann.m_tx.weight

/-- `GetLatencyScore`. -/
def getLatencyScore (ann : Announcement Hash NodeId) : ℕ := 1 + ann.m_tx.vin.length / 10

end Announcement

/-- `PeerDoSInfo`. -/
structure PeerDoSInfo where
  m_total_usage : ℕ := 0
  m_count_announcements : ℕ := 0
  m_total_latency_score : ℕ := 0
  deriving DecidableEq, Repr

namespace PeerDoSInfo

variable {Hash NodeId : Type}

/-- `Add`. -/
def add (info : PeerDoSInfo) (ann : Announcement Hash NodeId) : PeerDoSInfo where
  m_total_usage := info.m_total_usage + ann.getMemUsage
  m_total_latency_score := info.m_total_latency_score + ann.getLatencyScore
  m_count_announcements := info.m_count_announcements + 1

/-- `Subtract`, without its result, which is whether no announcement is left. -/
def subtract (info : PeerDoSInfo) (ann : Announcement Hash NodeId) : Except String PeerDoSInfo := do
  ensure (info.m_total_usage ≥ ann.getMemUsage) "Assume(m_total_usage >= ann.GetMemUsage())"
  ensure (info.m_total_latency_score ≥ ann.getLatencyScore)
    "Assume(m_total_latency_score >= ann.GetLatencyScore())"
  ensure (info.m_count_announcements ≥ 1) "Assume(m_count_announcements >= 1)"
  return {
    m_total_usage := info.m_total_usage - ann.getMemUsage
    m_total_latency_score := info.m_total_latency_score - ann.getLatencyScore
    m_count_announcements := info.m_count_announcements - 1 }

/-- `GetDosScore`. -/
def getDosScore (info : PeerDoSInfo) (max_peer_latency_score max_peer_memory : ℕ) :
    Except String FeeFrac := do
  ensure (max_peer_latency_score > 0) "assert(max_peer_latency_score > 0)"
  ensure (max_peer_memory > 0) "assert(max_peer_memory > 0)"
  return FeeFrac.max ⟨info.m_total_latency_score, max_peer_latency_score⟩
    ⟨info.m_total_usage, max_peer_memory⟩

end PeerDoSInfo

/-- The fields of `TxOrphanageImpl`.  The sets of wtxids are ordered by the order of hashes. -/
structure TxOrphanage (Hash NodeId : Type) where
  limits : OrphanageLimits
  m_current_sequence : ℕ
  m_orphans : List (Announcement Hash NodeId)
  m_unique_orphans : ℤ
  m_unique_orphan_usage : ℤ
  m_unique_rounded_input_scores : ℤ
  m_outpoint_to_orphan_wtxids : AList fun _ : COutPoint Hash => Finset Hash
  m_reconsiderable_wtxids : Finset Hash
  m_peer_orphanage_info : AList fun _ : NodeId => PeerDoSInfo

namespace TxOrphanage

variable {Hash NodeId : Type}

/-- A new orphanage. -/
def new (limits : OrphanageLimits) : TxOrphanage Hash NodeId :=
  ⟨limits, 0, [], 0, 0, 0, ∅, ∅, ∅⟩

/-! ## Limits -/

section Limits

variable (s : TxOrphanage Hash NodeId)

/-- `TotalLatencyScore`. -/
def totalLatencyScore : ℤ := s.m_unique_rounded_input_scores + s.m_orphans.length

/-- `LatencyScoreFromPeer`. -/
def latencyScoreFromPeer [DecidableEq NodeId] (peer : NodeId) : ℕ :=
  ((s.m_peer_orphanage_info.lookup peer).map PeerDoSInfo.m_total_latency_score).getD 0

/-- `UsageByPeer`. -/
def usageByPeer [DecidableEq NodeId] (peer : NodeId) : ℕ :=
  ((s.m_peer_orphanage_info.lookup peer).map PeerDoSInfo.m_total_usage).getD 0

/-- `MaxPeerLatencyScore`. -/
def maxPeerLatencyScore : ℕ :=
  s.limits.m_max_global_latency_score / max s.m_peer_orphanage_info.entries.length 1

/-- `MaxGlobalUsage`. -/
def maxGlobalUsage : ℕ :=
  s.limits.m_reserved_usage_per_peer * max s.m_peer_orphanage_info.entries.length 1

/-- `NeedsTrim`. -/
def needsTrim : Bool :=
  s.totalLatencyScore > s.limits.m_max_global_latency_score ∨
    s.m_unique_orphan_usage > s.maxGlobalUsage

end Limits

variable [LinearOrder Hash] [LinearOrder NodeId] (wtxid txid : CTransaction Hash → Hash)

/-! ## The indexes -/

/-- `WtxidExtractor`. -/
def byWtxid (ann : Announcement Hash NodeId) : Hash ×ₗ NodeId :=
  toLex (wtxid ann.m_tx, ann.m_announcer)

/-- `ByPeerViewExtractor`. -/
def byPeer (ann : Announcement Hash NodeId) : NodeId ×ₗ Bool ×ₗ ℕ :=
  toLex (ann.m_announcer, toLex (ann.m_reconsider, ann.m_entry_sequence))

/-- `IsUnique`: neither neighbour in the index by wtxid has the same wtxid. -/
def isUnique (s : TxOrphanage Hash NodeId) (ann : Announcement Hash NodeId) : Bool :=
  let sameWtxid (other : Announcement Hash NodeId) : Bool := wtxid other.m_tx = wtxid ann.m_tx
  !(upperBound (byWtxid wtxid) s.m_orphans (byWtxid wtxid ann)).any sameWtxid &&
    !(lastBelow (byWtxid wtxid) s.m_orphans (byWtxid wtxid ann)).any sameWtxid

/-! ## Erasing -/

/-- The loop of `Erase` over the inputs of the last announcement of a transaction. -/
def removeOutpoint (hash : Hash) (index : AList fun _ : COutPoint Hash => Finset Hash)
    (txin : CTxIn Hash) : AList fun _ : COutPoint Hash => Finset Hash :=
  match index.lookup txin.prevout with
  | none => index
  | some hashes =>
    if hashes.erase hash = ∅ then index.erase txin.prevout
    else index.insert txin.prevout (hashes.erase hash)

/-- `Erase`. -/
def erase (s : TxOrphanage Hash NodeId) (ann : Announcement Hash NodeId) :
    Except String (TxOrphanage Hash NodeId) :=
  match s.m_peer_orphanage_info.lookup ann.m_announcer with
  | none => .error "Assume(peer_it != m_peer_orphanage_info.end())"
  | some info => do
      let info ← info.subtract ann
      let s := { s with
        m_peer_orphanage_info :=
          if info.m_count_announcements = 0 then s.m_peer_orphanage_info.erase ann.m_announcer
          else s.m_peer_orphanage_info.insert ann.m_announcer info }
      let s := if s.isUnique wtxid ann then { s with
          m_unique_orphans := s.m_unique_orphans - 1
          m_unique_rounded_input_scores :=
            s.m_unique_rounded_input_scores - (ann.getLatencyScore - 1 : ℤ)
          m_unique_orphan_usage := s.m_unique_orphan_usage - ann.getMemUsage
          m_outpoint_to_orphan_wtxids :=
            ann.m_tx.vin.foldl (removeOutpoint (wtxid ann.m_tx)) s.m_outpoint_to_orphan_wtxids }
        else s
      return { s with
        m_reconsiderable_wtxids :=
          if ann.m_reconsider then s.m_reconsiderable_wtxids.erase (wtxid ann.m_tx)
          else s.m_reconsiderable_wtxids
        m_orphans := s.m_orphans.erase ann }

/-! ## Limiting -/

/-- An entry of the heap of `LimitOrphans`. -/
abbrev HeapEntry (NodeId : Type) := NodeId × FeeFrac

/-- `compare_score`. -/
def compareScore (left right : HeapEntry NodeId) : Bool :=
  if left.2 ≠ right.2 then left.2.less right.2 else left.1 < right.1

/-- The front of the heap: its largest entry. -/
def heapFront : List (HeapEntry NodeId) → Option (HeapEntry NodeId)
  | [] => none
  | entry :: heap =>
    match heapFront heap with
    | none => some entry
    | some front => some (if compareScore entry front then front else entry)

/-- The inner loop of `LimitOrphans`, over the announcements that `it_ann` visits. -/
def trimPeer (worst_peer : NodeId) (dos_threshold : FeeFrac) (max_lat max_mem : ℕ) :
    List (Announcement Hash NodeId) → TxOrphanage Hash NodeId →
      Except String (TxOrphanage Hash NodeId)
  | [], s => do
      ensure (s.needsTrim = false) "Assume(it_ann != m_orphans.get<ByPeer>().end())"
      return s
  | ann :: rest, s =>
    if s.needsTrim = false then return s
    else do
      ensure (ann.m_announcer = worst_peer) "Assume(it_ann->m_announcer == worst_peer)"
      let s ← s.erase wtxid ann
      match s.m_peer_orphanage_info.lookup worst_peer with
      | none => return s
      | some info => do
          if (← info.getDosScore max_lat max_mem).lessEq dos_threshold then return s
          else trimPeer worst_peer dos_threshold max_lat max_mem rest s

variable [BoundedOrder NodeId] (s : TxOrphanage Hash NodeId)

/-- The peer that was trimmed goes back to the heap, unless nothing is left of it. -/
def pushBack (worst_peer : NodeId) (max_lat max_mem : ℕ) (heap : List (HeapEntry NodeId)) :
    Except String (List (HeapEntry NodeId)) :=
  match s.m_peer_orphanage_info.lookup worst_peer with
  | none => return heap
  | some info =>
    if info.m_count_announcements > 0 then do
      return (worst_peer, ← info.getDosScore max_lat max_mem) :: heap
    else return heap

/-- The outer loop of `LimitOrphans`; `fuel` bounds the number of rounds. -/
def trimLoop (max_lat max_mem : ℕ) : (fuel : ℕ) → TxOrphanage Hash NodeId →
    List (HeapEntry NodeId) → Except String (TxOrphanage Hash NodeId)
  | 0, _, _ => .error "out of fuel"
  | fuel + 1, s, heap =>
    match heapFront heap with
    | none => .error "Assume(!heap_peer_dos.empty())"
    | some worst => do
        let heap := heap.erase worst
        ensure (worst.2.higher ⟨1, 1⟩) "Assume(dos_score >> (FeeFrac{1, 1}))"
        ensure (s.m_peer_orphanage_info.lookup worst.1).isSome "it_worst_peer is the end"
        let dos_threshold := ((heapFront heap).map Prod.snd).getD ⟨1, 1⟩
        let s ← trimPeer wtxid worst.1 dos_threshold max_lat max_mem
          (indexFrom byPeer s.m_orphans (toLex (worst.1, toLex (false, 0)))) s
        if s.needsTrim = false then return s
        else trimLoop max_lat max_mem fuel s (← s.pushBack worst.1 max_lat max_mem heap)

/-- `LimitOrphans`. -/
def limitOrphans : Except String (TxOrphanage Hash NodeId) :=
  if s.needsTrim = false then return s
  else do
    let max_lat := s.maxPeerLatencyScore
    let max_mem := s.limits.m_reserved_usage_per_peer
    let scores ← s.m_peer_orphanage_info.entries.mapM fun entry => do
      return ((entry.1, ← entry.2.getDosScore max_lat max_mem) : HeapEntry NodeId)
    -- Every round erases an announcement.
    s.trimLoop wtxid max_lat max_mem (s.m_orphans.length + 1)
      (scores.filter fun entry => entry.2.higher ⟨1, 1⟩)

/-- The end of the functions that change the announcements: `LimitOrphans`, unless they have
returned before. -/
def finish {β : Type} (outcome : β × Bool × TxOrphanage Hash NodeId) :
    Except String (β × TxOrphanage Hash NodeId) :=
  if outcome.2.1 then do return (outcome.1, ← outcome.2.2.limitOrphans wtxid)
  else return (outcome.1, outcome.2.2)

/-! ## Adding -/

/-- `m_orphans.emplace`: nothing happens if one of the indexes has the key already. -/
def emplace (tx : CTransaction Hash) (peer : NodeId) : Option (Announcement Hash NodeId) :=
  let ann : Announcement Hash NodeId := ⟨tx, peer, s.m_current_sequence, false⟩
  if s.m_orphans.any fun other => byWtxid wtxid other = byWtxid wtxid ann ∨
    byPeer other = byPeer ann
  then none else some ann

/-- A new announcement, its sequence number and the totals of its peer. -/
def announce (ann : Announcement Hash NodeId) : TxOrphanage Hash NodeId :=
  { s with
    m_orphans := ann :: s.m_orphans
    m_current_sequence := s.m_current_sequence + 1
    m_peer_orphanage_info := s.m_peer_orphanage_info.insert ann.m_announcer
      (((s.m_peer_orphanage_info.lookup ann.m_announcer).getD {}).add ann) }

/-- The loop of `AddTx` over the inputs of a new transaction. -/
def addOutpoint (hash : Hash) (index : AList fun _ : COutPoint Hash => Finset Hash)
    (txin : CTxIn Hash) : AList fun _ : COutPoint Hash => Finset Hash :=
  index.insert txin.prevout (insert hash ((index.lookup txin.prevout).getD ∅))

/-- The announcements of a wtxid, between the bounds `MIN_PEER` and `MAX_PEER`. -/
def announcementsOf (hash : Hash) : List (Announcement Hash NodeId) :=
  (indexFrom (byWtxid wtxid) s.m_orphans (toLex (hash, ⊥))).takeWhile fun ann =>
    byWtxid wtxid ann ≤ toLex (hash, ⊤)

/-- `HaveTx`. -/
def haveTx (hash : Hash) : Bool :=
  (lowerBound (byWtxid wtxid) s.m_orphans (toLex (hash, ⊥))).any fun ann => wtxid ann.m_tx = hash

/-- `AddTx`, up to `LimitOrphans`. -/
def addTxBody (tx : CTransaction Hash) (peer : NodeId) :
    Except String (Bool × Bool × TxOrphanage Hash NodeId) :=
  if tx.weight > MAX_STANDARD_TX_WEIGHT then return (false, false, s)
  else
    let brand_new := !s.haveTx wtxid (wtxid tx)
    match s.emplace wtxid tx peer with
    | none => return (false, false, s)
    | some ann =>
      let s := s.announce ann
      if brand_new then do
        let s := { s with
          m_outpoint_to_orphan_wtxids :=
            tx.vin.foldl (addOutpoint (wtxid tx)) s.m_outpoint_to_orphan_wtxids
          m_unique_orphans := s.m_unique_orphans + 1
          m_unique_orphan_usage := s.m_unique_orphan_usage + ann.getMemUsage
          m_unique_rounded_input_scores :=
            s.m_unique_rounded_input_scores + (ann.getLatencyScore - 1 : ℤ) }
        ensure (s.isUnique wtxid ann) "Assume(IsUnique(iter))"
        return (brand_new, true, s)
      else do
        ensure (s.isUnique wtxid ann = false) "Assume(!IsUnique(iter))"
        return (brand_new, true, s)

/-- `AddTx`. -/
def addTx (tx : CTransaction Hash) (peer : NodeId) :
    Except String (Bool × TxOrphanage Hash NodeId) := do
  finish wtxid (← s.addTxBody wtxid tx peer)

/-- `AddAnnouncer`, up to `LimitOrphans`. -/
def addAnnouncerBody (hash : Hash) (peer : NodeId) :
    Except String (Bool × Bool × TxOrphanage Hash NodeId) :=
  match lowerBound (byWtxid wtxid) s.m_orphans (toLex (hash, ⊥)) with
  | none => return (false, false, s)
  | some it =>
    if wtxid it.m_tx ≠ hash then return (false, false, s)
    else
      match s.emplace wtxid it.m_tx peer with
      | none => return (false, false, s)
      | some ann => do
          let s := s.announce ann
          ensure (s.isUnique wtxid ann = false) "Assume(!IsUnique(iter))"
          return (true, true, s)

/-- `AddAnnouncer`. -/
def addAnnouncer (hash : Hash) (peer : NodeId) :
    Except String (Bool × TxOrphanage Hash NodeId) := do
  finish wtxid (← s.addAnnouncerBody wtxid hash peer)

/-! ## Erasing transactions and peers -/

/-- `EraseTxInternal`. -/
def eraseTxInternal (hash : Hash) : Except String (Bool × TxOrphanage Hash NodeId) :=
  if s.haveTx wtxid hash = false then return (false, s)
  else do
    let s ← (s.announcementsOf wtxid hash).foldlM (fun s ann => do
      ensure (wtxid ann.m_tx = hash) "Assume(it->m_tx->GetWitnessHash() == wtxid)"
      s.erase wtxid ann) s
    return (true, s)

/-- `EraseTx`. -/
def eraseTx (hash : Hash) :
    Except String (Bool × TxOrphanage Hash NodeId) := do
  let (ret, s) ← s.eraseTxInternal wtxid hash
  finish wtxid (ret, true, s)

/-- `EraseForPeer`, up to `LimitOrphans`. -/
def eraseForPeerBody (peer : NodeId) : Except String (Unit × Bool × TxOrphanage Hash NodeId) :=
  let visited := (indexFrom byPeer s.m_orphans (toLex (peer, toLex (false, 0)))).takeWhile
    fun ann =>
    ann.m_announcer = peer
  if visited.isEmpty then return ((), false, s)
  else do
    let s ← visited.foldlM (erase wtxid) s
    ensure (s.m_peer_orphanage_info.lookup peer = none)
      "Assume(!m_peer_orphanage_info.contains(peer))"
    return ((), true, s)

/-- `EraseForPeer`. -/
def eraseForPeer (peer : NodeId) :
    Except String (Unit × TxOrphanage Hash NodeId) := do
  finish wtxid (← s.eraseForPeerBody wtxid peer)

/-- The wtxids that `EraseForBlock` erases. -/
def wtxidsToErase (block : CBlock Hash) : Finset Hash :=
  (block.vtx.flatMap CTransaction.vin).foldl (fun hashes txin =>
    hashes ∪ (s.m_outpoint_to_orphan_wtxids.lookup txin.prevout).getD ∅) ∅

/-- `EraseForBlock`, up to `LimitOrphans`. -/
def eraseForBlockBody (block : CBlock Hash) :
    Except String (Unit × Bool × TxOrphanage Hash NodeId) :=
  if s.m_orphans.isEmpty then return ((), false, s)
  else do
    let wtxids_to_erase := s.wtxidsToErase block
    let (num_erased, s) ← (wtxids_to_erase.sort (· ≤ ·)).foldlM (fun (num_erased, s) hash => do
      let (erased, s) ← eraseTxInternal wtxid s hash
      return (num_erased + if erased then 1 else 0, s)) (0, s)
    ensure (wtxids_to_erase.card = num_erased) "Assume(wtxids_to_erase.size() == num_erased)"
    return ((), true, s)

/-- `EraseForBlock`. -/
def eraseForBlock (block : CBlock Hash) :
    Except String (Unit × TxOrphanage Hash NodeId) := do
  finish wtxid (← s.eraseForBlockBody wtxid block)

/-! ## Work sets -/

/-- `modify` with a new value of `m_reconsider`. -/
def setReconsider (ann : Announcement Hash NodeId) (reconsider : Bool) : TxOrphanage Hash NodeId :=
  { s with
    m_orphans := s.m_orphans.map fun other =>
      if other = ann then { other with m_reconsider := reconsider } else other }

/-- The body of the loops of `AddChildrenToWorkSet`, for the orphan `hash` that spends output `i`;
one of its announcements is chosen at random. -/
def addChild (randrange : ℕ → Hash → ℕ → ℕ) (i : ℕ)
    (state : List (Hash × NodeId) × TxOrphanage Hash NodeId) (hash : Hash) :
    Except String (List (Hash × NodeId) × TxOrphanage Hash NodeId) :=
  let (ret, s) := state
  if hash ∈ s.m_reconsiderable_wtxids then return (ret, s)
  else do
    ensure (s.haveTx wtxid hash)
      "Assume(it != index_by_wtxid.end() && it->m_tx->GetWitnessHash() == wtxid)"
    let announcers := s.announcementsOf wtxid hash
    match announcers[randrange i hash announcers.length % announcers.length]? with
    | none => .error "Assume(num_announcers > 0)"
    | some it => do
        ensure (wtxid it.m_tx = hash) "Assume(it->m_tx->GetWitnessHash() == wtxid)"
        ensure (it.m_reconsider = false) "Assume(!it->m_reconsider)"
        let s := s.setReconsider it true
        return (ret ++ [(hash, it.m_announcer)],
          { s with m_reconsiderable_wtxids := insert hash s.m_reconsiderable_wtxids })

/-- `AddChildrenToWorkSet`. -/
def addChildrenToWorkSet (tx : CTransaction Hash) (randrange : ℕ → Hash → ℕ → ℕ) :
    Except String (List (Hash × NodeId) × TxOrphanage Hash NodeId) :=
  (List.range tx.vout.length).foldlM (fun state i =>
    match s.m_outpoint_to_orphan_wtxids.lookup ⟨txid tx, i⟩ with
    | none => return state
    | some hashes => (hashes.sort (· ≤ ·)).foldlM (addChild wtxid randrange i) state) ([], s)

/-- `GetTxToReconsider`. -/
def getTxToReconsider (peer : NodeId) : Option (CTransaction Hash) × TxOrphanage Hash NodeId :=
  match lowerBound byPeer s.m_orphans (toLex (peer, toLex (true, 0))) with
  | none => (none, s)
  | some it =>
    if it.m_announcer = peer ∧ it.m_reconsider then
      let s := s.setReconsider it false
      (some it.m_tx,
        { s with m_reconsiderable_wtxids := s.m_reconsiderable_wtxids.erase (wtxid it.m_tx) })
    else (none, s)

/-! ## Sequences of operations -/

/-- The operations that change an orphanage. -/
inductive Operation (Hash NodeId : Type)
  | addTx (tx : CTransaction Hash) (peer : NodeId)
  | addAnnouncer (hash : Hash) (peer : NodeId)
  | eraseTx (hash : Hash)
  | eraseForPeer (peer : NodeId)
  | eraseForBlock (block : CBlock Hash)
  | addChildrenToWorkSet (tx : CTransaction Hash) (randrange : ℕ → Hash → ℕ → ℕ)
  | getTxToReconsider (peer : NodeId)

/-- An operation up to its call of `LimitOrphans`, and whether it makes that call. -/
def body : Operation Hash NodeId → Except String (Bool × TxOrphanage Hash NodeId)
  | .addTx tx peer => return (← s.addTxBody wtxid tx peer).2
  | .addAnnouncer hash peer => return (← s.addAnnouncerBody wtxid hash peer).2
  | .eraseTx hash => return (true, (← s.eraseTxInternal wtxid hash).2)
  | .eraseForPeer peer => return (← s.eraseForPeerBody wtxid peer).2
  | .eraseForBlock block => return (← s.eraseForBlockBody wtxid block).2
  | .addChildrenToWorkSet tx randrange =>
    return (false, (← s.addChildrenToWorkSet wtxid txid tx randrange).2)
  | .getTxToReconsider peer => return (false, (s.getTxToReconsider wtxid peer).2)

/-- The state after an operation. -/
def perform (op : Operation Hash NodeId) : Except String (TxOrphanage Hash NodeId) :=
  match op with
  | .addTx tx peer => return (← s.addTx wtxid tx peer).2
  | .addAnnouncer hash peer => return (← s.addAnnouncer wtxid hash peer).2
  | .eraseTx hash => return (← s.eraseTx wtxid hash).2
  | .eraseForPeer peer => return (← s.eraseForPeer wtxid peer).2
  | .eraseForBlock block => return (← s.eraseForBlock wtxid block).2
  | .addChildrenToWorkSet tx randrange =>
    return (← s.addChildrenToWorkSet wtxid txid tx randrange).2
  | .getTxToReconsider peer => return (s.getTxToReconsider wtxid peer).2

/-- The state after a sequence of operations. -/
def runOps (ops : List (Operation Hash NodeId)) : Except String (TxOrphanage Hash NodeId) :=
  ops.foldlM (perform wtxid txid) s

/-! ## The sanity check -/

section Sanity

variable (s : TxOrphanage Hash NodeId)

/-- `reconstructed_peer_info`. -/
def reconstructedPeerInfo : AList fun _ : NodeId => PeerDoSInfo :=
  s.m_orphans.foldl (fun info ann =>
    info.insert ann.m_announcer (((info.lookup ann.m_announcer).getD {}).add ann)) ∅

/-- `unique_wtxids_to_scores`. -/
def uniqueWtxidsToScores : AList fun _ : Hash => ℕ × ℕ :=
  s.m_orphans.foldl (fun scores ann =>
    if wtxid ann.m_tx ∈ scores then scores
    else scores.insert (wtxid ann.m_tx) (ann.getMemUsage, ann.getLatencyScore - 1)) ∅

/-- `all_outpoints`. -/
def allOutpoints : Finset (COutPoint Hash) :=
  ((s.m_orphans.flatMap fun ann => ann.m_tx.vin).map CTxIn.prevout).toFinset

/-- The wtxids of the announcements to reconsider, in the order of the container. -/
def reconsiderableWtxids : List Hash :=
  (s.m_orphans.filter Announcement.m_reconsider).map fun ann => wtxid ann.m_tx

/-- `SanityCheck`: its assertions, one by one. -/
structure SanityCheck : Prop where
  added : (s.reconsiderableWtxids wtxid).Nodup
  peer_info_size : s.reconstructedPeerInfo.entries.length = s.m_peer_orphanage_info.entries.length
  peer_info : s.reconstructedPeerInfo.entries.Perm s.m_peer_orphanage_info.entries
  reconsiderable : s.m_reconsiderable_wtxids = (s.reconsiderableWtxids wtxid).toFinset
  outpoints_size : s.allOutpoints.card = s.m_outpoint_to_orphan_wtxids.entries.length
  outpoints : ∀ entry ∈ s.m_outpoint_to_orphan_wtxids.entries,
    entry.1 ∈ s.allOutpoints ∧ ∀ hash ∈ entry.2, hash ∈ s.uniqueWtxidsToScores wtxid
  unique_le : s.m_unique_orphans ≤ s.m_orphans.length
  le_unique : (s.m_orphans.length : ℤ) ≤
    s.m_peer_orphanage_info.entries.length * s.m_unique_orphans
  unique : ((s.uniqueWtxidsToScores wtxid).entries.length : ℤ) = s.m_unique_orphans
  usage : (((s.uniqueWtxidsToScores wtxid).entries.map fun entry => entry.2.1).sum : ℤ) =
    s.m_unique_orphan_usage
  usage_le : s.m_unique_orphan_usage ≤
    (s.m_peer_orphanage_info.entries.map fun entry => entry.2.m_total_usage).sum
  scores : (((s.uniqueWtxidsToScores wtxid).entries.map fun entry => entry.2.2).sum : ℤ) =
    s.m_unique_rounded_input_scores
  scores_le : s.m_unique_rounded_input_scores + s.m_orphans.length ≤
    (s.m_peer_orphanage_info.entries.map fun entry => entry.2.m_total_latency_score).sum
  not_needsTrim : s.needsTrim = false

end Sanity

end TxOrphanage

end SlithyTove
