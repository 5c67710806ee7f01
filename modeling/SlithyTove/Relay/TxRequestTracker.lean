import SlithyTove.Framework.Checked
import SlithyTove.Framework.OrderedIndex
import Mathlib.Algebra.Group.Nat.Defs
import Mathlib.Data.List.AList
import Mathlib.Data.Prod.Lex

/-!
# The tracker of transaction requests

The node asks one peer at a time for a transaction that several peers have announced
(`txrequest.cpp`).  The announcements are a container with three ordered indexes.  That by peer is
unique. Those by txhash and by time allow equal keys, whose order depends on the history of the
container; a `Views` is an order for each content, and every call may have its own.  An iterator is
the announcement it points to, and a failed assertion or the use of an iterator that points nowhere
is an error.  Times are microseconds.  Sequence numbers are unbounded: the code has 59 bits for
them, and only as many announcements would use them up.
-/

namespace SlithyTove.TxRequest

open Framework

/-! ## Announcements -/

/-- `State`. -/
inductive State
  | CANDIDATE_DELAYED
  | CANDIDATE_READY
  | CANDIDATE_BEST
  | REQUESTED
  | COMPLETED
  deriving DecidableEq

/-- The order of the states in the index by txhash. -/
def State.value : State → ℕ
  | .CANDIDATE_DELAYED => 0
  | .CANDIDATE_READY => 1
  | .CANDIDATE_BEST => 2
  | .REQUESTED => 3
  | .COMPLETED => 4

/-- `GenTxid`: a txid or a wtxid. -/
structure GenTxid (Hash : Type) where
  isWtxid : Bool
  toUint256 : Hash
  deriving DecidableEq

/-- `Announcement`. -/
structure Announcement (Hash NodeId : Type) where
  m_gtxid : GenTxid Hash
  m_time : ℤ
  m_peer : NodeId
  m_sequence : ℕ
  m_preferred : Bool
  m_state : State := .CANDIDATE_DELAYED
  deriving DecidableEq

namespace Announcement

variable {Hash NodeId : Type} (ann : Announcement Hash NodeId)

/-- The txhash of the announcement. -/
def txhash : Hash := ann.m_gtxid.toUint256

/-- `SetState`. -/
def setState (state : State) : Announcement Hash NodeId := { ann with m_state := state }

/-- The modifier of `RequestedTx`. -/
def request (expiry : ℤ) : Announcement Hash NodeId :=
  { ann with m_state := .REQUESTED, m_time := expiry }

/-- `IsSelected`. -/
def isSelected : Bool := ann.m_state = .CANDIDATE_BEST ∨ ann.m_state = .REQUESTED

/-- `IsWaiting`. -/
def isWaiting : Bool := ann.m_state = .REQUESTED ∨ ann.m_state = .CANDIDATE_DELAYED

/-- `IsSelectable`. -/
def isSelectable : Bool := ann.m_state = .CANDIDATE_READY ∨ ann.m_state = .CANDIDATE_BEST

/-- `GetWaitState`: `FUTURE_EVENT`, `NO_EVENT` or `PAST_EVENT`. -/
def getWaitState : ℕ := if ann.isWaiting then 0 else if ann.isSelectable then 2 else 1

end Announcement

/-- The fields of `PeerInfo`. -/
structure PeerInfo where
  m_total : ℕ := 0
  m_completed : ℕ := 0
  m_requested : ℕ := 0
  deriving DecidableEq

/-- The fields of `TxRequestTracker::Impl`. -/
structure Tracker (Hash NodeId : Type) where
  m_current_sequence : ℕ
  m_index : List (Announcement Hash NodeId)
  m_peerinfo : AList fun _ : NodeId => PeerInfo

variable {Hash NodeId : Type} [LinearOrder Hash] [LinearOrder NodeId]
  (computer : Hash → NodeId → Bool → ℕ)

variable (ann : Announcement Hash NodeId)

/-- The priority of an announcement. -/
def priority : ℕ := computer ann.txhash ann.m_peer ann.m_preferred

/-! ## The indexes -/

/-- `ByPeerView`. -/
def byPeer : NodeId ×ₗ Bool ×ₗ Hash :=
  toLex (ann.m_peer, toLex (decide (ann.m_state = .CANDIDATE_BEST), ann.txhash))

/-- `ByTxHashView`. -/
def byTxHash : Hash ×ₗ ℕ ×ₗ ℕ :=
  toLex (ann.txhash, toLex (ann.m_state.value,
    if ann.m_state = .CANDIDATE_READY then priority computer ann else 0))

/-- `ByTimeView`. -/
def byTime : ℕ ×ₗ ℤ := toLex (ann.getWaitState, ann.m_time)

/-- The orders of the indexes that allow equal keys. -/
structure Views where
  byTxHash : Enumeration (byTxHash computer : Announcement Hash NodeId → Hash ×ₗ ℕ ×ₗ ℕ)
  byTime : Enumeration (byTime : Announcement Hash NodeId → ℕ ×ₗ ℤ)

namespace Tracker

/-- An empty tracker. -/
def new : Tracker Hash NodeId := ⟨0, [], ∅⟩

/-- `m_index.get<ByPeer>().find`. -/
def find (s : Tracker Hash NodeId) (peer : NodeId) (best : Bool) (txhash : Hash) :
    Option (Announcement Hash NodeId) :=
  s.m_index.find? fun ann => byPeer ann = toLex (peer, toLex (best, txhash))

variable (s : Tracker Hash NodeId)

/-- `m_peerinfo.find`, as the callers use the iterator. -/
def findPeer (peer : NodeId) : Except String PeerInfo :=
  match s.m_peerinfo.lookup peer with
  | none => .error "m_peerinfo.find is the end"
  | some info => .ok info

/-- `Erase`. -/
def erase (s : Tracker Hash NodeId) (it : Announcement Hash NodeId) :
    Except String (Tracker Hash NodeId) := do
  let info ← s.findPeer it.m_peer
  let info : PeerInfo := {
    m_total := info.m_total - 1
    m_completed := info.m_completed - (decide (it.m_state = .COMPLETED)).toNat
    m_requested := info.m_requested - (decide (it.m_state = .REQUESTED)).toNat }
  return { s with
    m_index := s.m_index.erase it
    m_peerinfo := if info.m_total = 0 then s.m_peerinfo.erase it.m_peer
      else s.m_peerinfo.insert it.m_peer info }

/-- `Modify`, with the announcement as the modifier leaves it.  The container would drop an
announcement that collides with another one in the index by peer. -/
def modify (it modified : Announcement Hash NodeId) :
    Except String (Tracker Hash NodeId) := do
  let info ← s.findPeer it.m_peer
  ensure (∀ other ∈ s.m_index.erase it, byPeer other ≠ byPeer modified) "modify: collision"
  let info : PeerInfo := {
    m_total := info.m_total
    m_completed := info.m_completed - (decide (it.m_state = .COMPLETED)).toNat +
      (decide (modified.m_state = .COMPLETED)).toNat
    m_requested := info.m_requested - (decide (it.m_state = .REQUESTED)).toNat +
      (decide (modified.m_state = .REQUESTED)).toNat }
  return { s with
    m_index := modified :: s.m_index.erase it
    m_peerinfo := s.m_peerinfo.insert it.m_peer info }

variable {computer} (views : Views computer)

/-! ## Changes of state -/

/-- `PromoteCandidateReady`. -/
def promoteCandidateReady (s : Tracker Hash NodeId) (it : Announcement Hash NodeId) :
    Except String (Tracker Hash NodeId) := do
  ensure (it.m_state = .CANDIDATE_DELAYED) "assert(it->GetState() == State::CANDIDATE_DELAYED)"
  let ready := it.setState .CANDIDATE_READY
  let s ← s.modify it ready
  match views.byTxHash.next s.m_index ready with
  | none => s.modify ready (ready.setState .CANDIDATE_BEST)
  | some it_next =>
    if it_next.txhash ≠ it.txhash ∨ it_next.m_state = .COMPLETED then
      s.modify ready (ready.setState .CANDIDATE_BEST)
    else if it_next.m_state = .CANDIDATE_BEST ∧
      priority computer ready > priority computer it_next then do
      let s ← s.modify it_next (it_next.setState .CANDIDATE_READY)
      s.modify ready (ready.setState .CANDIDATE_BEST)
    else return s

/-- The first part of `ChangeAndReselect`: the announcement before a selected one becomes the
best. -/
def reselect (s : Tracker Hash NodeId) (it : Announcement Hash NodeId) :
    Except String (Tracker Hash NodeId) :=
  if it.isSelected then
    match views.byTxHash.prev s.m_index it with
    | none => return s
    | some it_prev =>
      if it_prev.txhash = it.txhash ∧ it_prev.m_state = .CANDIDATE_READY then
        s.modify it_prev (it_prev.setState .CANDIDATE_BEST)
      else return s
  else return s

/-- `ChangeAndReselect`. -/
def changeAndReselect (s : Tracker Hash NodeId) (it : Announcement Hash NodeId)
    (new_state : State) :
    Except String (Tracker Hash NodeId) := do
  ensure (new_state = .COMPLETED ∨ new_state = .CANDIDATE_DELAYED)
    "assert(new_state == State::COMPLETED || new_state == State::CANDIDATE_DELAYED)"
  let s ← s.reselect views it
  s.modify it (it.setState new_state)

/-- `IsOnlyNonCompleted`. -/
def isOnlyNonCompleted (s : Tracker Hash NodeId) (it : Announcement Hash NodeId) :
    Except String Bool := do
  ensure (it.m_state ≠ .COMPLETED) "assert(it->GetState() != State::COMPLETED)"
  return !((views.byTxHash.prev s.m_index it).any fun it_prev => it_prev.txhash = it.txhash) &&
    !((views.byTxHash.next s.m_index it).any fun it_next =>
      it_next.txhash = it.txhash ∧ it_next.m_state ≠ .COMPLETED)

/-- `MakeCompleted`. -/
def makeCompleted (s : Tracker Hash NodeId) (it : Announcement Hash NodeId) :
    Except String (Bool × Tracker Hash NodeId) :=
  if it.m_state = .COMPLETED then return (true, s)
  else do
    if ← s.isOnlyNonCompleted views it then
      let erased := it :: (views.byTxHash.after s.m_index it).takeWhile
        fun ann => ann.txhash = it.txhash
      return (false, ← erased.foldlM erase s)
    else return (true, ← s.changeAndReselect views it .COMPLETED)

/-- The loop of `SetTimePoint` over the announcements whose time has come. -/
def forwardLoop (now : ℤ) : (fuel : ℕ) → Tracker Hash NodeId → List (NodeId × GenTxid Hash) →
    Except String (List (NodeId × GenTxid Hash) × Tracker Hash NodeId)
  | 0, _, _ => .error "out of fuel"
  | fuel + 1, s, expired =>
    match views.byTime.first s.m_index with
    | none => return (expired, s)
    | some it =>
      if it.m_state = .CANDIDATE_DELAYED ∧ it.m_time ≤ now then do
        forwardLoop now fuel (← s.promoteCandidateReady views it) expired
      else if it.m_state = .REQUESTED ∧ it.m_time ≤ now then do
        forwardLoop now fuel (← s.makeCompleted views it).2 (expired ++ [(it.m_peer, it.m_gtxid)])
      else return (expired, s)

/-- The loop of `SetTimePoint` over the candidates whose time is in the future again. -/
def backwardLoop (now : ℤ) : (fuel : ℕ) → Tracker Hash NodeId → Except String (Tracker Hash NodeId)
  | 0, _ => .error "out of fuel"
  | fuel + 1, s =>
    match views.byTime.last s.m_index with
    | none => return s
    | some it =>
      if it.isSelectable ∧ it.m_time > now then do
        backwardLoop now fuel (← s.changeAndReselect views it .CANDIDATE_DELAYED)
      else return s

/-- `SetTimePoint`. -/
def setTimePoint (s : Tracker Hash NodeId) (now : ℤ) :
    Except String (List (NodeId × GenTxid Hash) × Tracker Hash NodeId) := do
  -- Every round of the first loop leaves one waiting announcement less, and every round of the
  -- second one selectable announcement less.
  let (expired, s) ← forwardLoop views now (s.m_index.length + 1) s []
  return (expired, ← backwardLoop views now (s.m_index.length + 1) s)

/-! ## The calls -/

/-- The loop of `DisconnectedPeer`. -/
def disconnectLoop (peer : NodeId) : (fuel : ℕ) → Tracker Hash NodeId →
    Option (Announcement Hash NodeId) → Except String (Tracker Hash NodeId)
  | 0, _, _ => .error "out of fuel"
  | _ + 1, s, none => return s
  | fuel + 1, s, some it =>
    if it.m_peer ≠ peer then return s
    else do
      let it_next := (upperBound byPeer s.m_index (byPeer it)).filter fun ann => ann.m_peer = peer
      let (exists_still, s) ← s.makeCompleted views it
      if exists_still then
        disconnectLoop peer fuel (← s.erase (it.setState .COMPLETED)) it_next
      else disconnectLoop peer fuel s it_next

/-- `DisconnectedPeer`. -/
def disconnectedPeer [OrderBot Hash] (s : Tracker Hash NodeId) (peer : NodeId) :
    Except String (Tracker Hash NodeId) :=
  disconnectLoop views peer (s.m_index.length + 2) s
    (lowerBound byPeer s.m_index (toLex (peer, toLex (false, ⊥))))

/-- `ForgetTxHash`. -/
def forgetTxHash (s : Tracker Hash NodeId) (txhash : Hash) : Except String (Tracker Hash NodeId) :=
  ((views.byTxHash.onward s.m_index (toLex (txhash, toLex (0, 0)))).takeWhile fun ann =>
    ann.txhash = txhash).foldlM erase s

/-- `ReceivedInv`. -/
def receivedInv (peer : NodeId) (gtxid : GenTxid Hash) (preferred : Bool) (reqtime : ℤ) :
    Tracker Hash NodeId :=
  if (s.find peer true gtxid.toUint256).isSome then s
  else
    let ann : Announcement Hash NodeId := ⟨gtxid, reqtime, peer, s.m_current_sequence, preferred,
      .CANDIDATE_DELAYED⟩
    -- The index by peer does not take a second announcement with the same key.
    if s.m_index.any fun other => byPeer other = byPeer ann then s
    else
      let info := (s.m_peerinfo.lookup peer).getD {}
      { m_current_sequence := s.m_current_sequence + 1
        m_index := ann :: s.m_index
        m_peerinfo := s.m_peerinfo.insert peer { info with m_total := info.m_total + 1 } }

/-- `GetRequestable`: the transactions to request, the requests that have expired and the
tracker. -/
def getRequestable [OrderBot Hash] (s : Tracker Hash NodeId) (peer : NodeId) (now : ℤ) :
    Except String (List (GenTxid Hash) × List (NodeId × GenTxid Hash) × Tracker Hash NodeId) := do
  let (expired, s) ← s.setTimePoint views now
  let selected := (indexFrom byPeer s.m_index (toLex (peer, toLex (true, ⊥)))).takeWhile fun ann =>
    ann.m_peer = peer ∧ ann.m_state = .CANDIDATE_BEST
  let sorted := selected.insertionSort fun a b => a.m_sequence ≤ b.m_sequence
  return (sorted.map Announcement.m_gtxid, expired, s)

/-- The announcement of `RequestedTx` makes way for: the selected one of the txhash. -/
def releaseSelected (s : Tracker Hash NodeId) (txhash : Hash) :
    Except String (Tracker Hash NodeId) :=
  match (views.byTxHash.onward s.m_index
    (toLex (txhash, toLex (State.CANDIDATE_BEST.value, 0)))).head? with
  | none => return s
  | some it_old =>
    if it_old.txhash = txhash then
      if it_old.m_state = .CANDIDATE_BEST then s.modify it_old (it_old.setState .CANDIDATE_READY)
      else if it_old.m_state = .REQUESTED then s.modify it_old (it_old.setState .COMPLETED)
      else return s
    else return s

/-- `RequestedTx`. -/
def requestedTx (s : Tracker Hash NodeId) (peer : NodeId) (txhash : Hash) (expiry : ℤ) :
    Except String (Tracker Hash NodeId) :=
  match s.find peer true txhash with
  | some it => s.modify it (it.request expiry)
  | none =>
    match s.find peer false txhash with
    | none => return s
    | some it =>
      if it.m_state ≠ .CANDIDATE_DELAYED ∧ it.m_state ≠ .CANDIDATE_READY then return s
      else do
        let s ← s.releaseSelected views txhash
        s.modify it (it.request expiry)

/-- `ReceivedResponse`. -/
def receivedResponse (s : Tracker Hash NodeId) (peer : NodeId) (txhash : Hash) :
    Except String (Tracker Hash NodeId) :=
  match (s.find peer false txhash).or (s.find peer true txhash) with
  | none => return s
  | some it => do return (← s.makeCompleted views it).2

/-! ## Runs -/

/-- The calls that change a tracker. -/
inductive Call (Hash NodeId : Type)
  | receivedInv (peer : NodeId) (gtxid : GenTxid Hash) (preferred : Bool) (reqtime : ℤ)
  | requestedTx (peer : NodeId) (txhash : Hash) (expiry : ℤ)
  | receivedResponse (peer : NodeId) (txhash : Hash)
  | forgetTxHash (txhash : Hash)
  | disconnectedPeer (peer : NodeId)
  | getRequestable (peer : NodeId) (now : ℤ)

/-- The tracker after a call. -/
def perform [OrderBot Hash] (s : Tracker Hash NodeId) :
    Call Hash NodeId → Except String (Tracker Hash NodeId)
  | .receivedInv peer gtxid preferred reqtime => return s.receivedInv peer gtxid preferred reqtime
  | .requestedTx peer txhash expiry => s.requestedTx views peer txhash expiry
  | .receivedResponse peer txhash => s.receivedResponse views peer txhash
  | .forgetTxHash txhash => s.forgetTxHash views txhash
  | .disconnectedPeer peer => s.disconnectedPeer views peer
  | .getRequestable peer now => return (← s.getRequestable views peer now).2.2

/-- The tracker after a sequence of calls, each with its own orders of equal keys. -/
def runCalls [OrderBot Hash] (calls : List (Views computer × Call Hash NodeId)) :
    Except String (Tracker Hash NodeId) :=
  calls.foldlM (fun s call => s.perform call.1 call.2) s

end Tracker

/-! ## The sanity checks -/

/-- The fields of `TxHashInfo`. -/
structure TxHashInfo (NodeId : Type) where
  m_candidate_delayed : ℕ := 0
  m_candidate_ready : ℕ := 0
  m_candidate_best : ℕ := 0
  m_requested : ℕ := 0
  m_priority_candidate_best : ℕ := 2 ^ 64 - 1
  m_priority_best_candidate_ready : ℕ := 0
  m_peers : List NodeId := []

/-- The step of `RecomputePeerInfo`. -/
def PeerInfo.add (info : PeerInfo) (ann : Announcement Hash NodeId) : PeerInfo where
  m_total := info.m_total + 1
  m_completed := info.m_completed + (decide (ann.m_state = .COMPLETED)).toNat
  m_requested := info.m_requested + (decide (ann.m_state = .REQUESTED)).toNat

/-- `RecomputePeerInfo`. -/
def recomputePeerInfo (index : List (Announcement Hash NodeId)) :
    AList fun _ : NodeId => PeerInfo :=
  index.foldl (fun ret ann => ret.insert ann.m_peer (((ret.lookup ann.m_peer).getD {}).add ann)) ∅

/-- The step of `ComputeTxHashInfo`. -/
def TxHashInfo.add (info : TxHashInfo NodeId) (ann : Announcement Hash NodeId) :
    TxHashInfo NodeId where
  m_candidate_delayed :=
    info.m_candidate_delayed + (decide (ann.m_state = .CANDIDATE_DELAYED)).toNat
  m_candidate_ready := info.m_candidate_ready + (decide (ann.m_state = .CANDIDATE_READY)).toNat
  m_candidate_best := info.m_candidate_best + (decide (ann.m_state = .CANDIDATE_BEST)).toNat
  m_requested := info.m_requested + (decide (ann.m_state = .REQUESTED)).toNat
  m_priority_candidate_best :=
    if ann.m_state = .CANDIDATE_BEST then priority computer ann else info.m_priority_candidate_best
  m_priority_best_candidate_ready :=
    if ann.m_state = .CANDIDATE_READY then
      max info.m_priority_best_candidate_ready (priority computer ann)
    else info.m_priority_best_candidate_ready
  m_peers := info.m_peers ++ [ann.m_peer]

/-- The entry of a txhash in the map of `ComputeTxHashInfo`. -/
def computeTxHashInfo (index : List (Announcement Hash NodeId)) (txhash : Hash) :
    TxHashInfo NodeId :=
  (index.filter fun ann => ann.txhash = txhash).foldl (TxHashInfo.add computer) {}

/-- The assertions of `SanityCheck` on the entry of a txhash. -/
structure TxHashInfo.Ok (info : TxHashInfo NodeId) : Prop where
  not_only_completed : info.m_candidate_delayed + info.m_candidate_ready + info.m_candidate_best +
    info.m_requested > 0
  at_most_one : info.m_candidate_best + info.m_requested ≤ 1
  exactly_one : info.m_candidate_ready > 0 → info.m_candidate_best + info.m_requested = 1
  best : info.m_candidate_ready ≠ 0 ∧ info.m_candidate_best ≠ 0 →
    info.m_priority_candidate_best ≥ info.m_priority_best_candidate_ready
  no_duplicate : info.m_peers.Nodup

/-- `SanityCheck`. -/
structure SanityCheck (s : Tracker Hash NodeId) : Prop where
  peerinfo : s.m_peerinfo.entries.Perm (recomputePeerInfo s.m_index).entries
  txhashes : ∀ ann ∈ s.m_index, (computeTxHashInfo computer s.m_index ann.txhash).Ok

/-- `PostGetRequestableSanityCheck`. -/
def PostGetRequestableSanityCheck (s : Tracker Hash NodeId) (now : ℤ) : Prop :=
  ∀ ann ∈ s.m_index,
    if ann.isWaiting then ann.m_time > now else ann.isSelectable = true → ann.m_time ≤ now

end SlithyTove.TxRequest
