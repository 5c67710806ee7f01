import SlithyTove.Relay.TxRequestTime
import Mathlib.Algebra.GroupWithZero.Nat
import Mathlib.Order.Nat

/-!
# The calls of the tracker

Every sequence of calls keeps the invariant, so the sanity checks hold after each call, a call
changes the announcements as `Changes` says, and `GetRequestable` returns exactly the transactions
of which the peer has the best announcement.
-/

namespace SlithyTove.TxRequest

open Framework List TxRequest.Announcement

variable {Hash NodeId : Type} [LinearOrder Hash] [LinearOrder NodeId]
  {computer : Hash → NodeId → Bool → ℕ} {s : Tracker Hash NodeId} {it : Announcement Hash NodeId}

/-! ## The calls keep the invariant -/

omit [LinearOrder Hash] [LinearOrder NodeId] in
lemma kept_request (expiry : ℤ) : Kept it (it.request expiry) := ⟨rfl, rfl, rfl, rfl⟩

/-- What a call does to the announcements.  A peer announces a txhash once; a request and a response
concern one txhash; the announcements of a txhash, or those of a peer, can be forgotten; and time
makes candidates ready and lets requests expire. -/
def Tracker.Call.Changes (index index' : List (Announcement Hash NodeId)) :
    Tracker.Call Hash NodeId → Prop
  | .receivedInv peer gtxid preferred reqtime => ∃ sequence,
      (∀ b ∈ index, b.m_sequence < sequence) ∧ ∀ a, a ∈ index' ↔ a ∈ index ∨
        a = ⟨gtxid, reqtime, peer, sequence, preferred, .CANDIDATE_DELAYED⟩ ∧
          ∀ b ∈ index, b.m_peer = peer → b.txhash ≠ gtxid.toUint256
  | .requestedTx peer txhash expiry => (∀ a, a.txhash ≠ txhash → (a ∈ index' ↔ a ∈ index)) ∧
      ∀ a ∈ index, a.m_peer = peer → a.txhash = txhash → a.isCandidate = true →
        a.request expiry ∈ index'
  | .receivedResponse peer txhash => (∀ a, a.txhash ≠ txhash → (a ∈ index' ↔ a ∈ index)) ∧
      ∀ a ∈ index', a.m_peer = peer → a.txhash = txhash → a.m_state = .COMPLETED
  | .forgetTxHash txhash => ∀ a, a ∈ index' ↔ a ∈ index ∧ a.txhash ≠ txhash
  | .disconnectedPeer peer => (∀ a ∈ index', a.m_peer ≠ peer) ∧
      ∀ a, (∀ b ∈ index, b.m_peer = peer → b.txhash ≠ a.txhash) → (a ∈ index' ↔ a ∈ index)
  | .getRequestable _ now => Advanced now index index'

variable {peer : NodeId} {txhash : Hash}

lemma mem_of_find {best : Bool} (h : s.find peer best txhash = some it) :
    it ∈ s.m_index ∧ it.m_peer = peer ∧ it.txhash = txhash ∧
      decide (it.m_state = .CANDIDATE_BEST) = best := by
  have hkey := List.find?_some h
  simp only [byPeer, decide_eq_true_eq, EmbeddingLike.apply_eq_iff_eq, Prod.mk.injEq] at hkey
  exact ⟨mem_of_find?_eq_some h, hkey.1, hkey.2.2, hkey.2.1⟩

variable {a : Announcement Hash NodeId}

lemma find_eq_none {best : Bool} (h : s.find peer best txhash = none) (ha : a ∈ s.m_index) :
    byPeer a ≠ toLex (peer, toLex (best, txhash)) := by
  have hkey := List.find?_eq_none.1 h a ha
  simpa using hkey

lemma find_or_eq_none (h : (s.find peer false txhash).or (s.find peer true txhash) = none)
    (ha : a ∈ s.m_index) (hpeer : a.m_peer = peer) : a.txhash ≠ txhash := by
  obtain ⟨hfalse, htrue⟩ := Option.or_eq_none_iff.1 h
  intro htx
  by_cases hstate : a.m_state = .CANDIDATE_BEST
  · exact find_eq_none htrue ha (by simp [byPeer, hpeer, htx, hstate])
  · exact find_eq_none hfalse ha (by simp [byPeer, hpeer, htx, hstate])

variable (views : Views computer)

section

variable (h : Invariant computer s)

include h

lemma Invariant.modify (hit : it ∈ s.m_index)
    {modified : Announcement Hash NodeId} (hkept : Kept it modified)
    (hsettled : ∀ index', (∀ a, a ∈ index' ↔ a = modified ∨ a ∈ s.m_index ∧ a ≠ it) →
      Settled computer index' it.txhash) :
    ∃ s', s.modify it modified = .ok s' ∧ Invariant computer s' ∧
      ∀ a, a ∈ s'.m_index ↔ a = modified ∨ a ∈ s.m_index ∧ a ≠ it := by
  obtain ⟨s', hrun, htracked, hindex⟩ := h.tracked.modify hit hkept
  refine ⟨s', hrun, ⟨htracked, fun txhash => ?_⟩, fun a => by rw [hindex, mem_one h.tracked.nodup]⟩
  rw [hindex]
  by_cases htx : txhash = it.txhash
  · subst htx
    exact hsettled _ fun a => mem_one h.tracked.nodup
  · refine (h.settled txhash).congr fun a ha => ?_
    have hne : a ≠ modified := fun heq => htx (ha.symm.trans ((congrArg _ heq).trans hkept.txhash))
    rw [mem_one h.tracked.nodup, or_iff_right hne, and_iff_left]
    exact fun heq => htx (ha.symm.trans (congrArg _ heq))

lemma Invariant.receivedInv (peer : NodeId) (gtxid : GenTxid Hash)
    (preferred : Bool) (reqtime : ℤ) :
    Invariant computer (s.receivedInv peer gtxid preferred reqtime) ∧
      (Tracker.Call.receivedInv peer gtxid preferred reqtime).Changes s.m_index
        (s.receivedInv peer gtxid preferred reqtime).m_index := by
  have hsame : ∀ b ∈ s.m_index, b.m_peer = peer → b.txhash = gtxid.toUint256 →
      Invariant computer s ∧ (Tracker.Call.receivedInv peer gtxid preferred reqtime).Changes
        s.m_index s.m_index := by
    intro b hb hpeer htx
    refine ⟨h, _, h.tracked.sequence_lt, fun a => (or_iff_left fun hnew => ?_).symm⟩
    exact hnew.2 b hb hpeer htx
  unfold Tracker.receivedInv
  split
  next hbest =>
    obtain ⟨b, hb⟩ := Option.isSome_iff_exists.1 hbest
    obtain ⟨hmem, hpeer, htx, -⟩ := mem_of_find hb
    exact hsame b hmem hpeer htx
  next hbest =>
    dsimp only
    split
    next hother =>
      obtain ⟨b, hmem, hkey⟩ := any_eq_true.1 hother
      simp only [byPeer, decide_eq_true_eq, EmbeddingLike.apply_eq_iff_eq, Prod.mk.injEq] at hkey
      exact hsame b hmem hkey.1 hkey.2.2
    next hother =>
      have hdistinct : ∀ b ∈ s.m_index, b.m_peer = peer → b.txhash ≠ gtxid.toUint256 := by
        intro b hb hpeer htx
        by_cases hstate : b.m_state = .CANDIDATE_BEST
        · exact find_eq_none (by simpa using hbest) hb (by simp [byPeer, hpeer, htx, hstate])
        · refine hother (any_eq_true.2 ⟨b, hb, decide_eq_true ?_⟩)
          rw [byPeer, hpeer, htx, decide_eq_false hstate]
          rfl
      refine ⟨⟨?_, fun txhash => (h.settled txhash).announce rfl⟩, _, h.tracked.sequence_lt,
        fun a => by rw [mem_cons, or_comm, and_iff_left hdistinct]⟩
      exact {
        nodup := nodup_cons.2 ⟨fun hmem => hdistinct _ hmem rfl rfl, h.tracked.nodup⟩
        sequence_inj := eq_of_related_cons (fun _ _ => Eq.symm) h.tracked.sequence_inj fun a ha =>
          (h.tracked.sequence_lt a ha).ne
        sequence_lt := forall_mem_cons.2 ⟨Nat.lt_succ_self _, fun a ha =>
          Nat.lt_succ_of_lt (h.tracked.sequence_lt a ha)⟩
        peer_inj := by
          intro a ha b hb hpeer htx
          refine eq_of_related_cons (R := fun a b => a.m_peer = b.m_peer ∧ a.txhash = b.txhash)
            (fun _ _ => .imp .symm .symm) ?_ ?_ a ha b hb ⟨hpeer, htx⟩
          · exact fun a ha b hb hab => h.tracked.peer_inj a ha b hb hab.1 hab.2
          · exact fun a ha hax => hdistinct a ha hax.1 hax.2
        peer_info := by
          intro other
          by_cases hpeer : other = peer
          · subst hpeer
            rw [AList.lookup_insert, h.tracked.peer_info]
            exact (peerInfoOf_cons_self (⟨gtxid, reqtime, other, s.m_current_sequence, preferred,
              .CANDIDATE_DELAYED⟩ : Announcement Hash NodeId) s.m_index).symm
          · rw [AList.lookup_insert_ne hpeer, peerInfoOf_cons_of_ne _ _ hpeer,
              h.tracked.peer_info] }

lemma Invariant.makeCompleted (hit : it ∈ s.m_index) :
    ∃ still s', s.makeCompleted views it = .ok (still, s') ∧ Invariant computer s' ∧
      Completes computer s.m_index it still s'.m_index := by
  obtain ⟨still, s', hrun, htracked, hresult⟩ := h.tracked.makeCompleted views (h.settled _) hit
  exact ⟨still, s', hrun, ⟨htracked, hresult.settled h.tracked.nodup hit h.settled⟩, hresult⟩

lemma Invariant.receivedResponse (peer : NodeId) (txhash : Hash) :
    ∃ s', s.receivedResponse views peer txhash = .ok s' ∧ Invariant computer s' ∧
      (Tracker.Call.receivedResponse peer txhash).Changes s.m_index s'.m_index := by
  unfold Tracker.receivedResponse
  cases hfind : (s.find peer false txhash).or (s.find peer true txhash) with
  | none =>
    refine ⟨s, rfl, h, fun _ _ => Iff.rfl, fun a ha hpeer htx => ?_⟩
    exact absurd htx (find_or_eq_none hfind ha hpeer)
  | some it =>
    obtain ⟨best, hfound⟩ : ∃ best, s.find peer best txhash = some it :=
      (Option.or_eq_some_iff.1 hfind).elim (⟨_, ·⟩) (⟨_, ·.2⟩)
    obtain ⟨hit, rfl, rfl, -⟩ := mem_of_find hfound
    obtain ⟨still, s', hrun, h', hresult⟩ := h.makeCompleted views hit
    refine ⟨s', ?_, h', fun a ha => hresult.mem_iff h.tracked.nodup ha, fun a ha hpeer htx => ?_⟩
    · dsimp only
      rw [hrun]
      rfl
    · cases still with
      | true =>
        rw [h'.tracked.peer_inj a ha _ (hresult.mem_completed hit) hpeer htx]
        rfl
      | false => exact absurd htx (hresult.txhash_ne ha)

omit [LinearOrder NodeId] h in
lemma le_byTxHash_iff (txhash : Hash) (value : ℕ) (a : Announcement Hash NodeId) :
    (toLex (txhash, toLex (value, 0)) : Hash ×ₗ ℕ ×ₗ ℕ) ≤ byTxHash computer a ↔
      txhash < a.txhash ∨ txhash = a.txhash ∧ value ≤ a.m_state.value := by
  rw [byTxHash, Prod.Lex.toLex_le_toLex, Prod.Lex.toLex_le_toLex, le_iff_lt_or_eq (a := value)]
  simp

omit [LinearOrder NodeId] h in
lemma mem_forgotten (txhash : Hash) :
    a ∈ (views.byTxHash.onward s.m_index (toLex (txhash, toLex (0, 0)))).takeWhile
      (fun ann => ann.txhash = txhash) ↔ a ∈ s.m_index ∧ a.txhash = txhash := by
  have hkey : ∀ a : Announcement Hash NodeId,
      (toLex (txhash, toLex (0, 0)) : Hash ×ₗ ℕ ×ₗ ℕ) ≤ byTxHash computer a ↔
        txhash ≤ a.txhash := by
    intro a
    rw [le_byTxHash_iff, le_iff_lt_or_eq (a := txhash)]
    simp
  have hfirst : (views.byTxHash.onward s.m_index (toLex (txhash, toLex (0, 0)))).Pairwise fun a b =>
      decide (b.txhash = txhash) = true → decide (a.txhash = txhash) = true := by
    refine views.byTxHash.pairwise_onward.imp_of_mem fun ha _ hab hb => decide_eq_true ?_
    have hge := (hkey _).1 (views.byTxHash.mem_onward.1 ha).2
    exact le_antisymm ((txhash_le_of_le hab).trans (of_decide_eq_true hb).le) hge
  rw [takeWhile_eq_filter hfirst, mem_filter, views.byTxHash.mem_onward, hkey, decide_eq_true_eq]
  exact ⟨fun h => ⟨h.1.1, h.2⟩, fun h => ⟨⟨h.1, h.2.ge⟩, h.2⟩⟩

lemma Invariant.forgetTxHash (txhash : Hash) :
    ∃ s', s.forgetTxHash views txhash = .ok s' ∧ Invariant computer s' ∧
      (Tracker.Call.forgetTxHash txhash).Changes s.m_index s'.m_index := by
  have hnodup : ((views.byTxHash.onward s.m_index (toLex (txhash, toLex (0, 0)))).takeWhile
      fun ann => decide (ann.txhash = txhash)).Nodup :=
    (views.byTxHash.nodup_onward h.tracked.nodup).sublist (takeWhile_sublist _)
  obtain ⟨s', hrun, htracked, hiff⟩ := h.tracked.foldlM_erase hnodup
    fun a ha => ((mem_forgotten views txhash).1 ha).1
  have hiff' : ∀ a, a ∈ s'.m_index ↔ a ∈ s.m_index ∧ a.txhash ≠ txhash := by
    intro a
    rw [hiff, mem_forgotten views txhash, not_and, and_congr_right_iff]
    exact fun ha => ⟨fun h => h ha, fun h _ => h⟩
  exact ⟨s', hrun, ⟨htracked, settled_of_removed h.settled hiff'⟩, hiff'⟩

/-- One announcement of a peer goes; those of other txhashes stay. -/
lemma Invariant.completeAndErase (hit : it ∈ s.m_index) :
    ∃ still s₁ s', s.makeCompleted views it = .ok (still, s₁) ∧
      (if still then s₁.erase (it.setState .COMPLETED) else .ok s₁) = .ok s' ∧
      Invariant computer s' ∧ s'.m_index.length < s.m_index.length ∧
      (∀ a, a.txhash ≠ it.txhash → (a ∈ s'.m_index ↔ a ∈ s.m_index)) ∧
      ∀ a ∈ s'.m_index, a.m_peer = it.m_peer → a.txhash ≠ it.txhash := by
  obtain ⟨still, s₁, hrun, h₁, hresult⟩ := h.makeCompleted views hit
  have hlength := hresult.length_le hit h.tracked.nodup h₁.tracked.nodup
  have hiff := fun a ha => hresult.mem_iff (a := a) h.tracked.nodup ha
  cases still with
  | true =>
    have hcompleted := hresult.mem_completed hit
    have hpos := length_pos_of_mem hcompleted
    obtain ⟨s', hrun', h', hindex⟩ := h₁.tracked.erase hcompleted
    have hmem : ∀ a, a ∈ s'.m_index ↔ a ∈ s₁.m_index ∧ a ≠ it.setState .COMPLETED := fun a => by
      rw [hindex, h₁.tracked.mem_erase_iff]
    refine ⟨true, s₁, s', hrun, hrun', ⟨h', fun txhash => (h₁.settled txhash).forget rfl hmem⟩, ?_,
      fun a ha => ?_, fun a ha hpeer htx => ?_⟩
    · rw [hindex, length_erase_of_mem hcompleted]
      simp only [Bool.not_true, Bool.toNat_false] at hlength
      omega
    · rw [hmem, and_iff_left (ne_setState ha _), hiff a ha]
    · obtain ⟨ha, hne⟩ := (hmem a).1 ha
      exact hne (h₁.tracked.peer_inj a ha _ hcompleted hpeer htx)
  | false =>
    rw [Bool.not_false, Bool.toNat_true] at hlength
    exact ⟨false, s₁, s₁, hrun, rfl, h₁, by omega, hiff, fun a ha _ => hresult.txhash_ne ha⟩

/-- What the loop of `DisconnectedPeer` has at hand: no announcement of the peer comes earlier. -/
structure AtHand (peer : NodeId) (s : Tracker Hash NodeId)
    (next : Option (Announcement Hash NodeId)) : Prop where
  mem : ∀ it, next = some it → it ∈ s.m_index ∧ peer ≤ it.m_peer
  first : ∀ a ∈ s.m_index, a.m_peer = peer → ∃ it, next = some it ∧ byPeer it ≤ byPeer a

omit h in
/-- **The loop of `DisconnectedPeer`** goes on with an announcement that still exists: what happens
to one announcement does not touch the others of the peer, which have other txhashes. -/
lemma Invariant.disconnectLoop (peer : NodeId) :
    ∀ {fuel : ℕ} {s : Tracker Hash NodeId} (next : Option (Announcement Hash NodeId)),
      Invariant computer s → AtHand peer s next → s.m_index.length + 1 < fuel →
      ∃ s', s.disconnectLoop views peer fuel next = .ok s' ∧ Invariant computer s' ∧
        (Tracker.Call.disconnectedPeer peer).Changes s.m_index s'.m_index
  | 0, _, _, _, _, hfuel => absurd hfuel (Nat.not_lt_zero _)
  | fuel + 1, s, none, h, hnext, _ => by
    refine ⟨s, rfl, h, fun a ha hpeer => ?_, fun _ _ => Iff.rfl⟩
    obtain ⟨it, hit, -⟩ := hnext.first a ha hpeer
    cases hit
  | fuel + 1, s, some it, h, hnext, hfuel => by
    obtain ⟨hit, hge⟩ := hnext.mem it rfl
    have hfirst : ∀ a ∈ s.m_index, a.m_peer = peer → byPeer it ≤ byPeer a := by
      intro a ha hpeer
      obtain ⟨_, hsome, hle⟩ := hnext.first a ha hpeer
      cases hsome
      exact hle
    unfold Tracker.disconnectLoop
    split
    next hpeer =>
      refine ⟨s, rfl, h, fun a ha hapeer => ?_, fun _ _ => Iff.rfl⟩
      have hle := Prod.Lex.monotone_fst _ _ (hfirst a ha hapeer)
      exact hpeer (le_antisymm (hle.trans hapeer.le) hge)
    next hpeer =>
      obtain rfl := not_not.1 hpeer
      obtain ⟨still, s₁, s₂, hrun, herase, h₂, hlength, hiff, hgone⟩ := h.completeAndErase views hit
      -- The other announcements of the peer come later, and so the next one is of the peer.
      have hlater : ∀ a ∈ s₂.m_index, a.m_peer = it.m_peer →
          a ∈ s.m_index ∧ byPeer it < byPeer a := by
        intro a ha hapeer
        have hne := hgone a ha hapeer
        have hmem := (hiff a hne).1 ha
        refine ⟨hmem, (hfirst a hmem hapeer).lt_of_ne fun heq => hne ?_⟩
        exact (congrArg (fun key => (ofLex (ofLex key).2).2) heq).symm
      have hnext₂ : AtHand it.m_peer s₂ ((upperBound byPeer s.m_index (byPeer it)).filter
          fun ann => decide (ann.m_peer = it.m_peer)) := by
        refine ⟨fun n hn => ?_, fun a ha hapeer => ?_⟩
        · obtain ⟨hn, hnpeer⟩ := Option.filter_eq_some_iff.1 hn
          obtain ⟨hmem, hlt⟩ := mem_of_upperBound hn
          have hnpeer := of_decide_eq_true hnpeer
          refine ⟨(hiff n fun htx => ?_).2 hmem, hnpeer.ge⟩
          rw [h.tracked.peer_inj n hmem it hit hnpeer htx] at hlt
          exact lt_irrefl _ hlt
        · obtain ⟨hmem, hlt⟩ := hlater a ha hapeer
          cases hn : upperBound byPeer s.m_index (byPeer it) with
          | none => exact absurd hlt (not_lt.2 (upperBound_eq_none.1 hn a hmem))
          | some n =>
            have hle := le_of_upperBound hn hmem hlt
            have hnpeer : n.m_peer = it.m_peer :=
              le_antisymm ((Prod.Lex.monotone_fst _ _ hle).trans hapeer.le)
                (Prod.Lex.monotone_fst _ _ (mem_of_upperBound hn).2.le)
            exact ⟨n, by simp [hnpeer], hle⟩
      obtain ⟨s', hrest, h', hremoved, hkept⟩ :=
        Invariant.disconnectLoop it.m_peer _ h₂ hnext₂ (show _ < fuel by omega)
      refine ⟨s', ?_, h', hremoved, fun a ha => ?_⟩
      · rw [hrun, ok_bind]
        cases still with
        | true => exact bind_eq_ok.2 ⟨s₂, herase, hrest⟩
        | false =>
          cases herase
          exact hrest
      · rw [hkept a fun b hb hbpeer => ha b (hlater b hb hbpeer).1 hbpeer,
          hiff a (ha it hit rfl).symm]

lemma Invariant.disconnectedPeer [OrderBot Hash] (peer : NodeId) :
    ∃ s', s.disconnectedPeer views peer = .ok s' ∧ Invariant computer s' ∧
      (Tracker.Call.disconnectedPeer peer).Changes s.m_index s'.m_index := by
  have hkey : ∀ a : Announcement Hash NodeId,
      toLex (peer, toLex (false, ⊥)) ≤ byPeer a ↔ peer ≤ a.m_peer := fun a => by
    rw [byPeer, Prod.Lex.toLex_le_toLex, Prod.Lex.toLex_le_toLex, le_iff_lt_or_eq (a := peer)]
    cases decide (a.m_state = .CANDIDATE_BEST) <;> simp
  refine Invariant.disconnectLoop views peer _ h ⟨fun it hit => ?_, fun a ha hpeer => ?_⟩
    (Nat.lt_succ_self _)
  · obtain ⟨hmem, hle⟩ := mem_of_lowerBound hit
    exact ⟨hmem, (hkey it).1 hle⟩
  · have hle := (hkey a).2 hpeer.ge
    cases hfind : lowerBound byPeer s.m_index (toLex (peer, toLex (false, ⊥))) with
    | none => exact absurd hle (not_le.2 (lowerBound_eq_none.1 hfind a ha))
    | some it => exact ⟨it, rfl, le_of_lowerBound hfind ha hle⟩

omit [LinearOrder NodeId] h in
lemma head_onward {index : List (Announcement Hash NodeId)}
    (hsettled : Settled computer index txhash) (ha : a ∈ index) (hax : a.txhash = txhash)
    (hselected : a.isSelected = true) :
    (views.byTxHash.onward index (toLex (txhash, toLex (State.CANDIDATE_BEST.value, 0)))).head? =
      some a := by
  have hvalue : 2 ≤ a.m_state.value ∧ a.m_state.value ≤ 3 := by
    rcases isSelected_iff.1 hselected with heq | heq <;> simp [heq, State.value]
  have hmem : a ∈ views.byTxHash.onward index
      (toLex (txhash, toLex (State.CANDIDATE_BEST.value, 0))) :=
    views.byTxHash.mem_onward.2 ⟨ha, (le_byTxHash_iff _ _ _).2 (.inr ⟨hax.symm, hvalue.1⟩)⟩
  have hsorted := views.byTxHash.pairwise_onward (l := index)
    (k := toLex (txhash, toLex (State.CANDIDATE_BEST.value, 0)))
  cases hlist : views.byTxHash.onward index
    (toLex (txhash, toLex (State.CANDIDATE_BEST.value, 0))) with
  | nil =>
    rw [hlist] at hmem
    cases hmem
  | cons o rest =>
    have ho := views.byTxHash.mem_onward.1 (hlist ▸ mem_cons_self : o ∈ _)
    rw [hlist] at hmem hsorted
    have hle : byTxHash computer o ≤ byTxHash computer a := by
      rcases mem_cons.1 hmem with rfl | hmem
      · exact le_rfl
      · exact (pairwise_cons.1 hsorted).1 a hmem
    have hox : o.txhash = txhash ∧ State.CANDIDATE_BEST.value ≤ o.m_state.value := by
      rcases (le_byTxHash_iff _ _ _).1 ho.2 with hlt | ⟨heq, hge⟩
      · exact absurd ((txhash_le_of_le hle).trans hax.le) (not_le.2 hlt)
      · exact ⟨heq.symm, hge⟩
    have hovalue := value_le_of_le hle (hox.1.trans hax.symm)
    have hoselected : o.isSelected = true := by
      have hlower := hox.2
      have hupper := hovalue.trans hvalue.2
      rw [isSelected_iff]
      cases hstate : o.m_state <;> rw [hstate] at hlower hupper <;>
        simp [State.value] at hlower hupper ⊢
    exact congrArg some (hsettled.unique o ho.1 a ha hox.1 hax hoselected hselected)

/-- The selected announcement of a txhash, if any, has made way. -/
structure Released (txhash : Hash) (s s' : Tracker Hash NodeId) : Prop where
  tracked : Tracked s'
  none_selected : ∀ a ∈ s'.m_index, a.txhash = txhash → a.isSelected = false
  kept : ∀ a ∈ s.m_index, a.isSelected = false → a ∈ s'.m_index
  others : ∀ a, a.txhash ≠ txhash → (a ∈ s'.m_index ↔ a ∈ s.m_index)

/-- `RequestedTx` finds the selected announcement of the txhash that has to make way. -/
lemma Invariant.releaseSelected (txhash : Hash) :
    ∃ s', s.releaseSelected views txhash = .ok s' ∧ Released txhash s s' := by
  have hsettled := h.settled txhash
  have hunchanged : (∀ a ∈ s.m_index, a.txhash = txhash → a.isSelected = false) →
      ∃ s', (.ok s : Except String (Tracker Hash NodeId)) = .ok s' ∧ Released txhash s s' :=
    fun hnone => ⟨s, rfl, h.tracked, hnone, fun _ ha _ => ha, fun _ _ => Iff.rfl⟩
  have hchanged : ∀ {old : Announcement Hash NodeId} {state : State}, old ∈ s.m_index →
      old.txhash = txhash → old.isSelected = true → (old.setState state).isSelected = false →
      ∃ s', s.modify old (old.setState state) = .ok s' ∧ Released txhash s s' := by
    intro old state hold holdx hselected hreleased
    obtain ⟨s', hrun, htracked, hindex⟩ := h.tracked.modify hold (kept_setState state)
    refine ⟨s', hrun, htracked, ?_, ?_, ?_⟩
    · intro a ha hax
      rw [hindex, mem_one h.tracked.nodup] at ha
      rcases ha with rfl | ⟨ha, hne⟩
      · exact hreleased
      · exact Bool.eq_false_iff.2 fun hasel =>
          hne (hsettled.unique a ha old hold hax holdx hasel hselected)
    · intro a ha hasel
      rw [hindex, mem_one h.tracked.nodup]
      refine .inr ⟨ha, ?_⟩
      rintro rfl
      rw [hselected] at hasel
      cases hasel
    · intro a hax
      rw [hindex]
      exact mem_one_of_ne h.tracked.nodup (holdx ▸ hax) state
  unfold Tracker.releaseSelected
  cases hfind : (views.byTxHash.onward s.m_index
    (toLex (txhash, toLex (State.CANDIDATE_BEST.value, 0)))).head? with
  | none =>
    refine hunchanged fun a ha hax => Bool.eq_false_iff.2 fun hasel => ?_
    rw [head_onward views hsettled ha hax hasel] at hfind
    cases hfind
  | some old =>
    have hold : old ∈ s.m_index := (views.byTxHash.mem_onward.1 (mem_of_mem_head? hfind)).1
    have hother : (old.txhash = txhash → old.isSelected = false) →
        ∀ a ∈ s.m_index, a.txhash = txhash → a.isSelected = false := by
      intro hnot a ha hax
      refine Bool.eq_false_iff.2 fun hasel => ?_
      rw [head_onward views hsettled ha hax hasel] at hfind
      cases hfind
      rw [hnot hax] at hasel
      cases hasel
    dsimp only
    split
    next holdx =>
      split
      next hbest => exact hchanged hold holdx (isSelected_iff.2 (.inl hbest)) rfl
      next hbest =>
        split
        next hrequested => exact hchanged hold holdx (isSelected_iff.2 (.inr hrequested)) rfl
        next hrequested =>
          refine hunchanged (hother fun _ => Bool.eq_false_iff.2 fun hselected => ?_)
          exact (isSelected_iff.1 hselected).elim hbest hrequested
    next holdx => exact hunchanged (hother fun hax => absurd hax holdx)

omit [LinearOrder Hash] [LinearOrder NodeId] h in
lemma mem_modified_of_ne {expiry : ℤ} {index : List (Announcement Hash NodeId)}
    (ha : a.txhash ≠ it.txhash) : a = it.request expiry ∨ a ∈ index ∧ a ≠ it ↔ a ∈ index := by
  rw [or_iff_right, and_iff_left]
  · exact fun heq => ha (congrArg _ heq)
  · rintro rfl
    exact ha rfl

lemma Invariant.requestedTx (peer : NodeId) (txhash : Hash) (expiry : ℤ) :
    ∃ s', s.requestedTx views peer txhash expiry = .ok s' ∧ Invariant computer s' ∧
      (Tracker.Call.requestedTx peer txhash expiry).Changes s.m_index s'.m_index := by
  unfold Tracker.requestedTx
  cases hbest : s.find peer true txhash with
  | some it =>
    obtain ⟨hit, rfl, rfl, hstate⟩ := mem_of_find hbest
    have hselected : it.isSelected = true := isSelected_iff.2 (.inl (of_decide_eq_true hstate))
    obtain ⟨s', hrun, h', hiff⟩ := h.modify hit (kept_request expiry) fun index' hiff => by
      have hrequested : it.request expiry ∈ index' := (hiff _).2 (.inl rfl)
      refine settled_of_selected hrequested rfl rfl (fun a ha hax hasel => ?_)
        (by simp [Announcement.request])
      rcases (hiff a).1 ha with heq | ⟨ha, hne⟩
      · exact heq
      · exact absurd ((h.settled it.txhash).unique a ha it hit hax rfl hasel hselected) hne
    refine ⟨s', hrun, h', fun a ha => ?_, fun a ha hpeer htx _ => ?_⟩
    · rw [hiff, mem_modified_of_ne ha]
    · rw [h.tracked.peer_inj a ha it hit hpeer htx]
      exact (hiff _).2 (.inl rfl)
  | none =>
    cases hfind : s.find peer false txhash with
    | none =>
      refine ⟨s, rfl, h, fun _ _ => Iff.rfl, fun a ha hpeer htx => ?_⟩
      exact absurd htx (find_or_eq_none (Option.or_eq_none_iff.2 ⟨hfind, hbest⟩) ha hpeer)
    | some it =>
      obtain ⟨hit, rfl, rfl, hnotBest⟩ := mem_of_find hfind
      dsimp only
      split
      next hstate =>
        refine ⟨s, rfl, h, fun _ _ => Iff.rfl, fun a ha hpeer htx hcandidate => ?_⟩
        rw [h.tracked.peer_inj a ha it hit hpeer htx] at hcandidate
        cases hcase : it.m_state <;> simp [hcase, isCandidate] at hstate hnotBest hcandidate
      next hstate =>
        rw [not_and_or, not_not, not_not] at hstate
        have hnot : it.isSelected = false := by
          rcases hstate with heq | heq <;> simp [isSelected, heq]
        obtain ⟨s₁, hrun₁, h₁, hnone, hkept, hother⟩ := h.releaseSelected views it.txhash
        obtain ⟨s', hrun, htracked, hindex⟩ :=
          h₁.modify (hkept it hit hnot) (kept_request expiry)
        have hothers : ∀ a, a.txhash ≠ it.txhash → (a ∈ s'.m_index ↔ a ∈ s.m_index) := by
          intro a ha
          rw [hindex, mem_one h₁.nodup, mem_modified_of_ne ha, hother a ha]
        have hrequested : it.request expiry ∈ s'.m_index := hindex ▸ mem_cons_self
        refine ⟨s', bind_eq_ok.2 ⟨s₁, hrun₁, hrun⟩, ⟨htracked, fun other => ?_⟩, hothers,
          fun a ha hpeer htx _ => h.tracked.peer_inj a ha it hit hpeer htx ▸ hrequested⟩
        by_cases htx : other = it.txhash
        · subst htx
          refine settled_of_selected hrequested rfl rfl (fun a ha hax hasel => ?_)
            (by simp [Announcement.request])
          rw [hindex] at ha
          rcases (mem_one h₁.nodup).1 ha with heq | ⟨ha, -⟩
          · exact heq
          · rw [hnone a ha hax] at hasel
            cases hasel
        · exact (h.settled other).congr fun a ha => hothers a (ha ▸ htx)

/-! ## `GetRequestable` -/

omit h in
lemma getRequestable_eq [OrderBot Hash] {now : ℤ}
    {expired : List (NodeId × GenTxid Hash)} {s' : Tracker Hash NodeId}
    (hrun : s.setTimePoint views now = .ok (expired, s')) :
    s.getRequestable views peer now = .ok
      ((((indexFrom byPeer s'.m_index (toLex (peer, toLex (true, ⊥)))).takeWhile fun ann =>
        ann.m_peer = peer ∧ ann.m_state = .CANDIDATE_BEST).insertionSort
          fun a b => a.m_sequence ≤ b.m_sequence).map m_gtxid, expired, s') := by
  unfold Tracker.getRequestable
  rw [hrun]
  rfl

/-- **Every call** succeeds and keeps the invariant. -/
lemma Invariant.perform [OrderBot Hash] (call : Tracker.Call Hash NodeId) :
    ∃ s', s.perform views call = .ok s' ∧ Invariant computer s' ∧
      call.Changes s.m_index s'.m_index := by
  cases call with
  | receivedInv peer gtxid preferred reqtime =>
    exact ⟨_, rfl, h.receivedInv peer gtxid preferred reqtime⟩
  | requestedTx peer txhash expiry => exact h.requestedTx views peer txhash expiry
  | receivedResponse peer txhash => exact h.receivedResponse views peer txhash
  | forgetTxHash txhash => exact h.forgetTxHash views txhash
  | disconnectedPeer peer => exact h.disconnectedPeer views peer
  | getRequestable peer now =>
    obtain ⟨expired, s', hrun, h', hadvanced, -⟩ := h.setTimePoint views now
    refine ⟨s', ?_, h', hadvanced⟩
    rw [Tracker.perform, getRequestable_eq views hrun]
    rfl

end

omit [LinearOrder Hash] in
lemma invariant_new : Invariant computer (Tracker.new : Tracker Hash NodeId) where
  tracked := tracked_new
  settled := fun _ => ⟨nofun, nofun, nofun, nofun⟩

lemma Invariant.runCalls [OrderBot Hash] :
    ∀ (calls : List (Views computer × Tracker.Call Hash NodeId)) {s : Tracker Hash NodeId},
      Invariant computer s → ∃ s', s.runCalls calls = .ok s' ∧ Invariant computer s'
  | [], s, h => ⟨s, rfl, h⟩
  | call :: calls, s, h => by
    obtain ⟨s₁, hrun, h₁, -⟩ := h.perform call.1 call.2
    obtain ⟨s', hrest, h'⟩ := Invariant.runCalls calls h₁
    exact ⟨s', foldlM_cons_eq_ok.2 ⟨s₁, hrun, hrest⟩, h'⟩

/-! ## The sanity checks -/

omit [LinearOrder Hash] in
lemma lookup_recomputePeerInfo (index : List (Announcement Hash NodeId)) (peer : NodeId) :
    (recomputePeerInfo index).lookup peer = peerInfoOf index peer := by
  unfold recomputePeerInfo
  induction index using List.reverseRecOn generalizing peer with
  | nil => rfl
  | append_singleton index ann ih =>
    rw [foldl_append, foldl_cons, foldl_nil,
      peerInfoOf_perm (perm_append_singleton ann index)]
    by_cases hpeer : peer = ann.m_peer
    · rw [hpeer, AList.lookup_insert, peerInfoOf_cons_self, ih]
    · rw [AList.lookup_insert_ne hpeer, peerInfoOf_cons_of_ne _ _ hpeer, ih]

variable (computer) in
/-- What `ComputeTxHashInfo` finds for the announcements of a txhash. -/
structure Summary (own : List (Announcement Hash NodeId)) (info : TxHashInfo NodeId) : Prop where
  delayed : info.m_candidate_delayed = own.countP fun a => a.m_state = .CANDIDATE_DELAYED
  ready : info.m_candidate_ready = own.countP fun a => a.m_state = .CANDIDATE_READY
  best : info.m_candidate_best = own.countP fun a => a.m_state = .CANDIDATE_BEST
  requested : info.m_requested = own.countP fun a => a.m_state = .REQUESTED
  best_priority : info.m_candidate_best ≠ 0 →
    ∃ b ∈ own, b.m_state = .CANDIDATE_BEST ∧ info.m_priority_candidate_best = priority computer b
  ready_priority : ∀ bound,
    (∀ a ∈ own, a.m_state = .CANDIDATE_READY → priority computer a ≤ bound) →
    info.m_priority_best_candidate_ready ≤ bound
  peers : info.m_peers = own.map m_peer

variable (own : List (Announcement Hash NodeId))

omit [LinearOrder Hash] [LinearOrder NodeId] in
lemma countP_append_toNat (ann : Announcement Hash NodeId) (p : Announcement Hash NodeId → Bool) :
    (own ++ [ann]).countP p = own.countP p + (p ann).toNat := by
  rw [countP_append, countP_singleton]
  cases p ann <;> rfl

variable (computer) in
section

omit [LinearOrder Hash] [LinearOrder NodeId]

lemma summary_foldl (own : List (Announcement Hash NodeId)) :
    Summary computer own (own.foldl (TxHashInfo.add computer) {}) := by
  induction own using List.reverseRecOn with
  | nil => exact ⟨rfl, rfl, rfl, rfl, fun h => absurd rfl h, fun _ _ => Nat.zero_le _, rfl⟩
  | append_singleton own ann ih =>
    rw [foldl_append, foldl_cons, foldl_nil]
    generalize own.foldl (TxHashInfo.add computer) {} = info at ih
    exact {
      delayed := by rw [countP_append_toNat, ← ih.delayed]; rfl
      ready := by rw [countP_append_toNat, ← ih.ready]; rfl
      best := by rw [countP_append_toNat, ← ih.best]; rfl
      requested := by rw [countP_append_toNat, ← ih.requested]; rfl
      best_priority := by
        intro hsome
        by_cases hstate : ann.m_state = .CANDIDATE_BEST
        · exact ⟨ann, by simp, hstate, if_pos hstate⟩
        · have hold : info.m_candidate_best ≠ 0 := by
            simpa [TxHashInfo.add, hstate] using hsome
          obtain ⟨b, hb, hbest, hpriority⟩ := ih.best_priority hold
          exact ⟨b, mem_append_left _ hb, hbest, (if_neg hstate).trans hpriority⟩
      ready_priority := by
        intro bound hbound
        have hold := ih.ready_priority bound fun a ha => hbound a (mem_append_left _ ha)
        simp only [TxHashInfo.add]
        split
        next hready => exact max_le hold (hbound ann (by simp) hready)
        next => exact hold
      peers := by
        rw [map_append, ← ih.peers]
        rfl }

lemma countP_isSelected :
    (own.countP fun a => a.m_state = .CANDIDATE_BEST) +
    (own.countP fun a => a.m_state = .REQUESTED) =
      own.countP isSelected := by
  induction own with
  | nil => rfl
  | cons a own ih =>
    cases hstate : a.m_state <;> simp [isSelected, hstate] <;> omega

lemma countP_le_one {own : List (Announcement Hash NodeId)} {p : Announcement Hash NodeId → Bool}
    (hnodup : own.Nodup) (hunique : ∀ a ∈ own, ∀ b ∈ own, p a = true → p b = true → a = b) :
    own.countP p ≤ 1 := by
  rw [countP_eq_length_filter]
  have hfilter := hnodup.filter p
  cases hlist : own.filter p with
  | nil => exact Nat.zero_le _
  | cons a rest =>
    cases rest with
    | nil => exact le_rfl
    | cons b rest =>
      have ha := mem_filter.1 (hlist ▸ mem_cons_self : a ∈ own.filter p)
      have hb := mem_filter.1
        (hlist ▸ mem_cons_of_mem _ mem_cons_self : b ∈ own.filter p)
      rw [hlist, hunique a ha.1 b hb.1 ha.2 hb.2] at hfilter
      exact absurd mem_cons_self (nodup_cons.1 hfilter).1

end

lemma Invariant.txHashInfo (h : Invariant computer s) {ann : Announcement Hash NodeId}
    (hann : ann ∈ s.m_index) : (computeTxHashInfo computer s.m_index ann.txhash).Ok := by
  have hsettled := h.settled ann.txhash
  have hsummary := summary_foldl computer (s.m_index.filter fun a => a.txhash = ann.txhash)
  have hown : ∀ a, a ∈ (s.m_index.filter fun a => decide (a.txhash = ann.txhash)) ↔
      a ∈ s.m_index ∧ a.txhash = ann.txhash := fun a => by rw [mem_filter, decide_eq_true_eq]
  change (List.foldl (TxHashInfo.add computer) {}
    (s.m_index.filter fun a => decide (a.txhash = ann.txhash))).Ok
  have hnodup := h.tracked.nodup.filter fun a => decide (a.txhash = ann.txhash)
  generalize (s.m_index.filter fun a => decide (a.txhash = ann.txhash)) = own
    at hsummary hown hnodup ⊢
  generalize own.foldl (TxHashInfo.add computer) {} = info at hsummary ⊢
  have hselected := countP_isSelected own
  rw [← hsummary.best, ← hsummary.requested] at hselected
  have hone : own.countP isSelected ≤ 1 := by
    refine countP_le_one hnodup fun a ha b hb hasel hbsel => ?_
    exact hsettled.unique a ((hown a).1 ha).1 b ((hown b).1 hb).1 ((hown a).1 ha).2
      ((hown b).1 hb).2 hasel hbsel
  exact {
    not_only_completed := by
      obtain ⟨b, hb, hbx, hactive⟩ := hsettled.active ann hann rfl
      have hmem := (hown b).2 ⟨hb, hbx⟩
      have hpos : ∀ state, b.m_state = state → 0 < own.countP fun a => a.m_state = state :=
        fun state heq => countP_pos_iff.2 ⟨b, hmem, decide_eq_true heq⟩
      rw [hsummary.delayed, hsummary.ready, hsummary.best, hsummary.requested]
      cases hstate : b.m_state with
      | COMPLETED => exact absurd hstate hactive
      | _ =>
        have hcount := hpos _ hstate
        omega
    at_most_one := hselected ▸ hone
    exactly_one := by
      intro hready
      rw [hsummary.ready] at hready
      obtain ⟨a, ha, hstate⟩ := countP_pos_iff.1 hready
      obtain ⟨ha, hax⟩ := (hown a).1 ha
      obtain ⟨b, hb, hbx, hbsel⟩ := hsettled.selected a ha hax (of_decide_eq_true hstate)
      have hpos : 0 < own.countP isSelected :=
        countP_pos_iff.2 ⟨b, (hown b).2 ⟨hb, hbx⟩, hbsel⟩
      omega
    best := by
      rintro ⟨-, hbest⟩
      obtain ⟨b, hb, hbstate, hpriority⟩ := hsummary.best_priority hbest
      obtain ⟨hb, hbx⟩ := (hown b).1 hb
      rw [hpriority]
      refine hsummary.ready_priority _ fun a ha hready => ?_
      obtain ⟨ha, hax⟩ := (hown a).1 ha
      exact hsettled.best a ha b hb hax hbx hready hbstate
    no_duplicate := by
      rw [hsummary.peers]
      refine List.Nodup.map_on (fun a ha b hb hpeer => ?_) hnodup
      obtain ⟨ha, hax⟩ := (hown a).1 ha
      obtain ⟨hb, hbx⟩ := (hown b).1 hb
      exact h.tracked.peer_inj a ha b hb hpeer (hax.trans hbx.symm) }

/-- **The invariant passes the check.** -/
lemma Invariant.sanityCheck (h : Invariant computer s) : SanityCheck computer s where
  peerinfo := by
    refine lookup_ext s.m_peerinfo.nodupKeys (recomputePeerInfo s.m_index).nodupKeys ?_
    intro peer info
    change info ∈ s.m_peerinfo.lookup peer ↔ info ∈ (recomputePeerInfo s.m_index).lookup peer
    rw [lookup_recomputePeerInfo, h.tracked.peer_info]
  txhashes := fun _ => h.txHashInfo

/-! ## What `GetRequestable` returns -/

variable (computer) in
/-- The announcements of a peer to request: candidates whose time has come, of a txhash without an
open request, and no other such candidate of the txhash has a higher priority. -/
def Requestable (s : Tracker Hash NodeId) (peer : NodeId) (now : ℤ) (a : Announcement Hash NodeId) :
    Prop :=
  a ∈ s.m_index ∧ a.m_peer = peer ∧ a.isCandidate = true ∧ a.m_time ≤ now ∧
    (∀ b ∈ s.m_index, b.txhash = a.txhash → ¬ (b.m_state = .REQUESTED ∧ now < b.m_time)) ∧
    ∀ b ∈ s.m_index, b.txhash = a.txhash → b.isCandidate = true → b.m_time ≤ now →
      ¬ priority computer a < priority computer b

instance (peer : NodeId) (now : ℤ) : DecidablePred (Requestable computer s peer now) :=
  fun a => by unfold Requestable; infer_instance

variable {b : Announcement Hash NodeId}

section

omit [LinearOrder Hash] [LinearOrder NodeId]

lemma eq_of_plain_eq (h : a.plain = b.plain) :
    a.m_gtxid = b.m_gtxid ∧ a.m_time = b.m_time ∧ a.m_peer = b.m_peer ∧
      a.m_sequence = b.m_sequence ∧ a.m_preferred = b.m_preferred := by
  simpa [plain, setState] using h

lemma txhash_of_plain_eq (h : a.plain = b.plain) : a.txhash = b.txhash :=
  congrArg GenTxid.toUint256 (eq_of_plain_eq h).1

lemma priority_of_plain_eq (h : a.plain = b.plain) : priority computer a = priority computer b := by
  obtain ⟨-, -, hpeer, -, hpreferred⟩ := eq_of_plain_eq h
  rw [priority, priority, txhash_of_plain_eq h, hpeer, hpreferred]

end

lemma mem_collected [OrderBot Hash] :
    a ∈ (indexFrom byPeer s.m_index (toLex (peer, toLex (true, ⊥)))).takeWhile
      (fun ann => ann.m_peer = peer ∧ ann.m_state = .CANDIDATE_BEST) ↔
      a ∈ s.m_index ∧ a.m_peer = peer ∧ a.m_state = .CANDIDATE_BEST := by
  have hkey : ∀ a : Announcement Hash NodeId,
      (toLex (peer, toLex (true, ⊥)) : NodeId ×ₗ Bool ×ₗ Hash) ≤ byPeer a ↔
        peer < a.m_peer ∨ peer = a.m_peer ∧ a.m_state = .CANDIDATE_BEST := by
    intro a
    rw [byPeer, Prod.Lex.toLex_le_toLex, Prod.Lex.toLex_le_toLex]
    by_cases hbest : a.m_state = .CANDIDATE_BEST <;> simp [hbest]
  have hfirst : (indexFrom byPeer s.m_index (toLex (peer, toLex (true, ⊥)))).Pairwise fun a b =>
      decide (b.m_peer = peer ∧ b.m_state = .CANDIDATE_BEST) = true →
        decide (a.m_peer = peer ∧ a.m_state = .CANDIDATE_BEST) = true := by
    refine pairwise_indexFrom.imp_of_mem fun ha _ hab hb => decide_eq_true ?_
    have hpeer := (Prod.Lex.monotone_fst _ _ hab).trans (of_decide_eq_true hb).1.le
    rcases (hkey _).1 (mem_indexFrom.1 ha).2 with hlt | ⟨heq, hbest⟩
    · exact absurd hpeer (not_le.2 hlt)
    · exact ⟨heq.symm, hbest⟩
  rw [takeWhile_eq_filter hfirst, mem_filter, mem_indexFrom, hkey, decide_eq_true_eq]
  exact ⟨fun h => ⟨h.1.1, h.2⟩, fun h => ⟨⟨h.1, .inr ⟨h.2.1.symm, h.2.2⟩⟩, h.2⟩⟩

section Exact

variable {s' : Tracker Hash NodeId} {peer : NodeId} {now : ℤ} {a : Announcement Hash NodeId}
  (hpost : PostGetRequestableSanityCheck s' now)

include hpost

omit [LinearOrder Hash] [LinearOrder NodeId] in
lemma selectable_of_candidate (ha : a ∈ s'.m_index)
    (hcandidate : a.isCandidate = true) (htime : a.m_time ≤ now) :
    a.m_state = .CANDIDATE_READY ∨ a.m_state = .CANDIDATE_BEST := by
  have hcheck := hpost a ha
  obtain ⟨hnot, hnot'⟩ := isCandidate_iff.1 hcandidate
  cases hstate : a.m_state with
  | CANDIDATE_DELAYED =>
    rw [if_pos (isWaiting_iff.2 (.inr hstate))] at hcheck
    omega
  | CANDIDATE_READY => exact .inl rfl
  | CANDIDATE_BEST => exact .inr rfl
  | REQUESTED => exact absurd hstate hnot
  | COMPLETED => exact absurd hstate hnot'

omit [LinearOrder Hash] [LinearOrder NodeId] in
lemma time_le_of_best (ha : a ∈ s'.m_index)
    (hbest : a.m_state = .CANDIDATE_BEST) : a.m_time ≤ now := by
  have hcheck := hpost a ha
  rw [if_neg (by simp [isWaiting, hbest])] at hcheck
  exact hcheck (isSelectable_iff.2 (.inr hbest))

omit [LinearOrder Hash] in
lemma requestable_of_best (h' : Invariant computer s')
    (hadvanced : Advanced now s.m_index s'.m_index) (ha : a ∈ s'.m_index) (hpeer : a.m_peer = peer)
    (hbest : a.m_state = .CANDIDATE_BEST) :
    ∃ c, Requestable computer s peer now c ∧ c.plain = a.plain := by
  have hcandidate : a.isCandidate = true := by simp [isCandidate_iff, hbest]
  have hselected : a.isSelected = true := isSelected_iff.2 (.inl hbest)
  have hsettled := h'.settled a.txhash
  obtain ⟨c, hc, hccandidate, hplain⟩ := hadvanced.candidate_of a ha hcandidate
  have hcx := txhash_of_plain_eq hplain
  refine ⟨c, ⟨hc, (eq_of_plain_eq hplain).2.2.1.trans hpeer, hccandidate, ?_, ?_, ?_⟩, hplain⟩
  · rw [(eq_of_plain_eq hplain).2.1]
    exact time_le_of_best hpost ha hbest
  · rintro b hb hbx ⟨hrequested, htime⟩
    have hb' := hadvanced.requested b hb hrequested htime
    have heq := hsettled.unique b hb' a ha (hbx.trans hcx) rfl (isSelected_iff.2 (.inr hrequested))
      hselected
    rw [heq, hbest] at hrequested
    cases hrequested
  · intro b hb hbx hbcandidate htime
    obtain ⟨b', hb', hb'candidate, hbplain⟩ := hadvanced.candidate b hb hbcandidate
    have hb'x : b'.txhash = a.txhash := (txhash_of_plain_eq hbplain).trans (hbx.trans hcx)
    rw [not_lt, ← priority_of_plain_eq hbplain, priority_of_plain_eq hplain]
    have hb'time : b'.m_time ≤ now := (eq_of_plain_eq hbplain).2.1.trans_le htime
    rcases selectable_of_candidate hpost hb' hb'candidate hb'time with hstate | hstate
    · exact hsettled.best b' hb' a ha hb'x rfl hstate hbest
    · rw [hsettled.unique b' hb' a ha hb'x rfl (isSelected_iff.2 (.inl hstate)) hselected]

omit [LinearOrder Hash] in
/-- A requestable announcement is the best one after `SetTimePoint`, as no two announcements of a
txhash have the same priority. -/
lemma best_of_requestable (hinj : ∀ txhash peer preferred peer' preferred',
      computer txhash peer preferred = computer txhash peer' preferred' → peer = peer')
    (h' : Invariant computer s') (hadvanced : Advanced now s.m_index s'.m_index)
    (ha : Requestable computer s peer now a) :
    ∃ c ∈ s'.m_index, c.m_peer = peer ∧ c.m_state = .CANDIDATE_BEST ∧ c.plain = a.plain := by
  obtain ⟨hmem, hpeer, hcandidate, htime, hopen, hhighest⟩ := ha
  obtain ⟨c, hc, hccandidate, hplain⟩ := hadvanced.candidate a hmem hcandidate
  have hcx := txhash_of_plain_eq hplain
  have hctime : c.m_time ≤ now := (eq_of_plain_eq hplain).2.1.trans_le htime
  refine ⟨c, hc, (eq_of_plain_eq hplain).2.2.1.trans hpeer, ?_, hplain⟩
  rcases selectable_of_candidate hpost hc hccandidate hctime with hready | hbest
  · -- The selected announcement beside it would be an open request or have a higher priority.
    obtain ⟨b, hb, hbx, hselected⟩ := (h'.settled c.txhash).selected c hc rfl hready
    rcases isSelected_iff.1 hselected with hbbest | hrequested
    · have hbcandidate : b.isCandidate = true := by simp [isCandidate_iff, hbbest]
      obtain ⟨b₀, hb₀, hb₀candidate, hbplain⟩ := hadvanced.candidate_of b hb hbcandidate
      have hbtime : b₀.m_time ≤ now :=
        (eq_of_plain_eq hbplain).2.1.trans_le (time_le_of_best hpost hb hbbest)
      have hb₀x : b₀.txhash = a.txhash := (txhash_of_plain_eq hbplain).trans (hbx.trans hcx)
      have hle := not_lt.1 (hhighest b₀ hb₀ hb₀x hb₀candidate hbtime)
      rw [priority_of_plain_eq hbplain, ← priority_of_plain_eq hplain] at hle
      have hge := (h'.settled c.txhash).best c hc b hb rfl hbx hready hbbest
      have heq := le_antisymm hle hge
      rw [priority, priority, hbx] at heq
      have hsame := h'.tracked.peer_inj b hb c hc (hinj _ _ _ _ _ heq) hbx
      rw [hsame, hready] at hbbest
      cases hbbest
    · have hcheck := hpost b hb
      rw [if_pos (isWaiting_iff.2 (.inl hrequested))] at hcheck
      have hb₀ := hadvanced.requested_of b hb hrequested
      exact absurd ⟨hrequested, hcheck⟩ (hopen b hb₀ (hbx.trans hcx))
  · exact hbest

end Exact

omit [LinearOrder Hash] [LinearOrder NodeId] in
lemma pairwise_insertionSort_lt {l : List (Announcement Hash NodeId)} (hnodup : l.Nodup)
    (hinj : ∀ a ∈ l, ∀ b ∈ l, a.m_sequence = b.m_sequence → a = b) :
    (l.insertionSort fun a b => a.m_sequence ≤ b.m_sequence).Pairwise
      fun a b => a.m_sequence < b.m_sequence := by
  have hperm := perm_insertionSort (fun a b => a.m_sequence ≤ b.m_sequence) l
  have hsorted := pairwise_insertionSort (fun a b : Announcement Hash NodeId =>
    a.m_sequence ≤ b.m_sequence) l
  refine (hsorted.and (hperm.nodup_iff.2 hnodup)).imp_of_mem fun ha hb hab => ?_
  refine lt_of_le_of_ne hab.1 fun heq => hab.2 ?_
  exact hinj _ (hperm.mem_iff.1 ha) _ (hperm.mem_iff.1 hb) heq

/-- **`GetRequestable`** returns the requestable announcements in the order in which they were
made. -/
lemma Invariant.getRequestable [OrderBot Hash]
    (hinj : ∀ txhash peer preferred peer' preferred',
      computer txhash peer preferred = computer txhash peer' preferred' → peer = peer')
    (views : Views computer) (h : Invariant computer s) (peer : NodeId) (now : ℤ) :
    ∃ (anns : List (Announcement Hash NodeId)) (expired : List (NodeId × GenTxid Hash))
      (s' : Tracker Hash NodeId), s.getRequestable views peer now =
        .ok (anns.map m_gtxid, expired, s') ∧
      SanityCheck computer s' ∧ PostGetRequestableSanityCheck s' now ∧
      anns.Pairwise (fun a b => a.m_sequence < b.m_sequence) ∧
      ∀ a, a ∈ anns ↔ Requestable computer s peer now a := by
  obtain ⟨expired, s', hrun, h', hadvanced, hpost⟩ := h.setTimePoint views now
  let anns := (s.m_index.filter fun a => Requestable computer s peer now a).insertionSort
    fun a b => a.m_sequence ≤ b.m_sequence
  have hmem : ∀ a, a ∈ anns ↔ Requestable computer s peer now a := by
    intro a
    rw [mem_insertionSort, mem_filter, decide_eq_true_eq]
    exact ⟨fun ha => ha.2, fun ha => ⟨ha.1, ha⟩⟩
  have hanns : anns.Pairwise fun a b => a.m_sequence < b.m_sequence :=
    pairwise_insertionSort_lt (h.tracked.nodup.filter _) fun a ha b hb =>
      h.tracked.sequence_inj a (mem_filter.1 ha).1 b (mem_filter.1 hb).1
  refine ⟨anns, expired, s', ?_, h'.sanityCheck, hpost, hanns, hmem⟩
  rw [getRequestable_eq views hrun]
  let collected := (indexFrom byPeer s'.m_index (toLex (peer, toLex (true, ⊥)))).takeWhile
    fun ann => decide (ann.m_peer = peer ∧ ann.m_state = .CANDIDATE_BEST)
  have hcollected : (collected.insertionSort fun a b => a.m_sequence ≤ b.m_sequence).Pairwise
      fun a b => a.m_sequence < b.m_sequence := by
    refine pairwise_insertionSort_lt ?_ fun a ha b hb =>
      h'.tracked.sequence_inj a (mem_collected.1 ha).1 b (mem_collected.1 hb).1
    exact (nodup_indexFrom h'.tracked.nodup).sublist (takeWhile_sublist _)
  -- Both lists are in strict order and have the same announcements, up to the states.
  have hplain : (collected.insertionSort fun a b => a.m_sequence ≤ b.m_sequence).map
      plain = anns.map plain := by
    refine List.Pairwise.eq_of_mem_iff (r := fun a b => a.m_sequence < b.m_sequence)
      (pairwise_map.2 hcollected) (pairwise_map.2 hanns) fun x => ?_
    simp only [mem_map, mem_insertionSort, hmem]
    constructor
    · rintro ⟨a, ha, rfl⟩
      obtain ⟨ha, hpeer, hbest⟩ := mem_collected.1 ha
      exact requestable_of_best hpost h' hadvanced ha hpeer hbest
    · rintro ⟨a, ha, rfl⟩
      obtain ⟨c, hc, hpeer, hbest, heq⟩ := best_of_requestable hpost hinj h' hadvanced ha
      exact ⟨c, mem_collected.2 ⟨hc, hpeer, hbest⟩, heq⟩
  have hgtxid : ∀ l : List (Announcement Hash NodeId),
      l.map m_gtxid = (l.map plain).map m_gtxid :=
    fun l => by rw [map_map]; rfl
  rw [hgtxid anns, ← hplain, ← hgtxid]

/-- **The tracker of transaction requests.**  After every sequence of calls, with times that may go
backwards and whatever the order of equal keys, no assertion has failed and the sanity check holds.
The next call, whichever it is, changes the announcements as it has to, and `GetRequestable`
returns, in the order of the announcements, exactly the transactions that the peer is the best one
to be asked for. -/
theorem tracker_correct [OrderBot Hash]
    (hinj : ∀ txhash peer preferred peer' preferred',
      computer txhash peer preferred = computer txhash peer' preferred' → peer = peer')
    (calls : List (Views computer × Tracker.Call Hash NodeId)) :
    ∃ s, (Tracker.new : Tracker Hash NodeId).runCalls calls = .ok s ∧ SanityCheck computer s ∧
      (∀ (views : Views computer) (call : Tracker.Call Hash NodeId),
        ∃ s', s.perform views call = .ok s' ∧ call.Changes s.m_index s'.m_index) ∧
      ∀ (views : Views computer) (peer : NodeId) (now : ℤ),
      ∃ (anns : List (Announcement Hash NodeId)) (expired : List (NodeId × GenTxid Hash))
        (s' : Tracker Hash NodeId),
        s.getRequestable views peer now = .ok (anns.map m_gtxid, expired, s') ∧
        SanityCheck computer s' ∧ PostGetRequestableSanityCheck s' now ∧
        anns.Pairwise (fun a b => a.m_sequence < b.m_sequence) ∧
        ∀ a, a ∈ anns ↔ Requestable computer s peer now a := by
  have hnew : Invariant computer (Tracker.new : Tracker Hash NodeId) := invariant_new
  obtain ⟨s, hrun, h⟩ := hnew.runCalls calls
  refine ⟨s, hrun, h.sanityCheck, fun views call => ?_, h.getRequestable hinj⟩
  obtain ⟨s', hperform, -, hchanges⟩ := h.perform views call
  exact ⟨s', hperform, hchanges⟩

/-- A priority that grows with the number of the peer. -/
def peerNumber (_ : ℕ) (peer : Fin 3) (_ : Bool) : ℕ := peer

/-- Equal keys in the order of the container. -/
def stableViews : Views peerNumber := ⟨stableOrder _, stableOrder _⟩

local instance neZero_three : NeZero 3 := Nat.instNeZeroSucc

/-- Two peers announce a transaction, the second one for a later time, and the first one is asked
for it. -/
def twoAnnouncements : List (Views peerNumber × Tracker.Call ℕ (Fin 3)) :=
  [(stableViews, .receivedInv 1 ⟨true, 7⟩ true 10), (stableViews, .receivedInv 2 ⟨true, 7⟩ true 20),
    (stableViews, .getRequestable 1 15), (stableViews, .requestedTx 1 7 30)]

theorem tracker_correct_twoAnnouncements :
    (∀ txhash peer preferred peer' preferred',
      peerNumber txhash peer preferred = peerNumber txhash peer' preferred' → peer = peer') ∧
    ∃ s, (Tracker.new : Tracker ℕ (Fin 3)).runCalls twoAnnouncements = .ok s ∧
      SanityCheck peerNumber s ∧
      ∃ (anns : List (Announcement ℕ (Fin 3))) (expired : List (Fin 3 × GenTxid ℕ))
        (s' : Tracker ℕ (Fin 3)),
        s.getRequestable stableViews 2 30 = .ok (anns.map m_gtxid, expired, s') ∧
        anns.map m_gtxid = [⟨true, 7⟩] ∧ ∀ a, a ∈ anns ↔ Requestable peerNumber s 2 30 a := by
  have hinj : ∀ txhash peer preferred peer' preferred',
      peerNumber txhash peer preferred = peerNumber txhash peer' preferred' → peer = peer' :=
    fun _ _ _ _ _ heq => Fin.ext heq
  obtain ⟨s, hrun, hcheck, -, hrequest⟩ := tracker_correct hinj twoAnnouncements
  obtain ⟨anns, expired, s', hget, -, -, -, hmem⟩ := hrequest stableViews 2 30
  -- The request to the first peer has expired, and the second one is asked.
  have hreturned : ((Tracker.new : Tracker ℕ (Fin 3)).runCalls twoAnnouncements >>= fun s =>
      Prod.fst <$> s.getRequestable stableViews 2 30) = .ok [⟨true, 7⟩] := by decide +kernel
  rw [hrun, ok_bind, hget] at hreturned
  exact ⟨hinj, s, hrun, hcheck, anns, expired, s', hget, Except.ok.inj hreturned, hmem⟩

end SlithyTove.TxRequest
