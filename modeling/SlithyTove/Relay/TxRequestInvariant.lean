import SlithyTove.Relay.TxRequestTracker

/-!
# What the tracker keeps

Two things hold between calls.  The totals of the peers are those of their announcements, and a peer
announces a txhash once (`Tracked`): every `Erase` and every `Modify` keeps this.  And of the
announcements of a txhash at most one is selected, one is if any is ready, and it is the best one
(`Settled`): this holds again at the end of each change of state, whose neighbours in the index by
txhash are enough to find the announcement that has to change with it.
-/

namespace SlithyTove.TxRequest

open Framework List

variable {Hash NodeId : Type} [LinearOrder Hash] [LinearOrder NodeId]

/-! ## The totals of the peers -/

/-- The totals of some announcements. -/
def totalsOf (anns : List (Announcement Hash NodeId)) : PeerInfo where
  m_total := anns.length
  m_completed := anns.countP fun ann => ann.m_state = .COMPLETED
  m_requested := anns.countP fun ann => ann.m_state = .REQUESTED

/-- The totals of a peer, if it has an announcement. -/
def peerInfoOf (anns : List (Announcement Hash NodeId)) (peer : NodeId) : Option PeerInfo :=
  let own := anns.filter fun ann => ann.m_peer = peer
  if own = [] then none else some (totalsOf own)

section PeerInfoOf

variable (ann : Announcement Hash NodeId) (anns : List (Announcement Hash NodeId))

omit [LinearOrder Hash] in
lemma peerInfoOf_perm {anns anns' : List (Announcement Hash NodeId)} (h : anns.Perm anns') :
    peerInfoOf anns = peerInfoOf anns' := by
  funext peer
  have hown := h.filter fun ann => ann.m_peer = peer
  unfold peerInfoOf totalsOf
  simp only [hown.length_eq, hown.countP_eq]
  congr 1
  exact propext ⟨fun hnil => by simpa [hnil] using hown, fun hnil => by simpa [hnil] using hown⟩

omit [LinearOrder Hash] [LinearOrder NodeId] in
lemma totalsOf_cons : totalsOf (ann :: anns) = (totalsOf anns).add ann := by
  simp only [totalsOf, PeerInfo.add, length_cons, countP_cons]
  cases ann.m_state <;> rfl

section

omit [LinearOrder Hash]

lemma peerInfoOf_cons_self :
    peerInfoOf (ann :: anns) ann.m_peer = some
      (((peerInfoOf anns ann.m_peer).getD {}).add ann) := by
  unfold peerInfoOf
  simp only [filter_cons, decide_true, if_true, reduceCtorEq, if_false, totalsOf_cons]
  split
  next hnil =>
    rw [hnil]
    rfl
  next => rfl

lemma peerInfoOf_cons_of_ne {peer : NodeId} (h : peer ≠ ann.m_peer) :
    peerInfoOf (ann :: anns) peer = peerInfoOf anns peer := by
  unfold peerInfoOf
  rw [filter_cons_of_neg (by simpa using h.symm)]

lemma getD_peerInfoOf (peer : NodeId) :
    peerInfoOf anns peer =
      if ((peerInfoOf anns peer).getD {}).m_total = 0 then none
      else some ((peerInfoOf anns peer).getD {}) := by
  unfold peerInfoOf
  by_cases hnil : (anns.filter fun ann => decide (ann.m_peer = peer)) = []
  · rw [if_pos hnil]
    rfl
  · rw [if_neg hnil, Option.getD_some, if_neg]
    exact fun hzero => hnil (length_eq_zero_iff.1 hzero)

end

end PeerInfoOf

/-! ## `Erase` and `Modify` -/

/-- The announcements are distinct, and the totals are theirs. -/
structure Tracked (s : Tracker Hash NodeId) : Prop where
  nodup : s.m_index.Nodup
  sequence_inj : ∀ a ∈ s.m_index, ∀ b ∈ s.m_index, a.m_sequence = b.m_sequence → a = b
  sequence_lt : ∀ a ∈ s.m_index, a.m_sequence < s.m_current_sequence
  peer_inj : ∀ a ∈ s.m_index, ∀ b ∈ s.m_index, a.m_peer = b.m_peer → a.txhash = b.txhash → a = b
  peer_info : ∀ peer, s.m_peerinfo.lookup peer = peerInfoOf s.m_index peer

omit [LinearOrder Hash] in
lemma tracked_new : Tracked (Tracker.new : Tracker Hash NodeId) where
  nodup := nodup_nil
  sequence_inj := nofun
  sequence_lt := nofun
  peer_inj := nofun
  peer_info := fun _ => rfl

variable {s : Tracker Hash NodeId} {it : Announcement Hash NodeId}

/-- An announcement that has only changed its state or its time. -/
structure Kept (it modified : Announcement Hash NodeId) : Prop where
  gtxid : modified.m_gtxid = it.m_gtxid
  peer : modified.m_peer = it.m_peer
  sequence : modified.m_sequence = it.m_sequence
  preferred : modified.m_preferred = it.m_preferred

variable {modified : Announcement Hash NodeId}

omit [LinearOrder Hash] [LinearOrder NodeId] in
lemma Kept.txhash (h : Kept it modified) : modified.txhash = it.txhash :=
  congrArg GenTxid.toUint256 h.gtxid

omit [LinearOrder Hash] [LinearOrder NodeId] in
lemma kept_setState (state : State) : Kept it (it.setState state) := ⟨rfl, rfl, rfl, rfl⟩

lemma Tracked.mem_erase_iff (h : Tracked s) {a : Announcement Hash NodeId} :
    a ∈ s.m_index.erase it ↔ a ∈ s.m_index ∧ a ≠ it := by
  rw [h.nodup.mem_erase_iff, and_comm]

lemma Tracked.findPeer (h : Tracked s) (hit : it ∈ s.m_index) :
    s.findPeer it.m_peer =
      .ok (((peerInfoOf (s.m_index.erase it) it.m_peer).getD {}).add it) := by
  unfold Tracker.findPeer
  rw [h.peer_info, peerInfoOf_perm (perm_cons_erase hit), peerInfoOf_cons_self]

/-- **`Erase` keeps the totals.** -/
lemma Tracked.erase (h : Tracked s) (hit : it ∈ s.m_index) :
    ∃ s', s.erase it = .ok s' ∧ Tracked s' ∧ s'.m_index = s.m_index.erase it := by
  unfold Tracker.erase
  rw [h.findPeer hit]
  refine ⟨_, rfl, ?_, rfl⟩
  have hsub : ∀ a ∈ s.m_index.erase it, a ∈ s.m_index := fun a ha => mem_of_mem_erase ha
  exact {
    nodup := h.nodup.erase _
    sequence_inj := fun a ha b hb => h.sequence_inj a (hsub a ha) b (hsub b hb)
    sequence_lt := fun a ha => h.sequence_lt a (hsub a ha)
    peer_inj := fun a ha b hb => h.peer_inj a (hsub a ha) b (hsub b hb)
    peer_info := by
      intro peer
      dsimp only [PeerInfo.add]
      simp only [Nat.add_sub_cancel]
      have hold := h.peer_info peer
      rw [peerInfoOf_perm (perm_cons_erase hit)] at hold
      by_cases hpeer : peer = it.m_peer
      · subst hpeer
        have hinfo := getD_peerInfoOf (s.m_index.erase it) it.m_peer
        by_cases hzero : ((peerInfoOf (s.m_index.erase it) it.m_peer).getD {}).m_total = 0
        · rw [if_pos hzero, AList.lookup_erase]
          exact (hinfo.trans (if_pos hzero)).symm
        · rw [if_neg hzero, AList.lookup_insert]
          exact (hinfo.trans (if_neg hzero)).symm
      · rw [peerInfoOf_cons_of_ne _ _ hpeer] at hold
        split
        · rw [AList.lookup_erase_ne hpeer, hold]
        · rw [AList.lookup_insert_ne hpeer, hold] }

/-- **`Modify` keeps the totals.** -/
lemma Tracked.modify (h : Tracked s) (hit : it ∈ s.m_index) (hkept : Kept it modified) :
    ∃ s', s.modify it modified = .ok s' ∧ Tracked s' ∧
      s'.m_index = modified :: s.m_index.erase it := by
  have hother : ∀ a ∈ s.m_index.erase it, a ∈ s.m_index ∧ a ≠ it := fun a => h.mem_erase_iff.1
  have hcollision : ∀ other ∈ s.m_index.erase it, byPeer other ≠ byPeer modified := by
    intro other hmem heq
    obtain ⟨hmem, hne⟩ := hother other hmem
    simp only [byPeer, EmbeddingLike.apply_eq_iff_eq, Prod.mk.injEq] at heq
    exact hne (h.peer_inj other hmem it hit (heq.1.trans hkept.peer) (heq.2.2.trans hkept.txhash))
  unfold Tracker.modify
  rw [h.findPeer hit, ok_bind]
  rw [show ensure (∀ other ∈ s.m_index.erase it, byPeer other ≠ byPeer modified)
    "modify: collision" =
    .ok () from ensure_eq_ok.2 hcollision]
  refine ⟨_, rfl, ?_, rfl⟩
  exact {
    nodup := by
      refine nodup_cons.2 ⟨fun hmem => ?_, h.nodup.erase _⟩
      exact hcollision modified hmem rfl
    sequence_inj := by
      refine eq_of_related_cons (fun _ _ => Eq.symm) (fun a ha b hb => ?_) fun a ha heq => ?_
      · exact h.sequence_inj a (hother a ha).1 b (hother b hb).1
      · obtain ⟨hmem, hne⟩ := hother a ha
        exact hne (h.sequence_inj a hmem it hit (heq.trans hkept.sequence))
    sequence_lt := by
      refine forall_mem_cons.2 ⟨?_, fun a ha => h.sequence_lt a (hother a ha).1⟩
      rw [hkept.sequence]
      exact h.sequence_lt it hit
    peer_inj := by
      intro a ha b hb hpeer hhash
      refine eq_of_related_cons (R := fun a b => a.m_peer = b.m_peer ∧ a.txhash = b.txhash)
        (fun _ _ => .imp .symm .symm) ?_ ?_ a ha b hb ⟨hpeer, hhash⟩
      · exact fun a ha b hb hab => h.peer_inj a (hother a ha).1 b (hother b hb).1 hab.1 hab.2
      · intro a ha hax
        obtain ⟨hmem, hne⟩ := hother a ha
        exact hne (h.peer_inj a hmem it hit (hax.1.trans hkept.peer) (hax.2.trans hkept.txhash))
    peer_info := by
      intro peer
      dsimp only [PeerInfo.add]
      simp only [Nat.add_sub_cancel]
      by_cases hpeer : peer = it.m_peer
      · subst hpeer
        rw [AList.lookup_insert, ← hkept.peer, peerInfoOf_cons_self]
        rfl
      · have hold := h.peer_info peer
        rw [peerInfoOf_perm (perm_cons_erase hit), peerInfoOf_cons_of_ne _ _ hpeer] at hold
        rw [AList.lookup_insert_ne hpeer, peerInfoOf_cons_of_ne _ _ (hkept.peer ▸ hpeer), hold] }

lemma Tracked.foldlM_erase :
    ∀ {anns : List (Announcement Hash NodeId)} {s : Tracker Hash NodeId}, Tracked s → anns.Nodup →
      (∀ ann ∈ anns, ann ∈ s.m_index) →
      ∃ s', anns.foldlM Tracker.erase s = .ok s' ∧ Tracked s' ∧
        ∀ a, a ∈ s'.m_index ↔ a ∈ s.m_index ∧ a ∉ anns
  | [], s, h, _, _ => ⟨s, rfl, h, fun a => by simp⟩
  | ann :: anns, s, h, hnodup, hmem => by
    obtain ⟨hnotMem, hnodup⟩ := nodup_cons.1 hnodup
    obtain ⟨s₁, hrun, h₁, hindex⟩ := h.erase (hmem ann mem_cons_self)
    have hmem₁ : ∀ other ∈ anns, other ∈ s₁.m_index := by
      intro other hother
      rw [hindex, h.mem_erase_iff]
      exact ⟨hmem other (mem_cons_of_mem _ hother), fun heq => hnotMem (heq ▸ hother)⟩
    obtain ⟨s', hrest, h', hiff⟩ := h₁.foldlM_erase hnodup hmem₁
    refine ⟨s', foldlM_cons_eq_ok.2 ⟨s₁, hrun, hrest⟩, h', fun a => ?_⟩
    rw [hiff, hindex, h.mem_erase_iff, mem_cons, not_or, and_assoc]

/-! ## The announcements of a txhash -/

variable (computer : Hash → NodeId → Bool → ℕ)

/-- Of the announcements of a txhash one is not completed, at most one is selected, one is if any is
ready, and no ready one has a higher priority than the best. -/
structure Settled (index : List (Announcement Hash NodeId)) (txhash : Hash) : Prop where
  active : ∀ a ∈ index, a.txhash = txhash → ∃ b ∈ index, b.txhash = txhash ∧ b.m_state ≠ .COMPLETED
  unique : ∀ a ∈ index, ∀ b ∈ index, a.txhash = txhash → b.txhash = txhash →
    a.isSelected = true → b.isSelected = true → a = b
  selected : ∀ a ∈ index, a.txhash = txhash → a.m_state = .CANDIDATE_READY →
    ∃ b ∈ index, b.txhash = txhash ∧ b.isSelected = true
  best : ∀ a ∈ index, ∀ b ∈ index, a.txhash = txhash → b.txhash = txhash →
    a.m_state = .CANDIDATE_READY → b.m_state = .CANDIDATE_BEST →
    priority computer a ≤ priority computer b

variable {computer} {index index' : List (Announcement Hash NodeId)} {txhash : Hash}

section States

variable {a : Announcement Hash NodeId}

omit [LinearOrder Hash] [LinearOrder NodeId]

lemma isSelected_iff :
    a.isSelected = true ↔ a.m_state = .CANDIDATE_BEST ∨ a.m_state = .REQUESTED := by
  simp [Announcement.isSelected]

lemma isWaiting_iff :
    a.isWaiting = true ↔ a.m_state = .REQUESTED ∨ a.m_state = .CANDIDATE_DELAYED := by
  simp [Announcement.isWaiting]

lemma isSelectable_iff :
    a.isSelectable = true ↔ a.m_state = .CANDIDATE_READY ∨ a.m_state = .CANDIDATE_BEST := by
  simp [Announcement.isSelectable]

lemma not_completed_of_isSelected (h : a.isSelected = true) : a.m_state ≠ .COMPLETED := by
  rcases isSelected_iff.1 h with heq | heq <;> simp [heq]

variable (state : State)

@[simp] lemma m_state_setState : (a.setState state).m_state = state := rfl

@[simp] lemma txhash_setState : (a.setState state).txhash = a.txhash := rfl

@[simp] lemma priority_setState : priority computer (a.setState state) = priority computer a := rfl

end States

/-! ### What a change of state does to its txhash -/

section Changes

variable {p : Announcement Hash NodeId}

omit [LinearOrder Hash] [LinearOrder NodeId]

lemma settled_of_selected (hp : p ∈ index') (hpx : p.txhash = txhash)
    (hselected : p.isSelected = true)
    (honly : ∀ a ∈ index', a.txhash = txhash → a.isSelected = true → a = p)
    (hbest : p.m_state = .CANDIDATE_BEST → ∀ a ∈ index', a.txhash = txhash →
      a.m_state = .CANDIDATE_READY → priority computer a ≤ priority computer p) :
    Settled computer index' txhash where
  active := fun _ _ _ => ⟨p, hp, hpx, not_completed_of_isSelected hselected⟩
  unique := fun a ha b hb hax hbx hasel hbsel =>
    (honly a ha hax hasel).trans (honly b hb hbx hbsel).symm
  selected := fun _ _ _ _ => ⟨p, hp, hpx, hselected⟩
  best := by
    intro a ha b hb hax hbx hready hbbest
    obtain rfl := honly b hb hbx (isSelected_iff.2 (.inl hbbest))
    exact hbest hbbest a ha hax hready

lemma Settled.of_old (h : Settled computer index txhash) (hold : ∀ a ∈ index', a.txhash = txhash →
      a.isSelected = true ∨ a.m_state = .CANDIDATE_READY → a ∈ index)
    (hselected : ∀ a ∈ index, a.txhash = txhash → a.m_state = .CANDIDATE_READY →
      ∀ b ∈ index, b.txhash = txhash → b.isSelected = true → b ∈ index')
    (hactive : ∀ a ∈ index', a.txhash = txhash →
      ∃ b ∈ index', b.txhash = txhash ∧ b.m_state ≠ .COMPLETED) :
    Settled computer index' txhash where
  active := hactive
  unique := fun a ha b hb hax hbx hasel hbsel => h.unique a (hold a ha hax (.inl hasel)) b
    (hold b hb hbx (.inl hbsel)) hax hbx hasel hbsel
  selected := by
    intro a ha hax hready
    have ha' := hold a ha hax (.inr hready)
    obtain ⟨b, hb, hbx, hbsel⟩ := h.selected a ha' hax hready
    exact ⟨b, hselected a ha' hax hready b hb hbx hbsel, hbx, hbsel⟩
  best := fun a ha b hb hax hbx hready hbbest => h.best a (hold a ha hax (.inr hready)) b
    (hold b hb hbx (.inl (isSelected_iff.2 (.inl hbbest)))) hax hbx hready hbbest

lemma Settled.congr (h : Settled computer index txhash)
    (hiff : ∀ a, a.txhash = txhash → (a ∈ index' ↔ a ∈ index)) :
      Settled computer index' txhash := by
  refine h.of_old (fun a ha hax _ => (hiff a hax).1 ha)
    (fun _ _ _ _ b hb hbx _ => (hiff b hbx).2 hb) fun a ha hax => ?_
  obtain ⟨b, hb, hbx, hactive⟩ := h.active a ((hiff a hax).1 ha) hax
  exact ⟨b, (hiff b hbx).2 hb, hbx, hactive⟩

lemma settled_of_removed (h : ∀ other, Settled computer index other)
    (hiff : ∀ a, a ∈ index' ↔ a ∈ index ∧ a.txhash ≠ txhash) (other : Hash) :
    Settled computer index' other := by
  by_cases htx : other = txhash
  · have hnone : ∀ a ∈ index', a.txhash ≠ other := fun a ha => htx ▸ ((hiff a).1 ha).2
    exact ⟨fun a ha hax => absurd hax (hnone a ha), fun a ha _ _ hax => absurd hax (hnone a ha),
      fun a ha hax => absurd hax (hnone a ha), fun a ha _ _ hax => absurd hax (hnone a ha)⟩
  · refine (h other).congr fun a ha => ?_
    rw [hiff, and_iff_left (ha ▸ htx)]

section

variable (h : Settled computer index it.txhash)

include h

lemma Settled.ready (hstate : it.m_state = .CANDIDATE_DELAYED) (hp : p ∈ index)
    (hpx : p.txhash = it.txhash) (hselected : p.isSelected = true)
    (hbest : p.m_state = .CANDIDATE_BEST → priority computer it ≤ priority computer p)
    (hiff : ∀ a, a ∈ index' ↔ a = it.setState .CANDIDATE_READY ∨ a ∈ index ∧ a ≠ it) :
    Settled computer index' it.txhash := by
  have hne : p ≠ it := by
    rintro rfl
    simp [isSelected_iff, hstate] at hselected
  refine settled_of_selected ((hiff p).2 (.inr ⟨hp, hne⟩)) hpx hselected (fun a ha hax hasel => ?_)
    fun hpbest a ha hax hready => ?_
  · rcases (hiff a).1 ha with rfl | ⟨ha, -⟩
    · simp [isSelected_iff] at hasel
    · exact h.unique a ha p hp hax hpx hasel hselected
  · rcases (hiff a).1 ha with rfl | ⟨ha, -⟩
    · exact hbest hpbest
    · exact h.best a ha p hp hax hpx hready hpbest

lemma Settled.becomesBest (hnone : ∀ a ∈ index, a.txhash = it.txhash → a.isSelected = false)
    (hiff : ∀ a, a ∈ index' ↔ a = it.setState .CANDIDATE_BEST ∨ a ∈ index ∧ a ≠ it) :
    Settled computer index' it.txhash := by
  refine settled_of_selected ((hiff _).2 (.inl rfl)) rfl (by simp [isSelected_iff])
    (fun a ha hax hasel => ?_) fun _ a ha hax hready => ?_
  · rcases (hiff a).1 ha with rfl | ⟨ha, -⟩
    · rfl
    · simp [hnone a ha hax] at hasel
  · rcases (hiff a).1 ha with rfl | ⟨ha, -⟩
    · cases hready
    · obtain ⟨c, hc, hcx, hselected⟩ := h.selected a ha hax hready
      simp [hnone c hc hcx] at hselected

lemma Settled.swap (hp : p ∈ index) (hpx : p.txhash = it.txhash)
    (hpbest : p.m_state = .CANDIDATE_BEST) (hlt : priority computer p < priority computer it)
    (hiff : ∀ a, a ∈ index' ↔ a = it.setState .CANDIDATE_BEST ∨ a = p.setState .CANDIDATE_READY ∨
      a ∈ index ∧ a ≠ it ∧ a ≠ p) : Settled computer index' it.txhash := by
  refine settled_of_selected ((hiff _).2 (.inl rfl)) rfl (by simp [isSelected_iff])
    (fun a ha hax hasel => ?_) fun _ a ha hax hready => ?_
  · rcases (hiff a).1 ha with rfl | rfl | ⟨ha, -, hne⟩
    · rfl
    · simp [isSelected_iff] at hasel
    · exact absurd (h.unique a ha p hp hax hpx hasel (isSelected_iff.2 (.inl hpbest))) hne
  · rcases (hiff a).1 ha with rfl | rfl | ⟨ha, -, -⟩
    · cases hready
    · exact hlt.le
    · exact (h.best a ha p hp hax hpx hready hpbest).trans hlt.le

variable {new_state : State}

lemma Settled.change (hnew : new_state = .COMPLETED ∨ new_state = .CANDIDATE_DELAYED)
    (hnone : it.isSelected = true →
      ∀ a ∈ index, a.txhash = it.txhash → a.m_state ≠ .CANDIDATE_READY)
    (hactive : new_state = .COMPLETED →
      ∃ a ∈ index, a ≠ it ∧ a.txhash = it.txhash ∧ a.m_state ≠ .COMPLETED)
    (hiff : ∀ a, a ∈ index' ↔ a = it.setState new_state ∨ a ∈ index ∧ a ≠ it) :
    Settled computer index' it.txhash := by
  refine h.of_old (fun a ha hax hor => ?_) (fun a ha hax hready b hb hbx hbsel => ?_)
    fun _ _ _ => ?_
  · rcases (hiff a).1 ha with rfl | ⟨ha, -⟩
    · rcases hnew with heq | heq <;> simp [isSelected_iff, heq] at hor
    · exact ha
  · refine (hiff b).2 (.inr ⟨hb, ?_⟩)
    rintro rfl
    exact hnone hbsel a ha hax hready
  · rcases hnew with heq | heq
    · obtain ⟨a, ha, hne, hax, hstate⟩ := hactive heq
      exact ⟨a, (hiff a).2 (.inr ⟨ha, hne⟩), hax, hstate⟩
    · exact ⟨_, (hiff _).2 (.inl rfl), rfl, by simp [heq]⟩

lemma Settled.succeed
    (hnew : new_state = .COMPLETED ∨ new_state = .CANDIDATE_DELAYED) (hit : it ∈ index)
    (hselected : it.isSelected = true) (hpx : p.txhash = it.txhash)
    (hbest : ∀ a ∈ index, a.txhash = it.txhash → a.m_state = .CANDIDATE_READY →
      priority computer a ≤ priority computer p)
    (hiff : ∀ a, a ∈ index' ↔ a = it.setState new_state ∨ a = p.setState .CANDIDATE_BEST ∨
      a ∈ index ∧ a ≠ it ∧ a ≠ p) : Settled computer index' it.txhash := by
  refine settled_of_selected ((hiff _).2 (.inr (.inl rfl))) hpx (by simp [isSelected_iff])
    (fun a ha hax hasel => ?_) fun _ a ha hax hready => ?_
  · rcases (hiff a).1 ha with rfl | rfl | ⟨ha, hne, -⟩
    · rcases hnew with heq | heq <;> simp [isSelected_iff, heq] at hasel
    · rfl
    · exact absurd (h.unique a ha it hit hax rfl hasel hselected) hne
  · rcases (hiff a).1 ha with rfl | rfl | ⟨ha, -, -⟩
    · rcases hnew with heq | heq <;> simp [heq] at hready
    · cases hready
    · exact hbest a ha hax hready

end

lemma Settled.forget (h : Settled computer index txhash) (hstate : it.m_state = .COMPLETED)
    (hiff : ∀ a, a ∈ index' ↔ a ∈ index ∧ a ≠ it) : Settled computer index' txhash := by
  refine h.of_old (fun a ha _ _ => ((hiff a).1 ha).1) (fun _ _ _ _ b hb _ hbsel => ?_)
    fun a ha hax => ?_
  · refine (hiff b).2 ⟨hb, ?_⟩
    rintro rfl
    exact not_completed_of_isSelected hbsel hstate
  · obtain ⟨b, hb, hbx, hactive⟩ := h.active a ((hiff a).1 ha).1 hax
    refine ⟨b, (hiff b).2 ⟨hb, ?_⟩, hbx, hactive⟩
    rintro rfl
    exact hactive hstate

lemma Settled.announce (h : Settled computer index txhash)
    (hstate : it.m_state = .CANDIDATE_DELAYED) :
    Settled computer (it :: index) txhash := by
  refine h.of_old (fun a ha _ hor => ?_)
    (fun _ _ _ _ _ hb _ _ => mem_cons_of_mem _ hb) fun a ha hax => ?_
  · rcases mem_cons.1 ha with rfl | ha
    · simp [isSelected_iff, hstate] at hor
    · exact ha
  · rcases mem_cons.1 ha with rfl | ha
    · exact ⟨a, mem_cons_self, hax, by simp [hstate]⟩
    · obtain ⟨b, hb, hbx, hactive⟩ := h.active a ha hax
      exact ⟨b, mem_cons_of_mem _ hb, hbx, hactive⟩

end Changes

end SlithyTove.TxRequest
