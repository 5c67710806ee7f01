import SlithyTove.Orphanage.Bookkeeping

/-!
# Trimming the orphanage

`LimitOrphans` takes announcements from the peers with a DoS score above one.  While the orphanage
is over a global limit there is such a peer: the shares of the peers add up to no more than the
limits, and the totals of the peers to no less than the global ones (`needsTrim_eq_false`).  Peers
leave while it runs, which lowers the limit of the usage and not the shares.  So every round finds a
peer in the heap, erases one of its announcements at least, and the loop ends.
-/

namespace SlithyTove.TxOrphanage

open Framework List Nat

variable {Hash NodeId : Type} [LinearOrder Hash] [LinearOrder NodeId]
  {wtxid : CTransaction Hash → Hash} {T : Set (CTransaction Hash)} {s : TxOrphanage Hash NodeId}

/-! ## Sums over peers and over transactions -/

variable (anns : List (Announcement Hash NodeId))

/-- The peers that have announcements. -/
def peersOf : Finset NodeId :=
  (anns.map Announcement.m_announcer).toFinset

variable {peer : NodeId}

omit [LinearOrder Hash] in
lemma peerInfoOf_eq_some {anns : List (Announcement Hash NodeId)} (h : peer ∈ peersOf anns) :
    peerInfoOf anns peer = some (totalsOf (anns.filter fun ann => ann.m_announcer = peer)) := by
  obtain ⟨ann, hann, rfl⟩ := mem_map.1 (mem_toFinset.1 h)
  unfold peerInfoOf
  rw [if_neg]
  intro hnil
  exact not_mem_nil (hnil ▸ mem_filter.2 ⟨hann, by simp⟩)

omit [LinearOrder Hash] in
lemma peerInfoOf_eq_none {anns : List (Announcement Hash NodeId)} (h : peer ∉ peersOf anns) :
    peerInfoOf anns peer = none := by
  unfold peerInfoOf
  rw [if_pos]
  refine filter_eq_nil_iff.2 fun ann hann heq => h ?_
  rw [← of_decide_eq_true heq]
  exact mem_toFinset.2 (mem_map_of_mem hann)

variable {max_lat : ℕ}

section

variable (h : Consistent wtxid T s)

include h

lemma Consistent.keys_eq : s.m_peer_orphanage_info.keys.toFinset = peersOf s.m_orphans := by
  ext peer
  rw [mem_toFinset, ← AList.mem_keys, ← AList.lookup_isSome, h.peer_info]
  by_cases hpeer : peer ∈ peersOf s.m_orphans
  · simp [peerInfoOf_eq_some hpeer, hpeer]
  · simp [peerInfoOf_eq_none hpeer, hpeer]

lemma Consistent.length_entries :
    s.m_peer_orphanage_info.entries.length = (peersOf s.m_orphans).card := by
  rw [← h.keys_eq, toFinset_card_of_nodup s.m_peer_orphanage_info.keys_nodup]
  exact (length_map _).symm

lemma Consistent.entry_eq {entry : Σ _ : NodeId, PeerDoSInfo}
    (hentry : entry ∈ s.m_peer_orphanage_info.entries) :
    peerInfoOf s.m_orphans entry.1 = some entry.2 := by
  rw [← h.peer_info]
  exact AList.mem_lookup_iff.2 hentry

omit [LinearOrder Hash] h in
lemma sum_peers (f : Announcement Hash NodeId → ℕ) :
    ∑ peer ∈ peersOf anns, ((anns.filter fun ann => ann.m_announcer = peer).map f).sum =
      (anns.map f).sum := by
  -- The set of peers stays as it is while the induction takes announcements away.
  suffices h : ∀ (peers : Finset NodeId) (own : List (Announcement Hash NodeId)),
      (∀ ann ∈ own, ann.m_announcer ∈ peers) →
      ∑ peer ∈ peers, ((own.filter fun ann => ann.m_announcer = peer).map f).sum =
        (own.map f).sum by
    exact h _ _ fun ann hann => mem_toFinset.2 (mem_map_of_mem hann)
  intro peers own
  induction own with
  | nil => simp
  | cons ann own ih =>
    intro hmem
    have hsplit : ∀ peer, (((ann :: own).filter fun a => a.m_announcer = peer).map f).sum =
        (if ann.m_announcer = peer then f ann else 0) +
          ((own.filter fun a => a.m_announcer = peer).map f).sum := by
      intro peer
      by_cases heq : ann.m_announcer = peer
      · simp [heq]
      · simp [heq]
    simp only [hsplit]
    rw [Finset.sum_add_distrib, Finset.sum_ite_eq, if_pos (hmem ann mem_cons_self),
      ih fun a ha => hmem a (mem_cons_of_mem _ ha), map_cons, sum_cons]

lemma Consistent.sum_entries (total : PeerDoSInfo → ℕ)
    (f : Announcement Hash NodeId → ℕ) (htotal : ∀ anns, total (totalsOf anns) = (anns.map f).sum) :
    (s.m_peer_orphanage_info.entries.map fun entry => total entry.2).sum =
      (s.m_orphans.map f).sum := by
  rw [← sum_peers, ← h.keys_eq]
  rw [sum_toFinset _ s.m_peer_orphanage_info.keys_nodup, AList.keys, List.keys, map_map]
  congr 1
  refine map_congr_left fun entry hentry => ?_
  have hinfo := h.entry_eq hentry
  have hpeer : entry.1 ∈ peersOf s.m_orphans := by
    by_contra hnot
    rw [peerInfoOf_eq_none hnot] at hinfo
    cases hinfo
  rw [peerInfoOf_eq_some hpeer, Option.some_inj] at hinfo
  rw [← hinfo, htotal]
  rfl

omit [LinearOrder NodeId] h in
lemma sum_txsOf_le (f : CTransaction Hash → ℕ) :
    ∑ tx ∈ txsOf anns, f tx ≤ (anns.map fun ann => f ann.m_tx).sum := by
  induction anns with
  | nil => simp [txsOf]
  | cons ann anns ih =>
    rw [txsOf_cons, map_cons, sum_cons]
    by_cases hmem : ann.m_tx ∈ txsOf anns
    · rw [Finset.insert_eq_of_mem hmem]
      omega
    · rw [Finset.sum_insert hmem]
      omega

omit [LinearOrder NodeId] h in
lemma latency_le : ∑ tx ∈ txsOf anns, tx.vin.length / 10 + anns.length ≤
      (anns.map Announcement.getLatencyScore).sum := by
  have hinputs := sum_txsOf_le anns fun tx => tx.vin.length / 10
  have hsum : (anns.map Announcement.getLatencyScore).sum =
      anns.length + (anns.map fun ann => ann.m_tx.vin.length / 10).sum := by
    induction anns with
    | nil => rfl
    | cons ann anns ih =>
      simp only [map_cons, sum_cons, length_cons]
      rw [ih (sum_txsOf_le anns _), Announcement.getLatencyScore]
      ring
  omega

lemma Consistent.totalLatencyScore_le : s.totalLatencyScore ≤
      (s.m_peer_orphanage_info.entries.map fun entry => entry.2.m_total_latency_score).sum := by
  rw [h.sum_entries PeerDoSInfo.m_total_latency_score Announcement.getLatencyScore fun _ => rfl]
  rw [totalLatencyScore, h.unique_rounded_input_scores]
  exact_mod_cast latency_le s.m_orphans

lemma Consistent.usage_le : s.m_unique_orphan_usage ≤
      (s.m_peer_orphanage_info.entries.map fun entry => entry.2.m_total_usage).sum := by
  rw [h.sum_entries PeerDoSInfo.m_total_usage Announcement.getMemUsage fun _ => rfl]
  rw [h.unique_orphan_usage]
  exact_mod_cast sum_txsOf_le s.m_orphans CTransaction.weight

/-- **While a limit is exceeded a peer exceeds its share**: with all peers within shares that add up
to no more than the limits, there is nothing to trim. -/
lemma Consistent.needsTrim_eq_false
    (hshares : s.m_peer_orphanage_info.entries.length * max_lat ≤
      s.limits.m_max_global_latency_score)
    (hwithin : ∀ entry ∈ s.m_peer_orphanage_info.entries,
      entry.2.m_total_latency_score ≤ max_lat ∧
        entry.2.m_total_usage ≤ s.limits.m_reserved_usage_per_peer) : s.needsTrim = false := by
  have hlatency := h.totalLatencyScore_le
  have husage := h.usage_le
  have hlat := sum_le_card_nsmul
    (s.m_peer_orphanage_info.entries.map fun entry => entry.2.m_total_latency_score) max_lat
    (forall_mem_map.2 fun entry hentry => (hwithin entry hentry).1)
  have hmem := sum_le_card_nsmul
    (s.m_peer_orphanage_info.entries.map fun entry => entry.2.m_total_usage)
    s.limits.m_reserved_usage_per_peer
    (forall_mem_map.2 fun entry hentry => (hwithin entry hentry).2)
  rw [length_map, smul_eq_mul] at hlat hmem
  have hglobal : s.m_peer_orphanage_info.entries.length * s.limits.m_reserved_usage_per_peer ≤
      s.maxGlobalUsage := by
    rw [maxGlobalUsage, mul_comm]
    exact mul_le_mul_left _ (le_max_left _ _)
  unfold needsTrim
  rw [decide_eq_false_iff_not, not_or]
  exact ⟨by omega, by omega⟩

end

/-! ## Scores -/

/-- The score of a peer, when the shares are positive. -/
def dosScore (info : PeerDoSInfo) (max_lat max_mem : ℕ) : FeeFrac :=
  FeeFrac.max ⟨info.m_total_latency_score, max_lat⟩ ⟨info.m_total_usage, max_mem⟩

variable {info : PeerDoSInfo} {max_mem : ℕ}

lemma getDosScore_eq (hlat : 0 < max_lat) (hmem : 0 < max_mem) :
    info.getDosScore max_lat max_mem = .ok (dosScore info max_lat max_mem) := by
  rw [PeerDoSInfo.getDosScore, ensure_bind hlat, ensure_bind hmem]
  rfl

lemma higher_dosScore (hlat : 0 < max_lat) (hmem : 0 < max_mem) :
    (dosScore info max_lat max_mem).higher ⟨1, 1⟩ = true ↔
      max_lat < info.m_total_latency_score ∨ max_mem < info.m_total_usage := by
  have hone : ∀ total share : ℕ, FeeFrac.higher ⟨total, share⟩ ⟨1, 1⟩ = true ↔ share < total := by
    intro total share
    simp [FeeFrac.higher]
  unfold dosScore FeeFrac.max
  rw [← hone, ← hone]
  split
  next hless =>
    have hback := FeeFrac.less_asymm hless
    exact ⟨.inr, fun h => h.elim
      (FeeFrac.higher_of_not_less (Int.natCast_pos.2 hmem) (Int.natCast_pos.2 hlat) hback) id⟩
  next hless =>
    rw [Bool.not_eq_true] at hless
    exact ⟨.inl, fun h => h.elim id
      (FeeFrac.higher_of_not_less (Int.natCast_pos.2 hlat) (Int.natCast_pos.2 hmem) hless)⟩

lemma size_dosScore_pos (hlat : 0 < max_lat) (hmem : 0 < max_mem) :
    0 < (dosScore info max_lat max_mem).size := by
  unfold dosScore FeeFrac.max
  split
  · exact Int.natCast_pos.2 hmem
  · exact Int.natCast_pos.2 hlat

/-! ## The heap -/

lemma heapFront_mem : ∀ {heap : List (HeapEntry NodeId)} {front : HeapEntry NodeId},
    heapFront heap = some front → front ∈ heap
  | entry :: heap, front, h => by
    rw [heapFront] at h
    cases hrest : heapFront heap with
    | none =>
      rw [hrest] at h
      cases h
      exact mem_cons_self
    | some front' =>
      rw [hrest] at h
      have hmem := heapFront_mem hrest
      cases h
      split
      · exact mem_cons_of_mem _ hmem
      · exact mem_cons_self

lemma heapFront_eq_none {heap : List (HeapEntry NodeId)} (h : heapFront heap = none) :
    heap = [] := by
  cases heap with
  | nil => rfl
  | cons entry heap =>
    rw [heapFront] at h
    cases hrest : heapFront heap with
    | none =>
      rw [hrest] at h
      cases h
    | some front =>
      rw [hrest] at h
      cases h

lemma higher_heapFront : ∀ {heap : List (HeapEntry NodeId)} {front : HeapEntry NodeId},
    (∀ entry ∈ heap, 0 < entry.2.size) → heapFront heap = some front →
    (∃ entry ∈ heap, entry.2.higher ⟨1, 1⟩ = true) → front.2.higher ⟨1, 1⟩ = true
  | entry :: heap, front, hsize, h, hex => by
    rw [heapFront] at h
    cases hrest : heapFront heap with
    | none =>
      rw [hrest] at h
      cases h
      obtain ⟨entry', hmem, hhigher⟩ := hex
      rw [heapFront_eq_none hrest, mem_singleton] at hmem
      rwa [← hmem]
    | some front' =>
      rw [hrest] at h
      have hsize' := fun e he => hsize e (mem_cons_of_mem _ he)
      have hfront' := higher_heapFront hsize' hrest
      have hpos := hsize entry mem_cons_self
      have hpos' := hsize' front' (heapFront_mem hrest)
      -- Of the two candidates, the one that is not smaller is above one if the other is.
      have hcandidate : entry.2.higher ⟨1, 1⟩ = true ∨ front'.2.higher ⟨1, 1⟩ = true := by
        obtain ⟨entry', hmem, hhigher⟩ := hex
        rcases mem_cons.1 hmem with rfl | hmem
        · exact .inl hhigher
        · exact .inr (hfront' ⟨entry', hmem, hhigher⟩)
      cases h
      unfold compareScore
      by_cases hne : entry.2 ≠ front'.2
      · rw [if_pos hne]
        split
        next hless =>
          exact hcandidate.elim
            (FeeFrac.higher_of_not_less hpos' hpos (FeeFrac.less_asymm hless)) id
        next hless =>
          rw [Bool.not_eq_true] at hless
          exact hcandidate.elim id (FeeFrac.higher_of_not_less hpos hpos' hless)
      · rw [if_neg hne]
        rw [not_not] at hne
        rw [hne, or_self] at hcandidate
        split
        · exact hcandidate
        · rwa [hne]

/-! ## The loops -/

variable (wtxid T) in
/-- What trimming does: announcements go, but none of the peers in `safe`. -/
structure Trimmed (safe : NodeId → Prop) (s s' : TxOrphanage Hash NodeId) : Prop where
  consistent : Consistent wtxid T s'
  limits : s'.limits = s.limits
  subset : ∀ ann ∈ s'.m_orphans, ann ∈ s.m_orphans
  kept : ∀ ann ∈ s.m_orphans, safe ann.m_announcer → ann ∈ s'.m_orphans
  info : ∀ peer, safe peer → peerInfoOf s'.m_orphans peer = peerInfoOf s.m_orphans peer
  length_le : s'.m_orphans.length ≤ s.m_orphans.length

namespace Trimmed

variable {safe safe' : NodeId → Prop} {s' s'' : TxOrphanage Hash NodeId}

lemma refl (h : Consistent wtxid T s) : Trimmed wtxid T safe s s :=
  ⟨h, rfl, fun _ => id, fun _ ha _ => ha, fun _ _ => rfl, le_rfl⟩

lemma trans (h : Trimmed wtxid T safe s s') (h' : Trimmed wtxid T safe s' s'') :
    Trimmed wtxid T safe s s'' where
  consistent := h'.consistent
  limits := h'.limits.trans h.limits
  subset := fun ann hann => h.subset ann (h'.subset ann hann)
  kept := fun ann hann hsafe => h'.kept ann (h.kept ann hann hsafe) hsafe
  info := fun peer hsafe => (h'.info peer hsafe).trans (h.info peer hsafe)
  length_le := h'.length_le.trans h.length_le

lemma mono (h : Trimmed wtxid T safe s s') (hsafe : ∀ peer, safe' peer → safe peer) :
    Trimmed wtxid T safe' s s' where
  consistent := h.consistent
  limits := h.limits
  subset := h.subset
  kept := fun ann hann hpeer => h.kept ann hann (hsafe _ hpeer)
  info := fun peer hpeer => h.info peer (hsafe peer hpeer)
  length_le := h.length_le

lemma peersOf_subset (h : Trimmed wtxid T safe s s') :
    peersOf s'.m_orphans ⊆ peersOf s.m_orphans := by
  intro peer hpeer
  obtain ⟨ann, hann, rfl⟩ := mem_map.1 (mem_toFinset.1 hpeer)
  exact mem_toFinset.2 (mem_map_of_mem (h.subset ann hann))

lemma of_erase (h : Consistent wtxid T s)
    {ann : Announcement Hash NodeId} (hann : ann ∈ s.m_orphans) :
    ∃ s', s.erase wtxid ann = .ok s' ∧ Trimmed wtxid T (· ≠ ann.m_announcer) s s' ∧
      s'.m_orphans = s.m_orphans.erase ann := by
  obtain ⟨s', hrun, hconsistent, horphans, hlimits⟩ := h.erase hann
  refine ⟨s', hrun, ⟨hconsistent, hlimits, ?_, ?_, ?_, ?_⟩, horphans⟩
  · intro other hother
    rw [horphans] at hother
    exact mem_of_mem_erase hother
  · intro other hother hne
    rw [horphans]
    exact (mem_erase_of_ne fun heq => hne (congrArg _ heq)).2 hother
  · intro peer hne
    rw [horphans, peerInfoOf_perm (perm_cons_erase hann), peerInfoOf_cons_of_ne _ _ hne]
  · rw [horphans]
    exact length_erase_le

end Trimmed

lemma Consistent.mem_peersOf (h : Consistent wtxid T s)
    (hinfo : s.m_peer_orphanage_info.lookup peer = some info) : peer ∈ peersOf s.m_orphans := by
  by_contra hnot
  rw [h.peer_info, peerInfoOf_eq_none hnot] at hinfo
  cases hinfo

/-- The announcements that the inner loop visits: those of the peer come first, in the order of the
index. -/
structure Visits (s : TxOrphanage Hash NodeId) (peer : NodeId)
    (anns : List (Announcement Hash NodeId)) : Prop where
  ge : ∀ ann ∈ anns, peer ≤ ann.m_announcer
  sorted : anns.Pairwise fun a b => byPeer a ≤ byPeer b
  nodup : anns.Nodup
  subset : ∀ ann ∈ anns, ann ∈ s.m_orphans
  covers : ∀ ann ∈ s.m_orphans, ann.m_announcer = peer → ann ∈ anns

lemma visits_indexFrom (h : Consistent wtxid T s) (peer : NodeId) :
    Visits s peer (indexFrom byPeer s.m_orphans (toLex (peer, toLex (false, 0)))) where
  ge := fun ann hann => Prod.Lex.monotone_fst _ _ (mem_indexFrom.1 hann).2
  sorted := pairwise_indexFrom
  nodup := nodup_indexFrom h.nodup
  subset := fun ann hann => (mem_indexFrom.1 hann).1
  covers := by
    intro ann hann hpeer
    refine mem_indexFrom.2 ⟨hann, ?_⟩
    rw [byPeer, hpeer]
    refine Prod.Lex.toLex_le_toLex.2 (.inr ⟨rfl, Prod.Lex.toLex_le_toLex.2 ?_⟩)
    cases ann.m_reconsider with
    | false => exact .inr ⟨rfl, zero_le _⟩
    | true => exact .inl Bool.false_lt_true

section

variable {ann : Announcement Hash NodeId} {rest : List (Announcement Hash NodeId)}
  (h : Visits s peer (ann :: rest))

include h

omit [LinearOrder Hash] in
lemma Visits.announcer_eq (hpeer : peer ∈ peersOf s.m_orphans) : ann.m_announcer = peer := by
  obtain ⟨own, hown, rfl⟩ := mem_map.1 (mem_toFinset.1 hpeer)
  refine le_antisymm ?_ (h.ge ann mem_cons_self)
  rcases mem_cons.1 (h.covers own hown rfl) with rfl | hmem
  · exact le_rfl
  · exact Prod.Lex.monotone_fst _ _ ((pairwise_cons.1 h.sorted).1 own hmem)

lemma Visits.tail {s' : TxOrphanage Hash NodeId} (hnodup : s.m_orphans.Nodup)
    (horphans : s'.m_orphans = s.m_orphans.erase ann) : Visits s' peer rest where
  ge := fun other hother => h.ge other (mem_cons_of_mem _ hother)
  sorted := (pairwise_cons.1 h.sorted).2
  nodup := (nodup_cons.1 h.nodup).2
  subset := by
    intro other hother
    rw [horphans, hnodup.mem_erase_iff]
    refine ⟨fun heq => (nodup_cons.1 h.nodup).1 (heq ▸ hother), ?_⟩
    exact h.subset other (mem_cons_of_mem _ hother)
  covers := by
    intro other hother hpeer
    rw [horphans, hnodup.mem_erase_iff] at hother
    exact (mem_cons.1 (h.covers other hother.2 hpeer)).resolve_left hother.1

end

/-- **The inner loop**: it erases announcements of the peer only, and one at least if there is
something to trim. -/
lemma trimPeer_spec (dos_threshold : FeeFrac) (hlat : 0 < max_lat) (hmem : 0 < max_mem) :
    ∀ {rest : List (Announcement Hash NodeId)} {s : TxOrphanage Hash NodeId}, Consistent wtxid T s →
      Visits s peer rest → peer ∈ peersOf s.m_orphans →
      ∃ s', trimPeer wtxid peer dos_threshold max_lat max_mem rest s = .ok s' ∧
        Trimmed wtxid T (· ≠ peer) s s' ∧
        (s.needsTrim = true → s'.m_orphans.length < s.m_orphans.length)
  | [], s, h, hvisits, hpeer => by
    obtain ⟨own, hown, heq⟩ := mem_map.1 (mem_toFinset.1 hpeer)
    exact absurd (hvisits.covers own hown heq) not_mem_nil
  | ann :: rest, s, h, hvisits, hpeer => by
    rw [trimPeer]
    by_cases htrim : s.needsTrim = false
    · rw [if_pos htrim]
      exact ⟨s, rfl, .refl h, fun hneeds => absurd (htrim.symm.trans hneeds) nofun⟩
    rw [if_neg htrim]
    have hannouncer := hvisits.announcer_eq hpeer
    have hann := hvisits.subset ann mem_cons_self
    obtain ⟨s₁, hrun, htrimmed, horphans⟩ := Trimmed.of_erase h hann
    rw [hannouncer] at htrimmed
    have hshorter : s₁.m_orphans.length < s.m_orphans.length := by
      rw [horphans, length_erase_of_mem hann]
      exact sub_lt (length_pos_of_mem hann) one_pos
    rw [ensure_bind hannouncer, hrun, ok_bind]
    cases hinfo : s₁.m_peer_orphanage_info.lookup peer with
    | none => exact ⟨s₁, rfl, htrimmed, fun _ => hshorter⟩
    | some info =>
      simp only [getDosScore_eq hlat hmem, ok_bind]
      split
      · exact ⟨s₁, rfl, htrimmed, fun _ => hshorter⟩
      · obtain ⟨s', hrest, htrimmed', -⟩ := trimPeer_spec dos_threshold hlat hmem
          htrimmed.consistent (hvisits.tail h.nodup horphans)
            (htrimmed.consistent.mem_peersOf hinfo)
        exact ⟨s', hrest, htrimmed.trans htrimmed',
          fun _ => htrimmed'.length_le.trans_lt hshorter⟩

/-- The heap holds peers with their current scores, among them all peers above one. -/
structure HeapOk (s : TxOrphanage Hash NodeId) (max_lat max_mem : ℕ)
    (heap : List (HeapEntry NodeId)) : Prop where
  score : ∀ entry ∈ heap, ∃ info, s.m_peer_orphanage_info.lookup entry.1 = some info ∧
    entry.2 = dosScore info max_lat max_mem
  covers : ∀ peer info, s.m_peer_orphanage_info.lookup peer = some info →
    (dosScore info max_lat max_mem).higher ⟨1, 1⟩ = true → ∃ entry ∈ heap, entry.1 = peer
  nodup : (heap.map Prod.fst).Nodup

section HeapOk

variable {max_lat max_mem : ℕ} {heap : List (HeapEntry NodeId)}

lemma HeapOk.exists_higher (hheap : HeapOk s max_lat max_mem heap) (h : Consistent wtxid T s)
    (hlat : 0 < max_lat) (hmem : max_mem = s.limits.m_reserved_usage_per_peer)
    (hshares : s.m_peer_orphanage_info.entries.length * max_lat ≤
      s.limits.m_max_global_latency_score)
    (htrim : s.needsTrim = true) : ∃ entry ∈ heap, entry.2.higher ⟨1, 1⟩ = true := by
  have hpos : 0 < max_mem := hmem ▸ s.limits.usage_pos
  by_contra hnone
  refine absurd (h.needsTrim_eq_false hshares fun entry hentry => ?_) (by simp [htrim])
  have hlookup : s.m_peer_orphanage_info.lookup entry.1 = some entry.2 :=
    AList.mem_lookup_iff.2 hentry
  rw [← hmem, ← not_lt, ← not_lt, ← not_or, ← higher_dosScore hlat hpos]
  intro hhigher
  obtain ⟨e, he, hpeer⟩ := hheap.covers _ _ hlookup hhigher
  obtain ⟨info, hinfo, hscore⟩ := hheap.score e he
  rw [hpeer, hlookup, Option.some_inj] at hinfo
  exact hnone ⟨e, he, by rwa [hscore, ← hinfo]⟩

omit [LinearOrder Hash] in
lemma HeapOk.size_pos (hheap : HeapOk s max_lat max_mem heap) (hlat : 0 < max_lat)
    (hmem : 0 < max_mem) : ∀ entry ∈ heap, 0 < entry.2.size := by
  intro entry hentry
  obtain ⟨info, -, hscore⟩ := hheap.score entry hentry
  rw [hscore]
  exact size_dosScore_pos hlat hmem

/-- **The heap after a round.** -/
lemma HeapOk.pushBack (hheap : HeapOk s max_lat max_mem heap) (h : Consistent wtxid T s)
    (hlat : 0 < max_lat) (hmem : 0 < max_mem) {worst : HeapEntry NodeId} (hworst : worst ∈ heap)
    {s' : TxOrphanage Hash NodeId} (htrimmed : Trimmed wtxid T (· ≠ worst.1) s s') :
    ∃ heap', s'.pushBack worst.1 max_lat max_mem (heap.erase worst) = .ok heap' ∧
      HeapOk s' max_lat max_mem heap' ∧ ∀ entry ∈ heap', ∃ old ∈ heap, old.1 = entry.1 := by
  -- Entries that stay belong to other peers, whose totals have not changed.
  have hsame : ∀ peer, peer ≠ worst.1 →
      s'.m_peer_orphanage_info.lookup peer = s.m_peer_orphanage_info.lookup peer := by
    intro peer hne
    rw [h.peer_info, htrimmed.consistent.peer_info, htrimmed.info peer hne]
  have hnodupHeap : heap.Nodup := hheap.nodup.of_map
  have hother : ∀ entry ∈ heap.erase worst, entry ∈ heap ∧ entry.1 ≠ worst.1 := by
    intro entry hentry
    obtain ⟨hne, hin⟩ := hnodupHeap.mem_erase_iff.1 hentry
    exact ⟨hin, fun heq => hne (inj_on_of_nodup_map hheap.nodup hin hworst heq)⟩
  have hscore : ∀ entry ∈ heap.erase worst, ∃ info,
      s'.m_peer_orphanage_info.lookup entry.1 = some info ∧
        entry.2 = dosScore info max_lat max_mem := by
    intro entry hentry
    obtain ⟨hin, hne⟩ := hother entry hentry
    rw [hsame _ hne]
    exact hheap.score entry hin
  have hcovers : ∀ peer info, peer ≠ worst.1 → s'.m_peer_orphanage_info.lookup peer = some info →
      (dosScore info max_lat max_mem).higher ⟨1, 1⟩ = true →
      ∃ entry ∈ heap.erase worst, entry.1 = peer := by
    intro peer info hne hlookup hhigher
    rw [hsame peer hne] at hlookup
    obtain ⟨entry, hentry, rfl⟩ := hheap.covers peer info hlookup hhigher
    exact ⟨entry, (mem_erase_of_ne fun heq => hne (congrArg _ heq)).2 hentry, rfl⟩
  have hnodup : ((heap.erase worst).map Prod.fst).Nodup :=
    hheap.nodup.sublist (erase_sublist.map _)
  unfold TxOrphanage.pushBack
  cases hlookup : s'.m_peer_orphanage_info.lookup worst.1 with
  | none =>
    refine ⟨_, rfl, ⟨hscore, ?_, hnodup⟩, fun entry hentry => ⟨entry, (hother entry hentry).1, rfl⟩⟩
    intro peer info hinfo
    refine hcovers peer info ?_ hinfo
    rintro rfl
    rw [hlookup] at hinfo
    cases hinfo
  | some info =>
    have hcount : info.m_count_announcements > 0 := by
      have hinfo := hlookup
      rw [htrimmed.consistent.peer_info] at hinfo
      refine pos_of_ne_zero fun hzero => ?_
      have hnone : ((peerInfoOf s'.m_orphans worst.1).getD {}).m_count_announcements = 0 := by
        rwa [hinfo]
      rw [count_peerInfoOf_eq_zero, hinfo] at hnone
      cases hnone
    dsimp only
    rw [if_pos hcount, getDosScore_eq hlat hmem]
    refine ⟨_, rfl, ⟨?_, ?_, ?_⟩, ?_⟩
    · exact forall_mem_cons.2 ⟨⟨info, hlookup, rfl⟩, hscore⟩
    · intro peer info' hinfo' hhigher
      by_cases hpeer : peer = worst.1
      · exact ⟨_, mem_cons_self, hpeer.symm⟩
      · obtain ⟨entry, hentry, heq⟩ := hcovers peer info' hpeer hinfo' hhigher
        exact ⟨entry, mem_cons_of_mem _ hentry, heq⟩
    · rw [map_cons, nodup_cons]
      refine ⟨fun hin => ?_, hnodup⟩
      obtain ⟨entry, hentry, heq⟩ := mem_map.1 hin
      exact (hother entry hentry).2 heq
    · exact forall_mem_cons.2 ⟨⟨worst, hworst, rfl⟩,
        fun entry hentry => ⟨entry, (hother entry hentry).1, rfl⟩⟩

/-- **The outer loop** ends within the limits, and erases announcements only of the peers in the
heap. -/
lemma trimLoop_spec (hlat : 0 < max_lat) :
    ∀ {fuel : ℕ} {s : TxOrphanage Hash NodeId} {heap : List (HeapEntry NodeId)},
      Consistent wtxid T s →
      max_mem = s.limits.m_reserved_usage_per_peer →
      s.m_peer_orphanage_info.entries.length * max_lat ≤ s.limits.m_max_global_latency_score →
      s.needsTrim = true → HeapOk s max_lat max_mem heap → s.m_orphans.length < fuel →
      ∃ s', trimLoop wtxid max_lat max_mem fuel s heap = .ok s' ∧ s'.needsTrim = false ∧
        Trimmed wtxid T (fun peer => ∀ entry ∈ heap, entry.1 ≠ peer) s s'
  | 0, s, heap, h, hmem, hshares, htrim, hheap, hfuel => absurd hfuel (not_lt_zero _)
  | fuel + 1, s, heap, h, hmem, hshares, htrim, hheap, hfuel => by
    have hpos : 0 < max_mem := hmem ▸ s.limits.usage_pos
    obtain ⟨entry, hentry, hhigher⟩ := hheap.exists_higher h hlat hmem hshares htrim
    rw [trimLoop]
    cases hfront : heapFront heap with
    | none =>
      rw [heapFront_eq_none hfront] at hentry
      cases hentry
    | some worst =>
      have hworst := heapFront_mem hfront
      have hscore := higher_heapFront (hheap.size_pos hlat hpos) hfront ⟨entry, hentry, hhigher⟩
      obtain ⟨info, hinfo, -⟩ := hheap.score worst hworst
      obtain ⟨s₁, hrun, htrimmed, hshorter⟩ := trimPeer_spec
        (((heapFront (heap.erase worst)).map Prod.snd).getD ⟨1, 1⟩) hlat hpos h
        (visits_indexFrom h worst.1) (h.mem_peersOf hinfo)
      dsimp only
      rw [ensure_bind hscore, ensure_bind (by simp [hinfo]), hrun, ok_bind]
      have hsafe : ∀ peer, (∀ entry ∈ heap, entry.1 ≠ peer) → peer ≠ worst.1 :=
        fun peer hall heq => hall worst hworst heq.symm
      by_cases hdone : s₁.needsTrim = false
      · rw [if_pos hdone]
        exact ⟨s₁, rfl, hdone, htrimmed.mono hsafe⟩
      · rw [if_neg hdone]
        obtain ⟨heap', hpush, hheap', hold⟩ := hheap.pushBack h hlat hpos hworst htrimmed
        rw [hpush]
        have hshares₁ : s₁.m_peer_orphanage_info.entries.length * max_lat ≤
            s₁.limits.m_max_global_latency_score := by
          rw [htrimmed.limits, htrimmed.consistent.length_entries]
          rw [h.length_entries] at hshares
          exact (mul_le_mul_right _ (Finset.card_le_card htrimmed.peersOf_subset)).trans hshares
        have hlength := hshorter htrim
        obtain ⟨s', hloop, hend, htrimmed'⟩ := trimLoop_spec hlat htrimmed.consistent
          (hmem.trans (congrArg _ htrimmed.limits.symm)) hshares₁ (by simpa using hdone) hheap'
          (show s₁.m_orphans.length < fuel by omega)
        refine ⟨s', hloop, hend, (htrimmed.mono hsafe).trans (htrimmed'.mono ?_)⟩
        intro peer hall e he heq
        obtain ⟨old, hin, hpeer⟩ := hold e he
        exact hall old hin (hpeer.trans heq)

end HeapOk

/-! ## The function -/

omit [LinearOrder NodeId] in
lemma mapM_dosScore (hlat : 0 < max_lat) (hmem : 0 < max_mem)
    (entries : List (Σ _ : NodeId, PeerDoSInfo)) :
    (entries.mapM fun entry => do
      return ((entry.1, ← entry.2.getDosScore max_lat max_mem) : HeapEntry NodeId)) =
      (.ok (entries.map fun entry => (entry.1, dosScore entry.2 max_lat max_mem)) :
        Except String (List (HeapEntry NodeId))) := by
  induction entries with
  | nil => rfl
  | cons entry entries ih =>
    rw [mapM_cons, ih, getDosScore_eq hlat hmem]
    rfl

omit [LinearOrder Hash] in
lemma heapOk_initial (s : TxOrphanage Hash NodeId) (max_lat max_mem : ℕ) :
    HeapOk s max_lat max_mem ((s.m_peer_orphanage_info.entries.map fun entry =>
      (entry.1, dosScore entry.2 max_lat max_mem)).filter fun entry => entry.2.higher ⟨1, 1⟩) where
  score := by
    intro entry hentry
    obtain ⟨hmap, -⟩ := mem_filter.1 hentry
    obtain ⟨info, hinfo, rfl⟩ := mem_map.1 hmap
    exact ⟨info.2, AList.mem_lookup_iff.2 hinfo, rfl⟩
  covers := by
    intro peer info hinfo hhigher
    refine ⟨(peer, dosScore info max_lat max_mem), mem_filter.2 ⟨?_, hhigher⟩, rfl⟩
    exact mem_map.2 ⟨⟨peer, info⟩, AList.mem_lookup_iff.1 hinfo, rfl⟩
  nodup := by
    refine List.Nodup.sublist (filter_sublist.map _) ?_
    rw [map_map]
    exact s.m_peer_orphanage_info.keys_nodup

/-- A peer within its shares. -/
def WithinShares (s : TxOrphanage Hash NodeId) (peer : NodeId) : Prop :=
  ∀ info, s.m_peer_orphanage_info.lookup peer = some info →
    info.m_total_latency_score ≤ s.maxPeerLatencyScore ∧
      info.m_total_usage ≤ s.limits.m_reserved_usage_per_peer

/-- **`LimitOrphans`** ends within the limits and leaves the peers within their shares alone, unless
there are more peers than the limit of the latency score. -/
lemma Consistent.limitOrphans (h : Consistent wtxid T s)
    (hpeers : s.m_peer_orphanage_info.entries.length ≤ s.limits.m_max_global_latency_score) :
    ∃ s', s.limitOrphans wtxid = .ok s' ∧ s'.needsTrim = false ∧
      Trimmed wtxid T s.WithinShares s s' := by
  unfold TxOrphanage.limitOrphans
  by_cases htrim : s.needsTrim = false
  · rw [if_pos htrim]
    exact ⟨s, rfl, htrim, .refl h⟩
  rw [if_neg htrim]
  rw [Bool.not_eq_false] at htrim
  have hmem := s.limits.usage_pos
  have hshares : s.m_peer_orphanage_info.entries.length * s.maxPeerLatencyScore ≤
      s.limits.m_max_global_latency_score := by
    calc s.m_peer_orphanage_info.entries.length * s.maxPeerLatencyScore
        ≤ max s.m_peer_orphanage_info.entries.length 1 * s.maxPeerLatencyScore :=
          mul_le_mul_right _ (le_max_left _ _)
      _ ≤ s.limits.m_max_global_latency_score := mul_div_le _ _
  have hlat : 0 < s.maxPeerLatencyScore := by
    refine div_pos ?_ (by omega)
    rw [max_le_iff]
    refine ⟨hpeers, Nat.pos_of_ne_zero fun hzero => ?_⟩
    -- Without a peer there is nothing to trim.
    rw [hzero, le_zero, length_eq_zero_iff] at hpeers
    refine absurd (h.needsTrim_eq_false hshares fun entry hentry => ?_) (by simp [htrim])
    rw [hpeers] at hentry
    cases hentry
  dsimp only
  rw [mapM_dosScore hlat hmem, ok_bind]
  obtain ⟨s', hloop, hend, htrimmed⟩ := trimLoop_spec hlat h rfl hshares htrim
    (heapOk_initial s _ _) (lt_succ_self _)
  refine ⟨s', hloop, hend, htrimmed.mono ?_⟩
  intro peer hwithin entry hentry heq
  obtain ⟨hmap, hhigher⟩ := mem_filter.1 hentry
  obtain ⟨info, hinfo, rfl⟩ := mem_map.1 hmap
  have hpeer := hwithin info.2 (heq ▸ AList.mem_lookup_iff.2 hinfo)
  rcases (higher_dosScore hlat hmem).1 hhigher with hover | hover <;> omega

/-- With more peers than the limit of the latency score, `LimitOrphans` aborts: the share of a peer
is zero. -/
lemma Consistent.length_entries_le (h : Consistent wtxid T s) {s' : TxOrphanage Hash NodeId}
    (hrun : s.limitOrphans wtxid = .ok s') :
    s.m_peer_orphanage_info.entries.length ≤ s.limits.m_max_global_latency_score := by
  by_contra hmore
  rw [not_le] at hmore
  have hpeers : s.m_peer_orphanage_info.entries.length ≤ s.m_orphans.length := by
    rw [h.length_entries, ← length_map Announcement.m_announcer]
    exact toFinset_card_le _
  have htrim : s.needsTrim ≠ false := by
    rw [Bool.ne_false_iff, needsTrim, decide_eq_true_eq, totalLatencyScore,
      h.unique_rounded_input_scores]
    left
    omega
  have hzero : s.maxPeerLatencyScore = 0 := div_eq_of_lt (lt_max_of_lt_left hmore)
  unfold TxOrphanage.limitOrphans at hrun
  rw [if_neg htrim] at hrun
  obtain ⟨scores, hscores, -⟩ := bind_eq_ok.1 hrun
  cases hentries : s.m_peer_orphanage_info.entries with
  | nil =>
    rw [hentries] at hmore
    exact absurd hmore (not_lt_zero _)
  | cons entry entries =>
    rw [hentries, mapM_cons, hzero] at hscores
    obtain ⟨score, hscore, -⟩ := bind_eq_ok.1 hscores
    obtain ⟨dos, hdos, -⟩ := bind_eq_ok.1 hscore
    obtain ⟨⟨⟩, hensure, -⟩ := bind_eq_ok.1 hdos
    exact absurd (ensure_eq_ok.1 hensure) (by simp)

end SlithyTove.TxOrphanage
