import SlithyTove.Orphanage.Operations

/-!
# The sanity check of the orphanage

`SanityCheck` computes the totals of an orphanage again from its announcements and compares.  Every
state that the operations reach passes it: the totals are those of the announcements (`Consistent`)
and every operation that could go over a limit ends with `LimitOrphans`.  The number of peers has to
stay within the limit of the latency score, since with more peers than that `LimitOrphans` divides
by a share of zero and aborts.
-/

namespace SlithyTove.TxOrphanage

open Framework List

variable {Hash NodeId : Type} [LinearOrder Hash] [LinearOrder NodeId]
  {wtxid : CTransaction Hash → Hash} {T : Set (CTransaction Hash)} {s : TxOrphanage Hash NodeId}

/-! ## The totals computed again -/

variable (anns : List (Announcement Hash NodeId))

omit [LinearOrder Hash] in
lemma lookup_foldl_add (peer : NodeId) : (anns.foldl (fun info ann =>
      info.insert ann.m_announcer (((info.lookup ann.m_announcer).getD {}).add ann))
      (∅ : AList fun _ : NodeId => PeerDoSInfo)).lookup peer = peerInfoOf anns peer := by
  induction anns using List.reverseRecOn generalizing peer with
  | nil => rfl
  | append_singleton anns ann ih =>
    rw [foldl_append, foldl_cons, foldl_nil,
      peerInfoOf_perm (perm_append_singleton ann anns)]
    by_cases hpeer : peer = ann.m_announcer
    · rw [hpeer, AList.lookup_insert, peerInfoOf_cons_self, ih]
    · rw [AList.lookup_insert_ne hpeer, peerInfoOf_cons_of_ne _ _ hpeer, ih]

lemma Consistent.reconstructedPeerInfo_perm (h : Consistent wtxid T s) :
    s.reconstructedPeerInfo.entries.Perm s.m_peer_orphanage_info.entries := by
  refine lookup_ext s.reconstructedPeerInfo.nodupKeys s.m_peer_orphanage_info.nodupKeys ?_
  intro peer info
  change info ∈ s.reconstructedPeerInfo.lookup peer ↔ info ∈ s.m_peer_orphanage_info.lookup peer
  rw [reconstructedPeerInfo, lookup_foldl_add, h.peer_info]

variable (wtxid) in
/-- The step of the loop that computes the scores of the distinct transactions. -/
def addScores (scores : AList fun _ : Hash => ℕ × ℕ) (ann : Announcement Hash NodeId) :
    AList fun _ : Hash => ℕ × ℕ :=
  if wtxid ann.m_tx ∈ scores then scores
  else scores.insert (wtxid ann.m_tx) (ann.getMemUsage, ann.getLatencyScore - 1)

omit [LinearOrder NodeId] in
lemma mem_foldl_addScores (hash : Hash) :
    hash ∈ anns.foldl (addScores wtxid) ∅ ↔ ∃ ann ∈ anns, wtxid ann.m_tx = hash := by
  induction anns using List.reverseRecOn with
  | nil => simp
  | append_singleton anns ann ih =>
    rw [foldl_append, foldl_cons, foldl_nil]
    have hstep : hash ∈ addScores wtxid (anns.foldl (addScores wtxid) ∅) ann ↔
        wtxid ann.m_tx = hash ∨ hash ∈ anns.foldl (addScores wtxid) ∅ := by
      unfold addScores
      split
      next hmem => exact ⟨Or.inr, fun hor => hor.elim (fun heq => heq ▸ hmem) id⟩
      next => rw [AList.mem_insert, eq_comm]
    rw [hstep, ih]
    simp only [mem_append, mem_singleton]
    constructor
    · rintro (heq | ⟨a, ha, heq⟩)
      · exact ⟨ann, Or.inr rfl, heq⟩
      · exact ⟨a, Or.inl ha, heq⟩
    · rintro ⟨a, ha | rfl, heq⟩
      · exact Or.inr ⟨a, ha, heq⟩
      · exact Or.inl heq

omit [LinearOrder NodeId] in
lemma sum_foldl_addScores (hinj : Set.InjOn wtxid T) (score : ℕ × ℕ → ℕ)
    (anns : List (Announcement Hash NodeId)) (hmem : ∀ ann ∈ anns, ann.m_tx ∈ T) :
    ((anns.foldl (addScores wtxid) ∅).entries.map fun entry => score entry.2).sum =
      ∑ tx ∈ txsOf anns, score (tx.weight, tx.vin.length / 10) := by
  induction anns using List.reverseRecOn with
  | nil => rfl
  | append_singleton anns ann ih =>
    have hmem' : ∀ a ∈ anns, a.m_tx ∈ T := fun a ha => hmem a (mem_append_left _ ha)
    have hann : ann.m_tx ∈ T := hmem ann (by simp)
    rw [foldl_append, foldl_cons, foldl_nil,
      txsOf_perm (perm_append_singleton ann anns), txsOf_cons, addScores]
    split
    next hknown =>
      obtain ⟨a, ha, heq⟩ := (mem_foldl_addScores anns _).1 hknown
      have htx : ann.m_tx ∈ txsOf anns := by
        rw [← hinj (hmem' a ha) hann heq]
        exact mem_toFinset.2 (mem_map_of_mem ha)
      rw [Finset.insert_eq_of_mem htx, ih hmem']
    next hnew =>
      have htx : ann.m_tx ∉ txsOf anns := by
        intro hin
        obtain ⟨a, ha, heq⟩ := mem_map.1 (mem_toFinset.1 hin)
        exact hnew ((mem_foldl_addScores anns _).2 ⟨a, ha, congrArg wtxid heq⟩)
      have hscore : ann.getLatencyScore - 1 = ann.m_tx.vin.length / 10 := by
        rw [Announcement.getLatencyScore]
        omega
      rw [Finset.sum_insert htx, AList.entries_insert_of_notMem hnew, map_cons, sum_cons,
        ih hmem', hscore]
      rfl

lemma Consistent.sum_scores (h : Consistent wtxid T s) (score : ℕ × ℕ → ℕ) :
    ((s.uniqueWtxidsToScores wtxid).entries.map fun entry => score entry.2).sum =
      ∑ tx ∈ txsOf s.m_orphans, score (tx.weight, tx.vin.length / 10) :=
  sum_foldl_addScores h.wtxid_inj score s.m_orphans h.mem_txs

omit [LinearOrder NodeId] in
lemma mem_allOutpoints {outpoint : COutPoint Hash} :
    outpoint ∈ s.allOutpoints ↔ ∃ ann ∈ s.m_orphans, outpoint ∈ prevoutsOf ann.m_tx := by
  simp only [allOutpoints, prevoutsOf, mem_toFinset, mem_map, mem_flatMap]
  constructor
  · rintro ⟨txin, ⟨ann, hann, hin⟩, heq⟩
    exact ⟨ann, hann, txin, hin, heq⟩
  · rintro ⟨ann, hann, txin, hin, heq⟩
    exact ⟨txin, ⟨ann, hann, hin⟩, heq⟩

lemma Consistent.keys_outpoints (h : Consistent wtxid T s) :
    s.m_outpoint_to_orphan_wtxids.keys.toFinset = s.allOutpoints := by
  ext outpoint
  rw [mem_toFinset, ← AList.mem_keys, ← AList.lookup_isSome, mem_allOutpoints]
  have hspenders := h.outpoints outpoint
  have hempty := h.no_empty_set outpoint
  unfold spendersAt at hspenders
  constructor
  · intro hsome
    obtain ⟨hashes, hfind⟩ := Option.isSome_iff_exists.1 hsome
    rw [hfind] at hspenders hempty
    obtain ⟨hash, hhash⟩ := Finset.nonempty_iff_ne_empty.2 fun heq => hempty (congrArg some heq)
    rw [Option.getD_some] at hspenders
    rw [hspenders, spendersOf, mem_toFinset] at hhash
    obtain ⟨ann, hann, -⟩ := mem_map.1 hhash
    exact ⟨ann, (mem_filter.1 hann).1, of_decide_eq_true (mem_filter.1 hann).2⟩
  · rintro ⟨ann, hann, hspends⟩
    by_contra hnone
    rw [Option.not_isSome_iff_eq_none.1 hnone, Option.getD_none] at hspenders
    have hmem : wtxid ann.m_tx ∈ spendersOf wtxid s.m_orphans outpoint :=
      mem_toFinset.2 (mem_map.2 ⟨ann, mem_filter.2 ⟨hann, by simpa using hspends⟩, rfl⟩)
    rw [← hspenders] at hmem
    exact Finset.notMem_empty _ hmem

lemma Consistent.length_le_mul (h : Consistent wtxid T s) :
    s.m_orphans.length ≤ (peersOf s.m_orphans).card * (txsOf s.m_orphans).card := by
  have hnodup : (s.m_orphans.map fun ann => (ann.m_announcer, ann.m_tx)).Nodup := by
    refine List.Nodup.map_on (fun a ha b hb heq => ?_) h.nodup
    rw [Prod.mk.injEq] at heq
    exact h.byWtxid_inj a ha b hb (byWtxid_eq_iff.2 ⟨congrArg wtxid heq.2, heq.1⟩)
  rw [← Finset.card_product, ← length_map fun ann : Announcement Hash NodeId =>
    (ann.m_announcer, ann.m_tx), ← toFinset_card_of_nodup hnodup]
  refine Finset.card_le_card fun pair hpair => ?_
  obtain ⟨ann, hann, rfl⟩ := mem_map.1 (mem_toFinset.1 hpair)
  exact Finset.mem_product.2 ⟨mem_toFinset.2 (mem_map_of_mem hann),
    mem_toFinset.2 (mem_map_of_mem hann)⟩

/-- **Consistent totals within the limits pass the check.** -/
lemma Consistent.sanityCheck (h : Consistent wtxid T s) (htrim : s.needsTrim = false) :
    SanityCheck wtxid s where
  added := by
    refine List.Nodup.map_on (fun a ha b hb => ?_) (h.nodup.filter _)
    obtain ⟨ha, ha'⟩ := mem_filter.1 ha
    obtain ⟨hb, hb'⟩ := mem_filter.1 hb
    exact h.reconsider_inj a ha b hb ha' hb'
  peer_info_size := h.reconstructedPeerInfo_perm.length_eq
  peer_info := h.reconstructedPeerInfo_perm
  reconsiderable := h.reconsiderable
  outpoints_size := by
    rw [← h.keys_outpoints, toFinset_card_of_nodup s.m_outpoint_to_orphan_wtxids.keys_nodup]
    exact length_map _
  outpoints := by
    intro entry hentry
    have hfind := AList.mem_lookup_iff.2 hentry
    refine ⟨?_, fun hash hhash => ?_⟩
    · rw [← h.keys_outpoints, mem_toFinset]
      exact mem_map_of_mem hentry
    · have hspenders := h.outpoints entry.1
      rw [spendersAt, Option.mem_def.1 hfind, Option.getD_some] at hspenders
      rw [hspenders, spendersOf, mem_toFinset] at hhash
      obtain ⟨ann, hann, heq⟩ := mem_map.1 hhash
      exact (mem_foldl_addScores s.m_orphans hash).2 ⟨ann, (mem_filter.1 hann).1, heq⟩
  unique_le := by
    rw [h.unique_orphans]
    have hcard := sum_txsOf_le s.m_orphans fun _ => 1
    simp only [Finset.sum_const, smul_eq_mul, mul_one, map_const', sum_replicate] at hcard
    exact_mod_cast hcard
  le_unique := by
    rw [h.unique_orphans, h.length_entries]
    exact_mod_cast h.length_le_mul
  unique := by
    have hsum := h.sum_scores fun _ => 1
    simp only [Finset.sum_const, smul_eq_mul, mul_one, map_const', sum_replicate] at hsum
    rw [h.unique_orphans, hsum]
  usage := by
    rw [h.unique_orphan_usage, ← h.sum_scores Prod.fst, Nat.cast_list_sum, map_map]
    rfl
  usage_le := h.usage_le
  scores := by
    rw [h.unique_rounded_input_scores, ← h.sum_scores Prod.snd, Nat.cast_list_sum, map_map]
    rfl
  scores_le := h.totalLatencyScore_le
  not_needsTrim := htrim

/-! ## Whole runs -/

section Runs

variable [BoundedOrder NodeId] {txid : CTransaction Hash → Hash}

/-- **One operation** keeps the totals and ends within the limits, unless there are more peers than
the limit of the latency score when it gets to `LimitOrphans`. -/
lemma Consistent.perform (h : Consistent wtxid T s) (htrim : s.needsTrim = false)
    {op : Operation Hash NodeId} (hop : ∀ tx peer, op = .addTx tx peer → tx ∈ T)
    (hpeers : ∀ calls s₁, s.body wtxid txid op = .ok (calls, s₁) →
      s₁.m_peer_orphanage_info.entries.length ≤ s.limits.m_max_global_latency_score) :
    ∃ s', s.perform wtxid txid op = .ok s' ∧ Consistent wtxid T s' ∧ s'.needsTrim = false ∧
      s'.limits = s.limits := by
  obtain ⟨calls, s₁, hbody, hprepared⟩ := h.body txid hop
  rw [perform_eq, hbody]
  cases calls with
  | false =>
    refine ⟨s₁, rfl, hprepared.consistent, ?_, hprepared.same_limits⟩
    rw [hprepared.needsTrim rfl, htrim]
  | true =>
    have hwithin := hpeers true s₁ hbody
    rw [← hprepared.same_limits] at hwithin
    obtain ⟨s', hrun, hend, htrimmed⟩ := hprepared.consistent.limitOrphans hwithin
    exact ⟨s', hrun, htrimmed.consistent, hend, htrimmed.limits.trans hprepared.same_limits⟩

/-- No more than `bound` peers hold announcements, at the end of an operation or when it gets to
`LimitOrphans`. -/
def WithinPeers (wtxid txid : CTransaction Hash → Hash) (bound : ℕ) :
    TxOrphanage Hash NodeId → List (Operation Hash NodeId) → Prop
  | _, [] => True
  | s, op :: ops =>
    (∀ calls s₁, s.body wtxid txid op = .ok (calls, s₁) →
      s₁.m_peer_orphanage_info.entries.length ≤ bound) ∧
    ∀ s', s.perform wtxid txid op = .ok s' → WithinPeers wtxid txid bound s' ops

/-- The transactions that the operations add. -/
def addedTxs (ops : List (Operation Hash NodeId)) : Set (CTransaction Hash) :=
  {tx | ∃ peer, Operation.addTx tx peer ∈ ops}

lemma Consistent.runOps :
    ∀ {ops : List (Operation Hash NodeId)} {s : TxOrphanage Hash NodeId}, Consistent wtxid T s →
      s.needsTrim = false → addedTxs ops ⊆ T →
      WithinPeers wtxid txid s.limits.m_max_global_latency_score s ops →
      ∃ s', s.runOps wtxid txid ops = .ok s' ∧ Consistent wtxid T s' ∧ s'.needsTrim = false
  | [], s, h, htrim, _, _ => ⟨s, rfl, h, htrim⟩
  | op :: ops, s, h, htrim, hadded, hpeers => by
    have hop : ∀ tx peer, op = .addTx tx peer → tx ∈ T :=
      fun tx peer heq => hadded ⟨peer, heq ▸ mem_cons_self⟩
    obtain ⟨s₁, hrun, h₁, htrim₁, hlimits⟩ := h.perform htrim hop hpeers.1
    have hpeers₁ := hpeers.2 s₁ hrun
    rw [← hlimits] at hpeers₁
    obtain ⟨s', hrest, h', htrim'⟩ := Consistent.runOps h₁ htrim₁
      (fun tx ⟨peer, hmem⟩ => hadded ⟨peer, mem_cons_of_mem _ hmem⟩) hpeers₁
    exact ⟨s', foldlM_cons_eq_ok.2 ⟨s₁, hrun, hrest⟩, h', htrim'⟩

omit [LinearOrder Hash] [LinearOrder NodeId] [BoundedOrder NodeId] in
lemma needsTrim_new (limits : OrphanageLimits) :
    (new limits : TxOrphanage Hash NodeId).needsTrim = false := by
  simp [needsTrim, totalLatencyScore, maxGlobalUsage, new]

lemma WithinPeers.initial {bound : ℕ} {ops : List (Operation Hash NodeId)} :
    ∀ {done : List (Operation Hash NodeId)} {s : TxOrphanage Hash NodeId},
      WithinPeers wtxid txid bound s (done ++ ops) → WithinPeers wtxid txid bound s done
  | [], _, _ => trivial
  | _ :: _, _, h => ⟨h.1, fun s' hrun => (h.2 s' hrun).initial⟩

/-- **The sanity check holds after every call.**  A run with no more peers than the limit of the
latency score, on transactions without a collision of their wtxids, fails no assumption, and neither
does any of its calls of `LimitOrphans`. -/
theorem sanityCheck_runOps (limits : OrphanageLimits) (ops : List (Operation Hash NodeId))
    (hinj : Set.InjOn wtxid (addedTxs ops))
    (hpeers : WithinPeers wtxid txid limits.m_max_global_latency_score (new limits) ops) :
    ∀ done, done <+: ops → ∃ s, runOps wtxid txid (new limits) done = .ok s ∧
      SanityCheck wtxid s := by
  rintro done ⟨rest, rfl⟩
  obtain ⟨s, hrun, h, htrim⟩ := (consistent_new wtxid hinj limits).runOps (needsTrim_new limits)
    (fun tx ⟨peer, hmem⟩ => ⟨peer, mem_append_left _ hmem⟩) hpeers.initial
  exact ⟨s, hrun, h.sanityCheck htrim⟩

lemma withinPeers_of_card [Fintype NodeId] {bound : ℕ} (hcard : Fintype.card NodeId ≤ bound) :
    ∀ (ops : List (Operation Hash NodeId)) (s : TxOrphanage Hash NodeId),
      WithinPeers wtxid txid bound s ops
  | [], _ => trivial
  | _ :: ops, _ => by
    refine ⟨fun _ s₁ _ => ?_, fun s' _ => withinPeers_of_card hcard ops s'⟩
    have hkeys := s₁.m_peer_orphanage_info.keys_nodup.length_le_card
    rw [AList.keys, List.keys, length_map] at hkeys
    exact hkeys.trans hcard

/-- An orphan that is told by its lock time. -/
def orphanTx (n : UInt32) : CTransaction ℕ := ⟨2, [⟨⟨n.toNat, 0⟩, [], 0, []⟩], [], n⟩

/-- A wtxid without collisions on these orphans. -/
def orphanWtxid (tx : CTransaction ℕ) : ℕ := tx.nLockTime.toNat

/-- Three announcements for two peers. -/
def smallLimits : OrphanageLimits := ⟨3, 400000, by decide, by decide, by decide⟩

/-- A peer with one orphan, and another one that sends one and announces both. -/
def twoPeers : List (Operation ℕ (Fin 2)) :=
  [.addTx (orphanTx 0) 0, .addTx (orphanTx 1) 1, .addAnnouncer 0 1]

lemma orphanWtxid_injOn (n : UInt32) : Set.InjOn orphanWtxid
    (addedTxs (twoPeers ++ [Operation.addTx (orphanTx n) 1])) := by
  have hadded : ∀ tx ∈ addedTxs (twoPeers ++ [Operation.addTx (orphanTx n) 1]),
      tx = orphanTx tx.nLockTime := by
    rintro tx ⟨peer, hmem⟩
    simp only [twoPeers, cons_append, nil_append, mem_cons, Operation.addTx.injEq,
      reduceCtorEq, not_mem_nil, or_false, false_or] at hmem
    rcases hmem with ⟨rfl, -⟩ | ⟨rfl, -⟩ | ⟨rfl, -⟩ <;> rfl
  intro tx htx tx' htx' heq
  rw [hadded tx htx, hadded tx' htx', UInt32.toNat_inj.1 heq]

theorem sanityCheck_runOps_twoPeers :
    Set.InjOn orphanWtxid (addedTxs (twoPeers ++ [.addTx (orphanTx 2) 1])) ∧
      WithinPeers orphanWtxid orphanWtxid 3 (new smallLimits)
        (twoPeers ++ [.addTx (orphanTx 2) 1]) ∧
      ∀ done, done <+: twoPeers ++ [.addTx (orphanTx 2) 1] →
        ∃ s, runOps orphanWtxid orphanWtxid (new smallLimits) done = .ok s ∧
          SanityCheck orphanWtxid s :=
  ⟨orphanWtxid_injOn 2, withinPeers_of_card (by decide) _ _,
    sanityCheck_runOps smallLimits _ (orphanWtxid_injOn 2) (withinPeers_of_card (by decide) _ _)⟩

/-! ## The peers within their shares -/

lemma Consistent.of_runOps :
    ∀ {ops : List (Operation Hash NodeId)} {s s' : TxOrphanage Hash NodeId}, Consistent wtxid T s →
      addedTxs ops ⊆ T → s.runOps wtxid txid ops = .ok s' → Consistent wtxid T s'
  | [], s, _, h, _, hrun => by
    cases hrun
    exact h
  | op :: ops, s, s', h, hadded, hrun => by
    obtain ⟨s₁, hperform, hrest⟩ := foldlM_cons_eq_ok.1 hrun
    refine Consistent.of_runOps ?_ (fun tx ⟨peer, hmem⟩ =>
      hadded ⟨peer, mem_cons_of_mem _ hmem⟩) hrest
    have hop : ∀ tx peer, op = .addTx tx peer → tx ∈ T :=
      fun tx peer heq => hadded ⟨peer, heq ▸ mem_cons_self⟩
    obtain ⟨calls, s₂, hbody, hprepared⟩ := h.body txid hop
    rw [perform_eq, hbody] at hperform
    cases calls with
    | false =>
      cases hperform
      exact hprepared.consistent
    | true =>
      have hlimit : s₂.limitOrphans wtxid = .ok s₁ := hperform
      obtain ⟨s₃, hlimit', -, htrimmed⟩ :=
        hprepared.consistent.limitOrphans (hprepared.consistent.length_entries_le hlimit)
      rw [hlimit'] at hlimit
      cases hlimit
      exact htrimmed.consistent

omit [BoundedOrder NodeId] in
lemma Consistent.length_entries_le_of_share (h : Consistent wtxid T s)
    {ann : Announcement Hash NodeId} (hann : ann ∈ s.m_orphans)
    (hlatency : s.latencyScoreFromPeer ann.m_announcer ≤ s.maxPeerLatencyScore) :
    s.m_peer_orphanage_info.entries.length ≤ s.limits.m_max_global_latency_score := by
  have hown : ann ∈ s.m_orphans.filter fun a => a.m_announcer = ann.m_announcer :=
    mem_filter.2 ⟨hann, by simp⟩
  have hpos : 0 < s.latencyScoreFromPeer ann.m_announcer := by
    rw [latencyScoreFromPeer, h.peer_info,
      peerInfoOf_eq_some (mem_toFinset.2 (mem_map_of_mem hann))]
    calc 0 < ann.getLatencyScore := by
          rw [Announcement.getLatencyScore]
          omega
      _ ≤ _ := single_le_sum (fun _ _ => Nat.zero_le _) _ (mem_map_of_mem hown)
  have hshare := (Nat.div_pos_iff.1 (hpos.trans_le hlatency)).2
  exact (le_max_left _ _).trans hshare

/-- **A peer within its shares keeps its announcements**: whatever the other peers hold, a call of
`LimitOrphans` returns, and with all announcements of a peer that was at most at its share of the
latency score and at the usage reserved for it. -/
theorem limitOrphans_keeps_reserved (limits : OrphanageLimits) (ops : List (Operation Hash NodeId))
    (op : Operation Hash NodeId) (hinj : Set.InjOn wtxid (addedTxs (ops ++ [op])))
    {s s₁ : TxOrphanage Hash NodeId} (hrun : runOps wtxid txid (new limits) ops = .ok s)
    (hcall : s.body wtxid txid op = .ok (true, s₁)) {peer : NodeId}
    (hlatency : s₁.latencyScoreFromPeer peer ≤ s₁.maxPeerLatencyScore)
    (husage : s₁.usageByPeer peer ≤ s₁.limits.m_reserved_usage_per_peer) :
    ∀ ann ∈ s₁.m_orphans, ann.m_announcer = peer →
      ∃ s₂, s₁.limitOrphans wtxid = .ok s₂ ∧ ann ∈ s₂.m_orphans := by
  rintro ann hann rfl
  have h : Consistent wtxid (addedTxs (ops ++ [op])) s :=
    (consistent_new wtxid hinj limits).of_runOps
      (fun tx ⟨peer, hmem⟩ => ⟨peer, mem_append_left _ hmem⟩) hrun
  have hop : ∀ tx peer, op = .addTx tx peer → tx ∈ addedTxs (ops ++ [op]) :=
    fun tx peer heq => ⟨peer, mem_append_right _ (heq ▸ mem_singleton_self _)⟩
  obtain ⟨calls, s', hbody, hprepared⟩ := h.body txid hop
  rw [hcall] at hbody
  cases hbody
  obtain ⟨s₂, hlimit, -, htrimmed⟩ := hprepared.consistent.limitOrphans
    (hprepared.consistent.length_entries_le_of_share hann hlatency)
  refine ⟨s₂, hlimit, htrimmed.kept ann hann fun info hinfo => ?_⟩
  rw [latencyScoreFromPeer, hinfo] at hlatency
  rw [usageByPeer, hinfo] at husage
  exact ⟨hlatency, husage⟩

theorem limitOrphans_keeps_reserved_twoPeers :
    ∃ s s₁ s₂ : TxOrphanage ℕ (Fin 2),
      runOps orphanWtxid orphanWtxid (new smallLimits) twoPeers = .ok s ∧
      s.body orphanWtxid orphanWtxid (.addTx (orphanTx 2) 1) = .ok (true, s₁) ∧
      s₁.needsTrim = true ∧ s₁.limitOrphans orphanWtxid = .ok s₂ ∧
      ∃ ann ∈ s₂.m_orphans, ann.m_announcer = 0 := by
  obtain ⟨ann, hwitness⟩ := exists_of_isOk (show (do
    let s ← runOps orphanWtxid orphanWtxid (new smallLimits) twoPeers
    let outcome ← s.body orphanWtxid orphanWtxid (.addTx (orphanTx 2) 1)
    ensure (outcome.1 = true) ""
    ensure (outcome.2.needsTrim = true) ""
    ensure (outcome.2.latencyScoreFromPeer 0 ≤ outcome.2.maxPeerLatencyScore) ""
    ensure (outcome.2.usageByPeer 0 ≤ outcome.2.limits.m_reserved_usage_per_peer) ""
    (outcome.2.m_orphans.find? fun ann => ann.m_announcer = 0).elim (.error "") .ok :
      Except String (Announcement ℕ (Fin 2))).isOk = true by decide +kernel)
  obtain ⟨s, hrun, hwitness⟩ := bind_eq_ok.1 hwitness
  obtain ⟨⟨calls, s₁⟩, hbody, hwitness⟩ := bind_eq_ok.1 hwitness
  obtain ⟨⟨⟩, hcalls, hwitness⟩ := bind_eq_ok.1 hwitness
  obtain ⟨⟨⟩, htrim, hwitness⟩ := bind_eq_ok.1 hwitness
  obtain ⟨⟨⟩, hlatency, hwitness⟩ := bind_eq_ok.1 hwitness
  obtain ⟨⟨⟩, husage, hwitness⟩ := bind_eq_ok.1 hwitness
  obtain rfl : calls = true := ensure_eq_ok.1 hcalls
  cases hfind : s₁.m_orphans.find? fun ann => ann.m_announcer = 0 with
  | none =>
    rw [hfind] at hwitness
    cases hwitness
  | some own =>
    have hmem := mem_of_find?_eq_some hfind
    have hpeer : own.m_announcer = 0 := by
      have hfound := List.find?_some hfind
      exact of_decide_eq_true hfound
    obtain ⟨s₂, hlimit, hkept⟩ := limitOrphans_keeps_reserved smallLimits twoPeers _
      (orphanWtxid_injOn 2) hrun hbody (ensure_eq_ok.1 hlatency) (ensure_eq_ok.1 husage)
      own hmem hpeer
    exact ⟨s, s₁, s₂, hrun, hbody, ensure_eq_ok.1 htrim, hlimit, own, hkept, hpeer⟩

end Runs

end SlithyTove.TxOrphanage
