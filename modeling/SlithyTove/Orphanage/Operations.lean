import SlithyTove.Orphanage.LimitOrphans

/-!
# The operations of the orphanage

Each operation, up to its call of `LimitOrphans`, keeps the totals of the orphanage and fails no
assumption (`Consistent.body`).
-/

namespace SlithyTove.TxOrphanage

open Framework List

variable {Hash NodeId : Type} [LinearOrder Hash] [LinearOrder NodeId]
  {wtxid : CTransaction Hash → Hash} {T : Set (CTransaction Hash)} {s : TxOrphanage Hash NodeId}

/-! ## Erasing several announcements -/

lemma Consistent.foldlM_erase :
    ∀ {anns : List (Announcement Hash NodeId)} {s : TxOrphanage Hash NodeId}, Consistent wtxid T s →
      anns.Nodup → (∀ ann ∈ anns, ann ∈ s.m_orphans) →
      ∃ s', anns.foldlM (TxOrphanage.erase wtxid) s = .ok s' ∧ Consistent wtxid T s' ∧
        s'.limits = s.limits ∧ ∀ ann, ann ∈ s'.m_orphans ↔ ann ∈ s.m_orphans ∧ ann ∉ anns
  | [], s, h, _, _ => ⟨s, rfl, h, rfl, fun ann => by simp⟩
  | ann :: anns, s, h, hnodup, hmem => by
    obtain ⟨hnotMem, hnodup⟩ := nodup_cons.1 hnodup
    obtain ⟨s₁, hrun, h₁, horphans, hlimits⟩ := h.erase (hmem ann mem_cons_self)
    have hmem₁ : ∀ other ∈ anns, other ∈ s₁.m_orphans := by
      intro other hother
      rw [horphans, h.nodup.mem_erase_iff]
      exact ⟨fun heq => hnotMem (heq ▸ hother), hmem other (mem_cons_of_mem _ hother)⟩
    obtain ⟨s', hrest, h', hlimits', hiff⟩ := h₁.foldlM_erase hnodup hmem₁
    refine ⟨s', foldlM_cons_eq_ok.2 ⟨s₁, hrun, hrest⟩, h', hlimits'.trans hlimits, ?_⟩
    intro other
    rw [hiff, horphans, h.nodup.mem_erase_iff, mem_cons, not_or]
    tauto

variable [BoundedOrder NodeId]

variable {hash : Hash} {ann : Announcement Hash NodeId}

lemma mem_announcementsOf :
    ann ∈ s.announcementsOf wtxid hash ↔ ann ∈ s.m_orphans ∧ wtxid ann.m_tx = hash := by
  have hle : byWtxid wtxid ann ≤ toLex (hash, ⊤) ↔ wtxid ann.m_tx ≤ hash := by
    rw [byWtxid, Prod.Lex.toLex_le_toLex, and_iff_left le_top, ← le_iff_lt_or_eq]
  have hge : toLex (hash, ⊥) ≤ byWtxid wtxid ann ↔ hash ≤ wtxid ann.m_tx := by
    rw [byWtxid, Prod.Lex.toLex_le_toLex, and_iff_left bot_le, ← le_iff_lt_or_eq]
  unfold announcementsOf
  rw [takeWhile_eq_filter, mem_filter, mem_indexFrom, decide_eq_true_eq, hle, hge, and_assoc]
  · exact and_congr_right fun _ => ⟨fun h => le_antisymm h.2 h.1, fun h => ⟨h.ge, h.le⟩⟩
  · refine pairwise_indexFrom.imp fun hab hb => ?_
    exact decide_eq_true (hab.trans (of_decide_eq_true hb))

lemma nodup_announcementsOf (h : Consistent wtxid T s) (hash : Hash) :
    (s.announcementsOf wtxid hash).Nodup :=
  (nodup_indexFrom h.nodup).sublist (takeWhile_sublist _)

lemma haveTx_iff :
    s.haveTx wtxid hash = true ↔ ∃ ann ∈ s.m_orphans, wtxid ann.m_tx = hash := by
  have hge : ∀ ann : Announcement Hash NodeId, wtxid ann.m_tx = hash →
      toLex (hash, ⊥) ≤ byWtxid wtxid ann := fun ann heq =>
    Prod.Lex.toLex_le_toLex.2 (.inr ⟨heq.symm, bot_le⟩)
  unfold haveTx
  rw [Option.any_eq_true]
  constructor
  · rintro ⟨ann, hfind, heq⟩
    exact ⟨ann, (mem_of_lowerBound hfind).1, of_decide_eq_true heq⟩
  · rintro ⟨ann, hann, heq⟩
    cases hfind : lowerBound (byWtxid wtxid) s.m_orphans (toLex (hash, ⊥)) with
    | none => exact absurd (lowerBound_eq_none.1 hfind ann hann) (not_lt.2 (hge ann heq))
    | some first =>
      refine ⟨first, rfl, decide_eq_true (le_antisymm ?_ ?_)⟩
      · exact (Prod.Lex.monotone_fst _ _ (le_of_lowerBound hfind hann (hge ann heq))).trans heq.le
      · exact Prod.Lex.monotone_fst _ _ (mem_of_lowerBound hfind).2

lemma Consistent.eraseTxInternal (h : Consistent wtxid T s)
    (hash : Hash) :
    ∃ s', s.eraseTxInternal wtxid hash = .ok (s.haveTx wtxid hash, s') ∧ Consistent wtxid T s' ∧
      s'.limits = s.limits ∧
      ∀ ann, ann ∈ s'.m_orphans ↔ ann ∈ s.m_orphans ∧ wtxid ann.m_tx ≠ hash := by
  unfold TxOrphanage.eraseTxInternal
  cases hhave : s.haveTx wtxid hash with
  | false =>
    refine ⟨s, rfl, h, rfl, fun ann => ⟨fun hann => ⟨hann, fun heq => ?_⟩, And.left⟩⟩
    rw [← Bool.not_eq_true, haveTx_iff] at hhave
    exact hhave ⟨ann, hann, heq⟩
  | true =>
    obtain ⟨s', hrun, h', hlimits, hiff⟩ := h.foldlM_erase (nodup_announcementsOf h hash)
      fun ann hann => (mem_announcementsOf.1 hann).1
    have hloop : (s.announcementsOf wtxid hash).foldlM (fun s ann => do
        ensure (wtxid ann.m_tx = hash) "Assume(it->m_tx->GetWitnessHash() == wtxid)"
        s.erase wtxid ann) s = (s.announcementsOf wtxid hash).foldlM
          (TxOrphanage.erase wtxid) s := by
      refine foldlM_congr (fun ann hann t => ?_) s
      rw [ensure_bind (mem_announcementsOf.1 hann).2]
    refine ⟨s', ?_, h', hlimits, ?_⟩
    · rw [if_neg nofun, hloop, hrun]
      rfl
    · intro ann
      rw [hiff, mem_announcementsOf]
      tauto

/-! ## Adding -/

/-- What an operation leaves for `LimitOrphans`. -/
structure Prepared (wtxid : CTransaction Hash → Hash) (T : Set (CTransaction Hash))
    (s s' : TxOrphanage Hash NodeId) (calls : Bool) : Prop where
  consistent : Consistent wtxid T s'
  same_limits : s'.limits = s.limits
  needsTrim : calls = false → s'.needsTrim = s.needsTrim

section

variable (h : Consistent wtxid T s)

include h

variable {tx : CTransaction Hash}

lemma Consistent.brand_new_iff (htx : tx ∈ T) :
    (!s.haveTx wtxid (wtxid tx)) = true ↔ tx ∉ txsOf s.m_orphans := by
  rw [Bool.not_eq_true', ← Bool.not_eq_true, haveTx_iff, txsOf, mem_toFinset, mem_map]
  refine not_congr ⟨?_, ?_⟩
  · rintro ⟨ann, hann, heq⟩
    exact ⟨ann, hann, h.wtxid_inj (h.mem_txs ann hann) htx heq⟩
  · rintro ⟨ann, hann, rfl⟩
    exact ⟨ann, hann, rfl⟩

lemma Consistent.addTxBody (htx : tx ∈ T) (peer : NodeId) :
    ∃ ret calls s', s.addTxBody wtxid tx peer = .ok (ret, calls, s') ∧
      Prepared wtxid T s s' calls := by
  unfold TxOrphanage.addTxBody
  split
  · exact ⟨_, _, _, rfl, h, rfl, fun _ => rfl⟩
  cases hemplace : s.emplace wtxid tx peer with
  | none => exact ⟨_, _, _, rfl, h, rfl, fun _ => rfl⟩
  | some ann =>
    obtain ⟨hfresh, rfl, -⟩ := fresh_of_emplace hemplace
    have hnew : (!s.haveTx wtxid (wtxid ann.m_tx)) = true ↔ ann.m_tx ∉ txsOf s.m_orphans :=
      h.brand_new_iff htx
    have hadded := h.added htx hfresh hnew
    have hunique := h.isUnique_added htx hfresh (!s.haveTx wtxid (wtxid ann.m_tx))
    cases hbrand : !s.haveTx wtxid (wtxid ann.m_tx) with
    | true =>
      rw [hbrand] at hnew hadded hunique
      dsimp only
      rw [if_pos rfl, ensure_bind]
      · exact ⟨_, _, _, rfl, hadded, rfl, by simp⟩
      · exact hunique.2 (hnew.1 rfl)
    | false =>
      rw [hbrand] at hnew hadded hunique
      dsimp only
      rw [if_neg nofun, ensure_bind]
      · exact ⟨_, _, _, rfl, hadded, rfl, by simp⟩
      · refine Bool.eq_false_iff.2 fun htrue => ?_
        exact absurd (hnew.2 (hunique.1 htrue)) nofun

lemma Consistent.addAnnouncerBody (hash : Hash) (peer : NodeId) :
    ∃ ret calls s', s.addAnnouncerBody wtxid hash peer = .ok (ret, calls, s') ∧
      Prepared wtxid T s s' calls := by
  unfold TxOrphanage.addAnnouncerBody
  cases hfind : lowerBound (byWtxid wtxid) s.m_orphans (toLex (hash, ⊥)) with
  | none => exact ⟨_, _, _, rfl, h, rfl, fun _ => rfl⟩
  | some it =>
    dsimp only
    split
    · exact ⟨_, _, _, rfl, h, rfl, fun _ => rfl⟩
    cases hemplace : s.emplace wtxid it.m_tx peer with
    | none => exact ⟨_, _, _, rfl, h, rfl, fun _ => rfl⟩
    | some ann =>
      obtain ⟨hfresh, heq, -⟩ := fresh_of_emplace hemplace
      have htx : ann.m_tx ∈ T := heq ▸ h.mem_txs it (mem_of_lowerBound hfind).1
      have hknown : ann.m_tx ∈ txsOf s.m_orphans := by
        rw [heq]
        exact mem_toFinset.2 (mem_map_of_mem (mem_of_lowerBound hfind).1)
      have hnew : false = true ↔ ann.m_tx ∉ txsOf s.m_orphans :=
        ⟨fun hfalse => absurd hfalse Bool.false_ne_true, fun hnot => absurd hknown hnot⟩
      have hadded := h.added htx hfresh hnew
      have hunique := h.isUnique_added htx hfresh false
      dsimp only
      rw [ensure_bind]
      · exact ⟨_, _, _, rfl, hadded, rfl, by simp⟩
      · exact Bool.eq_false_iff.2 fun htrue => hunique.1 htrue hknown

/-! ## Erasing for a peer and for a block -/

omit [BoundedOrder NodeId] in
lemma mem_visited_iff (peer : NodeId) :
    ann ∈ (indexFrom byPeer s.m_orphans (toLex (peer, toLex (false, 0)))).takeWhile
      (fun ann => ann.m_announcer = peer) ↔ ann ∈ s.m_orphans ∧ ann.m_announcer = peer := by
  have hvisits := visits_indexFrom h peer
  rw [takeWhile_eq_filter, mem_filter, decide_eq_true_eq]
  · exact ⟨fun hann => ⟨hvisits.subset ann hann.1, hann.2⟩,
      fun hann => ⟨hvisits.covers ann hann.1 hann.2, hann.2⟩⟩
  · refine hvisits.sorted.imp_of_mem fun ha _ hab hb => decide_eq_true ?_
    refine le_antisymm ?_ (hvisits.ge _ ha)
    exact (Prod.Lex.monotone_fst _ _ hab).trans (of_decide_eq_true hb).le

omit [BoundedOrder NodeId] in
lemma Consistent.eraseForPeerBody (peer : NodeId) :
    ∃ calls s', s.eraseForPeerBody wtxid peer = .ok ((), calls, s') ∧
      Prepared wtxid T s s' calls := by
  unfold TxOrphanage.eraseForPeerBody
  dsimp only
  split
  · exact ⟨_, _, rfl, h, rfl, fun _ => rfl⟩
  · obtain ⟨s', hrun, h', hlimits, hiff⟩ := h.foldlM_erase
      ((visits_indexFrom h peer).nodup.sublist (takeWhile_sublist _))
      fun ann hann => ((mem_visited_iff h peer).1 hann).1
    have hgone : s'.m_peer_orphanage_info.lookup peer = none := by
      rw [h'.peer_info]
      refine peerInfoOf_eq_none fun hpeer => ?_
      obtain ⟨ann, hann, heq⟩ := mem_map.1 (mem_toFinset.1 hpeer)
      obtain ⟨hold, hnot⟩ := (hiff ann).1 hann
      exact hnot ((mem_visited_iff h peer).2 ⟨hold, heq⟩)
    rw [hrun, ok_bind]
    rw [ensure, if_pos hgone]
    exact ⟨_, _, rfl, h', hlimits, by simp⟩

omit h in
/-- The loop of `EraseForBlock`: every wtxid has an announcement when its turn comes. -/
lemma Consistent.foldlM_eraseTxInternal :
    ∀ {hashes : List Hash} {s : TxOrphanage Hash NodeId} (num_erased : ℕ), Consistent wtxid T s →
      hashes.Nodup → (∀ hash ∈ hashes, s.haveTx wtxid hash = true) →
      ∃ s', hashes.foldlM (fun (num_erased, s) hash => do
          let (erased, s) ← TxOrphanage.eraseTxInternal wtxid s hash
          return (num_erased + if erased then 1 else 0, s)) (num_erased, s) =
            .ok (num_erased + hashes.length, s') ∧
        Consistent wtxid T s' ∧ s'.limits = s.limits
  | [], s, num_erased, h, _, _ => ⟨s, rfl, h, rfl⟩
  | hash :: hashes, s, num_erased, h, hnodup, hhave => by
    obtain ⟨hnotMem, hnodup⟩ := nodup_cons.1 hnodup
    obtain ⟨s₁, hrun, h₁, hlimits, hiff⟩ := h.eraseTxInternal hash
    have hhave₁ : ∀ other ∈ hashes, s₁.haveTx wtxid other = true := by
      intro other hother
      obtain ⟨ann, hann, heq⟩ := haveTx_iff.1 (hhave other (mem_cons_of_mem _ hother))
      refine haveTx_iff.2 ⟨ann, (hiff ann).2 ⟨hann, fun hsame => hnotMem ?_⟩, heq⟩
      rwa [← hsame, heq]
    obtain ⟨s', hrest, h', hlimits'⟩ :=
      Consistent.foldlM_eraseTxInternal (num_erased + 1) h₁ hnodup hhave₁
    refine ⟨s', ?_, h', hlimits'.trans hlimits⟩
    rw [foldlM_cons_eq_ok]
    refine ⟨(num_erased + 1, s₁), ?_, ?_⟩
    · dsimp only
      rw [hrun, hhave hash mem_cons_self]
      rfl
    · rw [hrest, length_cons]
      congr 2
      omega

lemma Consistent.haveTx_of_mem_spendersAt {outpoint : COutPoint Hash}
    (hmem : hash ∈ spendersAt s.m_outpoint_to_orphan_wtxids outpoint) :
    s.haveTx wtxid hash = true := by
  rw [h.outpoints, spendersOf, mem_toFinset, mem_map] at hmem
  obtain ⟨ann, hann, heq⟩ := hmem
  exact haveTx_iff.2 ⟨ann, (mem_filter.1 hann).1, heq⟩

lemma Consistent.haveTx_of_mem_wtxidsToErase {block : CBlock Hash}
    (hmem : hash ∈ s.wtxidsToErase block) : s.haveTx wtxid hash = true := by
  have hfold : ∀ (vin : List (CTxIn Hash)) (hashes : Finset Hash),
      (∀ hash ∈ hashes, s.haveTx wtxid hash = true) →
      ∀ hash ∈ vin.foldl (fun hashes txin =>
        hashes ∪ (s.m_outpoint_to_orphan_wtxids.lookup txin.prevout).getD ∅) hashes,
        s.haveTx wtxid hash = true := by
    intro vin
    induction vin with
    | nil => exact fun _ hhashes => hhashes
    | cons txin vin ih =>
      intro hashes hhashes
      refine ih _ fun hash hin => ?_
      rcases Finset.mem_union.1 hin with hin | hin
      · exact hhashes hash hin
      · exact h.haveTx_of_mem_spendersAt hin
  exact hfold _ ∅ (by simp) hash hmem

lemma Consistent.eraseForBlockBody (block : CBlock Hash) :
    ∃ calls s', s.eraseForBlockBody wtxid block = .ok ((), calls, s') ∧
      Prepared wtxid T s s' calls := by
  unfold TxOrphanage.eraseForBlockBody
  split
  · exact ⟨_, _, rfl, h, rfl, fun _ => rfl⟩
  · obtain ⟨s', hrun, h', hlimits⟩ := Consistent.foldlM_eraseTxInternal 0 h
      ((s.wtxidsToErase block).sort_nodup (· ≤ ·))
      fun hash hmem => h.haveTx_of_mem_wtxidsToErase ((Finset.mem_sort _).1 hmem)
    dsimp only
    rw [hrun, ok_bind]
    rw [ensure, if_pos (by rw [Finset.length_sort, zero_add])]
    exact ⟨_, _, rfl, h', hlimits, by simp⟩

end

/-! ## Work sets -/

section Reconsider

omit [LinearOrder NodeId] [BoundedOrder NodeId] in
lemma mem_reconsiderOf {anns : List (Announcement Hash NodeId)} {hash : Hash} :
    hash ∈ reconsiderOf wtxid anns ↔
      ∃ ann ∈ anns, ann.m_reconsider = true ∧ wtxid ann.m_tx = hash := by
  simp only [reconsiderOf, mem_toFinset, mem_map, mem_filter, and_assoc]

/-- The change that `modify` makes to an announcement. -/
def mark (ann : Announcement Hash NodeId) (reconsider : Bool) (other : Announcement Hash NodeId) :
    Announcement Hash NodeId :=
  if other = ann then { other with m_reconsider := reconsider } else other

variable {ann : Announcement Hash NodeId} {reconsider : Bool}

variable (other : Announcement Hash NodeId)

section

omit [BoundedOrder NodeId]

@[simp] lemma mark_m_tx : (mark ann reconsider other).m_tx = other.m_tx := by
  unfold mark
  split <;> rfl

@[simp] lemma mark_m_announcer : (mark ann reconsider other).m_announcer = other.m_announcer := by
  unfold mark
  split <;> rfl

@[simp] lemma mark_m_entry_sequence :
    (mark ann reconsider other).m_entry_sequence = other.m_entry_sequence := by
  unfold mark
  split <;> rfl

lemma mark_m_reconsider : (mark ann reconsider other).m_reconsider =
      if other = ann then reconsider else other.m_reconsider := by
  unfold mark
  split <;> rfl

end

variable (anns : List (Announcement Hash NodeId))

section

omit [BoundedOrder NodeId]

lemma totalsOf_map_mark : totalsOf (anns.map (mark ann reconsider)) = totalsOf anns := by
  have husage : Announcement.getMemUsage ∘ mark ann reconsider = Announcement.getMemUsage := by
    funext other
    simp [Announcement.getMemUsage]
  have hlatency :
      Announcement.getLatencyScore ∘ mark ann reconsider = Announcement.getLatencyScore := by
    funext other
    simp [Announcement.getLatencyScore]
  simp only [totalsOf, map_map, husage, hlatency, length_map]

lemma peerInfoOf_map_mark (peer : NodeId) :
    peerInfoOf (anns.map (mark ann reconsider)) peer = peerInfoOf anns peer := by
  have hown : (anns.map (mark ann reconsider)).filter (fun a => a.m_announcer = peer) =
      (anns.filter fun a => a.m_announcer = peer).map (mark ann reconsider) := by
    simp [filter_map, Function.comp_def]
  unfold peerInfoOf
  simp only [hown, totalsOf_map_mark, map_eq_nil_iff]

lemma txsOf_map_mark : txsOf (anns.map (mark ann reconsider)) = txsOf anns := by
  simp [txsOf, Function.comp_def]

lemma spendersOf_map_mark (outpoint : COutPoint Hash) :
    spendersOf wtxid (anns.map (mark ann reconsider)) outpoint = spendersOf wtxid anns
      outpoint := by
  simp [spendersOf, filter_map, Function.comp_def]

lemma Consistent.mark (h : Consistent wtxid T s) (hashes : Finset Hash)
    (hhashes : hashes = reconsiderOf wtxid (s.m_orphans.map (TxOrphanage.mark ann reconsider)))
    (hunique : ∀ a ∈ s.m_orphans, ∀ b ∈ s.m_orphans,
      (TxOrphanage.mark ann reconsider a).m_reconsider = true →
      (TxOrphanage.mark ann reconsider b).m_reconsider = true →
        wtxid a.m_tx = wtxid b.m_tx → a = b) :
    Consistent wtxid T
      { s.setReconsider ann reconsider with m_reconsiderable_wtxids := hashes } := by
  have htxs : txsOf (s.m_orphans.map (TxOrphanage.mark ann reconsider)) = txsOf s.m_orphans :=
    txsOf_map_mark _
  rw [show s.setReconsider ann reconsider =
    { s with m_orphans := s.m_orphans.map (TxOrphanage.mark ann reconsider) } from rfl]
  exact {
    wtxid_inj := h.wtxid_inj
    mem_txs := by
      refine forall_mem_map.2 fun a ha => ?_
      rw [mark_m_tx]
      exact h.mem_txs a ha
    nodup := by
      refine List.Nodup.map_on (fun a ha b hb heq => ?_) h.nodup
      refine h.sequence_inj a ha b hb ?_
      simpa using congrArg Announcement.m_entry_sequence heq
    byWtxid_inj := by
      refine forall_mem_map.2 fun a ha => forall_mem_map.2 fun b hb heq => ?_
      simp only [byWtxid_eq_iff, mark_m_tx, mark_m_announcer] at heq
      rw [h.byWtxid_inj a ha b hb (byWtxid_eq_iff.2 heq)]
    sequence_inj := by
      refine forall_mem_map.2 fun a ha => forall_mem_map.2 fun b hb heq => ?_
      simp only [mark_m_entry_sequence] at heq
      rw [h.sequence_inj a ha b hb heq]
    sequence_lt := by
      refine forall_mem_map.2 fun a ha => ?_
      rw [mark_m_entry_sequence]
      exact h.sequence_lt a ha
    peer_info peer := (h.peer_info peer).trans (peerInfoOf_map_mark _ peer).symm
    unique_orphans := h.unique_orphans.trans (by rw [htxs])
    unique_orphan_usage := h.unique_orphan_usage.trans (by rw [htxs])
    unique_rounded_input_scores := h.unique_rounded_input_scores.trans (by rw [htxs])
    outpoints outpoint := (h.outpoints outpoint).trans (spendersOf_map_mark _ outpoint).symm
    no_empty_set := h.no_empty_set
    reconsiderable := hhashes
    reconsider_inj := by
      refine forall_mem_map.2 fun a ha => forall_mem_map.2 fun b hb ha' hb' heq => ?_
      simp only [mark_m_tx] at heq
      rw [hunique a ha b hb ha' hb' heq] }

lemma Consistent.mark_true (h : Consistent wtxid T s) (hann : ann ∈ s.m_orphans)
    (hnone : wtxid ann.m_tx ∉ s.m_reconsiderable_wtxids) :
    Consistent wtxid T { s.setReconsider ann true with
      m_reconsiderable_wtxids := insert (wtxid ann.m_tx) s.m_reconsiderable_wtxids } := by
  rw [h.reconsiderable, mem_reconsiderOf] at hnone
  refine h.mark _ ?_ ?_
  · ext hash
    rw [Finset.mem_insert, h.reconsiderable, mem_reconsiderOf, mem_reconsiderOf]
    constructor
    · rintro (rfl | ⟨other, hother, hreconsider, rfl⟩)
      · exact ⟨_, mem_map_of_mem hann, by simp [mark_m_reconsider], by simp⟩
      · exact ⟨_, mem_map_of_mem hother, by simp [mark_m_reconsider, hreconsider], by simp⟩
    · rintro ⟨marked, hmarked, hreconsider, rfl⟩
      obtain ⟨other, hother, rfl⟩ := mem_map.1 hmarked
      rw [mark_m_tx]
      by_cases heq : other = ann
      · exact .inl (by rw [heq])
      · rw [mark_m_reconsider, if_neg heq] at hreconsider
        exact .inr ⟨other, hother, hreconsider, rfl⟩
  · intro a ha b hb ha' hb' heq
    rw [mark_m_reconsider] at ha' hb'
    by_cases haann : a = ann
    · by_cases hbann : b = ann
      · rw [haann, hbann]
      · rw [if_neg hbann] at hb'
        exact absurd ⟨b, hb, hb', by rw [← heq, haann]⟩ hnone
    · rw [if_neg haann] at ha'
      by_cases hbann : b = ann
      · exact absurd ⟨a, ha, ha', by rw [heq, hbann]⟩ hnone
      · rw [if_neg hbann] at hb'
        exact h.reconsider_inj a ha b hb ha' hb' heq

lemma Consistent.mark_false (h : Consistent wtxid T s) (hann : ann ∈ s.m_orphans)
    (hreconsider : ann.m_reconsider = true) :
    Consistent wtxid T { s.setReconsider ann false with
      m_reconsiderable_wtxids := s.m_reconsiderable_wtxids.erase (wtxid ann.m_tx) } := by
  have hother : ∀ other, (TxOrphanage.mark ann false other).m_reconsider = true ↔
      other ≠ ann ∧ other.m_reconsider = true := by
    intro other
    rw [mark_m_reconsider]
    by_cases heq : other = ann
    · simp [heq]
    · simp [heq]
  refine h.mark _ ?_ ?_
  · ext hash
    rw [Finset.mem_erase, h.reconsiderable, mem_reconsiderOf, mem_reconsiderOf]
    constructor
    · rintro ⟨hne, other, hmem, hreconsider', rfl⟩
      refine ⟨_, mem_map_of_mem hmem, (hother other).2 ⟨?_, hreconsider'⟩, by simp⟩
      rintro rfl
      exact hne rfl
    · rintro ⟨marked, hmarked, hreconsider', rfl⟩
      obtain ⟨other, hmem, rfl⟩ := mem_map.1 hmarked
      obtain ⟨hne, hreconsider'⟩ := (hother other).1 hreconsider'
      rw [mark_m_tx]
      exact ⟨fun heq => hne (h.reconsider_inj other hmem ann hann hreconsider' hreconsider heq),
        other, hmem, hreconsider', rfl⟩
  · intro a ha b hb ha' hb' heq
    exact h.reconsider_inj a ha b hb ((hother a).1 ha').2 ((hother b).1 hb').2 heq

end

end Reconsider

lemma Consistent.addChild (h : Consistent wtxid T s) (randrange : ℕ → Hash → ℕ → ℕ) (i : ℕ)
    (ret : List (Hash × NodeId)) (hhave : s.haveTx wtxid hash = true) :
    ∃ ret' s', TxOrphanage.addChild wtxid randrange i (ret, s) hash = .ok (ret', s') ∧
      Prepared wtxid T s s' false ∧ ∀ other, s'.haveTx wtxid other = s.haveTx wtxid other := by
  unfold TxOrphanage.addChild
  dsimp only
  split
  · exact ⟨ret, s, rfl, ⟨h, rfl, fun _ => rfl⟩, fun _ => rfl⟩
  next hnone =>
    rw [ensure_bind hhave]
    have hpos : 0 < (s.announcementsOf wtxid hash).length := by
      obtain ⟨ann, hann, heq⟩ := haveTx_iff.1 hhave
      exact length_pos_of_mem (mem_announcementsOf.2 ⟨hann, heq⟩)
    have hlt := Nat.mod_lt (randrange i hash (s.announcementsOf wtxid hash).length) hpos
    obtain ⟨it, hit⟩ : ∃ it, (s.announcementsOf wtxid hash)[randrange i hash
        (s.announcementsOf wtxid hash).length % (s.announcementsOf wtxid hash).length]? = some it :=
      ⟨_, List.getElem?_eq_getElem hlt⟩
    obtain ⟨hmem, rfl⟩ := mem_announcementsOf.1 (mem_of_getElem? hit)
    have hreconsider : it.m_reconsider = false := by
      refine Bool.eq_false_iff.2 fun htrue => hnone ?_
      rw [h.reconsiderable, mem_reconsiderOf]
      exact ⟨it, hmem, htrue, rfl⟩
    rw [hit]
    dsimp only
    rw [ensure_bind rfl, ensure_bind hreconsider]
    refine ⟨_, _, rfl, ⟨h.mark_true hmem hnone, rfl, fun _ => ?_⟩, fun other => ?_⟩
    · simp [TxOrphanage.needsTrim, totalLatencyScore, maxGlobalUsage, setReconsider]
    · rw [Bool.eq_iff_iff, haveTx_iff, haveTx_iff]
      constructor
      · rintro ⟨marked, hmarked, rfl⟩
        obtain ⟨ann, hann, rfl⟩ := mem_map.1 hmarked
        exact ⟨ann, hann, congrArg wtxid (mark_m_tx ann).symm⟩
      · rintro ⟨ann, hann, rfl⟩
        exact ⟨_, mem_map_of_mem hann, congrArg wtxid (mark_m_tx ann)⟩

/-- A state that `AddChildrenToWorkSet` reaches from `s`: only flags have changed. -/
def Marked (wtxid : CTransaction Hash → Hash) (T : Set (CTransaction Hash))
    (s s' : TxOrphanage Hash NodeId) : Prop :=
  Prepared wtxid T s s' false ∧ ∀ hash, s'.haveTx wtxid hash = s.haveTx wtxid hash

lemma Marked.addChild {s' : TxOrphanage Hash NodeId} (h : Marked wtxid T s s')
    (randrange : ℕ → Hash → ℕ → ℕ) (i : ℕ) (ret : List (Hash × NodeId))
    (hhave : s.haveTx wtxid hash = true) :
    ∃ ret' s'', TxOrphanage.addChild wtxid randrange i (ret, s') hash = .ok (ret', s'') ∧
      Marked wtxid T s s'' := by
  obtain ⟨⟨h', hlimits, htrim⟩, hsame⟩ := h
  obtain ⟨ret', s'', hrun, ⟨h'', hlimits', htrim'⟩, hsame'⟩ :=
    h'.addChild randrange i ret ((hsame hash).trans hhave)
  refine ⟨ret', s'', hrun, ⟨h'', hlimits'.trans hlimits, fun _ => ?_⟩, fun other => ?_⟩
  · rw [htrim' rfl, htrim rfl]
  · rw [hsame', hsame]

/-- The loops of `AddChildrenToWorkSet`, over its outputs and over the spenders of one. -/
lemma Marked.foldlM {α : Type} {f : List (Hash × NodeId) × TxOrphanage Hash NodeId → α →
      Except String (List (Hash × NodeId) × TxOrphanage Hash NodeId)} :
    ∀ {l : List α} {s' : TxOrphanage Hash NodeId},
      (∀ a ∈ l, ∀ s', Marked wtxid T s s' → ∀ ret, ∃ ret' s'', f (ret, s') a = .ok (ret', s'') ∧
        Marked wtxid T s s'') → Marked wtxid T s s' →
      ∀ ret, ∃ ret' s'', l.foldlM f (ret, s') = .ok (ret', s'') ∧ Marked wtxid T s s''
  | [], s', _, h, ret => ⟨ret, s', rfl, h⟩
  | a :: l, s', hstep, h, ret => by
    obtain ⟨ret₁, s₁, hrun, h₁⟩ := hstep a mem_cons_self s' h ret
    obtain ⟨ret', s'', hrest, h''⟩ :=
      Marked.foldlM (fun b hb => hstep b (mem_cons_of_mem _ hb)) h₁ ret₁
    exact ⟨ret', s'', foldlM_cons_eq_ok.2 ⟨_, hrun, hrest⟩, h''⟩

variable (txid : CTransaction Hash → Hash)

lemma Consistent.addChildrenToWorkSet (h : Consistent wtxid T s)
    (tx : CTransaction Hash) (randrange : ℕ → Hash → ℕ → ℕ) :
    ∃ ret s', s.addChildrenToWorkSet wtxid txid tx randrange = .ok (ret, s') ∧
      Prepared wtxid T s s' false := by
  have hstart : Marked wtxid T s s := ⟨⟨h, rfl, fun _ => rfl⟩, fun _ => rfl⟩
  refine (Marked.foldlM (fun i _ s' hmarked ret => ?_) hstart []).imp fun _ hrun =>
    hrun.imp fun _ hrun => ⟨hrun.1, hrun.2.1⟩
  cases hfind : s.m_outpoint_to_orphan_wtxids.lookup ⟨txid tx, i⟩ with
  | none => exact ⟨ret, s', rfl, hmarked⟩
  | some hashes =>
    refine Marked.foldlM (fun hash hmem s' hmarked ret => ?_) hmarked ret
    have hspends : hash ∈ spendersAt s.m_outpoint_to_orphan_wtxids ⟨txid tx, i⟩ := by
      rwa [spendersAt, hfind, Option.getD_some, ← Finset.mem_sort (· ≤ ·)]
    exact hmarked.addChild randrange i ret (h.haveTx_of_mem_spendersAt hspends)

omit [BoundedOrder NodeId] in
lemma Consistent.getTxToReconsider (h : Consistent wtxid T s) (peer : NodeId) :
    Prepared wtxid T s (s.getTxToReconsider wtxid peer).2 false := by
  unfold TxOrphanage.getTxToReconsider
  split
  · exact ⟨h, rfl, fun _ => rfl⟩
  next it hfind =>
    split
    next hit =>
      refine ⟨h.mark_false (mem_of_lowerBound hfind).1 hit.2, rfl, fun _ => ?_⟩
      simp [TxOrphanage.needsTrim, totalLatencyScore, maxGlobalUsage, setReconsider]
    · exact ⟨h, rfl, fun _ => rfl⟩

/-! ## All operations -/

/-- **Every operation, up to `LimitOrphans`**, succeeds and keeps the totals. -/
lemma Consistent.body (h : Consistent wtxid T s)
    {op : Operation Hash NodeId} (hop : ∀ tx peer, op = .addTx tx peer → tx ∈ T) :
    ∃ calls s', s.body wtxid txid op = .ok (calls, s') ∧ Prepared wtxid T s s' calls := by
  cases op with
  | addTx tx peer =>
    obtain ⟨ret, calls, s', hrun, hprepared⟩ := h.addTxBody (hop tx peer rfl) peer
    exact ⟨calls, s', by rw [TxOrphanage.body, hrun]; rfl, hprepared⟩
  | addAnnouncer hash peer =>
    obtain ⟨ret, calls, s', hrun, hprepared⟩ := h.addAnnouncerBody hash peer
    exact ⟨calls, s', by rw [TxOrphanage.body, hrun]; rfl, hprepared⟩
  | eraseTx hash =>
    obtain ⟨s', hrun, h', hlimits, -⟩ := h.eraseTxInternal hash
    exact ⟨true, s', by rw [TxOrphanage.body, hrun]; rfl, h', hlimits, nofun⟩
  | eraseForPeer peer =>
    obtain ⟨calls, s', hrun, hprepared⟩ := h.eraseForPeerBody peer
    exact ⟨calls, s', by rw [TxOrphanage.body, hrun]; rfl, hprepared⟩
  | eraseForBlock block =>
    obtain ⟨calls, s', hrun, hprepared⟩ := h.eraseForBlockBody block
    exact ⟨calls, s', by rw [TxOrphanage.body, hrun]; rfl, hprepared⟩
  | addChildrenToWorkSet tx randrange =>
    obtain ⟨ret, s', hrun, hprepared⟩ := h.addChildrenToWorkSet txid tx randrange
    exact ⟨false, s', by rw [TxOrphanage.body, hrun]; rfl, hprepared⟩
  | getTxToReconsider peer => exact ⟨false, _, rfl, h.getTxToReconsider peer⟩

/-- The end of an operation: the state after `LimitOrphans`, if the operation gets there. -/
def limited (wtxid : CTransaction Hash → Hash) (calls : Bool) (s : TxOrphanage Hash NodeId) :
    Except String (TxOrphanage Hash NodeId) :=
  if calls then s.limitOrphans wtxid else .ok s

omit [BoundedOrder NodeId] in
lemma map_snd_finish {β : Type} (outcome : β × Bool × TxOrphanage Hash NodeId) :
    Prod.snd <$> finish wtxid outcome = limited wtxid outcome.2.1 outcome.2.2 := by
  unfold finish limited
  cases outcome.2.1 with
  | false => rfl
  | true => cases outcome.2.2.limitOrphans wtxid <;> rfl

lemma perform_eq (op : Operation Hash NodeId) : s.perform wtxid txid op =
      s.body wtxid txid op >>= fun outcome => limited wtxid outcome.1 outcome.2 := by
  have hfinish : ∀ {β : Type} (run : Except String (β × Bool × TxOrphanage Hash NodeId)),
      (do return (← run >>= finish wtxid).2) =
        (do return (← run).2) >>= fun outcome => limited wtxid outcome.1 outcome.2 := by
    intro β run
    cases run with
    | error text => rfl
    | ok outcome => exact map_snd_finish outcome
  cases op with
  | addTx tx peer => exact hfinish (s.addTxBody wtxid tx peer)
  | addAnnouncer hash peer => exact hfinish (s.addAnnouncerBody wtxid hash peer)
  | eraseTx hash =>
    simp only [perform, body, eraseTx]
    cases s.eraseTxInternal wtxid hash with
    | error text => rfl
    | ok outcome => exact map_snd_finish (outcome.1, true, outcome.2)
  | eraseForPeer peer => exact hfinish (s.eraseForPeerBody wtxid peer)
  | eraseForBlock block => exact hfinish (s.eraseForBlockBody wtxid block)
  | addChildrenToWorkSet tx randrange =>
    simp only [perform, body]
    cases s.addChildrenToWorkSet wtxid txid tx randrange <;> rfl
  | getTxToReconsider peer => rfl

end SlithyTove.TxOrphanage
