import SlithyTove.Orphanage.TxOrphanage

/-!
# The totals of the orphanage

Every field of an orphanage but the limits and the sequence counter is a function of its
announcements: the totals of a peer are those of its announcements, the global totals those of the
distinct transactions, and the index by outpoint holds the wtxids of the transactions that spend it.
`Consistent` says so, and `Erase` and the functions that add announcements keep it.  The functions
`peerInfoOf`, `txsOf`, `spendersOf` and `reconsiderOf` do not depend on the order of the
announcements, so erasing one is the reverse of adding it.

Two transactions that are added have different wtxids: `T` is a set of transactions without a
collision that holds them all.
-/

namespace SlithyTove.TxOrphanage

open Framework List AList

variable {Hash NodeId : Type} [LinearOrder Hash] [LinearOrder NodeId]
  (wtxid : CTransaction Hash → Hash)

/-! ## What the announcements determine -/

variable (anns : List (Announcement Hash NodeId))

/-- The totals of some announcements. -/
def totalsOf : PeerDoSInfo where
  m_total_usage := (anns.map Announcement.getMemUsage).sum
  m_count_announcements := anns.length
  m_total_latency_score := (anns.map Announcement.getLatencyScore).sum

/-- The totals of a peer, if it has an announcement. -/
def peerInfoOf (peer : NodeId) : Option PeerDoSInfo :=
  let own := anns.filter fun ann => ann.m_announcer = peer
  if own = [] then none else some (totalsOf own)

/-- The distinct transactions. -/
def txsOf : Finset (CTransaction Hash) :=
  (anns.map Announcement.m_tx).toFinset

/-- The outpoints a transaction spends. -/
def prevoutsOf (tx : CTransaction Hash) : List (COutPoint Hash) := tx.vin.map CTxIn.prevout

/-- The wtxids of the transactions that spend an outpoint. -/
def spendersOf (outpoint : COutPoint Hash) : Finset Hash :=
  ((anns.filter fun ann => outpoint ∈ prevoutsOf ann.m_tx).map fun ann => wtxid ann.m_tx).toFinset

/-- The wtxids to reconsider. -/
def reconsiderOf : Finset Hash :=
  ((anns.filter Announcement.m_reconsider).map fun ann => wtxid ann.m_tx).toFinset

section Perm

variable {anns anns' : List (Announcement Hash NodeId)}

section

variable (h : anns.Perm anns')

include h

omit [LinearOrder Hash] [LinearOrder NodeId] in
lemma totalsOf_perm : totalsOf anns = totalsOf anns' := by
  unfold totalsOf
  rw [(h.map _).sum_eq, (h.map _).sum_eq, h.length_eq]

omit [LinearOrder Hash] in
lemma peerInfoOf_perm : peerInfoOf anns = peerInfoOf anns' := by
  funext peer
  have hown := h.filter fun ann => ann.m_announcer = peer
  unfold peerInfoOf
  simp only [totalsOf_perm hown]
  congr 1
  exact propext ⟨fun hnil => by simpa [hnil] using hown, fun hnil => by simpa [hnil] using hown⟩

section

omit [LinearOrder NodeId]

lemma txsOf_perm : txsOf anns = txsOf anns' :=
  toFinset_eq_of_perm _ _ (h.map _)

lemma spendersOf_perm : spendersOf wtxid anns = spendersOf wtxid anns' := by
  funext outpoint
  exact toFinset_eq_of_perm _ _ ((h.filter _).map _)

lemma reconsiderOf_perm :
    reconsiderOf wtxid anns = reconsiderOf wtxid anns' :=
  toFinset_eq_of_perm _ _ ((h.filter _).map _)

end

end

end Perm

section Cons

variable (ann : Announcement Hash NodeId) (anns : List (Announcement Hash NodeId))

omit [LinearOrder Hash] [LinearOrder NodeId] in
lemma totalsOf_cons : totalsOf (ann :: anns) = (totalsOf anns).add ann := by
  simp only [totalsOf, map_cons, sum_cons, length_cons]
  congr 1 <;> ring

omit [LinearOrder Hash] in
lemma peerInfoOf_cons_self : peerInfoOf (ann :: anns) ann.m_announcer =
      some (((peerInfoOf anns ann.m_announcer).getD {}).add ann) := by
  unfold peerInfoOf
  simp only [filter_cons, decide_true, if_true, reduceCtorEq, if_false, totalsOf_cons]
  split
  next hnil =>
    rw [hnil]
    rfl
  next => rfl

omit [LinearOrder Hash] in
lemma peerInfoOf_cons_of_ne {peer : NodeId} (h : peer ≠ ann.m_announcer) :
    peerInfoOf (ann :: anns) peer = peerInfoOf anns peer := by
  unfold peerInfoOf
  rw [filter_cons_of_neg (by simpa using h.symm)]

section

omit [LinearOrder NodeId]

lemma txsOf_cons : txsOf (ann :: anns) = insert ann.m_tx (txsOf anns) := by
  simp [txsOf]

lemma spendersOf_cons (outpoint : COutPoint Hash) :
    spendersOf wtxid (ann :: anns) outpoint =
      if outpoint ∈ prevoutsOf ann.m_tx then insert (wtxid ann.m_tx)
        (spendersOf wtxid anns outpoint)
      else spendersOf wtxid anns outpoint := by
  unfold spendersOf
  by_cases h : outpoint ∈ prevoutsOf ann.m_tx
  · simp [h]
  · simp [h]

lemma reconsiderOf_cons : reconsiderOf wtxid (ann :: anns) =
      if ann.m_reconsider then insert (wtxid ann.m_tx) (reconsiderOf wtxid anns)
      else reconsiderOf wtxid anns := by
  unfold reconsiderOf
  by_cases h : ann.m_reconsider = true
  · simp [h]
  · simp [h]

end

end Cons

/-! ## The index by outpoint -/

section Outpoints

variable (index : AList fun _ : COutPoint Hash => Finset Hash)

/-- The set at an outpoint, empty if there is none. -/
def spendersAt (outpoint : COutPoint Hash) : Finset Hash := (index.lookup outpoint).getD ∅

/-- No outpoint has an empty set. -/
def NoEmptySet : Prop := ∀ outpoint, index.lookup outpoint ≠ some ∅

variable {index} (hash : Hash)

lemma spendersAt_addOutpoint (txin : CTxIn Hash) (outpoint : COutPoint Hash) :
    spendersAt (addOutpoint hash index txin) outpoint =
      if outpoint = txin.prevout then insert hash (spendersAt index outpoint)
      else spendersAt index outpoint := by
  unfold spendersAt addOutpoint
  split
  next heq =>
    rw [heq, lookup_insert]
    rfl
  next hne => rw [lookup_insert_ne hne]

lemma NoEmptySet.addOutpoint (h : NoEmptySet index) (hash : Hash) (txin : CTxIn Hash) :
    NoEmptySet (addOutpoint hash index txin) := by
  intro outpoint
  unfold TxOrphanage.addOutpoint
  by_cases heq : outpoint = txin.prevout
  · rw [heq, lookup_insert]
    simp
  · rw [lookup_insert_ne heq]
    exact h outpoint

lemma spendersAt_removeOutpoint (txin : CTxIn Hash) (outpoint : COutPoint Hash) :
    spendersAt (removeOutpoint hash index txin) outpoint =
      if outpoint = txin.prevout then (spendersAt index outpoint).erase hash
      else spendersAt index outpoint := by
  unfold spendersAt removeOutpoint
  by_cases heq : outpoint = txin.prevout
  · subst heq
    rw [if_pos rfl]
    cases hfind : index.lookup txin.prevout with
    | none => simp [hfind]
    | some hashes =>
      dsimp only
      split
      next hempty => rw [lookup_erase, Option.getD_some, hempty, Option.getD_none]
      next => rw [lookup_insert, Option.getD_some, Option.getD_some]
  · rw [if_neg heq]
    split
    · rfl
    · split
      · rw [lookup_erase_ne heq]
      · rw [lookup_insert_ne heq]

lemma NoEmptySet.removeOutpoint (h : NoEmptySet index) (hash : Hash) (txin : CTxIn Hash) :
    NoEmptySet (removeOutpoint hash index txin) := by
  intro outpoint
  unfold TxOrphanage.removeOutpoint
  split
  · exact h outpoint
  next hashes hfind =>
    by_cases heq : outpoint = txin.prevout
    · subst heq
      split
      next =>
        simp
      next hne =>
        simpa using hne
    · split
      next =>
        rw [lookup_erase_ne heq]
        exact h outpoint
      next =>
        rw [lookup_insert_ne heq]
        exact h outpoint

lemma spendersAt_foldl_addOutpoint (vin : List (CTxIn Hash)) (outpoint : COutPoint Hash) :
    ∀ index, spendersAt (vin.foldl (addOutpoint hash) index) outpoint =
      if outpoint ∈ vin.map CTxIn.prevout then insert hash (spendersAt index outpoint)
      else spendersAt index outpoint := by
  induction vin with
  | nil => simp
  | cons txin vin ih =>
    intro index
    rw [foldl_cons, ih, spendersAt_addOutpoint]
    by_cases heq : outpoint = txin.prevout <;> by_cases hmem : outpoint ∈ vin.map CTxIn.prevout <;>
      simp [heq, hmem]

lemma spendersAt_foldl_removeOutpoint (vin : List (CTxIn Hash)) (outpoint : COutPoint Hash) :
    ∀ index, spendersAt (vin.foldl (removeOutpoint hash) index) outpoint =
      if outpoint ∈ vin.map CTxIn.prevout then (spendersAt index outpoint).erase hash
      else spendersAt index outpoint := by
  induction vin with
  | nil => simp
  | cons txin vin ih =>
    intro index
    rw [foldl_cons, ih, spendersAt_removeOutpoint]
    by_cases heq : outpoint = txin.prevout <;> by_cases hmem : outpoint ∈ vin.map CTxIn.prevout <;>
      simp [heq, hmem]

lemma NoEmptySet.foldl {f : AList (fun _ : COutPoint Hash => Finset Hash) → CTxIn Hash →
      AList fun _ : COutPoint Hash => Finset Hash}
    (hf : ∀ index txin, NoEmptySet index → NoEmptySet (f index txin)) (vin : List (CTxIn Hash)) :
    ∀ index, NoEmptySet index → NoEmptySet (vin.foldl f index) := by
  induction vin with
  | nil => exact fun _ h => h
  | cons txin vin ih => exact fun index h => ih _ (hf index txin h)

end Outpoints

/-! ## Consistency -/

/-- The fields are what the announcements determine. -/
structure Consistent (T : Set (CTransaction Hash)) (s : TxOrphanage Hash NodeId) : Prop where
  wtxid_inj : Set.InjOn wtxid T
  mem_txs : ∀ a ∈ s.m_orphans, a.m_tx ∈ T
  nodup : s.m_orphans.Nodup
  byWtxid_inj : ∀ a ∈ s.m_orphans, ∀ b ∈ s.m_orphans, byWtxid wtxid a = byWtxid wtxid b → a = b
  sequence_inj : ∀ a ∈ s.m_orphans, ∀ b ∈ s.m_orphans,
    a.m_entry_sequence = b.m_entry_sequence → a = b
  sequence_lt : ∀ a ∈ s.m_orphans, a.m_entry_sequence < s.m_current_sequence
  peer_info : ∀ peer, s.m_peer_orphanage_info.lookup peer = peerInfoOf s.m_orphans peer
  unique_orphans : s.m_unique_orphans = (txsOf s.m_orphans).card
  unique_orphan_usage : s.m_unique_orphan_usage = ((∑ tx ∈ txsOf s.m_orphans, tx.weight : ℕ) : ℤ)
  unique_rounded_input_scores : s.m_unique_rounded_input_scores =
    ((∑ tx ∈ txsOf s.m_orphans, tx.vin.length / 10 : ℕ) : ℤ)
  outpoints : ∀ outpoint, spendersAt s.m_outpoint_to_orphan_wtxids outpoint =
    spendersOf wtxid s.m_orphans outpoint
  no_empty_set : NoEmptySet s.m_outpoint_to_orphan_wtxids
  reconsiderable : s.m_reconsiderable_wtxids = reconsiderOf wtxid s.m_orphans
  reconsider_inj : ∀ a ∈ s.m_orphans, ∀ b ∈ s.m_orphans, a.m_reconsider = true →
    b.m_reconsider = true → wtxid a.m_tx = wtxid b.m_tx → a = b

variable {T : Set (CTransaction Hash)}

lemma consistent_new (hinj : Set.InjOn wtxid T) (limits : OrphanageLimits) :
    Consistent wtxid T (new limits : TxOrphanage Hash NodeId) where
  wtxid_inj := hinj
  mem_txs := nofun
  nodup := nodup_nil
  byWtxid_inj := nofun
  sequence_inj := nofun
  sequence_lt := nofun
  peer_info := fun _ => rfl
  unique_orphans := rfl
  unique_orphan_usage := rfl
  unique_rounded_input_scores := rfl
  outpoints := fun _ => rfl
  no_empty_set := nofun
  reconsiderable := rfl
  reconsider_inj := nofun

variable {wtxid}

section Lex

variable {s : TxOrphanage Hash NodeId} {a b c : Announcement Hash NodeId}

omit [LinearOrder Hash] [LinearOrder NodeId] in
lemma byWtxid_eq_iff : byWtxid wtxid a = byWtxid wtxid b ↔
    wtxid a.m_tx = wtxid b.m_tx ∧ a.m_announcer = b.m_announcer := by
  simp [byWtxid]

lemma wtxid_eq_of_between (hab : byWtxid wtxid a ≤ byWtxid wtxid b)
    (hbc : byWtxid wtxid b ≤ byWtxid wtxid c) (hac : wtxid a.m_tx = wtxid c.m_tx) :
    wtxid b.m_tx = wtxid a.m_tx := by
  have h₁ := Prod.Lex.monotone_fst _ _ hab
  have h₂ := Prod.Lex.monotone_fst _ _ hbc
  exact le_antisymm (h₂.trans hac.ge) h₁

/-- `IsUnique` finds out whether there is another announcement of the wtxid. -/
lemma isUnique_iff
    (hinj : ∀ b ∈ s.m_orphans, byWtxid wtxid b = byWtxid wtxid a → b = a) :
    s.isUnique wtxid a = true ↔ ∀ b ∈ s.m_orphans, wtxid b.m_tx = wtxid a.m_tx → b = a := by
  unfold isUnique
  simp only [Bool.and_eq_true, Bool.not_eq_true', Option.any_eq_false, decide_eq_false_iff_not]
  constructor
  · rintro ⟨hnext, hprev⟩ b hb hsame
    by_contra hne
    rcases lt_trichotomy (byWtxid wtxid b) (byWtxid wtxid a) with hlt | heq | hgt
    · cases hfind : lastBelow (byWtxid wtxid) s.m_orphans (byWtxid wtxid a) with
      | none => exact absurd (lastBelow_eq_none.1 hfind b hb) (not_le.2 hlt)
      | some d =>
        have hd := wtxid_eq_of_between (le_of_lastBelow hfind hb hlt) (mem_of_lastBelow hfind).2.le
          hsame
        exact hprev d hfind (hd.trans hsame)
    · exact hne (hinj b hb heq)
    · cases hfind : upperBound (byWtxid wtxid) s.m_orphans (byWtxid wtxid a) with
      | none => exact absurd (upperBound_eq_none.1 hfind b hb) (not_le.2 hgt)
      | some d =>
        have hd := wtxid_eq_of_between (mem_of_upperBound hfind).2.le
          (le_of_upperBound hfind hb hgt)
          hsame.symm
        exact hnext d hfind hd
  · intro hall
    constructor
    · intro d hfind hsame
      obtain ⟨hmem, hlt⟩ := mem_of_upperBound hfind
      rw [hall d hmem hsame] at hlt
      exact lt_irrefl _ hlt
    · intro d hfind hsame
      obtain ⟨hmem, hlt⟩ := mem_of_lastBelow hfind
      rw [hall d hmem hsame] at hlt
      exact lt_irrefl _ hlt

end Lex

/-! ## Erasing an announcement -/

omit [LinearOrder Hash] [LinearOrder NodeId] in
lemma subtract_add (info : PeerDoSInfo) (ann : Announcement Hash NodeId) :
    (info.add ann).subtract ann = .ok info := by
  simp [PeerDoSInfo.subtract, PeerDoSInfo.add, ensure, ok_bind, pure_eq]

omit [LinearOrder Hash] in
lemma count_peerInfoOf_eq_zero {anns : List (Announcement Hash NodeId)} {peer : NodeId} :
    ((peerInfoOf anns peer).getD {}).m_count_announcements = 0 ↔ peerInfoOf anns peer = none := by
  unfold peerInfoOf
  dsimp only
  split
  · simp
  next hne => simpa [totalsOf] using hne

section Erase

variable {s : TxOrphanage Hash NodeId} {ann : Announcement Hash NodeId}

lemma Consistent.isUnique_iff_notMem (h : Consistent wtxid T s) (hann : ann ∈ s.m_orphans) :
    s.isUnique wtxid ann = true ↔ ann.m_tx ∉ txsOf (s.m_orphans.erase ann) := by
  rw [isUnique_iff fun b hb => h.byWtxid_inj b hb ann hann]
  simp only [txsOf, mem_toFinset, mem_map, not_exists, not_and]
  constructor
  · intro hall b hb hsame
    obtain ⟨hne, hb⟩ := (h.nodup.mem_erase_iff).1 hb
    exact hne (hall b hb (congrArg wtxid hsame))
  · intro hnone b hb hsame
    by_contra hne
    exact hnone b ((h.nodup.mem_erase_iff).2 ⟨hne, hb⟩)
      (h.wtxid_inj (h.mem_txs b hb) (h.mem_txs ann hann) hsame)

variable (wtxid) in
/-- The state after `Erase`, given what is left of the peer's totals. -/
def erased (s : TxOrphanage Hash NodeId) (ann : Announcement Hash NodeId) (info : PeerDoSInfo) :
    TxOrphanage Hash NodeId :=
  let unique := s.isUnique wtxid ann
  { s with
    m_peer_orphanage_info :=
      if info.m_count_announcements = 0 then s.m_peer_orphanage_info.erase ann.m_announcer
      else s.m_peer_orphanage_info.insert ann.m_announcer info
    m_unique_orphans := if unique then s.m_unique_orphans - 1 else s.m_unique_orphans
    m_unique_rounded_input_scores :=
      if unique then s.m_unique_rounded_input_scores - (ann.getLatencyScore - 1 : ℤ)
      else s.m_unique_rounded_input_scores
    m_unique_orphan_usage :=
      if unique then s.m_unique_orphan_usage - ann.getMemUsage else s.m_unique_orphan_usage
    m_outpoint_to_orphan_wtxids :=
      if unique then ann.m_tx.vin.foldl (removeOutpoint (wtxid ann.m_tx))
        s.m_outpoint_to_orphan_wtxids
      else s.m_outpoint_to_orphan_wtxids
    m_reconsiderable_wtxids :=
      if ann.m_reconsider then s.m_reconsiderable_wtxids.erase (wtxid ann.m_tx)
      else s.m_reconsiderable_wtxids
    m_orphans := s.m_orphans.erase ann }

lemma erase_eq {info info' : PeerDoSInfo}
    (hinfo : s.m_peer_orphanage_info.lookup ann.m_announcer = some info)
    (hsubtract : info.subtract ann = .ok info') :
    s.erase wtxid ann = .ok (erased wtxid s ann info') := by
  have hunique : ∀ peers, isUnique wtxid { s with m_peer_orphanage_info := peers } ann =
      s.isUnique wtxid ann := fun _ => rfl
  unfold erase erased
  rw [hinfo]
  simp only [hsubtract, ok_bind, pure_eq, hunique]
  cases s.isUnique wtxid ann <;> rfl

lemma Consistent.lookup_erased (h : Consistent wtxid T s) (hann : ann ∈ s.m_orphans)
    (peer : NodeId) :
    (erased wtxid s ann ((peerInfoOf (s.m_orphans.erase ann) ann.m_announcer).getD
      {})).m_peer_orphanage_info.lookup peer = peerInfoOf (s.m_orphans.erase ann) peer := by
  have hperm := perm_cons_erase hann
  change AList.lookup peer (if _ then _ else _) = _
  by_cases hpeer : peer = ann.m_announcer
  · subst hpeer
    split
    next hzero => rw [lookup_erase, count_peerInfoOf_eq_zero.1 hzero]
    next hpos =>
      rw [count_peerInfoOf_eq_zero] at hpos
      obtain ⟨left, hleft⟩ := Option.ne_none_iff_exists'.1 hpos
      rw [lookup_insert, hleft, Option.getD_some]
  · have hold := h.peer_info peer
    rw [peerInfoOf_perm hperm, peerInfoOf_cons_of_ne _ _ hpeer] at hold
    split
    · rw [lookup_erase_ne hpeer, hold]
    · rw [lookup_insert_ne hpeer, hold]

variable {anns : List (Announcement Hash NodeId)}

omit [LinearOrder NodeId] in
lemma sum_added {brand_new : Bool}
    (hnew : brand_new = true ↔ ann.m_tx ∉ txsOf anns) (f : CTransaction Hash → ℕ) :
    ((∑ tx ∈ txsOf (ann :: anns), f tx : ℕ) : ℤ) =
      if brand_new then ((∑ tx ∈ txsOf anns, f tx : ℕ) : ℤ) + f ann.m_tx
      else ((∑ tx ∈ txsOf anns, f tx : ℕ) : ℤ) := by
  rw [txsOf_cons]
  split
  next hb =>
    rw [Finset.sum_insert (hnew.1 hb)]
    push_cast
    ring
  next hb =>
    rw [hnew, not_not] at hb
    rw [Finset.insert_eq_of_mem hb]

lemma Consistent.sum_erased (h : Consistent wtxid T s) (hann : ann ∈ s.m_orphans)
    (f : CTransaction Hash → ℕ) :
    ((∑ tx ∈ txsOf (s.m_orphans.erase ann), f tx : ℕ) : ℤ) =
      if s.isUnique wtxid ann then ((∑ tx ∈ txsOf s.m_orphans, f tx : ℕ) : ℤ) - f ann.m_tx
      else ((∑ tx ∈ txsOf s.m_orphans, f tx : ℕ) : ℤ) := by
  rw [txsOf_perm (perm_cons_erase hann), sum_added (h.isUnique_iff_notMem hann)]
  split
  · rw [add_sub_cancel_right]
  · rfl

omit [LinearOrder Hash] [LinearOrder NodeId] in
lemma getLatencyScore_sub_one :
    (ann.getLatencyScore - 1 : ℤ) = (ann.m_tx.vin.length / 10 : ℕ) := by
  rw [Announcement.getLatencyScore]
  push_cast
  ring

omit [LinearOrder NodeId] in
lemma mem_spendersOf_of_mem_txsOf
    {tx : CTransaction Hash} {outpoint : COutPoint Hash} (htx : tx ∈ txsOf anns)
    (hspends : outpoint ∈ prevoutsOf tx) : wtxid tx ∈ spendersOf wtxid anns outpoint := by
  obtain ⟨b, hb, rfl⟩ := mem_map.1 (mem_toFinset.1 htx)
  simp only [spendersOf, mem_toFinset, mem_map, mem_filter]
  exact ⟨b, ⟨hb, by simpa using hspends⟩, rfl⟩

/-- **`Erase` keeps the totals.** -/
lemma Consistent.erase (h : Consistent wtxid T s) (hann : ann ∈ s.m_orphans) :
    ∃ s', s.erase wtxid ann = .ok s' ∧ Consistent wtxid T s' ∧
      s'.m_orphans = s.m_orphans.erase ann ∧ s'.limits = s.limits := by
  have hperm := perm_cons_erase hann
  have hnotMem : ann ∉ s.m_orphans.erase ann := fun hmem => (h.nodup.mem_erase_iff.1 hmem).1 rfl
  have hsub : ∀ b ∈ s.m_orphans.erase ann, b ∈ s.m_orphans := fun b hb => mem_of_mem_erase hb
  have hlookup := h.peer_info ann.m_announcer
  rw [peerInfoOf_perm hperm, peerInfoOf_cons_self] at hlookup
  refine ⟨_, erase_eq hlookup (subtract_add _ _), ?_, rfl, rfl⟩
  exact {
    wtxid_inj := h.wtxid_inj
    mem_txs := fun a ha => h.mem_txs a (hsub a ha)
    nodup := h.nodup.erase _
    byWtxid_inj := fun a ha b hb => h.byWtxid_inj a (hsub a ha) b (hsub b hb)
    sequence_inj := fun a ha b hb => h.sequence_inj a (hsub a ha) b (hsub b hb)
    sequence_lt := fun a ha => h.sequence_lt a (hsub a ha)
    peer_info := h.lookup_erased hann
    unique_orphans := by
      have hsum := h.sum_erased hann fun _ => 1
      simp only [Finset.sum_const, smul_eq_mul, mul_one] at hsum
      change (if s.isUnique wtxid ann then s.m_unique_orphans - 1 else s.m_unique_orphans) = _
      rw [h.unique_orphans]
      exact hsum.symm
    unique_orphan_usage := by
      change (if s.isUnique wtxid ann then _ else _) = _
      rw [h.unique_orphan_usage]
      exact (h.sum_erased hann _).symm
    unique_rounded_input_scores := by
      change (if s.isUnique wtxid ann then _ else _) = _
      rw [h.unique_rounded_input_scores, getLatencyScore_sub_one]
      exact (h.sum_erased hann fun tx => tx.vin.length / 10).symm
    outpoints := by
      intro outpoint
      have hold := h.outpoints outpoint
      rw [spendersOf_perm wtxid hperm, spendersOf_cons] at hold
      change spendersAt (if s.isUnique wtxid ann then _ else _) _ = _
      split
      next hunique =>
        -- The wtxid is in no set of the rest, so taking it out leaves the set of the rest.
        have hnone : wtxid ann.m_tx ∉ spendersOf wtxid (s.m_orphans.erase ann) outpoint := by
          intro hmem
          simp only [spendersOf, mem_toFinset, mem_map, mem_filter] at hmem
          obtain ⟨b, ⟨hb, -⟩, hsame⟩ := hmem
          refine (h.isUnique_iff_notMem hann).1 hunique ?_
          rw [← h.wtxid_inj (h.mem_txs b (hsub b hb)) (h.mem_txs ann hann) hsame]
          exact mem_toFinset.2 (mem_map_of_mem hb)
        rw [spendersAt_foldl_removeOutpoint, hold]
        change (if outpoint ∈ prevoutsOf ann.m_tx then _ else _) = _
        split
        · exact Finset.erase_insert hnone
        · rfl
      next hunique =>
        rw [h.isUnique_iff_notMem hann, not_not] at hunique
        rw [hold]
        split
        next hspends => exact Finset.insert_eq_of_mem (mem_spendersOf_of_mem_txsOf hunique hspends)
        · rfl
    no_empty_set := by
      change NoEmptySet (if s.isUnique wtxid ann then _ else _)
      split
      · exact NoEmptySet.foldl (fun _ txin hindex => hindex.removeOutpoint _ txin) _ _
          h.no_empty_set
      · exact h.no_empty_set
    reconsiderable := by
      have hold := h.reconsiderable
      rw [reconsiderOf_perm wtxid hperm, reconsiderOf_cons] at hold
      change (if ann.m_reconsider then _ else _) = _
      rw [hold]
      split
      next hreconsider =>
        refine Finset.erase_insert fun hmem => ?_
        simp only [reconsiderOf, mem_toFinset, mem_map, mem_filter] at hmem
        obtain ⟨b, ⟨hb, hb'⟩, hsame⟩ := hmem
        have heq := h.reconsider_inj b (hsub b hb) ann hann hb' hreconsider hsame
        exact hnotMem (heq ▸ hb)
      · rfl
    reconsider_inj := fun a ha b hb => h.reconsider_inj a (hsub a ha) b (hsub b hb) }

end Erase

/-! ## Adding an announcement -/

section Add

variable {s : TxOrphanage Hash NodeId} {ann : Announcement Hash NodeId}

variable (wtxid) in
/-- The state after a new announcement, of a new transaction or of one that is there. -/
def added (s : TxOrphanage Hash NodeId) (ann : Announcement Hash NodeId) (brand_new : Bool) :
    TxOrphanage Hash NodeId :=
  { s.announce ann with
    m_outpoint_to_orphan_wtxids :=
      if brand_new then ann.m_tx.vin.foldl (addOutpoint (wtxid ann.m_tx))
        s.m_outpoint_to_orphan_wtxids
      else s.m_outpoint_to_orphan_wtxids
    m_unique_orphans := if brand_new then s.m_unique_orphans + 1 else s.m_unique_orphans
    m_unique_orphan_usage :=
      if brand_new then s.m_unique_orphan_usage + ann.getMemUsage else s.m_unique_orphan_usage
    m_unique_rounded_input_scores :=
      if brand_new then s.m_unique_rounded_input_scores + (ann.getLatencyScore - 1 : ℤ)
      else s.m_unique_rounded_input_scores }

/-- What `emplace` makes sure of. -/
structure Fresh (wtxid : CTransaction Hash → Hash) (s : TxOrphanage Hash NodeId)
    (ann : Announcement Hash NodeId) : Prop where
  sequence : ann.m_entry_sequence = s.m_current_sequence
  reconsider : ann.m_reconsider = false
  byWtxid_ne : ∀ b ∈ s.m_orphans, byWtxid wtxid b ≠ byWtxid wtxid ann

lemma fresh_of_emplace {tx : CTransaction Hash} {peer : NodeId}
    (h : s.emplace wtxid tx peer = some ann) :
    Fresh wtxid s ann ∧ ann.m_tx = tx ∧ ann.m_announcer = peer := by
  unfold emplace at h
  dsimp only at h
  split at h
  · cases h
  next hnone =>
    cases h
    refine ⟨⟨rfl, rfl, fun b hb heq => hnone ?_⟩, rfl, rfl⟩
    exact any_eq_true.2 ⟨b, hb, by simp [heq]⟩

/-- **A new announcement keeps the totals.** -/
lemma Consistent.added (h : Consistent wtxid T s) (htx : ann.m_tx ∈ T) (hfresh : Fresh wtxid s ann)
    {brand_new : Bool} (hnew : brand_new = true ↔ ann.m_tx ∉ txsOf s.m_orphans) :
    Consistent wtxid T (added wtxid s ann brand_new) where
  wtxid_inj := h.wtxid_inj
  mem_txs := forall_mem_cons.2 ⟨htx, h.mem_txs⟩
  nodup := nodup_cons.2 ⟨fun hmem => hfresh.byWtxid_ne ann hmem rfl, h.nodup⟩
  byWtxid_inj := eq_of_related_cons (fun _ _ => Eq.symm) h.byWtxid_inj hfresh.byWtxid_ne
  sequence_inj := by
    refine eq_of_related_cons (fun _ _ => Eq.symm) h.sequence_inj fun a ha heq => ?_
    exact (h.sequence_lt a ha).ne (heq.trans hfresh.sequence)
  sequence_lt := by
    refine forall_mem_cons.2 ⟨?_, fun a ha => Nat.lt_succ_of_lt (h.sequence_lt a ha)⟩
    rw [hfresh.sequence]
    exact Nat.lt_succ_self _
  peer_info := by
    intro peer
    change AList.lookup peer (s.m_peer_orphanage_info.insert _ _) = peerInfoOf
      (ann :: s.m_orphans) peer
    by_cases hpeer : peer = ann.m_announcer
    · rw [hpeer, lookup_insert, peerInfoOf_cons_self, h.peer_info]
    · rw [lookup_insert_ne hpeer, peerInfoOf_cons_of_ne _ _ hpeer, h.peer_info]
  unique_orphans := by
    have hsum := sum_added hnew fun _ => 1
    simp only [Finset.sum_const, smul_eq_mul, mul_one] at hsum
    change (if brand_new then s.m_unique_orphans + 1 else s.m_unique_orphans) = _
    rw [h.unique_orphans]
    exact hsum.symm
  unique_orphan_usage := by
    change (if brand_new then _ else _) = _
    rw [h.unique_orphan_usage]
    exact (sum_added hnew _).symm
  unique_rounded_input_scores := by
    change (if brand_new then _ else _) = _
    rw [h.unique_rounded_input_scores, getLatencyScore_sub_one]
    exact (sum_added hnew fun tx => tx.vin.length / 10).symm
  outpoints := by
    intro outpoint
    change spendersAt (if brand_new then _ else _) _ = spendersOf wtxid
      (ann :: s.m_orphans) outpoint
    rw [spendersOf_cons]
    split
    next => rw [spendersAt_foldl_addOutpoint, h.outpoints, prevoutsOf]
    next hb =>
      rw [h.outpoints]
      split
      next hspends =>
        rw [hnew, not_not] at hb
        exact (Finset.insert_eq_of_mem (mem_spendersOf_of_mem_txsOf hb hspends)).symm
      · rfl
  no_empty_set := by
    change NoEmptySet (if brand_new then _ else _)
    split
    · exact NoEmptySet.foldl (fun _ txin hindex => hindex.addOutpoint _ txin) _ _ h.no_empty_set
    · exact h.no_empty_set
  reconsiderable := by
    change s.m_reconsiderable_wtxids = reconsiderOf wtxid (ann :: s.m_orphans)
    rw [reconsiderOf_cons, hfresh.reconsider, h.reconsiderable]
    rfl
  reconsider_inj := by
    intro a ha b hb ha' hb'
    have hreconsider := hfresh.reconsider
    rcases mem_cons.1 ha with rfl | ha
    · exact absurd (hreconsider.symm.trans ha') nofun
    · rcases mem_cons.1 hb with rfl | hb
      · exact absurd (hreconsider.symm.trans hb') nofun
      · exact h.reconsider_inj a ha b hb ha' hb'

/-- `IsUnique` says of a new announcement whether its transaction is new. -/
lemma Consistent.isUnique_added (h : Consistent wtxid T s) (htx : ann.m_tx ∈ T)
    (hfresh : Fresh wtxid s ann) (brand_new : Bool) :
    (TxOrphanage.added wtxid s ann brand_new).isUnique wtxid ann = true ↔
      ann.m_tx ∉ txsOf s.m_orphans := by
  rw [isUnique_iff]
  · simp only [txsOf, mem_toFinset, mem_map, not_exists, not_and]
    constructor
    · intro hall b hb hsame
      have heq := hall b (mem_cons_of_mem _ hb) (congrArg wtxid hsame)
      exact hfresh.byWtxid_ne b hb (congrArg _ heq)
    · intro hnone b hb hsame
      rcases mem_cons.1 hb with rfl | hb
      · rfl
      · exact absurd (h.wtxid_inj (h.mem_txs b hb) htx hsame) (hnone b hb)
  · intro b hb heq
    rcases mem_cons.1 hb with rfl | hb
    · rfl
    · exact absurd heq (hfresh.byWtxid_ne b hb)

end Add

end SlithyTove.TxOrphanage
