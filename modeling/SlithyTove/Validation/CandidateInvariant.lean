import SlithyTove.Validation.ActivateBestChain
import Mathlib.Data.List.Nodup

/-!
# The invariant of the candidates

A block is *bad* if `ConnectBlock` rejects it or one of its ancestors.  The invariant has two parts.
`IndexInv` is about the block index: a block is linked, that is, has its transaction count, once all
data up to it is there; a block that waits for that is queued under its parent, unless the parent is
already known to be invalid; only bad blocks are marked as failed.  `CandidateInv` is about the
candidates, relative to the best tip there has been so far: that one is a candidate, and so is every
linked block that is neither bad nor worse.

Here both are shown to survive new headers and the arrival of block data.
-/

namespace SlithyTove

open Framework List Function

variable {Node : Type} {B : Blocks Node}

/-! ## Bad blocks -/

/-- A block that is rejected, or has an ancestor that is. -/
def Blocks.Bad (B : Blocks Node) (n : Node) : Prop :=
  ∃ a, B.IsAncestor a n ∧ B.connects a = false

variable {a n : Node}

lemma Blocks.Bad.of_isAncestor (h : B.Bad a) (ha : B.IsAncestor a n) : B.Bad n := by
  obtain ⟨x, hx, hconnects⟩ := h
  exact ⟨x, hx.trans ha, hconnects⟩

lemma Blocks.not_bad_of_connects (hconnects : B.connects n = true)
    (hparent : ∀ p, B.parent n = some p → ¬ B.Bad p) : ¬ B.Bad n := by
  rintro ⟨a, ha, hfail⟩
  by_cases hne : a = n
  · rw [hne, hconnects] at hfail
    cases hfail
  · obtain ⟨p, hp, hap⟩ := ha.of_ne hne
    exact hparent p hp ⟨a, hap, hfail⟩

lemma Blocks.nChainWork_le (h : B.IsAncestor a n) : B.nChainWork a ≤ B.nChainWork n := by
  obtain ⟨k, hk⟩ := h
  induction k generalizing n with
  | zero =>
    rw [Forest.up_zero, Option.some.injEq] at hk
    rw [hk]
  | succ k ih =>
    rw [Forest.up_succ, Option.bind_eq_some_iff] at hk
    obtain ⟨p, hp, ha⟩ := hk
    exact (ih ha).trans (B.nChainWork_child n p hp).le

lemma Blocks.nChainWork_lt (h : B.IsAncestor a n) (hne : a ≠ n) :
    B.nChainWork a < B.nChainWork n := by
  obtain ⟨p, hp, hap⟩ := h.of_ne hne
  exact (Blocks.nChainWork_le hap).trans_lt (B.nChainWork_child n p hp)

variable {s : ChainState Node}

lemma sortKey_lt_of_isAncestor (h : B.IsAncestor a n) (hne : a ≠ n) :
    sortKey B s a < sortKey B s n :=
  (sortKey_lt_iff B).2 (.inl (Blocks.nChainWork_lt h hne))

lemma sortKey_le_of_isAncestor (h : B.IsAncestor a n) : sortKey B s a ≤ sortKey B s n := by
  by_cases hne : a = n
  · rw [hne]
  · exact (sortKey_lt_of_isAncestor h hne).le

/-! ## The two parts of the invariant -/

/-- The block index, while the blocks in `queue` are about to be linked. -/
structure IndexInv (B : Blocks Node) (s : ChainState Node) (queue : List Node) : Prop where
  root : ∀ n ∈ s.m_block_index, B.parent n = none → n = B.genesis
  data_index : ∀ n, s.haveData n = true → n ∈ s.m_block_index
  linked_data : ∀ n, s.m_chain_tx_count n ≠ 0 → s.haveData n = true
  linked_parent : ∀ n p, s.m_chain_tx_count n ≠ 0 → B.parent n = some p →
    s.m_chain_tx_count p ≠ 0
  data_linked : ∀ n, s.haveData n = true → s.m_chain_tx_count n ≠ 0 ∨ n ∈ queue ∨
    ∃ p, B.parent n = some p ∧ (s.failedValid p = true ∨ (p, n) ∈ s.m_blocks_unlinked)
  unlinked : ∀ p n, (p, n) ∈ s.m_blocks_unlinked → B.parent n = some p ∧ s.haveData n = true ∧
    s.m_chain_tx_count n = 0 ∧ s.m_chain_tx_count p = 0
  unlinked_nodup : s.m_blocks_unlinked.Nodup
  sequence_lt : ∀ n, s.m_chain_tx_count n ≠ 0 → s.nSequenceId n < s.nBlockSequenceId
  failed_bad : ∀ n, s.failedValid n = true → B.Bad n
  queue_nodup : queue.Nodup
  queued : ∀ x ∈ queue, s.haveData x = true ∧ s.m_chain_tx_count x = 0 ∧
    (∀ p, B.parent x = some p → s.m_chain_tx_count p ≠ 0) ∧ ∀ p, (p, x) ∉ s.m_blocks_unlinked

/-- The candidates, relative to the best tip there has been. -/
structure CandidateInv (B : Blocks Node) (s : ChainState Node) (best : Option Node) : Prop where
  linked : ∀ x ∈ s.setBlockIndexCandidates, s.m_chain_tx_count x ≠ 0
  best_mem : ∀ r, best = some r → r ∈ s.setBlockIndexCandidates
  best_good : ∀ r, best = some r → ¬ B.Bad r
  covered : ∀ n, s.m_chain_tx_count n ≠ 0 → ¬ B.Bad n →
    n ∈ s.setBlockIndexCandidates ∨ ∃ r, best = some r ∧ sortKey B s n < sortKey B s r
  tip_linked : ∀ t, s.tip = some t → s.m_chain_tx_count t ≠ 0
  tip_good : ∀ t, s.tip = some t → ¬ B.Bad t
  tip_le : ∀ t, s.tip = some t → ∃ r, best = some r ∧ sortKey B s t ≤ sortKey B s r

lemma indexInv_init : IndexInv B (.init : ChainState Node) [] := by
  constructor <;> simp [ChainState.init]

lemma candidateInv_init : CandidateInv B (.init : ChainState Node) none := by
  constructor <;> simp [ChainState.init]

/-- A chain whose data is all there. -/
def ChainState.Complete (B : Blocks Node) (s : ChainState Node) (n : Node) : Prop :=
  ∀ a, B.IsAncestor a n → s.haveData a = true

namespace IndexInv

variable {s : ChainState Node} {queue : List Node}

lemma linked_of_isAncestor (h : IndexInv B s queue) {a n : Node} (ha : B.IsAncestor a n)
    (hn : s.m_chain_tx_count n ≠ 0) : s.m_chain_tx_count a ≠ 0 := by
  obtain ⟨k, hk⟩ := ha
  induction k generalizing n with
  | zero =>
    rw [Forest.up_zero, Option.some.injEq] at hk
    rwa [← hk]
  | succ k ih =>
    rw [Forest.up_succ, Option.bind_eq_some_iff] at hk
    obtain ⟨p, hp, ha⟩ := hk
    exact ih (h.linked_parent n p hn hp) ha

lemma complete_of_linked (h : IndexInv B s queue) {n : Node} (hn : s.m_chain_tx_count n ≠ 0) :
    s.Complete B n :=
  fun a ha => h.linked_data a (h.linked_of_isAncestor ha hn)

lemma linked_of_complete (h : IndexInv B s []) {n : Node} (hn : s.Complete B n)
    (hgood : ¬ B.Bad n) : s.m_chain_tx_count n ≠ 0 := by
  -- Induction on the height: the parent is linked, so nothing holds the block back.
  induction hdepth : B.depth n generalizing n with
  | zero =>
    rcases h.data_linked n (hn n (.refl _ _)) with hlinked | hq | ⟨p, hp, -⟩
    · exact hlinked
    · cases hq
    · have := B.depth_child n p hp
      omega
  | succ d ih =>
    rcases h.data_linked n (hn n (.refl _ _)) with hlinked | hq | ⟨p, hp, hwait⟩
    · exact hlinked
    · cases hq
    · have hanc : B.IsAncestor p n := Forest.isAncestor_of_parent hp
      have hpgood : ¬ B.Bad p := fun hbad => hgood (hbad.of_isAncestor hanc)
      have hplinked := ih (fun a ha => hn a (ha.trans hanc)) hpgood
        (by have := B.depth_child n p hp; omega)
      rcases hwait with hfailed | hmem
      · exact absurd (h.failed_bad p hfailed) hpgood
      · exact absurd (h.unlinked p n hmem).2.2.2 hplinked

end IndexInv

/-! ## What later states keep -/

/-- A later state: linked blocks stay linked and keep their sequence number, and blocks linked since
have larger ones. -/
structure Later (s s' : ChainState Node) : Prop where
  linked : ∀ n, s.m_chain_tx_count n ≠ 0 → s'.m_chain_tx_count n ≠ 0
  sequence : ∀ n, s.m_chain_tx_count n ≠ 0 → s'.nSequenceId n = s.nSequenceId n
  counter : s.nBlockSequenceId ≤ s'.nBlockSequenceId
  fresh : ∀ n, s.m_chain_tx_count n = 0 → s'.m_chain_tx_count n ≠ 0 →
    s.nBlockSequenceId ≤ s'.nSequenceId n

lemma Later.refl (s : ChainState Node) : Later s s :=
  ⟨fun _ h => h, fun _ _ => rfl, le_rfl, fun _ h h' => absurd h h'⟩

lemma Later.trans {s₁ s₂ s₃ : ChainState Node} (h₁₂ : Later s₁ s₂) (h₂₃ : Later s₂ s₃) :
    Later s₁ s₃ := by
  refine ⟨fun n h => h₂₃.linked n (h₁₂.linked n h), fun n h => ?_,
    h₁₂.counter.trans h₂₃.counter, fun n h h' => ?_⟩
  · rw [h₂₃.sequence n (h₁₂.linked n h), h₁₂.sequence n h]
  · by_cases hmid : s₂.m_chain_tx_count n = 0
    · exact h₁₂.counter.trans (h₂₃.fresh n hmid h')
    · rw [h₂₃.sequence n hmid]
      exact h₁₂.fresh n h hmid

variable {s' : ChainState Node}

lemma Later.sortKey_eq (h : Later s s') (hn : s.m_chain_tx_count n ≠ 0) :
    sortKey B s' n = sortKey B s n := by
  rw [sortKey, sortKey, h.sequence n hn]

lemma CandidateInv.later {best : Option Node} (h : CandidateInv B s best)
    (hlater : Later s s') (hcount : s'.m_chain_tx_count = s.m_chain_tx_count)
    (hcand : s'.setBlockIndexCandidates = s.setBlockIndexCandidates) (htip : s'.tip = s.tip) :
    CandidateInv B s' best := by
  have hkey : ∀ {n}, s.m_chain_tx_count n ≠ 0 → sortKey B s' n = sortKey B s n :=
    fun hn => hlater.sortKey_eq hn
  have hbest : ∀ {r}, best = some r → s.m_chain_tx_count r ≠ 0 :=
    fun hr => h.linked _ (h.best_mem _ hr)
  refine ⟨?_, ?_, h.best_good, ?_, ?_, ?_, ?_⟩
  · rw [hcand, hcount]
    exact h.linked
  · rw [hcand]
    exact h.best_mem
  · rw [hcand, hcount]
    intro n hn hgood
    rcases h.covered n hn hgood with hmem | ⟨r, hr, hlt⟩
    · exact .inl hmem
    · refine .inr ⟨r, hr, ?_⟩
      rwa [hkey hn, hkey (hbest hr)]
  · rw [htip, hcount]
    exact h.tip_linked
  · rw [htip]
    exact h.tip_good
  · rw [htip]
    intro t ht
    obtain ⟨r, hr, hle⟩ := h.tip_le t ht
    refine ⟨r, hr, ?_⟩
    rwa [hkey (h.tip_linked t ht), hkey (hbest hr)]

/-! ## Block data -/

variable [DecidableEq Node]

section Link

variable {s : ChainState Node} {x : Node} {queue : List Node}

lemma linkBlock_eq (B : Blocks Node) (s : ChainState Node) (x : Node) :
    linkBlock B s x =
      { s with
        m_chain_tx_count := Function.update s.m_chain_tx_count x (prevTxSum B s x)
        nSequenceId := Function.update s.nSequenceId x s.nBlockSequenceId
        nBlockSequenceId := s.nBlockSequenceId + 1
        setBlockIndexCandidates :=
          if s.tip.any fun t => workComparator B (s.setCounts B x) x t then
            s.setBlockIndexCandidates
          else s.setBlockIndexCandidates.insert x
        m_blocks_unlinked := s.m_blocks_unlinked.filter fun q => q.1 ≠ x } := by
  have htip : (s.setCounts B x).tip = s.tip := rfl
  rw [linkBlock, tryAddBlockIndexCandidate, htip]
  split <;> rfl

lemma linkBlock_count_self (s : ChainState Node) (x : Node) :
    (linkBlock B s x).m_chain_tx_count x ≠ 0 := by
  rw [linkBlock_eq]
  dsimp only
  rw [update_self, prevTxSum]
  have := B.nTx_pos x
  omega

variable {n : Node} {x : Node}

lemma linkBlock_count_of_ne (s : ChainState Node) (hne : n ≠ x) :
    (linkBlock B s x).m_chain_tx_count n = s.m_chain_tx_count n := by
  rw [linkBlock_eq]
  exact update_of_ne hne ..

lemma linkBlock_linked (hn : s.m_chain_tx_count n ≠ 0) :
    (linkBlock B s x).m_chain_tx_count n ≠ 0 := by
  by_cases hne : n = x
  · rw [hne]
    exact linkBlock_count_self s x
  · rwa [linkBlock_count_of_ne s hne]

lemma linkBlock_sequence_of_ne (s : ChainState Node) (hne : n ≠ x) :
    (linkBlock B s x).nSequenceId n = s.nSequenceId n := by
  rw [linkBlock_eq]
  exact update_of_ne hne ..

lemma linkBlock_sortKey_of_ne (s : ChainState Node) (hne : n ≠ x) :
    sortKey B (linkBlock B s x) n = sortKey B s n := by
  rw [sortKey, sortKey, linkBlock_sequence_of_ne s hne]

lemma mem_linkBlock_unlinked {p : Node} :
    (p, n) ∈ (linkBlock B s x).m_blocks_unlinked ↔ (p, n) ∈ s.m_blocks_unlinked ∧ p ≠ x := by
  rw [linkBlock_eq]
  simp

lemma mem_waitingFor : n ∈ s.waitingFor x ↔ (x, n) ∈ s.m_blocks_unlinked := by
  simp [ChainState.waitingFor]

lemma IndexInv.link (h : IndexInv B s (x :: queue)) :
    IndexInv B (linkBlock B s x) (queue ++ s.waitingFor x) := by
  obtain ⟨hxdata, hxzero, hxparent, hxwait⟩ := h.queued x mem_cons_self
  obtain ⟨hxqueue, hqueue⟩ := nodup_cons.1 h.queue_nodup
  have hindex : (linkBlock B s x).m_block_index = s.m_block_index := by rw [linkBlock_eq]
  have hdata : (linkBlock B s x).haveData = s.haveData := by rw [linkBlock_eq]
  have hfailed : (linkBlock B s x).failedValid = s.failedValid := by rw [linkBlock_eq]
  have hwaiting : ∀ n, n ∈ s.waitingFor x → B.parent n = some x ∧ s.haveData n = true ∧
      s.m_chain_tx_count n = 0 ∧ n ≠ x := by
    intro n hn
    obtain ⟨hp, hd, hzero, -⟩ := h.unlinked x n (mem_waitingFor.1 hn)
    refine ⟨hp, hd, hzero, ?_⟩
    rintro rfl
    have := B.depth_child n n hp
    omega
  refine ⟨?_, ?_, fun n hn => ?_, fun n p hn hp => ?_, fun n hn => ?_, fun p n hpn => ?_, ?_,
    fun n hn => ?_, ?_, ?_, fun y hy => ?_⟩
  · rw [hindex]
    exact h.root
  · rw [hindex, hdata]
    exact h.data_index
  · rw [hdata]
    by_cases hne : n = x
    · rw [hne]
      exact hxdata
    · rw [linkBlock_count_of_ne s hne] at hn
      exact h.linked_data n hn
  · by_cases hne : n = x
    · exact linkBlock_linked (hxparent p (hne ▸ hp))
    · rw [linkBlock_count_of_ne s hne] at hn
      exact linkBlock_linked (h.linked_parent n p hn hp)
  · rw [hdata] at hn
    rw [hfailed]
    rcases h.data_linked n hn with hlinked | hq | ⟨p, hp, hf | hmem⟩
    · exact .inl (linkBlock_linked hlinked)
    · rcases mem_cons.1 hq with rfl | hq
      · exact .inl (linkBlock_count_self s n)
      · exact .inr (.inl (mem_append_left _ hq))
    · exact .inr (.inr ⟨p, hp, .inl hf⟩)
    · by_cases hpx : p = x
      · exact .inr (.inl (mem_append_right _ (mem_waitingFor.2 (hpx ▸ hmem))))
      · exact .inr (.inr ⟨p, hp, .inr (mem_linkBlock_unlinked.2 ⟨hmem, hpx⟩)⟩)
  · obtain ⟨hmem, hpx⟩ := mem_linkBlock_unlinked.1 hpn
    obtain ⟨hp, hd, hzero, hpzero⟩ := h.unlinked p n hmem
    have hnx : n ≠ x := by
      rintro rfl
      exact hxwait p hmem
    rw [hdata, linkBlock_count_of_ne s hnx, linkBlock_count_of_ne s hpx]
    exact ⟨hp, hd, hzero, hpzero⟩
  · rw [linkBlock_eq]
    exact h.unlinked_nodup.filter _
  · have hcounter : (linkBlock B s x).nBlockSequenceId = s.nBlockSequenceId + 1 := by
      rw [linkBlock_eq]
    rw [hcounter]
    by_cases hne : n = x
    · have hseq : (linkBlock B s x).nSequenceId x = s.nBlockSequenceId := by
        rw [linkBlock_eq]
        exact update_self ..
      rw [hne, hseq]
      exact Nat.lt_succ_self _
    · rw [linkBlock_count_of_ne s hne] at hn
      rw [linkBlock_sequence_of_ne s hne]
      exact (h.sequence_lt n hn).trans (Nat.lt_succ_self _)
  · rw [hfailed]
    exact h.failed_bad
  · refine nodup_append.2 ⟨hqueue, ?_, ?_⟩
    · refine List.Nodup.map_on ?_ (h.unlinked_nodup.filter _)
      rintro ⟨p, n⟩ hpn ⟨p', n'⟩ hpn' hsnd
      have hp : p = x := by simpa using (mem_filter.1 hpn).2
      have hp' : p' = x := by simpa using (mem_filter.1 hpn').2
      rw [hp, hp']
      exact congrArg _ hsnd
    · rintro y hy z hz rfl
      exact (h.queued y (mem_cons_of_mem _ hy)).2.2.2 x (mem_waitingFor.1 hz)
  · rw [hdata]
    rcases mem_append.1 hy with hy | hy
    · obtain ⟨hd, hzero, hparent, hwait⟩ := h.queued y (mem_cons_of_mem _ hy)
      have hyx : y ≠ x := ne_of_mem_of_not_mem hy hxqueue
      rw [linkBlock_count_of_ne s hyx]
      exact ⟨hd, hzero, fun p hp => linkBlock_linked (hparent p hp),
        fun p hp => hwait p (mem_linkBlock_unlinked.1 hp).1⟩
    · obtain ⟨hp, hd, hzero, hyx⟩ := hwaiting y hy
      rw [linkBlock_count_of_ne s hyx]
      refine ⟨hd, hzero, fun p hp' => ?_, fun p hp' => ?_⟩
      · rw [hp, Option.some.injEq] at hp'
        rw [← hp']
        exact linkBlock_count_self s x
      · obtain ⟨hmem, hpx⟩ := mem_linkBlock_unlinked.1 hp'
        have hp'' := (h.unlinked p y hmem).1
        rw [hp, Option.some.injEq] at hp''
        exact hpx hp''.symm

lemma mem_linkBlock_candidates :
    n ∈ (linkBlock B s x).setBlockIndexCandidates ↔ n ∈ s.setBlockIndexCandidates ∨
      (n = x ∧ ∀ t, s.tip = some t →
        ¬ sortKey B (linkBlock B s x) x < sortKey B (linkBlock B s x) t) := by
  have hkey : sortKey B (linkBlock B s x) = sortKey B (s.setCounts B x) := by
    rw [linkBlock_eq]
    rfl
  have hworse : (s.tip.any fun t => workComparator B (s.setCounts B x) x t) = true ↔
      ∃ t, s.tip = some t ∧ sortKey B (linkBlock B s x) x < sortKey B (linkBlock B s x) t := by
    rw [Option.any_eq_true, hkey]
    exact exists_congr fun t => and_congr_right' (workComparator_iff B)
  rw [linkBlock_eq] at hworse ⊢
  split
  · next h =>
    obtain ⟨t, ht, hlt⟩ := hworse.1 h
    exact ⟨.inl, fun hn => hn.resolve_right fun hx => hx.2 t ht hlt⟩
  · next h =>
    rw [mem_insert_iff, or_comm]
    refine or_congr_right (iff_self_and.2 fun _ t ht hlt => ?_)
    exact h (hworse.2 ⟨t, ht, hlt⟩)

lemma CandidateInv.link (hidx : IndexInv B s (x :: queue)) (h : CandidateInv B s s.tip) :
    CandidateInv B (linkBlock B s x) (linkBlock B s x).tip := by
  have htip : (linkBlock B s x).tip = s.tip := by rw [linkBlock_eq]
  have hzero : s.m_chain_tx_count x = 0 := (hidx.queued x mem_cons_self).2.1
  -- Only the block itself changes its place in the order, and it was not linked.
  have hkey : ∀ n, s.m_chain_tx_count n ≠ 0 → sortKey B (linkBlock B s x) n = sortKey B s n := by
    intro n hn
    refine linkBlock_sortKey_of_ne s ?_
    rintro rfl
    exact hn hzero
  rw [htip]
  refine ⟨fun n hn => ?_, fun r hr => ?_, h.best_good, fun n hn hgood => ?_, fun t ht => ?_,
    fun t ht => ?_, fun t ht => ?_⟩
  · rcases mem_linkBlock_candidates.1 hn with hn | ⟨rfl, -⟩
    · exact linkBlock_linked (h.linked n hn)
    · exact linkBlock_count_self s n
  · exact mem_linkBlock_candidates.2 (.inl (h.best_mem r hr))
  · by_cases hne : n = x
    · by_cases hworse : ∃ t, s.tip = some t ∧
        sortKey B (linkBlock B s x) x < sortKey B (linkBlock B s x) t
      · rw [hne]
        exact .inr hworse
      · refine .inl (mem_linkBlock_candidates.2 (.inr ⟨hne, fun t ht hlt => ?_⟩))
        exact hworse ⟨t, ht, hlt⟩
    · rw [linkBlock_count_of_ne s hne] at hn
      rcases h.covered n hn hgood with hmem | ⟨r, hr, hlt⟩
      · exact .inl (mem_linkBlock_candidates.2 (.inl hmem))
      · rw [hkey n hn]
        refine .inr ⟨r, hr, ?_⟩
        rwa [hkey r (h.tip_linked r hr)]
  · rw [htip] at ht
    exact linkBlock_linked (h.tip_linked t ht)
  · exact h.tip_good t (htip ▸ ht)
  · exact ⟨t, htip ▸ ht, le_rfl⟩

lemma later_linkBlock (hzero : s.m_chain_tx_count x = 0) : Later s (linkBlock B s x) := by
  have hne : ∀ n, s.m_chain_tx_count n ≠ 0 → n ≠ x := by
    rintro n hn rfl
    exact hn hzero
  have hcounter : (linkBlock B s x).nBlockSequenceId = s.nBlockSequenceId + 1 := by
    rw [linkBlock_eq]
  refine ⟨fun n hn => linkBlock_linked hn, fun n hn => linkBlock_sequence_of_ne s (hne n hn), ?_,
    fun n hn hn' => ?_⟩
  · rw [hcounter]
    exact Nat.le_succ _
  · have hx : n = x := by
      by_contra hnx
      rw [linkBlock_count_of_ne s hnx] at hn'
      exact hn' hn
    have hseq : (linkBlock B s x).nSequenceId x = s.nBlockSequenceId := by
      rw [linkBlock_eq]
      exact update_self ..
    rw [hx, hseq]

end Link

/-- What holds between the calls of the interface. -/
structure ChainInv (B : Blocks Node) (s : ChainState Node) : Prop where
  index : IndexInv B s []
  candidates : CandidateInv B s s.tip

lemma waitingFor_add_linkBlock (s : ChainState Node) (x : Node) :
    (s.waitingFor x).length + (linkBlock B s x).m_blocks_unlinked.length =
      s.m_blocks_unlinked.length := by
  rw [linkBlock_eq, ChainState.waitingFor, length_map]
  simp only [← countP_eq_length_filter]
  rw [length_eq_countP_add_countP fun q : Node × Node => decide (q.1 = x)]
  simp

lemma linkQueue_spec {fuel : ℕ} {queue : List Node}
    (hfuel : queue.length + s.m_blocks_unlinked.length ≤ fuel) (hidx : IndexInv B s queue)
    (hcand : CandidateInv B s s.tip) :
    ChainInv B (linkQueue B fuel queue s) ∧ Later s (linkQueue B fuel queue s) := by
  induction fuel generalizing queue s with
  | zero =>
    have hqueue : queue = [] := length_eq_zero_iff.1 (by omega)
    rw [hqueue] at hidx ⊢
    exact ⟨⟨hidx, hcand⟩, .refl s⟩
  | succ fuel ih =>
    cases queue with
    | nil => exact ⟨⟨hidx, hcand⟩, .refl s⟩
    | cons x queue =>
      have hlater : Later s (linkBlock B s x) :=
        later_linkBlock (hidx.queued x mem_cons_self).2.1
      have hlength := waitingFor_add_linkBlock (B := B) s x
      rw [length_cons] at hfuel
      obtain ⟨hinv, hrest⟩ := ih (by rw [length_append]; omega) hidx.link
        (hcand.link hidx)
      exact ⟨hinv, hlater.trans hrest⟩

section Received

variable {s : ChainState Node} {n : Node}

/-- The data of one more block: the block is queued, or waits for its parent, or is left alone
because its parent is invalid. -/
lemma IndexInv.receive (h : IndexInv B s []) (hindex : n ∈ s.m_block_index)
    (hnew : s.haveData n = false) {unlinked : List (Node × Node)} {queue : List Node}
    (hplace : n ∈ queue ∨
      ∃ p, B.parent n = some p ∧ (s.failedValid p = true ∨ (p, n) ∈ unlinked))
    (hold : s.m_blocks_unlinked ⊆ unlinked)
    (hwait : ∀ p x, (p, x) ∈ unlinked → (p, x) ∈ s.m_blocks_unlinked ∨
      (x = n ∧ B.parent n = some p ∧ s.m_chain_tx_count p = 0))
    (hnodup : unlinked.Nodup) (hqueue_nodup : queue.Nodup)
    (hqueue : ∀ x ∈ queue, x = n ∧ (∀ p, B.parent n = some p → s.m_chain_tx_count p ≠ 0) ∧
      ∀ p, (p, n) ∉ unlinked) :
    IndexInv B { s with haveData := Function.update s.haveData n true
                        m_blocks_unlinked := unlinked } queue := by
  have hzero : s.m_chain_tx_count n = 0 := by
    by_contra hlinked
    rw [h.linked_data n hlinked] at hnew
    cases hnew
  have hdata : ∀ x, s.haveData x = true → Function.update s.haveData n true x = true := by
    intro x hx
    by_cases hxn : x = n
    · rw [hxn, update_self]
    · rwa [update_of_ne hxn]
  refine ⟨h.root, fun x hx => ?_, fun x hx => hdata x (h.linked_data x hx), h.linked_parent,
    fun x hx => ?_, fun p x hpx => ?_, hnodup, h.sequence_lt, h.failed_bad, hqueue_nodup,
    fun x hx => ?_⟩
  · by_cases hxn : x = n
    · rwa [hxn]
    · exact h.data_index x ((update_of_ne hxn ..).symm.trans hx)
  · by_cases hxn : x = n
    · rw [hxn]
      exact .inr hplace
    · rcases h.data_linked x ((update_of_ne hxn ..).symm.trans hx) with
        hlinked | hq | ⟨p, hp, hf | hmem⟩
      · exact .inl hlinked
      · cases hq
      · exact .inr (.inr ⟨p, hp, .inl hf⟩)
      · exact .inr (.inr ⟨p, hp, .inr (hold hmem)⟩)
  · rcases hwait p x hpx with hmem | ⟨rfl, hp, hpzero⟩
    · obtain ⟨hp, hd, hrest⟩ := h.unlinked p x hmem
      exact ⟨hp, hdata x hd, hrest⟩
    · exact ⟨hp, update_self .., hzero, hpzero⟩
  · obtain ⟨rfl, hparent, hnot⟩ := hqueue x hx
    exact ⟨update_self .., hzero, hparent, hnot⟩

lemma receivedBlockTransactions_spec (h : ChainInv B s) (n : Node) :
    ChainInv B (receivedBlockTransactions B s n) ∧ Later s (receivedBlockTransactions B s n) := by
  rw [receivedBlockTransactions]
  split
  · next hnew =>
    obtain ⟨hindex, hnew⟩ := hnew
    have hnot : ∀ p, (p, n) ∉ s.m_blocks_unlinked := by
      intro p hp
      rw [(h.index.unlinked p n hp).2.1] at hnew
      cases hnew
    have hcand : ∀ unlinked, CandidateInv B
        { s with haveData := Function.update s.haveData n true, m_blocks_unlinked := unlinked }
        s.tip := by
      intro unlinked
      obtain ⟨hlinked, hbest, hbgood, hcovered, htip, hgood, hle⟩ := h.candidates
      exact ⟨hlinked, hbest, hbgood, hcovered, htip, hgood, hle⟩
    -- Nothing holds the block back if its ancestors have all their data.
    have hqueued (hparent : ∀ p, B.parent n = some p → s.m_chain_tx_count p ≠ 0) :
        IndexInv B { s with haveData := Function.update s.haveData n true
                            m_blocks_unlinked := s.m_blocks_unlinked } [n] :=
      h.index.receive hindex hnew (.inl mem_cons_self) (fun _ hq => hq)
        (fun _ _ hq => .inl hq) h.index.unlinked_nodup (nodup_singleton n)
        (fun x hx => ⟨mem_singleton.1 hx, hparent, hnot⟩)
    have hlink (hparent : ∀ p, B.parent n = some p → s.m_chain_tx_count p ≠ 0) :=
      linkQueue_spec (Nat.le_refl (1 + s.m_blocks_unlinked.length)) (hqueued hparent) (hcand _)
    dsimp only
    split
    · next hroot =>
      obtain ⟨hinv, hlater⟩ := hlink fun p hp => by rw [hroot] at hp; cases hp
      exact ⟨hinv, hlater.linked, hlater.sequence, hlater.counter, hlater.fresh⟩
    · next pprev hp =>
      split
      · next hlinked =>
        have hparent : ∀ p, B.parent n = some p → s.m_chain_tx_count p ≠ 0 := by
          intro p hp'
          rw [hp, Option.some.injEq] at hp'
          rw [← hp']
          simpa [ChainState.haveNumChainTxs] using hlinked
        obtain ⟨hinv, hlater⟩ := hlink hparent
        exact ⟨hinv, hlater.linked, hlater.sequence, hlater.counter, hlater.fresh⟩
      · next hlinked =>
        have hpzero : s.m_chain_tx_count pprev = 0 := by
          simpa [ChainState.haveNumChainTxs] using hlinked
        split
        · next hfailed =>
          refine ⟨⟨h.index.receive hindex hnew (.inr ⟨pprev, hp, .inl hfailed⟩) (fun _ hq => hq)
            (fun _ _ hq => .inl hq) h.index.unlinked_nodup nodup_nil
            (fun x hx => absurd hx not_mem_nil), hcand _⟩, ?_⟩
          exact ⟨fun _ h => h, fun _ _ => rfl, le_rfl, fun _ h h' => absurd h h'⟩
        · refine ⟨⟨h.index.receive hindex hnew
            (.inr ⟨pprev, hp, .inr (mem_append_right _ mem_cons_self)⟩)
            (subset_append_left _ _) (fun p x hpx => ?_) ?_ nodup_nil
            (fun x hx => absurd hx not_mem_nil), hcand _⟩, ?_⟩
          · rcases mem_append.1 hpx with hmem | hmem
            · exact .inl hmem
            · obtain ⟨rfl, rfl⟩ := Prod.mk.inj (mem_singleton.1 hmem)
              exact .inr ⟨rfl, hp, hpzero⟩
          · refine nodup_append.2 ⟨h.index.unlinked_nodup, nodup_singleton _, ?_⟩
            rintro q hq q' hq' rfl
            exact hnot pprev (mem_singleton.1 hq' ▸ hq)
          · exact ⟨fun _ h => h, fun _ _ => rfl, le_rfl, fun _ h h' => absurd h h'⟩
  · exact ⟨h, .refl s⟩

end Received

/-! ## Headers -/

lemma addToBlockIndex_spec (h : ChainInv B s) (n : Node) :
    ChainInv B (addToBlockIndex B s n) ∧ Later s (addToBlockIndex B s n) := by
  rw [addToBlockIndex]
  split
  · exact ⟨h, .refl s⟩
  · next hnew =>
    split
    · next hknown =>
      have hne : ∀ x, s.m_chain_tx_count x ≠ 0 → x ≠ n := by
        rintro x hx rfl
        exact hnew (h.index.data_index x (h.index.linked_data x hx))
      have hseq : ∀ x, s.m_chain_tx_count x ≠ 0 →
          Function.update s.nSequenceId n SEQ_ID_INIT_FROM_DISK x = s.nSequenceId x :=
        fun x hx => update_of_ne (hne x hx) ..
      have hlater : Later s { s with
          m_block_index := n :: s.m_block_index
          nSequenceId := Function.update s.nSequenceId n SEQ_ID_INIT_FROM_DISK } :=
        ⟨fun _ hx => hx, hseq, le_rfl, fun _ hx hx' => absurd hx hx'⟩
      refine ⟨⟨?_, h.candidates.later hlater rfl rfl rfl⟩, hlater⟩
      obtain ⟨hroot, hdata, hld, hlp, hdl, hunl, hnodup, hlt, hbad, hqn, hq⟩ := h.index
      refine ⟨fun x hx hpx => ?_, fun x hx => mem_cons_of_mem _ (hdata x hx), hld, hlp, hdl,
        hunl, hnodup, fun x hx => ?_, hbad, hqn, hq⟩
      · rcases mem_cons.1 hx with rfl | hx
        · rcases hknown with rfl | ⟨p, -, hp⟩
          · rfl
          · rw [hp] at hpx
            cases hpx
        · exact hroot x hx hpx
      · exact (hseq x hx).trans_lt (hlt x hx)
    · exact ⟨h, .refl s⟩

end SlithyTove
