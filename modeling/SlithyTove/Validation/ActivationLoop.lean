import SlithyTove.Validation.Activation

/-!
# The loops of `ActivateBestChain`

The inner loop repeats picking a block and stepping towards it until the tip is not worse than the
one it started from; then the tip is the best one there has been.  The outer loop goes on until the
tip is the picked block, and no candidate is better than that (`Settled`).

Both loops end, since a step either marks another block of the index as failed or brings the tip
closer to the picked block (`activationRank`).
-/

namespace SlithyTove

open Framework

variable {Node : Type} {B : Blocks Node}

/-! ## The best tip -/

/-- The state `ActivateBestChain` ends in: no candidate is better than the tip. -/
structure Settled (B : Blocks Node) (s : ChainState Node) : Prop where
  inv : ChainInv B s
  best : ∀ c ∈ s.setBlockIndexCandidates, ∃ t, s.tip = some t ∧ sortKey B s c ≤ sortKey B s t

section Best

variable {s s' : ChainState Node} {best best' : Option Node}

lemma settled_of_idle {r : Option Node} (hidx : IndexInv B s [])
    (hcand : CandidateInv B s best) (hnone : r = none → s.setBlockIndexCandidates = [])
    (hsome : ∀ m, r = some m → Picked B s m ∧ s.tip = some m) :
    best = s.tip ∧ Settled B s := by
  cases r with
  | none =>
    have hempty := hnone rfl
    have hbest : best = none := by
      by_contra hne
      obtain ⟨b, hb⟩ := Option.ne_none_iff_exists'.1 hne
      have hmem := hcand.best_mem b hb
      rw [hempty] at hmem
      cases hmem
    have htip : s.tip = none := by
      by_contra hne
      obtain ⟨t, ht⟩ := Option.ne_none_iff_exists'.1 hne
      obtain ⟨b, hb, -⟩ := hcand.tip_le t ht
      rw [hbest] at hb
      cases hb
    have heq : best = s.tip := hbest.trans htip.symm
    refine ⟨heq, ⟨hidx, heq ▸ hcand⟩, ?_⟩
    intro c hc
    rw [hempty] at hc
    cases hc
  | some m =>
    obtain ⟨hpick, htip⟩ := hsome m rfl
    obtain ⟨b, hb, hle⟩ := hcand.tip_le m htip
    have hkey : sortKey B s b = sortKey B s m :=
      le_antisymm (hpick.best b (hcand.best_mem b hb)) hle
    have heq : best = s.tip := by rw [hb, htip, sortKey_injective B s hkey]
    refine ⟨heq, ⟨hidx, heq ▸ hcand⟩, ?_⟩
    intro c hc
    exact ⟨m, htip, hpick.best c hc⟩

/-- The end of the inner loop: a tip that is not worse than the best one so far is the best one. -/
lemma Carried.best_eq_tip (h : Carried B s best s' best') {t : Node} (ht : s'.tip = some t)
    (hnot : ∀ b, best = some b → ¬ sortKey B s' t < sortKey B s' b) : best' = s'.tip := by
  obtain ⟨b', hb', hle⟩ := h.inv.tip_le t ht
  rcases h.best_or with heq | heq
  · have hkey := eq_of_le_of_not_lt hle (hnot b' (heq ▸ hb'))
    rw [hb', ht, sortKey_injective B s' hkey]
  · exact heq

lemma Carried.best_eq_best (h : Carried B s best s' best') {t b : Node} (ht : s'.tip = some t)
    (hb : best = some b) (hlt : sortKey B s' t < sortKey B s' b) : best' = best := by
  rcases h.best_or with heq | heq
  · exact heq
  · obtain ⟨b', hb', hle⟩ := h.best_le b hb
    rw [heq, ht, Option.some.injEq] at hb'
    rw [h.sortKey_eq] at hlt
    exact absurd (hb' ▸ hle) hlt.not_ge

end Best

/-! ## How long the loops run -/

variable {s : ChainState Node}

lemma depth_le_maxHeight {n : Node} (hn : n ∈ s.m_block_index) : B.depth n ≤ s.maxHeight B := by
  rw [ChainState.maxHeight]
  generalize s.m_block_index = index at hn
  induction index with
  | nil => cases hn
  | cons x l ih =>
    rw [List.map_cons, List.foldr_cons]
    rcases List.mem_cons.1 hn with rfl | hn
    · exact le_max_left ..
    · exact (ih hn).trans (le_max_right ..)

/-- The number of blocks of the index that are not marked as failed. -/
def ChainState.unfailed (s : ChainState Node) : ℕ :=
  (s.m_block_index.filter fun n => !s.failedValid n).length

/-- How many blocks the tip is away from the picked block; as far as possible, if it does not lead
there or none is picked. -/
def tipDistance [DecidableEq Node] (B : Blocks Node) (s : ChainState Node)
    (pindexMostWork : Option Node) : ℕ :=
  match s.tip, pindexMostWork with
  | some t, some m =>
    if B.ancestor m (B.depth t) = some t then B.depth m - B.depth t else s.maxHeight B + 1
  | _, _ => s.maxHeight B + 1

/-- What every step of the inner loop lowers. -/
def activationRank [DecidableEq Node] (B : Blocks Node) (s : ChainState Node)
    (pindexMostWork : Option Node) : ℕ :=
  s.unfailed * (s.maxHeight B + 2) + tipDistance B s pindexMostWork

variable {s' : ChainState Node}

lemma Moved.unfailed_sublist (h : Moved B s s') :
    (s'.m_block_index.filter fun n => !s'.failedValid n).Sublist
      (s.m_block_index.filter fun n => !s.failedValid n) := by
  rw [h.index_eq]
  refine List.monotone_filter_right _ ?_
  intro n hn
  rw [Bool.not_eq_true'] at hn ⊢
  by_contra hfailed
  rw [h.failed_mono n (Bool.eq_true_of_not_eq_false hfailed)] at hn
  cases hn

lemma Moved.unfailed_le (h : Moved B s s') : s'.unfailed ≤ s.unfailed :=
  h.unfailed_sublist.length_le

lemma Moved.unfailed_lt (h : Moved B s s') {x : Node} (hx : x ∈ s.m_block_index)
    (hold : s.failedValid x = false) (hnew : s'.failedValid x = true) :
    s'.unfailed < s.unfailed := by
  refine lt_of_le_of_ne h.unfailed_le fun hlength => ?_
  have hmem : x ∈ s.m_block_index.filter fun n => !s.failedValid n :=
    List.mem_filter.2 ⟨hx, by rw [hold]; rfl⟩
  rw [← h.unfailed_sublist.eq_of_length hlength, List.mem_filter, hnew] at hmem
  cases hmem.2

lemma Moved.maxHeight_eq (h : Moved B s s') : s'.maxHeight B = s.maxHeight B := by
  rw [ChainState.maxHeight, ChainState.maxHeight, h.index_eq]

variable [DecidableEq Node]

lemma tipDistance_none (s : ChainState Node) : tipDistance B s none = s.maxHeight B + 1 := by
  unfold tipDistance
  cases s.tip <;> rfl

variable {m : Node}

lemma tipDistance_of_isAncestor {t : Node} (htip : s.tip = some t) (h : B.IsAncestor t m) :
    tipDistance B s (some m) = B.depth m - B.depth t := by
  unfold tipDistance
  rw [htip]
  exact if_pos (B.ancestor_eq_some_iff.2 ⟨h, rfl⟩)

lemma tipDistance_of_not_isAncestor (h : ∀ t, s.tip = some t → ¬ B.IsAncestor t m) :
    tipDistance B s (some m) = s.maxHeight B + 1 := by
  unfold tipDistance
  cases htip : s.tip with
  | none => rfl
  | some t => exact if_neg fun hanc => h t htip (B.ancestor_eq_some_iff.1 hanc).1

lemma tipDistance_le (hm : B.depth m ≤ s.maxHeight B) :
    tipDistance B s (some m) ≤ s.maxHeight B + 1 := by
  by_cases h : ∃ t, s.tip = some t ∧ B.IsAncestor t m
  · obtain ⟨t, htip, hanc⟩ := h
    rw [tipDistance_of_isAncestor htip hanc]
    omega
  · refine (tipDistance_of_not_isAncestor ?_).le
    intro t ht hanc
    exact h ⟨t, ht, hanc⟩

lemma StepOutcome.rank_lt {best best' : Option Node} {inv : Bool}
    (h : StepOutcome B s best m s' inv best') (hidx : IndexInv B s [])
    (hmlinked : s.m_chain_tx_count m ≠ 0) :
    activationRank B s' (if inv then none else some m) < activationRank B s (some m) := by
  have hheight : s'.maxHeight B = s.maxHeight B := h.carried.toMoved.maxHeight_eq
  have hindex : ∀ {x}, s.m_chain_tx_count x ≠ 0 → x ∈ s.m_block_index :=
    fun hx => hidx.data_index _ (hidx.linked_data _ hx)
  have hm : B.depth m ≤ s.maxHeight B := depth_le_maxHeight (hindex hmlinked)
  rw [activationRank, activationRank, hheight]
  cases inv with
  | true =>
    obtain ⟨x, hx, hold, hnew⟩ := h.invalid rfl
    have hlt := h.carried.toMoved.unfailed_lt (hindex hx) hold hnew
    have hdist : tipDistance B s' none = s.maxHeight B + 1 := by
      rw [tipDistance_none, hheight]
    rw [if_pos rfl, hdist]
    have := Nat.mul_le_mul_right (s.maxHeight B + 2) (Nat.succ_le_of_lt hlt)
    rw [Nat.succ_mul] at this
    omega
  | false =>
    obtain ⟨hfailed, -, t', ht', hanc', hdeeper⟩ := h.valid rfl
    have hunfailed := h.carried.toMoved.unfailed_le
    have hmul := Nat.mul_le_mul_right (s.maxHeight B + 2) hunfailed
    have hdist : tipDistance B s' (some m) < tipDistance B s (some m) := by
      rw [tipDistance_of_isAncestor ht' hanc']
      by_cases h : ∃ t, s.tip = some t ∧ B.IsAncestor t m
      · obtain ⟨t, ht, hanc⟩ := h
        rw [tipDistance_of_isAncestor ht hanc]
        have := hdeeper t ht hanc
        have := hanc'.depth_le
        omega
      · rw [tipDistance_of_not_isAncestor fun t ht hanc => h ⟨t, ht, hanc⟩]
        omega
    rw [if_neg Bool.false_ne_true]
    omega

/-! ## The loops -/

/-- The variables of `ActivateBestChain` during the inner loop, `best` being the best tip so far. -/
structure LoopInv (B : Blocks Node) (best : Option Node) (v : ActivateLocals Node) : Prop where
  index : IndexInv B v.state []
  candidates : CandidateInv B v.state best
  picked : ∀ m, v.pindexMostWork = some m → Picked B v.state m
  newTip : v.blocks_connected = true → v.state.tip.isSome ∧ v.pindexNewTip = v.state.tip

/-- How the inner loop ends.  Where nothing was connected there was nothing to do. -/
structure LoopDone (B : Blocks Node) (v v' : ActivateLocals Node) : Prop where
  moved : Moved B v.state v'.state
  inv : LoopInv B v'.state.tip v'
  idle : v'.blocks_connected = false → Settled B v'.state
  rank_le : activationRank B v'.state v'.pindexMostWork ≤ activationRank B v.state v.pindexMostWork
  rank_lt : v.blocks_connected = false → v'.blocks_connected = true →
    activationRank B v'.state v'.pindexMostWork < activationRank B v.state v.pindexMostWork

section Loops

variable {best : Option Node} {v : ActivateLocals Node}

lemma LoopInv.pick (h : LoopInv B best v) :
    ∃ s r, pickMostWork B v = .ok (s, r) ∧ Marked B v.state s ∧
      (r = none → s.setBlockIndexCandidates = []) ∧ (∀ m, r = some m → Picked B s m) ∧
      activationRank B s r ≤ activationRank B v.state v.pindexMostWork := by
  rw [pickMostWork]
  cases hm : v.pindexMostWork with
  | none =>
    obtain ⟨s, r, hrun, hmarked, hnone, hsome⟩ := findMostWorkChain_spec h.index h.candidates
    refine ⟨s, r, hrun, hmarked, hnone, hsome, ?_⟩
    have hdist : tipDistance B s r ≤ s.maxHeight B + 1 := by
      cases r with
      | none => exact (tipDistance_none s).le
      | some m =>
        have hidx := hmarked.indexInv h.index
        have hlinked := (hmarked.candidateInv h.candidates).linked m (hsome m rfl).mem
        exact tipDistance_le (depth_le_maxHeight
          (hidx.data_index m (hidx.linked_data m hlinked)))
    rw [hmarked.maxHeight_eq] at hdist
    have hmul := Nat.mul_le_mul_right (v.state.maxHeight B + 2) hmarked.unfailed_le
    rw [activationRank, activationRank, hmarked.maxHeight_eq, tipDistance_none]
    omega
  | some m =>
    refine ⟨v.state, some m, rfl, .refl _, nofun, ?_, le_rfl⟩
    intro m' hm'
    exact h.picked m' (hm.trans hm')

/-- **The inner loop.** -/
lemma activateInner_spec {fuel : ℕ} (h : LoopInv B best v)
    (hfuel : activationRank B v.state v.pindexMostWork < fuel) :
    Outcome (activateInner B best fuel v) (LoopDone B v) (GenesisRejected B) := by
  induction fuel generalizing v with
  | zero => omega
  | succ fuel ih =>
    obtain ⟨s, r, hpick, hmarked, hnone, hsome, hrank⟩ := h.pick
    have hidx := hmarked.indexInv h.index
    have hcand := hmarked.candidateInv h.candidates
    have htip := hmarked.tip_eq
    rw [activateInner, hpick]
    -- Leaving the loop without a step.
    have hidle : (∀ m, r = some m → s.tip = some m) →
        LoopDone B v { v with state := s, pindexMostWork := r } := by
      intro hdone
      obtain ⟨hbest, hsettled⟩ := settled_of_idle hidx hcand hnone
        fun m hm => ⟨hsome m hm, hdone m hm⟩
      refine ⟨hmarked.toMoved, ⟨hidx, hbest ▸ hcand, hsome, ?_⟩, fun _ => hsettled, hrank, ?_⟩
      · intro hconnected
        obtain ⟨htipsome, hnew⟩ := h.newTip hconnected
        refine ⟨?_, hnew.trans htip.symm⟩
        rwa [htip]
      · intro hno hyes
        rw [show v.blocks_connected = true from hyes] at hno
        cases hno
    cases r with
    | none => exact hidle nofun
    | some m =>
      change Outcome (if s.tip = some m then _ else _) _ _
      split
      · next hthere =>
        refine hidle ?_
        intro m' hm'
        rw [hthere, hm']
      · next hne =>
        have hm := hsome m rfl
        refine (activateBestChainStep_spec hidx hcand hm hne).bind ?_
        rintro ⟨s', inv⟩ ⟨best', hout⟩
        have hlt := hout.rank_lt hidx (hcand.linked m hm.mem)
        have hmoved := hmarked.toMoved.trans hout.carried.toMoved
        have hpicked : ∀ m', (if inv then none else some m) = some m' → Picked B s' m' := by
          intro m' hm'
          cases inv with
          | true => cases hm'
          | false =>
            obtain rfl := Option.some.inj hm'
            exact (hout.valid rfl).2.1
        obtain ⟨t, ht⟩ := Option.isSome_iff_exists.1 hout.tip
        dsimp only at ht ⊢
        rw [ht]
        have hworse : (best.any fun t₀ => workComparator B s' t t₀) = true ↔
            ∃ b, best = some b ∧ sortKey B s' t < sortKey B s' b := by
          rw [Option.any_eq_true]
          exact exists_congr fun b => and_congr_right' (workComparator_iff B)
        dsimp only
        split
        · next hcontinue =>
          obtain ⟨b, hb, hkey⟩ := hworse.1 hcontinue
          have hbest := hout.carried.best_eq_best ht hb hkey
          refine Outcome.mono (ih ⟨hmoved.indexInv h.index, hbest ▸ hout.carried.inv, hpicked,
            fun _ => ⟨hout.tip, ht.symm⟩⟩ ?_) ?_
          · exact lt_of_lt_of_le (hlt.trans_le hrank) (Nat.le_of_lt_succ hfuel)
          · intro v' hdone
            refine ⟨hmoved.trans hdone.moved, hdone.inv, hdone.idle, ?_, fun _ _ => ?_⟩
            · exact (hdone.rank_le.trans_lt (hlt.trans_le hrank)).le
            · exact hdone.rank_le.trans_lt (hlt.trans_le hrank)
        · next hstop =>
          have hbest := hout.carried.best_eq_tip ht
            fun b hb hkey => hstop (hworse.2 ⟨b, hb, hkey⟩)
          refine ⟨hmoved, ⟨hmoved.indexInv h.index, hbest ▸ hout.carried.inv, hpicked,
            fun _ => ⟨hout.tip, ht.symm⟩⟩, nofun, (hlt.trans_le hrank).le,
            fun _ _ => hlt.trans_le hrank⟩

variable {s : ChainState Node}

/-- **The outer loop.**  It ends once the picked block is the tip. -/
lemma activateOuter_spec {fuel : ℕ} {pindexMostWork pindexNewTip : Option Node}
    (h : LoopInv B s.tip ⟨s, pindexMostWork, pindexNewTip, false⟩)
    (hfuel : activationRank B s pindexMostWork < fuel) :
    Outcome (activateOuter B fuel pindexMostWork pindexNewTip s)
      (fun s' => Moved B s s' ∧ Settled B s') (GenesisRejected B) := by
  induction fuel generalizing pindexMostWork pindexNewTip s with
  | zero => omega
  | succ fuel ih =>
    rw [activateOuter]
    refine (activateInner_spec h hfuel).bind ?_
    intro v hdone
    split
    · next hend =>
      refine ⟨hdone.moved, ?_⟩
      cases hconnected : v.blocks_connected with
      | false => exact hdone.idle hconnected
      | true =>
        obtain ⟨hsome, hnew⟩ := hdone.inv.newTip hconnected
        obtain ⟨t, ht⟩ := Option.isSome_iff_exists.1 hsome
        have hmost : v.pindexMostWork = some t := by
          rw [← ht, ← hnew]
          exact (hend.resolve_left fun hnot => hnot hconnected).symm
        refine ⟨⟨hdone.inv.index, hdone.inv.candidates⟩, ?_⟩
        intro c hc
        exact ⟨t, ht, (hdone.inv.picked t hmost).best c hc⟩
    · next hcontinue =>
      have hconnected : v.blocks_connected = true := by
        by_contra hnot
        exact hcontinue (.inl hnot)
      have hlt := hdone.rank_lt rfl hconnected
      refine Outcome.mono (ih ⟨hdone.inv.index, hdone.inv.candidates, hdone.inv.picked, nofun⟩
        (lt_of_lt_of_le hlt (Nat.le_of_lt_succ hfuel))) ?_
      rintro s' ⟨hmoved, hsettled⟩
      exact ⟨hdone.moved.trans hmoved, hsettled⟩

/-- **`ActivateBestChain`.** -/
lemma activateBestChain_spec (h : ChainInv B s) :
    Outcome (activateBestChain B s) (fun s' => Moved B s s' ∧ Settled B s')
      (GenesisRejected B) := by
  refine activateOuter_spec ⟨h.index, h.candidates, nofun, nofun⟩ ?_
  have hunfailed : s.unfailed ≤ s.m_block_index.length := List.length_filter_le ..
  have hmul := Nat.mul_le_mul_right (s.maxHeight B + 2) hunfailed
  rw [activationRank, activationFuel, tipDistance_none]
  omega

end Loops

end SlithyTove
