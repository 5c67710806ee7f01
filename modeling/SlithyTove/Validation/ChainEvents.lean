import SlithyTove.Validation.ActivationLoop

/-!
# Which chain the node follows

Headers and block data arrive in any order, and `ActivateBestChain` is called in between.  After
every call the active chain is valid, every chain with more work and all its data contains an
invalid block, and among chains of equal work the one whose data was there first is kept.  No call
fails, unless the genesis block is rejected.
-/

namespace SlithyTove

open Framework

/-- What can happen to the block index. -/
inductive ChainEvent (Node : Type)
  | header (n : Node)
  | blockData (n : Node)
  | activateBestChain

variable {Node : Type} [DecidableEq Node] {B : Blocks Node}

/-- One event. -/
def runEvent (B : Blocks Node) (s : ChainState Node) :
    ChainEvent Node → Except ChainError (ChainState Node)
  | .header n => .ok (addToBlockIndex B s n)
  | .blockData n => .ok (receivedBlockTransactions B s n)
  | .activateBestChain => activateBestChain B s

/-- All events, from the start of the node on. -/
def runEvents (B : Blocks Node) (events : List (ChainEvent Node)) :
    Except ChainError (ChainState Node) :=
  events.foldlM (runEvent B) .init

/-! ## The invariant along a run -/

variable {s : ChainState Node}

lemma runEvent_spec (h : ChainInv B s) (event : ChainEvent Node) :
    Outcome (runEvent B s event) (fun s' => ChainInv B s' ∧ Later s s') (GenesisRejected B) := by
  cases event with
  | header n => exact addToBlockIndex_spec h n
  | blockData n => exact receivedBlockTransactions_spec h n
  | activateBestChain =>
    refine (activateBestChain_spec h).mono ?_
    rintro s' ⟨hmoved, hsettled⟩
    exact ⟨hsettled.inv, hmoved.later⟩

lemma foldlM_runEvent_spec (h : ChainInv B s) (events : List (ChainEvent Node)) :
    Outcome (events.foldlM (runEvent B) s) (fun s' => ChainInv B s' ∧ Later s s')
      (GenesisRejected B) := by
  refine Outcome.foldlM ⟨h, .refl s⟩ ?_
  rintro s₁ event ⟨h₁, hlater₁⟩
  refine (runEvent_spec h₁ event).mono ?_
  rintro s₂ ⟨h₂, hlater₂⟩
  exact ⟨h₂, hlater₁.trans hlater₂⟩

lemma runEvents_spec (B : Blocks Node) (events : List (ChainEvent Node)) :
    Outcome (runEvents B events) (ChainInv B) (GenesisRejected B) :=
  (foldlM_runEvent_spec ⟨indexInv_init, candidateInv_init⟩ events).mono fun _ h => h.1

lemma chainInv_of_runEvents {events : List (ChainEvent Node)}
    (hrun : runEvents B events = .ok s) : ChainInv B s := by
  have h := runEvents_spec B events
  rwa [hrun] at h

lemma later_of_initial {events₁ events : List (ChainEvent Node)} {s₁ : ChainState Node}
    (hinitial : events₁ <+: events) (hrun₁ : runEvents B events₁ = .ok s₁)
    (hrun : runEvents B events = .ok s) : Later s₁ s := by
  obtain ⟨rest, rfl⟩ := hinitial
  obtain ⟨s₁', hrun₁', hrest⟩ := foldlM_append_eq_ok.1 hrun
  rw [show events₁.foldlM (runEvent B) .init = .ok s₁ from hrun₁, Except.ok.injEq] at hrun₁'
  have h := foldlM_runEvent_spec (chainInv_of_runEvents hrun₁) rest
  rw [hrun₁', hrest] at h
  rw [hrun₁']
  exact h.2

/-! ## The settled state -/

section Settled

variable {s : ChainState Node}

omit [DecidableEq Node]

lemma Settled.le_tip (h : Settled B s) {n : Node} (hn : s.Complete B n) (hgood : ¬ B.Bad n) :
    ∃ t, s.tip = some t ∧ sortKey B s n ≤ sortKey B s t := by
  have hlinked := h.inv.index.linked_of_complete hn hgood
  rcases h.inv.candidates.covered n hlinked hgood with hmem | ⟨t, ht, hlt⟩
  · exact h.best n hmem
  · exact ⟨t, ht, hlt.le⟩

lemma Settled.connects (h : Settled B s) {t a : Node} (ht : s.tip = some t)
    (ha : B.IsAncestor a t) : B.connects a = true := by
  by_contra hconnects
  exact h.inv.candidates.tip_good t ht ⟨a, ha, Bool.eq_false_of_not_eq_true hconnects⟩

lemma Settled.bad_of_lt (h : Settled B s) {n : Node} (hn : s.Complete B n)
    (hwork : ∀ t, s.tip = some t → B.nChainWork t < B.nChainWork n) : B.Bad n := by
  by_contra hgood
  obtain ⟨t, ht, hle⟩ := h.le_tip hn hgood
  exact absurd ((sortKey_lt_iff B).2 (.inl (hwork t ht))) hle.not_gt

lemma Settled.not_displaced (h : Settled B s) {s₁ : ChainState Node} (hlater : Later s₁ s)
    (hidx₁ : IndexInv B s₁ []) {t n : Node} (ht : s₁.Complete B t) (hgood : ¬ B.Bad t)
    (hn : ¬ s₁.Complete B n) (hwork : B.nChainWork n = B.nChainWork t) : s.tip ≠ some n := by
  intro htip
  have htlinked := hidx₁.linked_of_complete ht hgood
  have htseq := hidx₁.sequence_lt t htlinked
  have hnzero : s₁.m_chain_tx_count n = 0 := by
    by_contra hlinked
    exact hn (hidx₁.complete_of_linked hlinked)
  have hnseq := hlater.fresh n hnzero (h.inv.candidates.tip_linked n htip)
  -- The tip `n` would have to be at least as good as `t`, which has the lower sequence number.
  have htcomplete := h.inv.index.complete_of_linked (hlater.linked t htlinked)
  obtain ⟨t', ht', hle⟩ := h.le_tip htcomplete hgood
  rw [htip, Option.some.injEq] at ht'
  rw [← ht'] at hle
  refine absurd ((sortKey_lt_iff B).2 (.inr ⟨hwork, .inl ?_⟩)) hle.not_gt
  rw [hlater.sequence t htlinked]
  omega

lemma Settled.tip_later {s' : ChainState Node} (h : Settled B s) (h' : Settled B s')
    (hlater : Later s s') :
    s.tip = s'.tip ∨ s.tip.map B.nChainWork < s'.tip.map B.nChainWork := by
  cases ht : s.tip with
  | none => cases s'.tip <;> simp
  | some t =>
    have hgood := h.inv.candidates.tip_good t ht
    have hlinked := h.inv.candidates.tip_linked t ht
    obtain ⟨t', ht', hle⟩ := h'.le_tip (h'.inv.index.complete_of_linked (hlater.linked t hlinked))
      hgood
    rw [ht', Option.some.injEq]
    by_cases hless : B.nChainWork t < B.nChainWork t'
    · exact .inr hless
    have hwork : B.nChainWork t' = B.nChainWork t := by
      by_contra hne
      exact hle.not_gt ((sortKey_lt_iff B).2 (.inl (by omega)))
    -- A chain of equal work had its data already, or it would not have displaced `t`.
    have hcomplete : s.Complete B t' := by
      by_contra hn
      exact h'.not_displaced hlater h.inv.index (h.inv.index.complete_of_linked hlinked) hgood hn
        hwork ht'
    have hgood' := h'.inv.candidates.tip_good t' ht'
    have hlinked' := h.inv.index.linked_of_complete hcomplete hgood'
    obtain ⟨_, hsame, hle'⟩ := h.le_tip hcomplete hgood'
    cases ht.symm.trans hsame
    have hkey : ∀ n, s.m_chain_tx_count n ≠ 0 → sortKey B s' n = sortKey B s n := fun n hn => by
      rw [sortKey, sortKey, hlater.sequence n hn]
    rw [hkey t hlinked, hkey t' hlinked'] at hle
    exact .inl (sortKey_injective B s (hle.antisymm hle'))

end Settled

/-- **The node leaves its tip only for more work.**  Whatever arrives between two calls of
`ActivateBestChain`, the second one ends with the tip of the first or with a tip of more work. -/
theorem tip_only_gains_work (B : Blocks Node) (events events' : List (ChainEvent Node)) :
    Outcome (do
        let s ← activateBestChain B (← runEvents B events)
        let s' ← activateBestChain B (← events'.foldlM (runEvent B) s)
        return (s.tip, s'.tip))
      (fun (tip, tip') => tip = tip' ∨ tip.map B.nChainWork < tip'.map B.nChainWork)
      (GenesisRejected B) := by
  refine (runEvents_spec B events).bind fun s₀ h₀ => (activateBestChain_spec h₀).bind ?_
  rintro s ⟨-, h⟩
  refine (foldlM_runEvent_spec h.inv events').bind ?_
  rintro s₁ ⟨h₁, hlater⟩
  refine (activateBestChain_spec h₁).bind ?_
  rintro s' ⟨hmoved, h'⟩
  exact h.tip_later h' (hlater.trans hmoved.later)

/-- **The node follows the best valid chain.**  Whatever headers and block data arrived before, in
whatever order, and however often `ActivateBestChain` was called:

* no call fails, and in particular no assertion of `FindMostWorkChain` or
  `PruneBlockIndexCandidates`, unless the genesis block is rejected;
* after a call every block of the active chain is valid;
* a block with all data up to it and more work than the tip has an invalid block among itself and
  its ancestors;
* a chain with the same work as the tip that got the last of its data later is not followed
  instead. -/
theorem runEvents_follows_best_chain (B : Blocks Node) (events : List (ChainEvent Node)) :
    (∀ e, runEvents B events = .error e → e = .noTip ∧ B.connects B.genesis = false) ∧
    ∀ s s', runEvents B events = .ok s → activateBestChain B s = .ok s' →
      (∀ t a, s'.tip = some t → B.IsAncestor a t → B.connects a = true) ∧
      (∀ n, s'.Complete B n → (∀ t, s'.tip = some t → B.nChainWork t < B.nChainWork n) →
        ∃ a, B.IsAncestor a n ∧ B.connects a = false) ∧
      ∀ t n events₁ s₁, s.tip = some t → events₁ <+: events → runEvents B events₁ = .ok s₁ →
        s₁.Complete B t → ¬ s₁.Complete B n → B.nChainWork n = B.nChainWork t →
        s'.tip ≠ some n := by
  refine ⟨?_, ?_⟩
  · intro e he
    have h := runEvents_spec B events
    rwa [he] at h
  · intro s s' hrun hactivate
    have hinv := chainInv_of_runEvents hrun
    have hspec := activateBestChain_spec hinv
    rw [hactivate] at hspec
    obtain ⟨hmoved, hsettled⟩ := hspec
    refine ⟨fun t a => hsettled.connects, fun n => hsettled.bad_of_lt, ?_⟩
    intro t n events₁ s₁ htip hinitial hrun₁ ht hn hwork
    have hlater := (later_of_initial hinitial hrun₁ hrun).trans hmoved.later
    exact hsettled.not_displaced hlater (chainInv_of_runEvents hrun₁).index ht
      (hinv.candidates.tip_good t htip) hn hwork

local instance neZero_three : NeZero 3 := Nat.instNeZeroSucc

/-- Two blocks of equal work on top of the genesis block. -/
def forkBlocks : Blocks (Fin 3) where
  parent n := if n = 0 then none else some 0
  depth n := if n = 0 then 0 else 1
  depth_root := by decide
  depth_child := by decide
  pskip n := if n = 0 then none else some 0
  skip_root := by decide
  skip_child := by decide
  genesis := 0
  genesis_root := rfl
  nChainWork n := if n = 0 then 1 else 2
  nChainWork_child := by decide
  nTx _ := 1
  nTx_pos _ := Nat.one_pos
  address := Fin.val
  address_injective _ _ := Fin.ext
  connects _ := true

/-- The block with the larger address gets its data and becomes the tip. -/
def firstForkEvents : List (ChainEvent (Fin 3)) :=
  [.header 0, .header 1, .header 2, .blockData 0, .blockData 2, .activateBestChain]

/-- The other block, which would win on the address, gets its data afterwards: the first one
stays. -/
theorem runEvents_follows_best_chain_fork :
    ∃ s s', runEvents forkBlocks (firstForkEvents ++ [.blockData 1]) = .ok s ∧
      activateBestChain forkBlocks s = .ok s' ∧ s.tip = some 2 ∧ s'.tip ≠ some 1 := by
  obtain ⟨s₁, hrun₁, hdata₀, hdata₁, hdata₂⟩ : ∃ s₁, runEvents forkBlocks firstForkEvents = .ok s₁ ∧
      s₁.haveData 0 = true ∧ s₁.haveData 1 = false ∧ s₁.haveData 2 = true :=
    ⟨_, rfl, rfl, rfl, rfl⟩
  obtain ⟨s, s', hrun, hactivate, htip⟩ : ∃ s s',
      runEvents forkBlocks (firstForkEvents ++ [.blockData 1]) = .ok s ∧
      activateBestChain forkBlocks s = .ok s' ∧ s.tip = some 2 := ⟨_, _, rfl, rfl, rfl⟩
  refine ⟨s, s', hrun, hactivate, htip, ?_⟩
  obtain ⟨-, hall⟩ := runEvents_follows_best_chain forkBlocks (firstForkEvents ++ [.blockData 1])
  obtain ⟨-, -, hkeeps⟩ := hall s s' hrun hactivate
  refine hkeeps 2 1 firstForkEvents s₁ htip (List.prefix_append ..) hrun₁ ?_ ?_ rfl
  · rintro a ⟨k, hk⟩
    match k, hk with
    | 0, hk => exact Option.some.inj hk ▸ hdata₂
    | 1, hk => exact Option.some.inj hk ▸ hdata₀
    | _ + 2, hk => cases hk
  · intro hcomplete
    rw [hcomplete 1 (.refl _ _)] at hdata₁
    cases hdata₁

end SlithyTove
