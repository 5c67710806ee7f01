import SlithyTove.Validation.CandidateInvariant

/-!
# Invalid blocks and `FindMostWorkChain`

Whenever `ActivateBestChain` learns that a block is invalid it marks blocks as failed and takes some
out of the candidates.  `Marked` says what such a change can do: it marks bad blocks only, and it
never takes a good block out of the candidates.  Both parts of the invariant survive it.  `Moved` is
what holds of all the changes `ActivateBestChain` makes; the block index survives them.

`FindMostWorkChain` makes only changes of this kind, and the block it returns is the best of the
candidates that are left and has no ancestor that is marked.  Its assertion holds, since candidates
are linked, and so does the branch for missing data never run.
-/

namespace SlithyTove

open Framework

variable {Node : Type} {B : Blocks Node}

/-! ## Marking blocks -/

/-- What may change while `ActivateBestChain` runs: bad blocks are marked as failed, candidates are
dropped, and the tip moves. -/
structure Moved (B : Blocks Node) (s s' : ChainState Node) : Prop where
  same : s' = { s with failedValid := s'.failedValid
                       setBlockIndexCandidates := s'.setBlockIndexCandidates
                       tip := s'.tip }
  failed_mono : ∀ n, s.failedValid n = true → s'.failedValid n = true
  failed_bad : ∀ n, s'.failedValid n = true → s.failedValid n = true ∨ B.Bad n
  sublist : s'.setBlockIndexCandidates.Sublist s.setBlockIndexCandidates

namespace Moved

variable {s s₁ s₂ s' : ChainState Node} {queue : List Node}

lemma refl (s : ChainState Node) : Moved B s s :=
  ⟨rfl, fun _ h => h, fun _ h => .inl h, .refl _⟩

lemma trans (h₁ : Moved B s s₁) (h₂ : Moved B s₁ s₂) : Moved B s s₂ := by
  refine ⟨?_, ?_, ?_, h₂.sublist.trans h₁.sublist⟩
  · rw [h₂.same, h₁.same]
  · intro n hn
    exact h₂.failed_mono n (h₁.failed_mono n hn)
  · intro n hn
    rcases h₂.failed_bad n hn with hn | hn
    · exact h₁.failed_bad n hn
    · exact .inr hn

section

variable (h : Moved B s s')

include h

lemma index_eq : s'.m_block_index = s.m_block_index := by rw [h.same]

lemma count_eq : s'.m_chain_tx_count = s.m_chain_tx_count := by rw [h.same]

lemma sortKey_eq : sortKey B s' = sortKey B s := by
  rw [h.same]
  rfl

lemma later : Later s s' := by
  rw [h.same]
  exact ⟨fun _ hn => hn, fun _ _ => rfl, le_rfl, fun _ hn hn' => absurd hn hn'⟩

lemma indexInv (hidx : IndexInv B s queue) : IndexInv B s' queue := by
  obtain ⟨hroot, hdata, hld, hlp, hdl, hunl, hnodup, hlt, hbad, hqn, hq⟩ := hidx
  rw [h.same]
  refine ⟨hroot, hdata, hld, hlp, ?_, hunl, hnodup, hlt, ?_, hqn, hq⟩
  · intro n hn
    rcases hdl n hn with hlinked | hmem | ⟨p, hp, hf | hmem⟩
    · exact .inl hlinked
    · exact .inr (.inl hmem)
    · exact .inr (.inr ⟨p, hp, .inl (h.failed_mono p hf)⟩)
    · exact .inr (.inr ⟨p, hp, .inr hmem⟩)
  · intro n hn
    rcases h.failed_bad n hn with hn | hn
    · exact hbad n hn
    · exact hn

end

end Moved

/-- Bad blocks were marked as failed, and candidates that are bad were dropped. -/
structure Marked (B : Blocks Node) (s s' : ChainState Node) : Prop extends Moved B s s' where
  tip_eq : s'.tip = s.tip
  kept : ∀ n ∈ s.setBlockIndexCandidates, ¬ B.Bad n → n ∈ s'.setBlockIndexCandidates

namespace Marked

variable {s s₁ s₂ s' : ChainState Node} {best : Option Node}

lemma refl (s : ChainState Node) : Marked B s s := ⟨.refl s, rfl, fun _ h _ => h⟩

lemma trans (h₁ : Marked B s s₁) (h₂ : Marked B s₁ s₂) : Marked B s s₂ := by
  refine ⟨h₁.toMoved.trans h₂.toMoved, h₂.tip_eq.trans h₁.tip_eq, ?_⟩
  intro n hn hgood
  exact h₂.kept n (h₁.kept n hn hgood) hgood

lemma candidateInv (h : Marked B s s') (hcand : CandidateInv B s best) :
    CandidateInv B s' best := by
  have hkey := h.sortKey_eq
  have hcount := h.count_eq
  have htip := h.tip_eq
  refine ⟨?_, ?_, hcand.best_good, ?_, ?_, ?_, ?_⟩
  · intro x hx
    rw [hcount]
    exact hcand.linked x (h.sublist.subset hx)
  · intro r hr
    exact h.kept r (hcand.best_mem r hr) (hcand.best_good r hr)
  · intro n hn hgood
    rw [hcount] at hn
    rw [hkey]
    rcases hcand.covered n hn hgood with hmem | hworse
    · exact .inl (h.kept n hmem hgood)
    · exact .inr hworse
  · rw [htip, hcount]
    exact hcand.tip_linked
  · rw [htip]
    exact hcand.tip_good
  · rw [htip, hkey]
    exact hcand.tip_le

end Marked

variable {s : ChainState Node}

lemma IndexInv.not_failed {queue : List Node} (hidx : IndexInv B s queue) {n : Node}
    (hgood : ¬ B.Bad n) : s.failedValid n = false := by
  by_contra hfailed
  exact hgood (hidx.failed_bad n (Bool.eq_true_of_not_eq_false hfailed))

variable [DecidableEq Node]

section Mark

variable {s : ChainState Node}

variable {n : Node}

lemma marked_setFailed (hbad : B.Bad n) : Marked B s (s.setFailed n) := by
  refine ⟨⟨rfl, ?_, ?_, .refl _⟩, rfl, fun _ hx _ => hx⟩
  · intro x hx
    by_cases hxn : x = n
    · rw [hxn]
      exact Function.update_self ..
    · exact (Function.update_of_ne hxn ..).trans hx
  · intro x hx
    by_cases hxn : x = n
    · rw [hxn]
      exact .inr hbad
    · exact .inl ((Function.update_of_ne hxn ..).symm.trans hx)

lemma marked_eraseCandidate (hbad : B.Bad n) : Marked B s (s.eraseCandidate n) := by
  refine ⟨⟨rfl, fun _ hx => hx, fun _ hx => .inl hx, List.filter_sublist⟩, rfl, ?_⟩
  intro x hx hgood
  refine List.mem_filter.2 ⟨hx, decide_eq_true ?_⟩
  rintro rfl
  exact hgood hbad

lemma not_mem_eraseCandidate : n ∉ (s.eraseCandidate n).setBlockIndexCandidates := by
  simp [ChainState.eraseCandidate]

lemma setFailed_self : (s.setFailed n).failedValid n = true :=
  Function.update_self ..

lemma marked_setBlockFailureFlags (hbad : B.Bad n) : Marked B s (setBlockFailureFlags B s n) := by
  refine ⟨⟨rfl, ?_, ?_, .refl _⟩, rfl, fun _ hx _ => hx⟩
  · intro x hx
    exact Bool.or_eq_true_iff.2 (.inl hx)
  · intro x hx
    rcases Bool.or_eq_true_iff.1 hx with hx | hx
    · exact .inl hx
    · obtain ⟨-, -, hanc⟩ := of_decide_eq_true hx
      exact .inr (hbad.of_isAncestor (B.ancestor_eq_some_iff.1 hanc).1)

lemma invalidChainFound_eq (htip : s.tip.isSome) (hbad : B.Bad n) :
    ∃ s', invalidChainFound B s n = .ok s' ∧ Marked B s s' := by
  refine ⟨setBlockFailureFlags B s n, ?_, marked_setBlockFailureFlags hbad⟩
  have htip' : (setBlockFailureFlags B s n).tip.isSome := htip
  rw [invalidChainFound]
  exact ensure_bind htip' _

lemma invalidBlockFound_eq (htip : s.tip.isSome) (hbad : B.Bad n) :
    ∃ s', invalidBlockFound B s n = .ok s' ∧ Marked B s s' ∧ s'.failedValid n = true := by
  obtain ⟨s', hrun, hmarked⟩ :=
    invalidChainFound_eq (s := (s.setFailed n).eraseCandidate n) htip hbad
  refine ⟨s', hrun, ?_, hmarked.failed_mono n setFailed_self⟩
  exact ((marked_setFailed hbad).trans (marked_eraseCandidate hbad)).trans hmarked

end Mark

/-! ## `FindMostWorkChain` -/

lemma findUnusable_spec (hidx : IndexInv B s []) (hgood : ∀ t, s.tip = some t → ¬ B.Bad t)
    {fuel : ℕ} {x : Node} (hlinked : s.m_chain_tx_count x ≠ 0) (hfuel : B.depth x < fuel) :
    ∃ r, findUnusable B s fuel (some x) = .ok r ∧
      (∀ y, r = some y → B.IsAncestor y x ∧ s.failedValid y = true) ∧
      (r = none → ∀ a, B.IsAncestor a x → s.failedValid a = false) := by
  induction fuel generalizing x with
  | zero => omega
  | succ fuel ih =>
    rw [findUnusable]
    split
    · next hcontains =>
      obtain ⟨t, ht, hxt⟩ := (ChainState.contains_iff B).1 hcontains
      refine ⟨none, rfl, by simp, fun _ a ha => ?_⟩
      exact hidx.not_failed fun hbad => hgood t ht (hbad.of_isAncestor (ha.trans hxt))
    · have hcount : s.haveNumChainTxs x = true ∨ B.depth x = 0 := by
        left
        simpa [ChainState.haveNumChainTxs] using hlinked
      rw [ensure_bind hcount]
      have hdata := hidx.linked_data x hlinked
      split
      · next hunusable =>
        refine ⟨some x, rfl, ?_, by simp⟩
        intro y hy
        obtain rfl := Option.some.inj hy
        refine ⟨.refl _ _, ?_⟩
        simpa [hdata] using hunusable
      · next husable =>
        have hxok : s.failedValid x = false := by
          simpa [hdata] using husable
        cases hp : B.parent x with
        | none =>
          refine ⟨none, by cases fuel <;> rfl, by simp, fun _ a ha => ?_⟩
          by_cases hne : a = x
          · rwa [hne]
          · obtain ⟨p, hp', -⟩ := ha.of_ne hne
            rw [hp] at hp'
            cases hp'
        | some p =>
          have hdepth := B.depth_child x p hp
          obtain ⟨r, hrun, hsome, hnone⟩ := ih (hidx.linked_parent x p hlinked hp) (by omega)
          refine ⟨r, hrun, ?_, ?_⟩
          · intro y hy
            obtain ⟨hyp, hfailed⟩ := hsome y hy
            exact ⟨hyp.trans (Forest.isAncestor_of_parent hp), hfailed⟩
          · intro hr a ha
            by_cases hne : a = x
            · rwa [hne]
            · obtain ⟨p', hp', hap⟩ := ha.of_ne hne
              rw [hp, Option.some.injEq] at hp'
              exact hnone hr a (hp' ▸ hap)

lemma removeChain_self (fFailedChain : Bool) (y : Node) (fuel : ℕ) (s : ChainState Node) :
    removeChain B fFailedChain y fuel y s = .ok (s.eraseCandidate y) := by
  unfold removeChain
  rw [if_pos rfl]

lemma removeChain_of_parent {y x p : Node} (hne : y ≠ x) (hp : B.parent x = some p) (fuel : ℕ)
    (s : ChainState Node) :
    removeChain B true y (fuel + 1) x s =
      removeChain B true y fuel p ((s.setFailed x).eraseCandidate x) := by
  rw [removeChain, if_neg hne]
  · rfl
  · exact hp

lemma removeChain_spec {y : Node} (hbad : B.Bad y) {fuel : ℕ} {x : Node} (hyx : B.IsAncestor y x)
    (hfuel : B.depth x ≤ fuel) :
    ∃ s', removeChain B true y fuel x s = .ok s' ∧ Marked B s s' ∧
      x ∉ s'.setBlockIndexCandidates := by
  induction fuel generalizing x s with
  | zero =>
    obtain rfl : y = x := hyx.eq_of_depth (.refl _ _) (by have := hyx.depth_le; omega)
    exact ⟨_, removeChain_self .., marked_eraseCandidate hbad, not_mem_eraseCandidate⟩
  | succ fuel ih =>
    by_cases heq : y = x
    · obtain rfl := heq
      exact ⟨_, removeChain_self .., marked_eraseCandidate hbad, not_mem_eraseCandidate⟩
    · obtain ⟨p, hp, hyp⟩ := hyx.of_ne heq
      have hxbad : B.Bad x := hbad.of_isAncestor hyx
      have hdepth := B.depth_child x p hp
      obtain ⟨s', hrun, hmarked, -⟩ :=
        ih (s := (s.setFailed x).eraseCandidate x) hyp (by omega)
      refine ⟨s', ?_, ?_, ?_⟩
      · rw [removeChain_of_parent heq hp]
        exact hrun
      · exact ((marked_setFailed hxbad).trans (marked_eraseCandidate hxbad)).trans hmarked
      · intro hmem
        exact not_mem_eraseCandidate (hmarked.sublist.subset hmem)

/-- The block `ActivateBestChain` is heading for: the best candidate, with no marked ancestor. -/
structure Picked (B : Blocks Node) (s : ChainState Node) (m : Node) : Prop where
  mem : m ∈ s.setBlockIndexCandidates
  best : ∀ c ∈ s.setBlockIndexCandidates, sortKey B s c ≤ sortKey B s m
  clean : ∀ a, B.IsAncestor a m → s.failedValid a = false

/-- **`FindMostWorkChain`.**  It always returns, and picks a block unless there is no candidate. -/
lemma findMostWorkChain_spec {best : Option Node} (hidx : IndexInv B s [])
    (hcand : CandidateInv B s best) :
    ∃ s' r, findMostWorkChain B s = .ok (s', r) ∧ Marked B s s' ∧
      (r = none → s'.setBlockIndexCandidates = []) ∧ ∀ m, r = some m → Picked B s' m := by
  suffices hloop : ∀ (fuel : ℕ) (s : ChainState Node), IndexInv B s [] → CandidateInv B s best →
      s.setBlockIndexCandidates.length < fuel →
      ∃ s' r, findMostWorkChainLoop B fuel s = .ok (s', r) ∧ Marked B s s' ∧
        (r = none → s'.setBlockIndexCandidates = []) ∧ ∀ m, r = some m → Picked B s' m from
    hloop _ s hidx hcand (Nat.lt_succ_self _)
  intro fuel
  induction fuel with
  | zero =>
    intro s _ _ hfuel
    omega
  | succ fuel ih =>
    intro s hidx hcand hfuel
    rw [findMostWorkChainLoop]
    cases hbest : bestCandidate B s with
    | none =>
      refine ⟨s, none, rfl, .refl s, fun _ => ?_, nofun⟩
      exact List.argmax_eq_none.1 hbest
    | some m =>
      have hmem : m ∈ s.setBlockIndexCandidates := List.argmax_mem hbest
      obtain ⟨r, hwalk, hsome, hnone⟩ := findUnusable_spec hidx hcand.tip_good
        (hcand.linked m hmem) (Nat.lt_succ_self (B.depth m))
      dsimp only
      rw [hwalk]
      cases r with
      | none =>
        refine ⟨s, some m, rfl, .refl s, nofun, fun m' hm' => ?_⟩
        obtain rfl := Option.some.inj hm'
        exact ⟨hmem, fun c hc => List.le_of_mem_argmax hc hbest, hnone rfl⟩
      | some y =>
        -- Another pass, with one candidate less.
        obtain ⟨hym, hfailed⟩ := hsome y rfl
        obtain ⟨s₁, hremove, hmarked, hnot⟩ := removeChain_spec (s := s)
          (hidx.failed_bad y hfailed) hym (Nat.le_refl (B.depth m))
        have hlength : s₁.setBlockIndexCandidates.length < fuel := by
          have hle := hmarked.sublist.length_le
          have hne : s₁.setBlockIndexCandidates.length ≠ s.setBlockIndexCandidates.length := by
            intro heq
            rw [hmarked.sublist.eq_of_length heq] at hnot
            exact hnot hmem
          omega
        obtain ⟨s', r, hrun, hrest, hnone', hsome'⟩ :=
          ih s₁ (hmarked.indexInv hidx) (hmarked.candidateInv hcand) hlength
        refine ⟨s', r, ?_, hmarked.trans hrest, hnone', hsome'⟩
        change (do let s ← removeChain B (s.failedValid y) y (B.depth m) m s
                   findMostWorkChainLoop B fuel s) = _
        rw [hfailed, hremove]
        exact hrun

end SlithyTove
