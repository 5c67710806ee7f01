import SlithyTove.Validation.MostWorkChain

/-!
# A step of `ActivateBestChain`

`ActivateBestChainStep` disconnects the active chain down to the fork with the picked block and
connects blocks towards it.  On the way the tip may get worse, and it stays worse if an invalid
block is found, so the invariant of the candidates is kept relative to the best tip there has been
(`Carried`).  A step either brings the tip closer to the picked block or marks another block as
failed (`StepOutcome`).  The only assertion that can fail is the one of `InvalidChainFound` that
there is a tip, and only if the genesis block itself is rejected.
-/

namespace SlithyTove

open Framework

variable {Node : Type} {B : Blocks Node}

/-- The one way in which a run can fail. -/
def GenesisRejected (B : Blocks Node) (e : ChainError) : Prop :=
  e = .noTip ∧ B.connects B.genesis = false

/-! ## From one best tip to the next -/

/-- The new tip extends the old one. -/
def Rises (B : Blocks Node) (tip tip' : Option Node) : Prop :=
  ∀ t, tip = some t → ∃ t', tip' = some t' ∧ B.IsAncestor t t'

lemma Rises.refl (tip : Option Node) : Rises B tip tip := fun t ht => ⟨t, ht, .refl _ _⟩

lemma Rises.trans {tip tip₁ tip₂ : Option Node} (h₁ : Rises B tip tip₁) (h₂ : Rises B tip₁ tip₂) :
    Rises B tip tip₂ := by
  intro t ht
  obtain ⟨t₁, ht₁, hanc₁⟩ := h₁ t ht
  obtain ⟨t₂, ht₂, hanc₂⟩ := h₂ t₁ ht₁
  exact ⟨t₂, ht₂, hanc₁.trans hanc₂⟩

/-- A state of the run after `s`, with `best'` the best tip there has been, `best` before. -/
structure Carried (B : Blocks Node) (s : ChainState Node) (best : Option Node)
    (s' : ChainState Node) (best' : Option Node) : Prop extends Moved B s s' where
  inv : CandidateInv B s' best'
  best_or : best' = best ∨ best' = s'.tip
  best_le : ∀ r, best = some r → ∃ r', best' = some r' ∧ sortKey B s r ≤ sortKey B s r'

/-- The same where only valid blocks were connected, each on top of the last. -/
structure Advanced (B : Blocks Node) (s : ChainState Node) (best : Option Node)
    (s' : ChainState Node) (best' : Option Node) : Prop extends Carried B s best s' best' where
  failed_eq : s'.failedValid = s.failedValid
  rises : Rises B s.tip s'.tip
  kept : ∀ m ∈ s.setBlockIndexCandidates,
    (∀ t, s'.tip = some t → sortKey B s t ≤ sortKey B s m) → m ∈ s'.setBlockIndexCandidates

section Advance

variable {s s₁ s₂ : ChainState Node} {best best₁ best₂ : Option Node}

lemma Advanced.refl (h : CandidateInv B s best) : Advanced B s best s best where
  toMoved := .refl s
  inv := h
  best_or := .inl rfl
  best_le r hr := ⟨r, hr, le_rfl⟩
  failed_eq := rfl
  rises := .refl _
  kept _ hm _ := hm

lemma Carried.best_of_advanced (h₁ : Advanced B s best s₁ best₁) (h₂ : Carried B s₁ best₁ s₂ best₂)
    (hrises : Rises B s₁.tip s₂.tip) :
    best₂ = best ∨ best₂ = s₂.tip := by
  rcases h₂.best_or with heq | heq
  · rcases h₁.best_or with heq₁ | heq₁
    · exact .inl (heq.trans heq₁)
    · cases htip : s₁.tip with
      | none =>
        left
        rw [heq, heq₁, htip]
        by_contra hbest
        obtain ⟨r, hr⟩ := Option.ne_none_iff_exists'.1 (Ne.symm hbest)
        obtain ⟨r', hr', -⟩ := h₁.best_le r hr
        rw [heq₁, htip] at hr'
        cases hr'
      | some t =>
        right
        obtain ⟨t', ht', hanc⟩ := hrises t htip
        obtain ⟨r, hr, hle⟩ := h₂.inv.tip_le t' ht'
        have hrt : r = t := by
          rw [heq, heq₁, htip, Option.some.injEq] at hr
          exact hr.symm
        have hkey : sortKey B s₂ t = sortKey B s₂ t' :=
          le_antisymm (sortKey_le_of_isAncestor hanc) (hrt ▸ hle)
        rw [heq, heq₁, htip, ht', sortKey_injective B s₂ hkey]
  · exact .inr heq

lemma Carried.of_advanced (h₁ : Advanced B s best s₁ best₁) (h₂ : Carried B s₁ best₁ s₂ best₂)
    (hrises : Rises B s₁.tip s₂.tip) :
    Carried B s best s₂ best₂ where
  toMoved := h₁.toMoved.trans h₂.toMoved
  inv := h₂.inv
  best_or := h₂.best_of_advanced h₁ hrises
  best_le r hr := by
    obtain ⟨r₁, hr₁, hle₁⟩ := h₁.best_le r hr
    obtain ⟨r₂, hr₂, hle₂⟩ := h₂.best_le r₁ hr₁
    rw [h₁.sortKey_eq] at hle₂
    exact ⟨r₂, hr₂, hle₁.trans hle₂⟩

lemma Advanced.trans (h₁ : Advanced B s best s₁ best₁) (h₂ : Advanced B s₁ best₁ s₂ best₂) :
    Advanced B s best s₂ best₂ where
  toCarried := h₂.toCarried.of_advanced h₁ h₂.rises
  failed_eq := h₂.failed_eq.trans h₁.failed_eq
  rises := h₁.rises.trans h₂.rises
  kept m hm hle := by
    refine h₂.kept m (h₁.kept m hm ?_) ?_
    · intro t ht
      obtain ⟨t₂, ht₂, hanc⟩ := h₂.rises t ht
      exact (sortKey_le_of_isAncestor hanc).trans (hle t₂ ht₂)
    · rw [h₁.sortKey_eq]
      exact hle

lemma Marked.carried (h : Marked B s s₁) (hcand : CandidateInv B s best) :
    Carried B s best s₁ best where
  toMoved := h.toMoved
  inv := h.candidateInv hcand
  best_or := .inl rfl
  best_le r hr := ⟨r, hr, le_rfl⟩

end Advance

/-! ## Connecting blocks -/

section Connect

variable {s : ChainState Node} {best : Option Node} {x : Node}

/-- `PruneBlockIndexCandidates` after a valid block was connected: its assertion holds, since the
best tip so far or the new one stays a candidate. -/
lemma prune_connected (hcand : CandidateInv B s best) (hlinked : s.m_chain_tx_count x ≠ 0)
    (hgood : ¬ B.Bad x) (hparent : B.parent x = s.tip) :
    ∃ s' best', pruneBlockIndexCandidates B { s with tip := some x } = .ok s' ∧
      s'.tip = some x ∧ Advanced B s best s' best' := by
  -- The candidates that stay, and the better one of the block and the best tip so far.
  obtain ⟨keep, hkeep⟩ : ∃ keep, keep = s.setBlockIndexCandidates.filter fun c =>
    !((some x).any fun t => workComparator B { s with tip := some x } c t) := ⟨_, rfl⟩
  have hmem : ∀ c, c ∈ keep ↔ c ∈ s.setBlockIndexCandidates ∧ ¬ sortKey B s c < sortKey B s x := by
    intro c
    rw [hkeep, List.mem_filter, Option.any_some, Bool.not_eq_true', Bool.eq_false_iff, ne_eq,
      workComparator_iff]
    rfl
  obtain ⟨r, hr, hrgood, hbest, hle, hxr⟩ : ∃ r ∈ keep, ¬ B.Bad r ∧ (some r = best ∨ r = x) ∧
      (∀ r₀, best = some r₀ → sortKey B s r₀ ≤ sortKey B s r) ∧
      sortKey B s x ≤ sortKey B s r := by
    by_cases hworse : ∃ r₀, best = some r₀ ∧ sortKey B s x < sortKey B s r₀
    · obtain ⟨r₀, hr₀, hlt⟩ := hworse
      refine ⟨r₀, (hmem r₀).2 ⟨hcand.best_mem r₀ hr₀, hlt.not_gt⟩, hcand.best_good r₀ hr₀,
        .inl hr₀.symm, ?_, hlt.le⟩
      intro r₁ hr₁
      rw [hr₀, Option.some.injEq] at hr₁
      rw [hr₁]
    · refine ⟨x, (hmem x).2 ⟨?_, lt_irrefl _⟩, hgood, .inr rfl, ?_, le_rfl⟩
      · exact (hcand.covered x hlinked hgood).resolve_right hworse
      · intro r₀ hr₀
        exact le_of_not_gt fun hlt => hworse ⟨r₀, hr₀, hlt⟩
  refine ⟨{ s with tip := some x, setBlockIndexCandidates := keep }, some r, ?_, rfl, ?_⟩
  · rw [hkeep]
    refine ensure_bind ?_ _
    intro hempty
    change s.setBlockIndexCandidates.filter _ = [] at hempty
    rw [← hkeep] at hempty
    rw [hempty] at hr
    cases hr
  · refine ⟨⟨⟨rfl, fun _ h => h, fun _ h => .inl h, ?_⟩, ⟨?_, ?_, ?_, ?_, ?_, ?_, ?_⟩, ?_, ?_⟩,
      rfl, ?_, ?_⟩
    · rw [hkeep]
      exact List.filter_sublist
    · intro c hc
      exact hcand.linked c ((hmem c).1 hc).1
    · intro r' hr'
      obtain rfl := Option.some.inj hr'
      exact hr
    · intro r' hr'
      obtain rfl := Option.some.inj hr'
      exact hrgood
    · intro n hn hngood
      -- What was dropped is worse than the block, and what was worse than the old best tip is so.
      by_cases hlt : sortKey B s n < sortKey B s x
      · exact .inr ⟨r, rfl, hlt.trans_le hxr⟩
      · rcases hcand.covered n hn hngood with hc | ⟨r₀, hr₀, hlt₀⟩
        · exact .inl ((hmem n).2 ⟨hc, hlt⟩)
        · exact .inr ⟨r, rfl, hlt₀.trans_le (hle r₀ hr₀)⟩
    · intro t ht
      obtain rfl := Option.some.inj ht
      exact hlinked
    · intro t ht
      obtain rfl := Option.some.inj ht
      exact hgood
    · intro t ht
      obtain rfl := Option.some.inj ht
      exact ⟨r, rfl, hxr⟩
    · rcases hbest with hbest | hbest
      · exact .inl hbest
      · exact .inr (congrArg some hbest)
    · intro r₀ hr₀
      exact ⟨r, rfl, hle r₀ hr₀⟩
    · intro t ht
      exact ⟨x, rfl, Forest.isAncestor_of_parent (hparent.trans ht)⟩
    · intro m hm hlem
      exact (hmem m).2 ⟨hm, (hlem x rfl).not_gt⟩

variable [DecidableEq Node]

lemma connectTip_of_connects (hparent : B.parent x = s.tip) (hdata : s.haveData x = true)
    (hconnects : B.connects x = true) :
    connectTip B s x = .ok ({ s with tip := some x }, true) := by
  rw [connectTip, ensure_bind hparent, ensure_bind hdata, if_pos hconnects]
  rfl

/-- `ConnectTip` at a block that is rejected: it is marked, if there is a tip to go on with. -/
lemma connectTip_of_rejected (hparent : B.parent x = s.tip) (hdata : s.haveData x = true)
    (hconnects : B.connects x = false) (htip : s.tip.isSome) :
    ∃ s', connectTip B s x = .ok (s', false) ∧ Marked B s s' ∧ s'.failedValid x = true := by
  have hbad : B.Bad x := ⟨x, .refl _ _, hconnects⟩
  obtain ⟨s', hrun, hmarked, hfailed⟩ := invalidBlockFound_eq htip hbad
  refine ⟨s', ?_, hmarked, hfailed⟩
  rw [connectTip, ensure_bind hparent, ensure_bind hdata, hconnects, hrun]
  rfl

lemma connectTip_of_noTip (hparent : B.parent x = s.tip) (hdata : s.haveData x = true)
    (hconnects : B.connects x = false) (htip : s.tip = none) :
    connectTip B s x = .error .noTip := by
  rw [connectTip, ensure_bind hparent, ensure_bind hdata, hconnects]
  simp [invalidBlockFound, invalidChainFound, setBlockFailureFlags, ChainState.setFailed,
    ChainState.eraseCandidate, htip, ensure]

end Connect

/-! ## Paths through the index -/

/-- The blocks of the list lie on top of each other, the first one on `tip`; the last one, or `tip`
if there is none, is `last`. -/
def AscendsTo (B : Blocks Node) : (tip : Option Node) → List Node → (last : Option Node) → Prop
  | tip, [], last => tip = last
  | tip, x :: l, last => B.parent x = tip ∧ AscendsTo B (some x) l last

variable {l : List Node}

lemma AscendsTo.concat {tip mid : Option Node} {x : Node} (h : AscendsTo B tip l mid)
    (hx : B.parent x = mid) : AscendsTo B tip (l ++ [x]) (some x) := by
  induction l generalizing tip with
  | nil => exact ⟨hx.trans (Eq.symm h), rfl⟩
  | cons y l ih => exact ⟨h.1, ih h.2⟩

lemma AscendsTo.isAncestor {x y : Node} (h : AscendsTo B (some x) l (some y)) :
    B.IsAncestor x y := by
  induction l generalizing x with
  | nil =>
    obtain rfl := Option.some.inj h
    exact .refl _ _
  | cons z l ih => exact (Forest.isAncestor_of_parent h.1).trans (ih h.2)

lemma ancestry_ascendsTo (k : ℕ) (x : Option Node) :
    AscendsTo B (x.bind (B.up k)) (ancestry B k x).reverse x := by
  induction k generalizing x with
  | zero =>
    rw [ancestry, List.reverse_nil]
    · cases x <;> rfl
    · intro k y hk
      cases hk
  | succ k ih =>
    cases x with
    | none => rfl
    | some y =>
      rw [ancestry, List.reverse_cons, Option.bind_some, Forest.up_succ]
      exact (ih (B.parent y)).concat rfl

/-! ## `ActivateBestChainStep` -/

/-- How far connecting blocks on the way to `front` got: to `front` itself, to some block above the
old tip, or to an invalid block, which is now marked. -/
structure BatchOutcome (B : Blocks Node) (s : ChainState Node) (best : Option Node) (front : Node)
    (s' : ChainState Node) (res : BatchResult) (best' : Option Node) : Prop where
  carried : Carried B s best s' best'
  tip : s'.tip.isSome
  rises : Rises B s.tip s'.tip
  advanced : res ≠ .invalid → Advanced B s best s' best'
  connected : res = .connected → s'.tip = some front
  improved : res = .improved → ∃ t, s'.tip = some t ∧ B.IsAncestor t front ∧
    ∀ t₀, s.tip = some t₀ → B.depth t₀ < B.depth t
  invalid : res = .invalid → ∃ x, B.IsAncestor x front ∧ s'.failedValid x = true

variable {s : ChainState Node} {best : Option Node} (pindexOldTip : Option Node)

lemma connectBatch_spec [DecidableEq Node] {front : Node}
    (hidx : IndexInv B s []) (hcand : CandidateInv B s best)
    (hlinked : s.m_chain_tx_count front ≠ 0) (hpath : AscendsTo B s.tip l (some front)) :
    Outcome (connectBatch B pindexOldTip front l s)
      (fun r => ∃ best', BatchOutcome B s best front r.1 r.2 best') (GenesisRejected B) := by
  induction l generalizing s best with
  | nil =>
    have hadv := Advanced.refl hcand
    refine ⟨best, hadv.toCarried, ?_, hadv.rises, fun _ => hadv, fun _ => hpath, nofun, nofun⟩
    rw [show s.tip = some front from hpath]
    rfl
  | cons x rest ih =>
    obtain ⟨hparent, hrest⟩ := hpath
    have hxfront : B.IsAncestor x front := hrest.isAncestor
    have hxlinked : s.m_chain_tx_count x ≠ 0 := hidx.linked_of_isAncestor hxfront hlinked
    have hxdata : s.haveData x = true := hidx.linked_data x hxlinked
    rw [connectBatch]
    cases hconnects : B.connects x with
    | true =>
      have hxgood : ¬ B.Bad x := Blocks.not_bad_of_connects hconnects fun p hp =>
        hcand.tip_good p (hparent.symm.trans hp)
      obtain ⟨s₁, best₁, hprune, htip₁, hadv⟩ :=
        prune_connected hcand hxlinked hxgood hparent
      have habove : ∀ t₀, s.tip = some t₀ → B.depth t₀ < B.depth x := by
        intro t₀ ht₀
        have := B.depth_child x t₀ (hparent.trans ht₀)
        omega
      rw [connectTip_of_connects hparent hxdata hconnects]
      change Outcome (pruneBlockIndexCandidates B { s with tip := some x } >>= _) _ _
      rw [hprune]
      split
      · refine ⟨best₁, hadv.toCarried, ?_, hadv.rises, fun _ => hadv, nofun, fun _ => ?_,
          nofun⟩
        · rw [htip₁]
          rfl
        · exact ⟨x, htip₁, hxfront, habove⟩
      · have hrec := ih (hadv.indexInv hidx) hadv.inv (by rwa [hadv.count_eq])
          (by rwa [htip₁])
        refine hrec.mono ?_
        rintro ⟨s₂, res⟩ ⟨best₂, hout⟩
        refine ⟨best₂, hout.carried.of_advanced hadv hout.rises, hout.tip,
          hadv.rises.trans hout.rises, ?_, hout.connected, ?_, hout.invalid⟩
        · intro hres
          exact hadv.trans (hout.advanced hres)
        · intro hres
          obtain ⟨t, ht, hanc, hdepth⟩ := hout.improved hres
          refine ⟨t, ht, hanc, ?_⟩
          intro t₀ ht₀
          exact (habove t₀ ht₀).trans (hdepth x htip₁)
    | false =>
      have hbad : B.Bad x := ⟨x, .refl _ _, hconnects⟩
      cases htip : s.tip with
      | none =>
        -- Only the genesis block can be connected where there is no tip.
        have hroot : x = B.genesis := hidx.root x (hidx.data_index x hxdata)
          (hparent.trans htip)
        rw [connectTip_of_noTip hparent hxdata hconnects htip]
        exact ⟨rfl, hroot ▸ hconnects⟩
      | some t =>
        have hsome : s.tip.isSome := by
          rw [htip]
          rfl
        obtain ⟨s₁, hrun₁, hmarked₁, hfailed⟩ :=
          connectTip_of_rejected hparent hxdata hconnects hsome
        have hsome₁ : s₁.tip.isSome := by rwa [hmarked₁.tip_eq]
        obtain ⟨s₂, hrun₂, hmarked₂⟩ :=
          invalidChainFound_eq hsome₁ (hbad.of_isAncestor hxfront)
        have hmarked := hmarked₁.trans hmarked₂
        rw [hrun₁]
        change Outcome (invalidChainFound B s₁ front >>= _) _ _
        rw [hrun₂]
        refine ⟨best, hmarked.carried hcand, ?_, ?_, nofun, nofun, nofun, fun _ => ?_⟩
        · change s₂.tip.isSome
          rwa [hmarked.tip_eq]
        · change Rises B s.tip s₂.tip
          rw [hmarked.tip_eq]
          exact .refl _
        · exact ⟨x, hxfront, hmarked₂.failed_mono x hfailed⟩

/-- How far all batches on the way to `m` got. -/
structure BatchesOutcome (B : Blocks Node) (s : ChainState Node) (best : Option Node) (m : Node)
    (next : ℕ) (s' : ChainState Node) (fInvalidFound : Bool) (best' : Option Node) : Prop where
  carried : Carried B s best s' best'
  tip : s'.tip.isSome
  rises : Rises B s.tip s'.tip
  valid : fInvalidFound = false → Advanced B s best s' best' ∧
    ∃ t, s'.tip = some t ∧ B.IsAncestor t m ∧ min next (B.depth m) ≤ B.depth t
  invalid : fInvalidFound = true → ∃ x, B.IsAncestor x m ∧ s'.failedValid x = true

variable {m : Node}

lemma batchesOutcome_of_tip (hcand : CandidateInv B s best) (htip : s.tip = some m) (next : ℕ) :
    BatchesOutcome B s best m next s false best := by
  have hadv := Advanced.refl hcand
  refine ⟨hadv.toCarried, ?_, hadv.rises, fun _ => ⟨hadv, m, htip, .refl _ _, ?_⟩, nofun⟩
  · rw [htip]
    rfl
  · exact Nat.min_le_right ..

variable [DecidableEq Node] {fuel : ℕ}

lemma connectBatches_spec {next : ℕ} (hidx : IndexInv B s [])
    (hcand : CandidateInv B s best) (hlinked : s.m_chain_tx_count m ≠ 0)
    (htip : s.tip = B.up (B.depth m + 1 - next) m) (hnext : next ≤ B.depth m + 1)
    (hfuel : B.depth m + 1 ≤ fuel + next) : Outcome (connectBatches B m pindexOldTip fuel next s)
      (fun r => ∃ best', BatchesOutcome B s best m next r.1 r.2 best') (GenesisRejected B) := by
  induction fuel generalizing s best next with
  | zero =>
    obtain rfl : next = B.depth m + 1 := by omega
    rw [Nat.sub_self, Forest.up_zero] at htip
    unfold connectBatches
    rw [if_pos rfl]
    exact ⟨best, batchesOutcome_of_tip hcand htip _⟩
  | succ fuel ih =>
    unfold connectBatches
    by_cases hend : next = B.depth m + 1
    · rw [hend, Nat.sub_self, Forest.up_zero] at htip
      rw [if_pos hend]
      exact ⟨best, batchesOutcome_of_tip hcand htip _⟩
    · rw [if_neg hend]
      obtain ⟨target, htarget⟩ : ∃ target, target = min (next + 31) (B.depth m) := ⟨_, rfl⟩
      dsimp only
      rw [← htarget]
      obtain ⟨front, hup⟩ := B.exists_up (show B.depth m - target ≤ B.depth m by omega)
      have hfront : B.IsAncestor front m := Forest.isAncestor_of_up hup
      have hdepth : B.depth front = target := by
        have := B.depth_of_up hup
        omega
      have hpath : AscendsTo B s.tip
          (ancestry B (target + 1 - next) (some front)).reverse (some front) := by
        have hascend := ancestry_ascendsTo (B := B) (target + 1 - next) (some front)
        rw [Option.bind_some] at hascend
        rwa [htip, show B.depth m + 1 - next = B.depth m - target + (target + 1 - next) by omega,
          Forest.up_add, hup, Option.bind_some]
      rw [(B.ancestor_eq_some_iff).2 ⟨hfront, hdepth⟩]
      have hbatch := connectBatch_spec pindexOldTip hidx hcand
        (hidx.linked_of_isAncestor hfront hlinked) hpath
      refine hbatch.bind ?_
      rintro ⟨s₁, res⟩ ⟨best₁, hout⟩
      cases res with
      | connected =>
        have hadv := hout.advanced nofun
        have htip₁ : s₁.tip = B.up (B.depth m + 1 - (target + 1)) m := by
          rw [Nat.add_sub_add_right, hup]
          exact hout.connected rfl
        have hrec := ih (hadv.indexInv hidx) hadv.inv (by rwa [hadv.count_eq]) htip₁ (by omega)
          (by omega)
        refine hrec.mono ?_
        rintro ⟨s₂, inv⟩ ⟨best₂, hout₂⟩
        refine ⟨best₂, hout₂.carried.of_advanced hadv hout₂.rises, hout₂.tip,
          hadv.rises.trans hout₂.rises, ?_, hout₂.invalid⟩
        intro hvalid
        obtain ⟨hadv₂, t, ht, hanc, hle⟩ := hout₂.valid hvalid
        exact ⟨hadv.trans hadv₂, t, ht, hanc, by omega⟩
      | improved =>
        obtain ⟨t, ht, hanc, hdeeper⟩ := hout.improved rfl
        refine ⟨best₁, hout.carried, hout.tip, hout.rises, fun _ => ⟨hout.advanced nofun, t, ht,
          hanc.trans hfront, ?_⟩, nofun⟩
        -- The block below the first of the batch is the old tip.
        cases next with
        | zero => exact Nat.min_le_left ..|>.trans (Nat.zero_le _)
        | succ next =>
          obtain ⟨t₀, ht₀⟩ := B.exists_up (show B.depth m - next ≤ B.depth m by omega)
          have htip₀ : s.tip = some t₀ := by
            rw [htip, ← ht₀]
            congr 1
            omega
          have := hdeeper t₀ htip₀
          have := B.depth_of_up ht₀
          omega
      | invalid =>
        obtain ⟨x, hx, hfailed⟩ := hout.invalid rfl
        exact ⟨best₁, hout.carried, hout.tip, hout.rises, nofun,
          fun _ => ⟨x, hx.trans hfront, hfailed⟩⟩

omit [DecidableEq Node] in
lemma IndexInv.genesis_isAncestor {queue : List Node} (hidx : IndexInv B s queue) {n : Node}
    (hlinked : s.m_chain_tx_count n ≠ 0) : B.IsAncestor B.genesis n := by
  obtain ⟨g, hg⟩ := B.exists_up (le_refl (B.depth n))
  have hanc : B.IsAncestor g n := Forest.isAncestor_of_up hg
  have hroot : B.parent g = none := by
    by_contra hparent
    obtain ⟨p, hp⟩ := Option.ne_none_iff_exists'.1 hparent
    have := B.depth_child g p hp
    have := B.depth_of_up hg
    omega
  have hdata := hidx.linked_data g (hidx.linked_of_isAncestor hanc hlinked)
  rwa [← hidx.root g (hidx.data_index g hdata) hroot]

variable {t : Node}

/-- The loop of `FindFork` ends at the last common block, if there is any. -/
lemma findForkLoop_spec {g : Node} (htip : s.tip = some t) (hgt : B.IsAncestor g t)
    {x : Node} (hgx : B.IsAncestor g x) (hfuel : B.depth x < fuel) :
    ∃ f, s.findForkLoop B fuel (some x) = some f ∧ B.IsAncestor f x ∧ B.IsAncestor f t ∧
      ∀ a, B.IsAncestor a x → B.IsAncestor a t → B.IsAncestor a f := by
  induction fuel generalizing x with
  | zero => omega
  | succ fuel ih =>
    rw [ChainState.findForkLoop]
    by_cases hxt : B.IsAncestor x t
    · rw [if_pos ((ChainState.contains_iff B).2 ⟨t, htip, hxt⟩)]
      exact ⟨x, rfl, .refl _ _, hxt, fun a ha _ => ha⟩
    · have hnot : ¬ s.contains B x = true := by
        intro hcontains
        obtain ⟨t', ht', hanc⟩ := (ChainState.contains_iff B).1 hcontains
        rw [htip, Option.some.injEq] at ht'
        exact hxt (ht' ▸ hanc)
      have hne : ∀ a, B.IsAncestor a t → a ≠ x := by
        rintro a ha rfl
        exact hxt ha
      rw [if_neg hnot]
      obtain ⟨p, hp, hgp⟩ := hgx.of_ne (hne g hgt)
      have hdepth := B.depth_child x p hp
      obtain ⟨f, hrun, hfp, hft, hlast⟩ := ih hgp (by omega)
      rw [hp]
      refine ⟨f, hrun, hfp.trans (Forest.isAncestor_of_parent hp), hft, ?_⟩
      intro a hax hat
      obtain ⟨p', hp', hap⟩ := hax.of_ne (hne a hat)
      rw [hp, Option.some.injEq] at hp'
      exact hlast a (hp' ▸ hap) hat

/-- `FindFork` returns the last block of the active chain that `m` builds on. -/
lemma findFork_spec {g : Node} (htip : s.tip = some t) (hgt : B.IsAncestor g t)
    (hgm : B.IsAncestor g m) :
    ∃ f, s.findFork B m = some f ∧ B.IsAncestor f m ∧ B.IsAncestor f t ∧
      ∀ a, B.IsAncestor a m → B.IsAncestor a t → B.IsAncestor a f := by
  -- The loop starts at the height of the tip, below which all common blocks lie.
  obtain ⟨x, hx, hxm, hbelow⟩ : ∃ x,
      (if B.depth m > B.depth t then B.ancestor m (B.depth t) else some m) = some x ∧
      B.IsAncestor x m ∧
      ∀ a, B.IsAncestor a m → B.IsAncestor a t → B.IsAncestor a x := by
    by_cases hdeep : B.depth m > B.depth t
    · obtain ⟨x, hup⟩ := B.exists_up (show B.depth m - B.depth t ≤ B.depth m by omega)
      have hdepth := B.depth_of_up hup
      have hxm : B.IsAncestor x m := Forest.isAncestor_of_up hup
      refine ⟨x, ?_, hxm, ?_⟩
      · rw [if_pos hdeep]
        exact B.ancestor_eq_some_iff.2 ⟨hxm, by omega⟩
      · intro a ham hat
        exact ham.of_depth_le hxm (by have := hat.depth_le; omega)
    · exact ⟨m, if_neg hdeep, .refl _ _, fun a ham _ => ham⟩
  obtain ⟨f, hrun, hfx, hft, hlast⟩ := findForkLoop_spec htip hgt (hbelow g hgm hgt)
    (show B.depth x < B.depth m + 1 by have := hxm.depth_le; omega)
  refine ⟨f, ?_, hfx.trans hxm, hft, fun a ham hat => hlast a (hbelow a ham hat) hat⟩
  rw [ChainState.findFork, htip]
  dsimp only
  rw [hx, hrun]

variable {f : Node}

lemma disconnectTo_self (htip : s.tip = some f) (fuel : ℕ) :
    disconnectTo B (some f) fuel s = .ok { s with tip := some f } := by
  have hsame : { s with tip := some f } = s := by rw [← htip]
  rw [hsame]
  unfold disconnectTo
  simp [htip]

lemma disconnectTo_spec (hidx : IndexInv B s []) (htip : s.tip = some t)
    (hft : B.IsAncestor f t) (hlinked : s.m_chain_tx_count t ≠ 0) (hfuel : B.depth t ≤ fuel) :
    disconnectTo B (some f) fuel s = .ok { s with tip := some f } := by
  induction fuel generalizing s t with
  | zero =>
    obtain rfl : f = t := hft.eq_of_depth (.refl _ _) (by have := hft.depth_le; omega)
    exact disconnectTo_self htip 0
  | succ fuel ih =>
    by_cases heq : f = t
    · obtain rfl := heq
      exact disconnectTo_self htip _
    · obtain ⟨p, hp, hfp⟩ := hft.of_ne heq
      have hdepth := B.depth_child t p hp
      have hdata : s.haveData t = true := hidx.linked_data t hlinked
      have hmoved : Moved B s { s with tip := some p } :=
        ⟨rfl, fun _ h => h, fun _ h => .inl h, .refl _⟩
      have hrec := ih (hmoved.indexInv hidx) rfl hfp (hidx.linked_parent t p hlinked hp) (by omega)
      unfold disconnectTo
      simpa [htip, Ne.symm heq, hp, hdata] using hrec

/-- What a step towards the picked block achieves: the tip gets closer to it, or another block is
marked as failed. -/
structure StepOutcome (B : Blocks Node) (s : ChainState Node) (best : Option Node) (m : Node)
    (s' : ChainState Node) (fInvalidFound : Bool) (best' : Option Node) : Prop where
  carried : Carried B s best s' best'
  tip : s'.tip.isSome
  valid : fInvalidFound = false → s'.failedValid = s.failedValid ∧ Picked B s' m ∧
    ∃ t, s'.tip = some t ∧ B.IsAncestor t m ∧
      ∀ t₀, s.tip = some t₀ → B.IsAncestor t₀ m → B.depth t₀ < B.depth t
  invalid : fInvalidFound = true → ∃ x, s.m_chain_tx_count x ≠ 0 ∧ s.failedValid x = false ∧
    s'.failedValid x = true

omit [DecidableEq Node] in
lemma CandidateInv.setTip (hidx : IndexInv B s []) (hcand : CandidateInv B s best)
    (htip : s.tip = some t) (hft : B.IsAncestor f t) :
    CandidateInv B { s with tip := some f } best := by
  refine ⟨hcand.linked, hcand.best_mem, hcand.best_good, hcand.covered, ?_, ?_, ?_⟩
  · intro t' ht'
    obtain rfl := Option.some.inj ht'
    exact hidx.linked_of_isAncestor hft (hcand.tip_linked t htip)
  · intro t' ht'
    obtain rfl := Option.some.inj ht'
    exact fun hbad => hcand.tip_good t htip (hbad.of_isAncestor hft)
  · intro t' ht'
    obtain rfl := Option.some.inj ht'
    obtain ⟨r, hr, hle⟩ := hcand.tip_le t htip
    exact ⟨r, hr, (sortKey_le_of_isAncestor hft).trans hle⟩

/-- The first half of a step: the active chain is back at the fork, which lies properly above the
picked block. -/
lemma exists_fork (hidx : IndexInv B s []) (hcand : CandidateInv B s best) (hpick : Picked B s m)
    (hne : s.tip ≠ some m) :
    ∃ next ≤ B.depth m, (((s.findFork B m).map fun f => B.depth f + 1).getD 0) = next ∧
      s.findFork B m = B.up (B.depth m + 1 - next) m ∧
      CandidateInv B { s with tip := s.findFork B m } best ∧
      disconnectTo B (s.findFork B m) ((s.tip.map B.depth).getD 0) s =
        .ok { s with tip := s.findFork B m } ∧
      ∀ t₀, s.tip = some t₀ → B.IsAncestor t₀ m → B.depth t₀ < next := by
  have hmlinked := hcand.linked m hpick.mem
  cases htip : s.tip with
  | none =>
    have hfork : s.findFork B m = none := by
      rw [ChainState.findFork, htip]
    have hsame : { s with tip := none } = s := by rw [← htip]
    rw [hfork, hsame]
    refine ⟨0, Nat.zero_le _, rfl, ?_, hcand, ?_, nofun⟩
    · by_contra hup
      obtain ⟨y, hy⟩ := Option.ne_none_iff_exists'.1 (Ne.symm hup)
      have := B.depth_of_up hy
      omega
    · unfold disconnectTo
      simp [htip]
  | some t =>
    have htlinked := hcand.tip_linked t htip
    obtain ⟨f, hfork, hfm, hft, hlast⟩ := findFork_spec htip (hidx.genesis_isAncestor htlinked)
      (hidx.genesis_isAncestor hmlinked)
    -- The picked block is not worse than the tip, so it is not on the active chain.
    have hfne : f ≠ m := by
      rintro rfl
      obtain ⟨r, hr, hle⟩ := hcand.tip_le t htip
      have hkey := hle.trans (hpick.best r (hcand.best_mem r hr))
      by_cases hft' : f = t
      · exact hne (hft' ▸ htip)
      · exact absurd (sortKey_lt_of_isAncestor hft hft') hkey.not_gt
    have hdepth : B.depth f < B.depth m := by
      have hle := hfm.depth_le
      by_contra hge
      exact hfne (hfm.eq_of_depth (.refl _ _) (by omega))
    rw [hfork]
    refine ⟨B.depth f + 1, by omega, rfl, ?_, hcand.setTip hidx htip hft, ?_, ?_⟩
    · rw [Nat.add_sub_add_right, hfm.up_eq]
    · exact disconnectTo_spec hidx htip hft htlinked le_rfl
    · intro t₀ ht₀ hanc
      obtain rfl := Option.some.inj ht₀
      have := (hlast t hanc (.refl _ _)).depth_le
      omega

/-- **`ActivateBestChainStep`.** -/
lemma activateBestChainStep_spec (hidx : IndexInv B s []) (hcand : CandidateInv B s best)
    (hpick : Picked B s m) (hne : s.tip ≠ some m) :
    Outcome (activateBestChainStep B s m)
      (fun r => ∃ best', StepOutcome B s best m r.1 r.2 best') (GenesisRejected B) := by
  obtain ⟨next, hnext, hheight, hfork, hcand₁, hdisconnect, hbelow⟩ :=
    exists_fork hidx hcand hpick hne
  have hmoved : Moved B s { s with tip := s.findFork B m } :=
    ⟨rfl, fun _ h => h, fun _ h => .inl h, .refl _⟩
  have hmlinked := hcand.linked m hpick.mem
  rw [activateBestChainStep, hdisconnect, hheight]
  have hbatches := connectBatches_spec s.tip (hmoved.indexInv hidx) hcand₁
    hmlinked hfork (by omega) (Nat.le_add_right (B.depth m + 1) next)
  refine Outcome.mono hbatches ?_
  rintro ⟨s', inv⟩ ⟨best', hout⟩
  refine ⟨best', ⟨hmoved.trans hout.carried.toMoved, hout.carried.inv, hout.carried.best_or,
    hout.carried.best_le⟩, hout.tip, ?_, ?_⟩
  · intro hvalid
    obtain ⟨hadv, t, ht, hanc, hle⟩ := hout.valid hvalid
    have hkey : sortKey B s' = sortKey B s := (hmoved.trans hadv.toMoved).sortKey_eq
    have hfailed : s'.failedValid = s.failedValid := hadv.failed_eq
    refine ⟨hfailed, ⟨?_, ?_, ?_⟩, t, ht, hanc, ?_⟩
    · refine hadv.kept m hpick.mem ?_
      intro t' ht'
      rw [show s'.tip = some t from ht, Option.some.injEq] at ht'
      exact ht' ▸ sortKey_le_of_isAncestor hanc
    · intro c hc
      rw [hkey]
      exact hpick.best c (hadv.sublist.subset hc)
    · rw [hfailed]
      exact hpick.clean
    · intro t₀ ht₀ hanc₀
      have := hbelow t₀ ht₀ hanc₀
      omega
  · intro hinvalid
    obtain ⟨x, hx, hfailed⟩ := hout.invalid hinvalid
    exact ⟨x, hidx.linked_of_isAncestor hx hmlinked, hpick.clean x hx, hfailed⟩

end SlithyTove
