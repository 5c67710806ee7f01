import SlithyTove.Chain.BlockIndex
import SlithyTove.Framework.Checked

/-!
# `LastCommonAncestor`

`LastCommonAncestor` (`chain.cpp`) brings two nodes to the same height and then walks both back,
by skip pointers as long as these differ and by one `pprev` link where they agree.  It relies on
nodes of equal height having skip pointers of equal height.

For two nodes with a common ancestor the walk ends at the last one, and neither a null pointer
is followed nor an assumption violated on the way (`lastCommonAncestor_spec`).  From two nodes
without one it runs past their roots and ends with the null pointer (`lastCommonAncestor_eq_none`).
-/

namespace SlithyTove

open Framework

namespace BlockTree

variable {Node : Type} [DecidableEq Node] (T : BlockTree Node)

/-- The inner loop, for at most `fuel` passes; each pass lowers the heights. -/
def skipApart : (fuel : ℕ) → (pa pb : Node) → Except String (Node × Node)
  | 0, pa, pb => if T.pskip pa = T.pskip pb then .ok (pa, pb) else .error "out of fuel"
  | fuel + 1, pa, pb =>
    if T.pskip pa = T.pskip pb then .ok (pa, pb)
    else
      match T.pskip pa, T.pskip pb with
      | some sa, some sb => do
        ensure (T.depth pa = T.depth pb) "pa->nHeight == pb->nHeight"
        ensure (T.depth sa = T.depth sb) "pa->pskip->nHeight == pb->pskip->nHeight"
        skipApart fuel sa sb
      | _, _ => .error "null pointer"

/-- The outer loop; `none` is `nullptr`. -/
def walkTogether : (fuel : ℕ) → (pa pb : Option Node) → Except String (Option Node)
  | 0, pa, pb => if pa = pb then .ok pa else .error "out of fuel"
  | fuel + 1, pa, pb =>
    if pa = pb then .ok pa
    else
      match pa, pb with
      | some pa, some pb => do
        let (pa, pb) ← T.skipApart (T.depth pa) pa pb
        walkTogether fuel (T.parent pa) (T.parent pb)
      | _, _ => .error "null pointer"

/-- The first step: the higher of the two nodes is taken back to the height of the other. -/
def rewindTo (p : Node) (height : ℕ) : Except String (Option Node) :=
  if T.depth p > height then T.getAncestor p height else .ok (some p)

/-- `LastCommonAncestor`. -/
def lastCommonAncestor (pa pb : Node) : Except String (Option Node) := do
  let a ← T.rewindTo pa (T.depth pb)
  let b ← T.rewindTo pb (T.depth pa)
  T.walkTogether (T.depth pa + 1) a b

/-! ## The walk -/

omit [DecidableEq Node] in
lemma exists_pskip {x : Node} (hx : T.depth x ≠ 0) :
    ∃ s, T.pskip x = some s ∧ T.IsAncestor s x ∧ T.depth s = getSkipHeight (T.depth x) := by
  obtain ⟨p, hp⟩ : ∃ p, T.parent x = some p := by
    cases hp : T.parent x with
    | none => exact absurd (T.depth_root x hp) hx
    | some p => exact ⟨p, rfl⟩
  have hdepth := T.depth_child x p hp
  have hlt := getSkipHeight_lt (Nat.pos_of_ne_zero hx)
  obtain ⟨s, hs, hrun⟩ := T.getAncestor_eq_up p (h := getSkipHeight (T.depth x)) (by omega)
  have hskip : some s = T.pskip x := Except.ok.inj (hrun.symm.trans (T.skip_child x p hp))
  have hup := T.depth_of_up hs
  exact ⟨s, hskip.symm, (Forest.isAncestor_of_up hs).trans (Forest.isAncestor_of_parent hp),
    by omega⟩

omit [DecidableEq Node] in
lemma pskip_of_depth_eq_zero {x : Node} (hx : T.depth x = 0) : T.pskip x = none := by
  apply T.skip_root
  cases hp : T.parent x with
  | none => rfl
  | some p =>
    have := T.depth_child x p hp
    omega

variable (fuel : ℕ)

lemma skipApart_of_eq {pa pb : Node} (h : T.pskip pa = T.pskip pb) :
    T.skipApart fuel pa pb = .ok (pa, pb) := by
  cases fuel <;> rw [skipApart, if_pos h]

/-- The inner loop moves two nodes back without passing a common ancestor. -/
lemma skipApart_spec : ∀ {pa pb : Node}, pa ≠ pb → T.depth pa = T.depth pb →
    T.depth pa ≤ fuel → ∃ a b, T.skipApart fuel pa pb = .ok (a, b) ∧ a ≠ b ∧
      T.depth a = T.depth b ∧ T.depth a ≤ T.depth pa ∧ T.IsAncestor a pa ∧ T.IsAncestor b pb ∧
      ∀ x, T.IsAncestor x pa → T.IsAncestor x pb → T.IsAncestor x a ∧ T.IsAncestor x b := by
  induction fuel with
  | zero =>
    intro pa pb hne hdepth hfuel
    have heq : T.pskip pa = T.pskip pb := by
      rw [T.pskip_of_depth_eq_zero (by omega), T.pskip_of_depth_eq_zero (by omega)]
    exact ⟨pa, pb, T.skipApart_of_eq 0 heq, hne, hdepth, le_rfl, .refl _ _, .refl _ _,
      fun x ha hb => ⟨ha, hb⟩⟩
  | succ fuel ih =>
    intro pa pb hne hdepth hfuel
    by_cases heq : T.pskip pa = T.pskip pb
    · exact ⟨pa, pb, T.skipApart_of_eq _ heq, hne, hdepth, le_rfl, .refl _ _, .refl _ _,
        fun x ha hb => ⟨ha, hb⟩⟩
    · have hpos : T.depth pa ≠ 0 := by
        intro hzero
        apply heq
        rw [T.pskip_of_depth_eq_zero hzero, T.pskip_of_depth_eq_zero (by omega)]
      obtain ⟨sa, hsa, hanca, hda⟩ := T.exists_pskip hpos
      obtain ⟨sb, hsb, hancb, hdb⟩ := T.exists_pskip (hdepth ▸ hpos)
      have hskips : T.depth sa = T.depth sb := by rw [hda, hdb, hdepth]
      have hlt := getSkipHeight_lt (Nat.pos_of_ne_zero hpos)
      have hnes : sa ≠ sb := fun h => heq (by rw [hsa, hsb, h])
      obtain ⟨a, b, hrun, hab, hdab, hle, haa, hbb, hcommon⟩ := ih hnes hskips (by omega)
      refine ⟨a, b, ?_, hab, hdab, by omega, haa.trans hanca, hbb.trans hancb,
        fun x hxa hxb => ?_⟩
      · rw [skipApart, if_neg heq, hsa, hsb]
        exact bind_eq_ok.2 ⟨(), ensure_eq_ok.2 hdepth,
          bind_eq_ok.2 ⟨(), ensure_eq_ok.2 hskips, hrun⟩⟩
      · -- A common ancestor past the skips would make them equal.
        have hbelow : T.depth x ≤ T.depth sa := by
          by_contra hdeep
          exact hnes ((hanca.of_depth_le hxa (by omega)).eq_of_depth
            (hancb.of_depth_le hxb (by omega)) hskips)
        exact hcommon x (hxa.of_depth_le hanca hbelow) (hxb.of_depth_le hancb (by omega))

lemma walkTogether_self (p : Option Node) : T.walkTogether fuel p p = .ok p := by
  cases fuel <;> simp [walkTogether]

/-- The outer loop, from nodes of equal height with a common ancestor. -/
lemma walkTogether_spec : ∀ {pa pb : Node}, T.depth pa = T.depth pb →
    T.depth pa ≤ fuel → (∃ x, T.IsAncestor x pa ∧ T.IsAncestor x pb) →
    ∃ f, T.walkTogether fuel (some pa) (some pb) = .ok (some f) ∧ T.IsAncestor f pa ∧
      T.IsAncestor f pb ∧
      ∀ x, T.IsAncestor x pa → T.IsAncestor x pb → T.IsAncestor x f := by
  induction fuel with
  | zero =>
    rintro pa pb hdepth hfuel ⟨x, hxa, hxb⟩
    have hxa_depth := hxa.depth_le
    have hx : x = pa := hxa.eq_of_depth (.refl _ _) (by omega)
    have hx' : x = pb := hxb.eq_of_depth (.refl _ _) (by omega)
    have heq : pa = pb := hx.symm.trans hx'
    exact ⟨pa, by rw [← heq, T.walkTogether_self], .refl _ _, heq ▸ .refl _ _, fun _ h _ => h⟩
  | succ fuel ih =>
    rintro pa pb hdepth hfuel ⟨x, hxa, hxb⟩
    by_cases heq : pa = pb
    · exact ⟨pa, by rw [← heq, T.walkTogether_self], .refl _ _, heq ▸ .refl _ _, fun _ h _ => h⟩
    · obtain ⟨a, b, hrun, hab, hdab, hle, haa, hbb, hcommon⟩ :=
        T.skipApart_spec _ heq hdepth le_rfl
      -- A common ancestor of two different nodes of equal height is a proper one.
      have hproper : ∀ y, T.IsAncestor y pa → T.IsAncestor y pb → ∃ qa qb,
          T.parent a = some qa ∧ T.parent b = some qb ∧ T.IsAncestor y qa ∧
            T.IsAncestor y qb := by
        intro y hya hyb
        obtain ⟨hya', hyb'⟩ := hcommon y hya hyb
        have hyne : y ≠ a := by
          rintro rfl
          exact hab (hyb'.eq_of_depth (.refl _ _) hdab)
        have hyne' : y ≠ b := by
          rintro rfl
          exact hab (hya'.eq_of_depth (.refl _ _) hdab.symm).symm
        obtain ⟨qa, hqa, hyqa⟩ := hya'.of_ne hyne
        obtain ⟨qb, hqb, hyqb⟩ := hyb'.of_ne hyne'
        exact ⟨qa, qb, hqa, hqb, hyqa, hyqb⟩
      obtain ⟨qa, qb, hqa, hqb, hxqa, hxqb⟩ := hproper x hxa hxb
      have hda := T.depth_child a qa hqa
      have hdb := T.depth_child b qb hqb
      obtain ⟨f, hf, hfa, hfb, hlast⟩ := ih (by omega) (by omega) ⟨x, hxqa, hxqb⟩
      refine ⟨f, ?_, hfa.trans ((Forest.isAncestor_of_parent hqa).trans haa),
        hfb.trans ((Forest.isAncestor_of_parent hqb).trans hbb), fun y hya hyb => ?_⟩
      · rw [walkTogether, if_neg fun h => heq (Option.some.inj h)]
        refine bind_eq_ok.2 ⟨(a, b), hrun, ?_⟩
        dsimp only
        rw [hqa, hqb]
        exact hf
      · obtain ⟨qa', qb', hqa', hqb', hyqa, hyqb⟩ := hproper y hya hyb
        rw [hqa, Option.some.injEq] at hqa'
        rw [hqb, Option.some.injEq] at hqb'
        exact hlast y (hqa' ▸ hyqa) (hqb' ▸ hyqb)

/-- The outer loop, from nodes of equal height without a common ancestor: the last pass leaves two
roots, and both pointers become null. -/
lemma walkTogether_eq_none : ∀ {pa pb : Node}, T.depth pa = T.depth pb →
    T.depth pa < fuel → (∀ x, T.IsAncestor x pa → ¬ T.IsAncestor x pb) →
    T.walkTogether fuel (some pa) (some pb) = .ok none := by
  induction fuel with
  | zero => exact fun _ h => absurd h (Nat.not_lt_zero _)
  | succ fuel ih =>
    intro pa pb hdepth hfuel happart
    have hne : pa ≠ pb := by
      rintro rfl
      exact happart pa (.refl _ _) (.refl _ _)
    obtain ⟨a, b, hrun, -, hdab, hle, haa, hbb, -⟩ := T.skipApart_spec _ hne hdepth le_rfl
    rw [walkTogether, if_neg fun h => hne (Option.some.inj h)]
    refine bind_eq_ok.2 ⟨(a, b), hrun, ?_⟩
    dsimp only
    cases hqa : T.parent a with
    | none =>
      have hroot := T.depth_root a hqa
      have hqb : T.parent b = none := by
        cases hqb : T.parent b with
        | none => rfl
        | some qb =>
          have := T.depth_child b qb hqb
          omega
      rw [hqb]
      exact T.walkTogether_self fuel none
    | some qa =>
      have hda := T.depth_child a qa hqa
      obtain ⟨qb, hqb, hdb⟩ := T.exists_parent (by omega : 0 < T.depth b)
      rw [hqb]
      refine ih (by omega) (by omega) fun x hxa hxb => ?_
      exact happart x (hxa.trans ((Forest.isAncestor_of_parent hqa).trans haa))
        (hxb.trans ((Forest.isAncestor_of_parent hqb).trans hbb))

omit [DecidableEq Node] in
lemma rewindTo_spec (p : Node) (height : ℕ) :
    ∃ r, T.rewindTo p height = .ok (some r) ∧ T.IsAncestor r p ∧
      T.depth r = min (T.depth p) height := by
  rw [rewindTo]
  by_cases hgt : T.depth p > height
  · obtain ⟨r, hr, hrun⟩ := T.getAncestor_eq_up p hgt.le
    have := T.depth_of_up hr
    exact ⟨r, by rw [if_pos hgt, hrun], Forest.isAncestor_of_up hr, by omega⟩
  · exact ⟨p, by rw [if_neg hgt], .refl _ _, by omega⟩

/-- **The last common ancestor** of two nodes that have a common one. -/
lemma lastCommonAncestor_spec {pa pb : Node}
    (h : ∃ x, T.IsAncestor x pa ∧ T.IsAncestor x pb) :
    ∃ f, T.lastCommonAncestor pa pb = .ok (some f) ∧ T.IsAncestor f pa ∧ T.IsAncestor f pb ∧
      ∀ x, T.IsAncestor x pa → T.IsAncestor x pb → T.IsAncestor x f := by
  obtain ⟨ra, hra, hanca, hda⟩ := T.rewindTo_spec pa (T.depth pb)
  obtain ⟨rb, hrb, hancb, hdb⟩ := T.rewindTo_spec pb (T.depth pa)
  -- Rewinding passes no common ancestor.
  have hdown : ∀ x, T.IsAncestor x pa → T.IsAncestor x pb →
      T.IsAncestor x ra ∧ T.IsAncestor x rb := by
    intro x hxa hxb
    have hlea := hxa.depth_le
    have hleb := hxb.depth_le
    exact ⟨hxa.of_depth_le hanca (by omega), hxb.of_depth_le hancb (by omega)⟩
  obtain ⟨x, hxa, hxb⟩ := h
  have hlevel : T.depth ra = T.depth rb := by omega
  obtain ⟨f, hf, hfa, hfb, hlast⟩ := T.walkTogether_spec (T.depth pa + 1) hlevel (by omega)
    ⟨x, hdown x hxa hxb⟩
  refine ⟨f, ?_, hfa.trans hanca, hfb.trans hancb, fun y hya hyb => ?_⟩
  · exact bind_eq_ok.2 ⟨_, hra, bind_eq_ok.2 ⟨_, hrb, hf⟩⟩
  · exact hlast y (hdown y hya hyb).1 (hdown y hya hyb).2

/-- **Nodes without a common ancestor** have no last one. -/
lemma lastCommonAncestor_eq_none {pa pb : Node}
    (h : ∀ x, T.IsAncestor x pa → ¬ T.IsAncestor x pb) :
    T.lastCommonAncestor pa pb = .ok none := by
  obtain ⟨ra, hra, hanca, hda⟩ := T.rewindTo_spec pa (T.depth pb)
  obtain ⟨rb, hrb, hancb, hdb⟩ := T.rewindTo_spec pb (T.depth pa)
  refine bind_eq_ok.2 ⟨_, hra, bind_eq_ok.2 ⟨_, hrb, ?_⟩⟩
  exact T.walkTogether_eq_none _ (by omega) (by omega) fun x hxa hxb =>
    h x (hxa.trans hanca) (hxb.trans hancb)

omit [DecidableEq Node] in
lemma exists_common_iff (pa pb : Node) :
    (∃ x, T.IsAncestor x pa ∧ T.IsAncestor x pb) ↔ T.atDepth pa 0 = T.atDepth pb 0 := by
  obtain ⟨ra, hra⟩ := T.exists_up (le_refl (T.depth pa))
  have hroota : T.atDepth pa 0 = some ra := by
    rw [Forest.atDepth, if_pos (Nat.zero_le _), Nat.sub_zero, hra]
  obtain ⟨hanca, hda⟩ := Forest.atDepth_eq_some_iff.1 hroota
  constructor
  · rintro ⟨x, hxa, hxb⟩
    -- The root lies above every common ancestor.
    have hrx : T.IsAncestor ra x := hanca.of_depth_le hxa (by omega)
    rw [hroota, Forest.atDepth_eq_some_iff.2 ⟨hrx.trans hxb, hda⟩]
  · intro heq
    rw [hroota] at heq
    exact ⟨ra, hanca, (Forest.atDepth_eq_some_iff.1 heq.symm).1⟩

/-- **Skip pointers find what parent links find.**  `GetAncestor` returns the node as many `pprev`
links up as the heights differ, and the null pointer outside the chain; `LastCommonAncestor` returns
the common ancestor of greatest height, and the null pointer for nodes with different roots.  Every
call returns: no assertion or assumption fails and no null pointer is followed. -/
theorem ancestors_by_skip (T : BlockTree Node) :
    (∀ (x : Node) (height : ℤ), 0 ≤ height → height ≤ T.depth x →
      ∃ y, T.up (T.depth x - height.toNat) x = some y ∧ T.getAncestor x height = .ok (some y)) ∧
    (∀ (x : Node) (height : ℤ), height < 0 ∨ T.depth x < height →
      T.getAncestor x height = .ok none) ∧
    (∀ pa pb : Node, T.atDepth pa 0 = T.atDepth pb 0 →
      ∃ f, T.lastCommonAncestor pa pb = .ok (some f) ∧ T.IsAncestor f pa ∧ T.IsAncestor f pb ∧
        ∀ x, T.IsAncestor x pa → T.IsAncestor x pb → T.depth x ≤ T.depth f) ∧
    (∀ pa pb : Node, T.atDepth pa 0 ≠ T.atDepth pb 0 → T.lastCommonAncestor pa pb = .ok none) := by
  refine ⟨fun x height hlow hhigh => ?_, fun x height hout => ?_, fun pa pb hroot => ?_,
    fun pa pb hroot => ?_⟩
  · obtain ⟨h, rfl⟩ := Int.eq_ofNat_of_zero_le hlow
    exact T.getAncestor_eq_up x (by omega)
  · rw [getAncestor, getAncestorFrom, if_pos hout.symm]
  · obtain ⟨f, hf, hfa, hfb, hlast⟩ :=
      T.lastCommonAncestor_spec ((T.exists_common_iff pa pb).2 hroot)
    exact ⟨f, hf, hfa, hfb, fun x hxa hxb => (hlast x hxa hxb).depth_le⟩
  · refine T.lastCommonAncestor_eq_none fun x hxa hxb => hroot ?_
    exact (T.exists_common_iff pa pb).1 ⟨x, hxa, hxb⟩

end BlockTree

/-- A root with two children, and a root of its own. -/
def forkedBlocks : BlockTree (Fin 4) where
  parent x := if x = 1 ∨ x = 2 then some 0 else none
  depth x := if x = 1 ∨ x = 2 then 1 else 0
  depth_root := by decide
  depth_child := by decide
  pskip x := if x = 1 ∨ x = 2 then some 0 else none
  skip_root := by decide
  skip_child := by decide

theorem BlockTree.ancestors_by_skip_forkedBlocks :
    forkedBlocks.getAncestor 1 0 = .ok (some 0) ∧ forkedBlocks.getAncestor 1 2 = .ok none ∧
      (∃ f, forkedBlocks.lastCommonAncestor 1 2 = .ok (some f) ∧ forkedBlocks.IsAncestor f 1) ∧
      forkedBlocks.lastCommonAncestor 1 3 = .ok none := by
  obtain ⟨hinside, houtside, hcommon, hnone⟩ := ancestors_by_skip forkedBlocks
  refine ⟨?_, houtside 1 2 (by decide), ?_, hnone 1 3 (by decide)⟩
  · obtain ⟨y, hy, hget⟩ := hinside 1 0 (by decide) (by decide)
    rw [hget, ← hy]
    rfl
  · obtain ⟨f, hf, hfa, -⟩ := hcommon 1 2 (by decide)
    exact ⟨f, hf, hfa⟩

end SlithyTove
