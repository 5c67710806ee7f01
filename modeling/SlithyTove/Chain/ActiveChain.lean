import SlithyTove.Chain.LastCommonAncestor

/-!
# `CChain`: a chain as a vector

`CChain` (`chain.h`, `chain.cpp`) keeps the blocks of one chain in a vector, by height.  `SetTip`
changes the tip: it resizes the vector and writes the new tip and its ancestors from the top, but
only until it meets an entry that is already right.  Below that point it relies on what was written
before.

What it relies on is `Coherent`: under every block of the vector stand its own ancestors.  Cutting
the vector keeps this, so the first entry that agrees with the new chain vouches for everything
below it (`setTipLoop_spec`), and after every call the vector is the chain of the new tip and
nothing else (`setTip_spec`).
-/

namespace SlithyTove

open Framework List

/-- `CChain`.  An entry may be the null pointer, as `resize` fills up with null pointers. -/
structure CChain (Node : Type) where
  vChain : List (Option Node) := []

namespace CChain

variable {Node : Type}

/-- `std::vector::resize`. -/
def resize (vChain : List (Option Node)) (size : ℕ) : List (Option Node) :=
  vChain.take size ++ List.replicate (size - vChain.length) none

/-- `Height()`. -/
def height (c : CChain Node) : ℤ := (c.vChain.length : ℤ) - 1

/-- `operator[]`. -/
def entry (c : CChain Node) (nHeight : ℤ) : Option Node :=
  if nHeight < 0 ∨ nHeight ≥ c.vChain.length then none else c.vChain[nHeight.toNat]?.join

variable (T : BlockTree Node)

/-- The start of `FindFork`: a block above the tip is taken back to the tip's height. -/
def rewind (c : CChain Node) (pindex : Node) : Except String (Option Node) :=
  if (T.depth pindex : ℤ) > c.height then T.getAncestor pindex c.height else .ok (some pindex)

section Operations

variable [DecidableEq Node]

/-- `Contains`. -/
def contains (c : CChain Node) (pindex : Node) : Bool := c.entry (T.depth pindex) = some pindex

/-- The loop of `SetTip`, for at most `fuel` blocks. -/
def setTipLoop : (fuel : ℕ) → List (Option Node) → Option Node →
    Except String (List (Option Node))
  | _, vChain, none => .ok vChain
  | 0, _, some _ => .error "out of fuel"
  | fuel + 1, vChain, some pindex =>
    match vChain[T.depth pindex]? with
    | none => .error "vChain: out of range"
    | some found =>
      if found = some pindex then .ok vChain
      else setTipLoop fuel (vChain.set (T.depth pindex) (some pindex)) (T.parent pindex)

/-- `SetTip`. -/
def setTip (c : CChain Node) (block : Node) : Except String (CChain Node) := do
  let vChain := resize c.vChain (T.depth block + 1)
  return { vChain := ← setTipLoop T (T.depth block + 1) vChain (some block) }

/-- The loop of `FindFork`, for at most `fuel` blocks. -/
def findForkLoop (c : CChain Node) : (fuel : ℕ) → Option Node → Except String (Option Node)
  | _, none => .ok none
  | 0, some _ => .error "out of fuel"
  | fuel + 1, some pindex =>
    if c.contains T pindex then .ok (some pindex) else findForkLoop c fuel (T.parent pindex)

/-- `FindFork`; `none` is `nullptr`. -/
def findFork (c : CChain Node) : Option Node → Except String (Option Node)
  | none => .ok none
  | some pindex => do
    let start ← c.rewind T pindex
    c.findForkLoop T (T.depth pindex + 1) start

end Operations

/-! ## The invariant of the vector -/

/-- Every block of the vector stands at its height, above its ancestors. -/
def Coherent (vChain : List (Option Node)) : Prop :=
  ∀ i x, vChain[i]? = some (some x) → T.depth x = i ∧ ∀ j ≤ i, vChain[j]? = some (T.atDepth x j)

/-- The vector is the chain of a tip. -/
structure IsChainOf (vChain : List (Option Node)) (tip : Node) : Prop where
  length_eq : vChain.length = T.depth tip + 1
  entry_eq : ∀ i ≤ T.depth tip, vChain[i]? = some (T.atDepth tip i)

variable {T} {vChain : List (Option Node)}

lemma getElem?_resize {size i : ℕ} {x : Node}
    (h : (resize vChain size)[i]? = some (some x)) : i < size ∧ vChain[i]? = some (some x) := by
  rw [resize, List.getElem?_append] at h
  split at h
  · next hi =>
    rw [length_take] at hi
    rw [List.getElem?_take_of_lt (by omega)] at h
    exact ⟨by omega, h⟩
  · rw [List.getElem?_replicate] at h
    split at h <;> simp at h

lemma length_resize (vChain : List (Option Node)) (size : ℕ) :
    (resize vChain size).length = size := by
  rw [resize, length_append, length_take, length_replicate]
  omega

lemma getElem?_resize_of_lt {size i : ℕ} (hi : i < size)
    (hlen : i < vChain.length) : (resize vChain size)[i]? = vChain[i]? := by
  rw [resize, List.getElem?_append_left (by rw [length_take]; omega),
    List.getElem?_take_of_lt hi]

lemma Coherent.resize (h : Coherent T vChain) (size : ℕ) : Coherent T (resize vChain size) := by
  intro i x hx
  obtain ⟨hi, hx⟩ := getElem?_resize hx
  obtain ⟨hdepth, hbelow⟩ := h i x hx
  refine ⟨hdepth, fun j hj => ?_⟩
  have hlen : i < vChain.length := (List.getElem?_eq_some_iff.1 hx).1
  rw [getElem?_resize_of_lt (by omega) (by omega), hbelow j hj]

lemma IsChainOf.coherent {tip : Node} (h : IsChainOf T vChain tip) : Coherent T vChain := by
  intro i x hx
  have hi : i ≤ T.depth tip := by
    have := (List.getElem?_eq_some_iff.1 hx).1
    have := h.length_eq
    omega
  rw [h.entry_eq i hi, Option.some.injEq] at hx
  obtain ⟨hanc, hdepth⟩ := Forest.atDepth_eq_some_iff.1 hx
  refine ⟨hdepth, fun j hj => ?_⟩
  rw [h.entry_eq j (by omega), Forest.atDepth_of_isAncestor hanc (by omega)]

variable [DecidableEq Node]

/-! ## `SetTip` -/

/-- **The loop of `SetTip` writes the chain of its block.**  The vector may already have been
overwritten above the block; up to the block's height it still is the coherent vector `before`. -/
lemma setTipLoop_spec {before : List (Option Node)} (hbefore : Coherent T before) (fuel : ℕ) :
    ∀ {vChain : List (Option Node)} {p : Node}, T.depth p < fuel → T.depth p < vChain.length →
      (∀ i ≤ T.depth p, vChain[i]? = before[i]?) →
      ∃ vChain', setTipLoop T fuel vChain (some p) = .ok vChain' ∧
        vChain'.length = vChain.length ∧
        (∀ i ≤ T.depth p, vChain'[i]? = some (T.atDepth p i)) ∧
        ∀ i, T.depth p < i → vChain'[i]? = vChain[i]? := by
  induction fuel with
  | zero => exact fun h => absurd h (Nat.not_lt_zero _)
  | succ fuel ih =>
    intro vChain p hfuel hlen hsame
    have hfound := List.getElem?_eq_getElem hlen
    by_cases hmeet : vChain[T.depth p] = some p
    · -- The entry is right already, and it vouches for everything below it.
      have hold : before[T.depth p]? = some (some p) := by
        rw [← hsame _ le_rfl, hfound, hmeet]
      refine ⟨vChain, ?_, rfl, fun i hi => ?_, fun _ _ => rfl⟩
      · rw [setTipLoop, hfound]
        exact if_pos hmeet
      · rw [hsame i hi, (hbefore _ p hold).2 i hi]
    · set written := vChain.set (T.depth p) (some p) with hwritten
      have hself : written[T.depth p]? = some (some p) := by
        rw [hwritten, List.getElem?_set_self hlen]
      have hother : ∀ i, i ≠ T.depth p → written[i]? = vChain[i]? := fun i hi =>
        List.getElem?_set_ne (Ne.symm hi)
      have hstep : setTipLoop T (fuel + 1) vChain (some p) =
          setTipLoop T fuel written (T.parent p) := by
        rw [setTipLoop, hfound]
        exact if_neg hmeet
      rw [hstep]
      cases hp : T.parent p with
      | none =>
        have hroot := T.depth_root p hp
        refine ⟨written, by cases fuel <;> rfl, length_set, fun i hi => ?_, fun i hi => ?_⟩
        · obtain rfl : i = T.depth p := by omega
          rw [hself, Forest.atDepth_self]
        · exact hother i (by omega)
      | some q =>
        have hdepth := T.depth_child p q hp
        have hstill : ∀ i ≤ T.depth q, written[i]? = before[i]? := fun i hi => by
          rw [hother i (by omega), hsame i (by omega)]
        obtain ⟨vChain', hrun, hlen', hbelow, habove⟩ := ih (by omega : T.depth q < fuel)
          (by rw [hwritten, length_set]; omega) hstill
        refine ⟨vChain', hrun, by rw [hlen', hwritten, length_set], fun i hi => ?_,
          fun i hi => ?_⟩
        · rcases Nat.lt_or_ge (T.depth q) i with hi' | hi'
          · obtain rfl : i = T.depth p := by omega
            rw [habove _ hi', hself, Forest.atDepth_self]
          · rw [hbelow i hi', Forest.atDepth_of_parent hp hi']
        · rw [habove i (by omega), hother i (by omega)]

variable {c : CChain Node}

/-- **After `SetTip` the vector is the chain of the new tip.** -/
lemma setTip_spec (h : Coherent T c.vChain) (block : Node) :
    ∃ c', c.setTip T block = .ok c' ∧ IsChainOf T c'.vChain block := by
  have hlen := length_resize c.vChain (T.depth block + 1)
  obtain ⟨vChain', hrun, hlen', hbelow, -⟩ := setTipLoop_spec (h.resize _) (T.depth block + 1)
    (Nat.lt_succ_self _) (by rw [hlen]; exact Nat.lt_succ_self _) (fun _ _ => rfl)
  refine ⟨⟨vChain'⟩, ?_, by rw [hlen', hlen], hbelow⟩
  rw [setTip, hrun]
  rfl

lemma foldlM_setTip (tips : List Node) (tip : Node) (h : Coherent T c.vChain) :
    ∃ c', (tips ++ [tip]).foldlM (setTip T) c = .ok c' ∧ IsChainOf T c'.vChain tip := by
  induction tips generalizing c with
  | nil =>
    obtain ⟨c', hrun, hchain⟩ := setTip_spec h tip
    exact ⟨c', bind_eq_ok.2 ⟨c', hrun, rfl⟩, hchain⟩
  | cons first tips ih =>
    obtain ⟨c₁, hrun, hchain⟩ := setTip_spec h first
    obtain ⟨c', hrest, hchain'⟩ := ih hchain.coherent
    exact ⟨c', bind_eq_ok.2 ⟨c₁, hrun, hrest⟩, hchain'⟩

/-! ## `Contains` and `FindFork` -/

namespace IsChainOf

variable {c : CChain Node} {tip : Node} (h : IsChainOf T c.vChain tip)

include h

omit [DecidableEq Node] in
lemma height_eq : c.height = T.depth tip := by
  rw [height, h.length_eq]
  omega

omit [DecidableEq Node] in
lemma entry_eq_atDepth (i : ℕ) : c.entry i = T.atDepth tip i := by
  rw [entry, h.length_eq]
  by_cases hi : i ≤ T.depth tip
  · rw [if_neg (by omega), Int.toNat_natCast, h.entry_eq i hi]
    rfl
  · rw [if_pos (by omega), Forest.atDepth, if_neg hi]

variable (x : Node)

lemma contains_iff : c.contains T x = true ↔ T.IsAncestor x tip := by
  rw [contains, decide_eq_true_iff, h.entry_eq_atDepth, Forest.atDepth_eq_some_iff]
  exact and_iff_left rfl

lemma findForkLoop_spec (fuel : ℕ) : ∀ {x : Node}, T.depth x < fuel →
    (∃ f, c.findForkLoop T fuel (some x) = .ok (some f) ∧ T.IsAncestor f x ∧ T.IsAncestor f tip ∧
      ∀ y, T.IsAncestor y x → T.IsAncestor y tip → T.IsAncestor y f) ∨
    (c.findForkLoop T fuel (some x) = .ok none ∧ ∀ y, T.IsAncestor y x → ¬ T.IsAncestor y tip) := by
  induction fuel with
  | zero => exact fun h => absurd h (Nat.not_lt_zero _)
  | succ fuel ih =>
    intro x hfuel
    rw [findForkLoop]
    by_cases hin : T.IsAncestor x tip
    · left
      exact ⟨x, if_pos ((h.contains_iff x).2 hin), .refl _ _, hin, fun y hy _ => hy⟩
    · rw [if_neg fun hc => hin ((h.contains_iff x).1 hc)]
      -- Only a proper ancestor can be in the chain.
      have hproper : ∀ y, T.IsAncestor y x → T.IsAncestor y tip →
          ∃ p, T.parent x = some p ∧ T.IsAncestor y p := fun y hyx hyt =>
        hyx.of_ne fun heq => hin (heq ▸ hyt)
      cases hp : T.parent x with
      | none =>
        refine .inr ⟨by cases fuel <;> rfl, fun y hyx hyt => ?_⟩
        obtain ⟨p, hp', -⟩ := hproper y hyx hyt
        rw [hp] at hp'
        cases hp'
      | some p =>
        have hdepth := T.depth_child x p hp
        have hpx := Forest.isAncestor_of_parent hp
        have hup : ∀ y, T.IsAncestor y x → T.IsAncestor y tip → T.IsAncestor y p := by
          intro y hyx hyt
          obtain ⟨p', hp', hyp⟩ := hproper y hyx hyt
          rw [hp, Option.some.injEq] at hp'
          exact hp' ▸ hyp
        rcases ih (x := p) (by omega) with ⟨f, hrun, hfp, hft, hlast⟩ | ⟨hrun, hnone⟩
        · exact .inl ⟨f, hrun, hfp.trans hpx, hft, fun y hyx hyt => hlast y (hup y hyx hyt) hyt⟩
        · exact .inr ⟨hrun, fun y hyx hyt => hnone y (hup y hyx hyt) hyt⟩

omit [DecidableEq Node] in
lemma rewind_spec : ∃ r, c.rewind T x = .ok (some r) ∧ T.IsAncestor r x ∧
    ∀ y, T.IsAncestor y x → T.IsAncestor y tip → T.IsAncestor y r := by
  rw [rewind, h.height_eq]
  by_cases hgt : (T.depth x : ℤ) > T.depth tip
  · rw [if_pos hgt]
    obtain ⟨r, hr, hrun⟩ := T.getAncestor_eq_up x (h := T.depth tip) (by omega)
    have hdepth := T.depth_of_up hr
    refine ⟨r, hrun, Forest.isAncestor_of_up hr, fun y hyx hyt => ?_⟩
    exact hyx.of_depth_le (Forest.isAncestor_of_up hr) (by have := hyt.depth_le; omega)
  · exact ⟨x, if_neg hgt, .refl _ _, fun y hy _ => hy⟩

/-- **`FindFork` returns the highest common block.** -/
lemma findFork_spec :
    (∃ f, c.findFork T (some x) = .ok (some f) ∧ T.IsAncestor f x ∧ T.IsAncestor f tip ∧
      ∀ y, T.IsAncestor y x → T.IsAncestor y tip → T.depth y ≤ T.depth f) ∨
    (c.findFork T (some x) = .ok none ∧ ∀ y, T.IsAncestor y x → ¬ T.IsAncestor y tip) := by
  obtain ⟨r, hrewind, hrx, hpass⟩ := h.rewind_spec x
  have hle := hrx.depth_le
  rcases h.findForkLoop_spec (T.depth x + 1) (x := r) (by omega) with
    ⟨f, hrun, hfr, hft, hlast⟩ | ⟨hrun, hnone⟩
  · exact .inl ⟨f, bind_eq_ok.2 ⟨_, hrewind, hrun⟩, hfr.trans hrx, hft,
      fun y hyx hyt => (hlast y (hpass y hyx hyt) hyt).depth_le⟩
  · exact .inr ⟨bind_eq_ok.2 ⟨_, hrewind, hrun⟩, fun y hyx hyt => hnone y (hpass y hyx hyt) hyt⟩

end IsChainOf

/-- **The vector is the chain of the last tip**, after every sequence of `SetTip` calls: it holds
the ancestors of that tip by height and nothing else, `Contains` is membership among them, and
`FindFork` returns the highest common ancestor of its argument and the tip, or the null pointer
where there is none. -/
theorem setTip_chain (T : BlockTree Node) (tips : List Node) (tip : Node) :
    ∃ c : CChain Node, (tips ++ [tip]).foldlM (setTip T) {} = .ok c ∧
      c.vChain = (List.range (T.depth tip + 1)).map (T.atDepth tip) ∧
      (∀ x, c.contains T x = true ↔ T.IsAncestor x tip) ∧
      ∀ x, (∃ f, c.findFork T (some x) = .ok (some f) ∧ T.IsAncestor f x ∧ T.IsAncestor f tip ∧
          ∀ y, T.IsAncestor y x → T.IsAncestor y tip → T.depth y ≤ T.depth f) ∨
        (c.findFork T (some x) = .ok none ∧ ∀ y, T.IsAncestor y x → ¬ T.IsAncestor y tip) := by
  have hempty : Coherent T ({} : CChain Node).vChain := by
    intro i x hx
    simp at hx
  obtain ⟨c, hrun, hchain⟩ := foldlM_setTip tips tip hempty
  refine ⟨c, hrun, ?_, hchain.contains_iff, hchain.findFork_spec⟩
  apply ext_getElem?
  intro i
  by_cases hi : i < T.depth tip + 1
  · rw [hchain.entry_eq i (by omega), List.getElem?_map, List.getElem?_range hi]
    rfl
  · rw [List.getElem?_eq_none (by rw [hchain.length_eq]; omega),
      List.getElem?_eq_none (by rw [length_map, length_range]; omega)]

/-- A switch to the other branch and back to the root leaves the root alone. -/
example : [1, 2, 0].foldlM (setTip forkedBlocks) {} = .ok { vChain := [some 0] } := rfl

end CChain

end SlithyTove
