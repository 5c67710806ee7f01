import SlithyTove.Cluster.DepGraph
import SlithyTove.Primitives.Diagram

/-!
# Chunks of a linearization

`ChunkLinearizationInfo` and `ChunkLinearization` (`cluster_linearize.h`) go through a linearization
and keep the chunks so far.  A transaction starts as a chunk of its own, and as long as the new
chunk has a higher fee rate than the last one it absorbs it.

The chunks are groups of the linearization, and what is kept of them is a hull: absorbing a chunk
merges two neighbours of which the second is steeper (`Below.append`), and when it ends the new
chunk is not steeper than the one before.  So the diagram of the chunks is the least concave
function on or above all the points of the linearization.

The fees and sizes of a chunk are added up in 64 and 32 bits.  A sum that does not fit is undefined
in the source, and there is no result here (`chunkLinearization_overflow`).
-/

namespace SlithyTove

open Framework List FeeFrac

section Model

variable (g : DepGraph)

/-- A new chunk absorbs the last chunks.  The chunks so far are kept with the last one first. -/
def absorbInfo (newChunk : SetInfo) : List SetInfo → Option (List SetInfo)
  | [] => some [newChunk]
  | back :: ret =>
    if newChunk.feerate.higher back.feerate then do
      let newChunk ← newChunk.union back
      absorbInfo newChunk ret
    else some (newChunk :: back :: ret)

/-- The loop of `ChunkLinearizationInfo`. -/
def chunkInfoLoop : (linearization : List ℕ) → List SetInfo → Option (List SetInfo)
  | [], ret => some ret
  | i :: linearization, ret => do
    let ret ← absorbInfo (.single g i) ret
    chunkInfoLoop linearization ret

/-- `ChunkLinearizationInfo`. -/
def chunkLinearizationInfo (linearization : List ℕ) : Option (List SetInfo) :=
  List.reverse <$> chunkInfoLoop g linearization []

/-- A new chunk absorbs the last chunks, which are kept with the last one first. -/
def absorb (newChunk : FeeFrac) : List FeeFrac → Option (List FeeFrac)
  | [] => some [newChunk]
  | back :: ret =>
    if newChunk.higher back then do
      let newChunk ← (newChunk + back).checkedValue
      absorb newChunk ret
    else some (newChunk :: back :: ret)

/-- The loop of `ChunkLinearization`. -/
def chunkLoop : (linearization : List ℕ) → List FeeFrac → Option (List FeeFrac)
  | [], ret => some ret
  | i :: linearization, ret => do
    let ret ← absorb (g.feeRate i) ret
    chunkLoop linearization ret

/-- `ChunkLinearization`. -/
def chunkLinearization (linearization : List ℕ) : Option (List FeeFrac) :=
  List.reverse <$> chunkLoop g linearization []

end Model

/-! ## Groups of the linearization -/

section Groups

variable (g : DepGraph)

/-- Consecutive transactions as a chunk. -/
def groupInfo (group : List ℕ) : SetInfo := ⟨group.toFinset, g.sum group⟩

/-- Consecutive transactions as pieces of a diagram. -/
def groupPieces (group : List ℕ) : List (Piece ℝ) := (group.map g.feeRate).map FeeFrac.piece

lemma groupPieces_flatten (groups : List (List ℕ)) :
    (groups.map (groupPieces g)).flatten = groupPieces g groups.flatten := by
  simp only [groupPieces, map_flatten, map_map]
  rfl

lemma merge_groupPieces (group : List ℕ) :
    merge (groupPieces g group) = (groupInfo g group).feerate.piece :=
  merge_map_piece _

/-- Chunks so far, with the last one first. -/
structure Chunked (groups : List (List ℕ)) : Prop where
  subset : ∀ group ∈ groups, ∀ i ∈ group, i ∈ g.positions
  ne_nil : ∀ group ∈ groups, group ≠ []
  below : ∀ group ∈ groups, Below (groupPieces g group)
  sorted : groups.Pairwise fun later earlier =>
    (merge (groupPieces g later)).slope ≤ (merge (groupPieces g earlier)).slope

variable {g} {group order : List ℕ}

lemma rightward_groupPieces (h : ∀ i ∈ group, i ∈ g.positions) : Rightward (groupPieces g group) :=
  rightward_map_piece.mpr (forall_mem_map.mpr fun i hi => g.size_pos i (h i hi))

lemma sum_size_pos (h : ∀ i ∈ group, i ∈ g.positions) (hne : group ≠ []) :
    0 < (groupInfo g group).feerate.size := by
  obtain ⟨i, rest, rfl⟩ := exists_cons_of_ne_nil hne
  obtain ⟨hi, hrest⟩ := forall_mem_cons.mp h
  have hsum : 0 ≤ ((rest.map g.feeRate).sum).size :=
    sum_size_nonneg (forall_mem_map.mpr fun j hj => g.size_pos j (hrest j hj))
  simp only [groupInfo, DepGraph.sum, map_cons, sum_cons, add_size]
  have := g.size_pos i hi
  omega

lemma totalWidth_groupPieces_pos (h : ∀ i ∈ group, i ∈ g.positions)
    (hne : group ≠ []) : 0 < totalWidth (groupPieces g group) := by
  rw [groupPieces, totalWidth_map_piece]
  exact_mod_cast sum_size_pos h hne

lemma union_groupInfo {back : List ℕ} (h : (back ++ group).Nodup) :
    (groupInfo g group).union (groupInfo g back) =
      if (g.sum (back ++ group)).Representable then some (groupInfo g (back ++ group))
        else none := by
  have hdisjoint :
      Disjoint (groupInfo g group).transactions (groupInfo g back).transactions := by
    rw [groupInfo, groupInfo, disjoint_toFinset_iff_disjoint]
    exact (disjoint_of_nodup_append h).symm
  have hsum : (groupInfo g group).feerate + (groupInfo g back).feerate = g.sum (back ++ group) := by
    rw [DepGraph.sum_append, add_comm]
    rfl
  rw [SetInfo.union, if_pos hdisjoint, hsum, checkedValue_eq, groupInfo, groupInfo, groupInfo,
    toFinset_append, Finset.union_comm]
  split <;> rfl

/-! ## Fee rates only -/

lemma absorb_eq : ∀ {groups : List (List ℕ)} {group : List ℕ},
    (groups.reverse.flatten ++ group).Nodup →
    absorb (g.sum group) (groups.map g.sum) =
      (absorbInfo (groupInfo g group) (groups.map (groupInfo g))).map (map SetInfo.feerate)
  | [], _, _ => rfl
  | back :: groups, group, hnodup => by
    have hflatten : (back :: groups).reverse.flatten ++ group =
        groups.reverse.flatten ++ (back ++ group) := by simp
    have hsum : g.sum group + g.sum back = g.sum (back ++ group) := by
      rw [DepGraph.sum_append, add_comm]
    rw [hflatten] at hnodup
    rw [map_cons, map_cons, absorb, absorbInfo, union_groupInfo (nodup_append.mp hnodup).2.1, hsum,
      checkedValue_eq]
    change _ = (if (g.sum group).higher (g.sum back) = true then _ else _ : Option _).map _
    by_cases hhigher : (g.sum group).higher (g.sum back) = true
    · rw [if_pos hhigher, if_pos hhigher]
      split
      · exact absorb_eq hnodup
      · rfl
    · rw [if_neg hhigher, if_neg hhigher]
      simp [groupInfo, Function.comp_def]

/-! ## The loop -/

/-- The chunks as they should be, or no chunks if some consecutive transactions of the order have a
sum that does not fit. -/
def Forms {α : Type} (g : DepGraph) (order : List ℕ) (result : Option α) (chunks : α) : Prop :=
  result = some chunks ∨ result = none ∧ ∃ segment, segment <:+: order ∧
    ¬ (g.sum segment).Representable

namespace Forms

lemma reverse {α : Type} {result : Option (List α)} {chunks : List α}
    (h : Forms g order result chunks) : Forms g order (List.reverse <$> result) chunks.reverse := by
  obtain rfl | ⟨rfl, hsegment⟩ := h
  · exact .inl rfl
  · exact .inr ⟨rfl, hsegment⟩

variable {α : Type} {result : Option α} {chunks : α} (h : Forms g order result chunks)
include h

lemma eq (chunks' : α) (hresult : result = some chunks') : chunks' = chunks := by
  obtain h | ⟨h, -⟩ := h
  · exact Option.some.inj (hresult.symm.trans h)
  · cases hresult.symm.trans h

lemma isSome (hsums : ∀ segment, segment <:+: order → (g.sum segment).Representable) :
    result.isSome := by
  obtain rfl | ⟨-, segment, hsegment, hsum⟩ := h
  · rfl
  · exact absurd (hsums segment hsegment) hsum

end Forms

/-- **A new chunk absorbs what is less steep**, and the chunks are a hull again. -/
lemma absorbInfo_chunked : ∀ {groups : List (List ℕ)} {group : List ℕ}, Chunked g groups →
    (∀ i ∈ group, i ∈ g.positions) → group ≠ [] → Below (groupPieces g group) →
    (groups.reverse.flatten ++ group).Nodup → groups.reverse.flatten ++ group <+: order →
    ∃ groups', Forms g order (absorbInfo (groupInfo g group) (groups.map (groupInfo g)))
        (groups'.map (groupInfo g)) ∧
      groups'.reverse.flatten = groups.reverse.flatten ++ group ∧ Chunked g groups'
  | [], group, _, hsubset, hne, hbelow, _, _ =>
    ⟨[group], .inl rfl, by simp, by simpa using hsubset, by simpa using hne, by simpa using hbelow,
      pairwise_singleton _ _⟩
  | back :: groups, group, hchunked, hsubset, hne, hbelow, hnodup, horder => by
    obtain ⟨hbackSubset, hsubsets⟩ := forall_mem_cons.mp hchunked.subset
    obtain ⟨hbackNe, hnes⟩ := forall_mem_cons.mp hchunked.ne_nil
    obtain ⟨hbackBelow, hbelows⟩ := forall_mem_cons.mp hchunked.below
    obtain ⟨hbackSorted, hsorted⟩ := pairwise_cons.mp hchunked.sorted
    have hflatten : (back :: groups).reverse.flatten ++ group =
        groups.reverse.flatten ++ (back ++ group) := by simp
    have hhigher := higher_iff_slope (sum_size_pos hsubset hne)
      (sum_size_pos hbackSubset hbackNe)
    rw [← merge_groupPieces, ← merge_groupPieces] at hhigher
    rw [hflatten] at hnodup horder ⊢
    rw [map_cons, absorbInfo]
    split
    next hsteeper =>
      -- the last chunk is less steep
      have hpieces : groupPieces g (back ++ group) = groupPieces g back ++ groupPieces g group := by
        simp [groupPieces]
      have hmerged : Below (groupPieces g (back ++ group)) := by
        rw [hpieces]
        exact hbackBelow.append hbelow (rightward_groupPieces hbackSubset)
          (rightward_groupPieces hsubset) (totalWidth_groupPieces_pos hbackSubset hbackNe)
          (totalWidth_groupPieces_pos hsubset hne) (hhigher.mp hsteeper).le
      obtain ⟨groups', hforms, hrest⟩ := absorbInfo_chunked ⟨hsubsets, hnes, hbelows, hsorted⟩
        (forall_mem_append.mpr ⟨hbackSubset, hsubset⟩) (by simp [hne]) hmerged hnodup horder
      refine ⟨groups', ?_, hrest⟩
      rw [union_groupInfo (nodup_append.mp hnodup).2.1]
      by_cases hsum : (g.sum (back ++ group)).Representable
      · rw [if_pos hsum]
        exact hforms
      · rw [if_neg hsum]
        exact .inr ⟨rfl, _, (suffix_append _ _).isInfix.trans horder.isInfix, hsum⟩
    next hnot =>
      have hle := not_lt.mp (mt hhigher.mpr hnot)
      refine ⟨group :: back :: groups, .inl rfl, by simp,
        forall_mem_cons.mpr ⟨hsubset, hchunked.subset⟩,
        forall_mem_cons.mpr ⟨hne, hchunked.ne_nil⟩,
        forall_mem_cons.mpr ⟨hbelow, hchunked.below⟩,
        pairwise_cons.mpr ⟨forall_mem_cons.mpr ⟨hle, fun earlier hearlier => ?_⟩,
          hchunked.sorted⟩⟩
      exact hle.trans (hbackSorted earlier hearlier)

lemma chunkInfoLoop_chunked : ∀ {linearization : List ℕ} {groups : List (List ℕ)},
    Chunked g groups → (∀ i ∈ linearization, i ∈ g.positions) →
    (groups.reverse.flatten ++ linearization).Nodup →
    groups.reverse.flatten ++ linearization <+: order →
    ∃ groups', Forms g order (chunkInfoLoop g linearization (groups.map (groupInfo g)))
        (groups'.map (groupInfo g)) ∧
      Forms g order (chunkLoop g linearization (groups.map g.sum)) (groups'.map g.sum) ∧
      groups'.reverse.flatten = groups.reverse.flatten ++ linearization ∧ Chunked g groups'
  | [], groups, hchunked, _, _, _ => ⟨groups, .inl rfl, .inl rfl, by simp, hchunked⟩
  | i :: linearization, groups, hchunked, hsubset, hnodup, horder => by
    obtain ⟨hi, hrest⟩ := forall_mem_cons.mp hsubset
    rw [append_cons] at hnodup horder
    have hfeeRate : g.feeRate i = g.sum [i] := by simp [DepGraph.sum]
    have hsingle : SetInfo.single g i = groupInfo g [i] := by
      simp [SetInfo.single, groupInfo, DepGraph.sum]
    obtain ⟨groups₁, habsorb, hflatten₁, hchunked₁⟩ := absorbInfo_chunked hchunked
      (forall_mem_singleton.mpr hi) (cons_ne_nil i [])
      (below_singleton (by simpa [FeeFrac.piece] using g.size_pos i hi))
      (nodup_append.mp hnodup).1 ((prefix_append _ _).trans horder)
    have habsorbSum := absorb_eq (g := g) (nodup_append.mp hnodup).1
    rw [← hflatten₁] at hnodup horder
    obtain ⟨groups₂, hinfo, hloop, hflatten₂, hchunked₂⟩ :=
      chunkInfoLoop_chunked hchunked₁ hrest hnodup horder
    refine ⟨groups₂, ?_, ?_, by rw [hflatten₂, hflatten₁, ← append_cons], hchunked₂⟩
    · rw [chunkInfoLoop, hsingle]
      obtain habsorb | ⟨habsorb, hsegment⟩ := habsorb
      · rw [habsorb]
        exact hinfo
      · rw [habsorb]
        exact .inr ⟨rfl, hsegment⟩
    · rw [chunkLoop, hfeeRate, habsorbSum]
      obtain habsorb | ⟨habsorb, hsegment⟩ := habsorb
      · rw [habsorb, Option.map_some, map_map]
        exact hloop
      · rw [habsorb]
        exact .inr ⟨rfl, hsegment⟩

lemma Chunked.isHull {groups : List (List ℕ)} (h : Chunked g groups) :
    IsHull (groups.reverse.map (groupPieces g)) := by
  have hmem : ∀ p ∈ groups.reverse.map (groupPieces g),
      ∃ group ∈ groups, groupPieces g group = p := fun p hp => by simpa using hp
  refine ⟨fun p hp => ?_, fun p hp => ?_, fun p hp => ?_, ?_⟩
  · obtain ⟨group, hgroup, rfl⟩ := hmem p hp
    exact rightward_groupPieces (h.subset group hgroup)
  · obtain ⟨group, hgroup, rfl⟩ := hmem p hp
    exact totalWidth_groupPieces_pos (h.subset group hgroup) (h.ne_nil group hgroup)
  · obtain ⟨group, hgroup, rfl⟩ := hmem p hp
    exact h.below group hgroup
  · rw [map_map, pairwise_map, pairwise_reverse]
    exact h.sorted

end Groups

/-- **The chunks of a linearization are its concave hull.**  For any order of the transactions both
functions give the same fee rates or, where a sum does not fit, nothing; they do give them if the
sums of consecutive transactions fit.  The chunks are consecutive transactions of the order with
their fees and sizes, the fee rates do not increase, and the diagram is the least concave function,
up to the size of all transactions, that is on or above the points of the order. -/
theorem chunkLinearization_hull (g : DepGraph) (linearization : List ℕ)
    (hnodup : linearization.Nodup) (hpositions : linearization.toFinset = g.positions) :
    ∃ groups : List (List ℕ), groups.flatten = linearization ∧ (∀ group ∈ groups, group ≠ []) ∧
      (∀ chunks, chunkLinearizationInfo g linearization = some chunks →
        chunks = groups.map fun group => ⟨group.toFinset, g.sum group⟩) ∧
      (∀ chunks, chunkLinearization g linearization = some chunks → chunks = groups.map g.sum) ∧
      ((∀ segment, segment <:+: linearization → (g.sum segment).Representable) →
        (chunkLinearizationInfo g linearization).isSome ∧
        (chunkLinearization g linearization).isSome) ∧
      (groups.map g.sum).Pairwise (fun a b => b.higher a = false) ∧
      (groups.map g.sum).sum = g.sum linearization ∧
      ConcaveOn ℝ (Set.Icc 0 ((g.sum linearization).size : ℝ)) (diagram (groups.map g.sum)) ∧
      (∀ done ∈ linearization.inits, ((g.sum done).fee : ℝ) ≤
        diagram (groups.map g.sum) (g.sum done).size) ∧
      ∀ f : ℝ → ℝ, ConcaveOn ℝ (Set.Icc 0 ((g.sum linearization).size : ℝ)) f →
        (∀ done ∈ linearization.inits, ((g.sum done).fee : ℝ) ≤ f (g.sum done).size) →
        ∀ x ∈ Set.Icc 0 ((g.sum linearization).size : ℝ), diagram (groups.map g.sum) x ≤ f x := by
  have hsubset : ∀ i ∈ linearization, i ∈ g.positions := fun i hi => by
    rw [← hpositions]
    exact mem_toFinset.mpr hi
  obtain ⟨groups, hinfo, hloop, hflatten, hchunked⟩ :=
    @chunkInfoLoop_chunked g linearization linearization []
      ⟨by simp, by simp, by simp, List.Pairwise.nil⟩ hsubset (by simpa using hnodup) prefix_rfl
  have hgroups : groups.reverse.flatten = linearization := by simpa using hflatten
  have hinfo' : Forms g linearization (chunkLinearizationInfo g linearization)
      (groups.reverse.map (groupInfo g)) := by
    rw [map_reverse]
    exact hinfo.reverse
  have hchunks : Forms g linearization (chunkLinearization g linearization)
      (groups.reverse.map g.sum) := by
    rw [map_reverse]
    exact hloop.reverse
  have hhull := hchunked.isHull
  have hpieces : (groups.reverse.map (groupPieces g)).flatten = groupPieces g linearization := by
    rw [← hgroups, groupPieces_flatten]
  have hdiagram : diagram (groups.reverse.map g.sum) =
      polyline ((groups.reverse.map (groupPieces g)).map merge) := by
    rw [diagram, map_map, map_map]
    congr 1
    exact map_congr_left fun group _ => (merge_groupPieces g group).symm
  have hwidth : totalWidth (groups.reverse.map (groupPieces g)).flatten =
      ((g.sum linearization).size : ℝ) := by
    rw [hpieces, groupPieces, totalWidth_map_piece]
    rfl
  refine ⟨groups.reverse, hgroups,
    fun group hgroup => hchunked.ne_nil group (by simpa using hgroup),
    hinfo'.eq, hchunks.eq, fun hsums => ⟨hinfo'.isSome hsums, hchunks.isSome hsums⟩, ?_,
    by rw [DepGraph.sum_flatten, hgroups], ?_, ?_, ?_⟩
  · rw [pairwise_map, pairwise_reverse]
    refine hchunked.sorted.imp_of_mem fun {later earlier} hlater hearlier hle => ?_
    rw [merge_groupPieces, merge_groupPieces] at hle
    have hhigher := higher_iff_slope
      (sum_size_pos (hchunked.subset later hlater) (hchunked.ne_nil later hlater))
      (sum_size_pos (hchunked.subset earlier hearlier) (hchunked.ne_nil earlier hearlier))
    exact Bool.eq_false_iff.mpr (mt hhigher.mp hle.not_gt)
  · rw [hdiagram, ← hwidth]
    exact hhull.concaveOn
  · intro done hdone
    obtain ⟨rest, hrest⟩ := (mem_inits _ _).mp hdone
    have hle := hhull.le (a := groupPieces g done) (b := groupPieces g rest)
      (by rw [hpieces, ← hrest]; simp [groupPieces])
    rw [groupPieces, totalWidth_map_piece, totalHeight_map_piece] at hle
    rw [hdiagram]
    exact hle
  · intro f hconcave hends x hx
    rw [← hwidth] at hconcave hx
    rw [hdiagram]
    refine hhull.least hconcave (fun a b hab => ?_) hx
    rw [hpieces, groupPieces, map_map] at hab
    obtain ⟨done, rest, hsplit, rfl, -⟩ := map_eq_append_iff.mp hab
    have hle := hends done ((mem_inits _ _).mpr ⟨rest, hsplit.symm⟩)
    rwa [← map_map, totalWidth_map_piece, totalHeight_map_piece]

/-- Transactions without dependencies. -/
def independentTxs (n : ℕ) (feeRate : ℕ → FeeFrac)
    (h : ∀ i ∈ Finset.range n, 0 < (feeRate i).size) :
    DepGraph where
  positions := .range n
  feeRate
  ancestors i := {i}
  descendants i := {i}
  size_pos := h
  ancestors_subset _ := Finset.singleton_subset_iff.mpr
  mem_ancestors_self _ _ := Finset.mem_singleton_self _
  ancestors_trans i _ j hj := by rw [Finset.mem_singleton.mp hj]
  descendants_subset _ := Finset.singleton_subset_iff.mpr
  mem_descendants i _ j _ := by simp only [Finset.mem_singleton, eq_comm]

/-- Three transactions of fee rates 1/2, 5 and 3. -/
def threeTxs : DepGraph := independentTxs 3 (fun i => [⟨1, 2⟩, ⟨5, 1⟩, ⟨3, 1⟩].getD i 0) (by decide)

/-- All three are one chunk. -/
theorem chunkLinearization_hull_threeTxs : ∃ groups : List (List ℕ),
    groups.flatten = [0, 1, 2] ∧
    chunkLinearization threeTxs [0, 1, 2] = some (groups.map threeTxs.sum) ∧
    (groups.map threeTxs.sum).Pairwise (fun a b => b.higher a = false) ∧
    groups.map threeTxs.sum = [⟨9, 4⟩] := by
  obtain ⟨groups, hflatten, -, -, heq, hsome, hsorted, -⟩ :=
    chunkLinearization_hull threeTxs [0, 1, 2] (by decide) (by decide)
  have hresult : chunkLinearization threeTxs [0, 1, 2] = some [⟨9, 4⟩] := by decide
  have hchunks := heq _ hresult
  exact ⟨groups, hflatten, hchunks ▸ hresult, hsorted, hchunks.symm⟩

/-- **The size of a chunk can overflow**: a transaction of the largest size with a lower fee rate
than the one after it. -/
theorem chunkLinearization_overflow :
    let g := independentTxs 2 (fun i => [⟨1, 2147483647⟩, ⟨5, 1⟩].getD i 0) (by decide)
    [0, 1].Nodup ∧ [0, 1].toFinset = g.positions ∧
    (∀ i ∈ g.positions, (g.feeRate i).Representable) ∧
      chunkLinearizationInfo g [0, 1] = none ∧ chunkLinearization g [0, 1] = none := by
  decide

end SlithyTove
