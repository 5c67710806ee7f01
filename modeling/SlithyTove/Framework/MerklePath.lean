import SlithyTove.Framework.MerkleTree
import Mathlib.Data.Nat.Log
import Mathlib.Tactic.Ring

/-!
# Nodes and paths of a Merkle tree

A tree over `n` leaves in which the last node of an odd level is hashed with itself has
`treeWidth n h` nodes at height `h`, and `merkleNode` is the node at a height and a position.  The
levels of the tree are the rows of these nodes, so the root is the node at the height where one is
left (`merkleRoot_eq`).

The path of a leaf is the list of the siblings of the nodes above it, and hashing the leaf with them
one after the other gives the nodes above it in turn (`foldPath_siblings`).
-/

namespace SlithyTove.Framework

open List Nat

/-! ## Widths -/

/-- The number of nodes at a height over `n` leaves. -/
def treeWidth (n height : ℕ) : ℕ := (n + 2 ^ height - 1) / 2 ^ height

variable {height : ℕ}

lemma lt_treeWidth_iff {n i : ℕ} : i < treeWidth n height ↔ i * 2 ^ height < n := by
  have hpos := Nat.two_pow_pos height
  rw [treeWidth, lt_iff_add_one_le, le_div_iff_mul_le hpos, add_mul, one_mul]
  omega

@[simp] lemma treeWidth_zero (n : ℕ) : treeWidth n 0 = n := by
  simp [treeWidth]

lemma treeWidth_succ (n height : ℕ) :
    treeWidth n (height + 1) = (treeWidth n height + 1) / 2 := by
  refine eq_of_forall_lt_iff fun i => ?_
  have hdouble : i * 2 ^ (height + 1) = 2 * i * 2 ^ height := by ring
  have hhalf : i < (treeWidth n height + 1) / 2 ↔ 2 * i < treeWidth n height := by omega
  rw [lt_treeWidth_iff, hdouble, hhalf, lt_treeWidth_iff]

lemma one_lt_treeWidth_iff {n : ℕ} : 1 < treeWidth n height ↔ height < Nat.clog 2 n := by
  rw [lt_treeWidth_iff, one_mul, lt_clog_iff_pow_lt one_lt_two]

lemma treeWidth_pos {n : ℕ} (hn : 0 < n) (height : ℕ) : 0 < treeWidth n height := by
  rw [lt_treeWidth_iff, zero_mul]
  exact hn

lemma half_lt_treeWidth {n i : ℕ} (h : i < treeWidth n height) :
    i / 2 < treeWidth n (height + 1) := by
  rw [treeWidth_succ]
  omega

lemma div_lt_treeWidth {n pos : ℕ} (h : pos < n) (height : ℕ) :
    pos / 2 ^ height < treeWidth n height :=
  lt_treeWidth_iff.mpr ((div_mul_le_self _ _).trans_lt h)

/-! ## Nodes -/

variable {α : Type*} (node : α → α → α) (leaf : ℕ → α) (n : ℕ)

/-- The node at a height and a position. -/
def merkleNode : (height pos : ℕ) → α
  | 0, pos => leaf pos
  | height + 1, pos =>
    node (merkleNode height (2 * pos))
      (if 2 * pos + 1 < treeWidth n height then merkleNode height (2 * pos + 1)
        else merkleNode height (2 * pos))

lemma pairUp_range : ∀ (w : ℕ) (f : ℕ → α), pairUp node ((List.range w).map f) =
    (List.range ((w + 1) / 2)).map fun i =>
      node (f (2 * i)) (if 2 * i + 1 < w then f (2 * i + 1) else f (2 * i))
  | 0, f => rfl
  | 1, f => by simp [pairUp]
  | w + 2, f => by
    have hrange : (List.range (w + 2)).map f =
        f 0 :: f 1 :: (List.range w).map fun i => f (i + 2) := by
      rw [range_succ_eq_map, range_succ_eq_map]
      simp [Function.comp_def]
    have hhalf : (w + 2 + 1) / 2 = (w + 1) / 2 + 1 := by omega
    have hnext : ∀ i, 2 * (i + 1) + 1 < w + 2 ↔ 2 * i + 1 < w := fun i => by omega
    rw [hrange, pairUp, pairUp_range w, hhalf, range_succ_eq_map, map_cons,
      map_map]
    simp only [Function.comp_def, succ_eq_add_one, hnext]
    rfl

/-- The row of the nodes at a height. -/
def merkleRow (height : ℕ) : List α :=
  (List.range (treeWidth n height)).map (merkleNode node leaf n height)

lemma pairUp_merkleRow (height : ℕ) :
    pairUp node (merkleRow node leaf n height) = merkleRow node leaf n (height + 1) := by
  rw [merkleRow, pairUp_range, merkleRow, treeWidth_succ]
  rfl

@[simp] lemma length_merkleRow (height : ℕ) :
    (merkleRow node leaf n height).length = treeWidth n height := by
  simp [merkleRow]

variable {n}

lemma merkleRow_clog (hn : 0 < n) :
    merkleRow node leaf n (Nat.clog 2 n) = [merkleNode node leaf n (Nat.clog 2 n) 0] := by
  have hone : treeWidth n (Nat.clog 2 n) = 1 := by
    have hpos := treeWidth_pos hn (Nat.clog 2 n)
    have hle := mt one_lt_treeWidth_iff.mp (lt_irrefl (Nat.clog 2 n))
    omega
  rw [merkleRow, hone]
  rfl

lemma merkleLoop_merkleRow [DecidableEq α] (hn : 0 < n) : ∀ (fuel height : ℕ),
    treeWidth n height ≤ fuel → height ≤ Nat.clog 2 n →
    (merkleLoop node fuel (merkleRow node leaf n height) false).1 =
      [merkleNode node leaf n (Nat.clog 2 n) 0]
  | 0, height, hfuel, _ => absurd (treeWidth_pos hn height) (by omega)
  | fuel + 1, height, hfuel, hle => by
    by_cases hwidth : 1 < treeWidth n height
    · have hlength : 1 < (merkleRow node leaf n height).length := by
        rwa [length_merkleRow]
      rw [(merkleLoop_succ node fuel hlength).1, pairUp_merkleRow]
      refine merkleLoop_merkleRow hn fuel (height + 1) ?_ (one_lt_treeWidth_iff.mp hwidth)
      rw [treeWidth_succ]
      omega
    · have hheight : height = Nat.clog 2 n :=
        hle.antisymm (not_lt.mp (mt one_lt_treeWidth_iff.mpr hwidth))
      rw [hheight, merkleRow_clog node leaf hn, merkleLoop_singleton]

variable {leaves : List α}

lemma merkleRow_zero (hleaf : ∀ i, (h : i < leaves.length) → leaf i = leaves[i]) :
    merkleRow node leaf leaves.length 0 = leaves := by
  refine ext_getElem (by simp) fun i hi hi' => ?_
  simp only [merkleRow, getElem_map, getElem_range, merkleNode]
  exact hleaf i hi'

/-- **The root is the node at the top.** -/
lemma merkleRoot_eq [DecidableEq α] (empty : α) (hne : leaves ≠ [])
    (hleaf : ∀ i, (h : i < leaves.length) → leaf i = leaves[i]) : (merkleRoot node empty leaves).1 =
      merkleNode node leaf leaves.length (Nat.clog 2 leaves.length) 0 := by
  have hloop := merkleLoop_merkleRow node leaf (length_pos_iff.mpr hne) leaves.length 0
    (by simp) (zero_le _)
  rw [merkleRow_zero node leaf hleaf] at hloop
  rw [merkleRoot, hloop]
  rfl

lemma nodup_merkleRow {fuel : ℕ} : ∀ {height : ℕ}, (merkleRow node leaf n height).Nodup →
    NoCollision node fuel (merkleRow node leaf n height) →
    ∀ k ≤ fuel, (merkleRow node leaf n (height + k)).Nodup := by
  induction fuel with
  | zero =>
    intro height hnodup _ k hk
    rwa [le_zero.mp hk]
  | succ fuel ih =>
    rintro height hnodup ⟨hinj, hrest⟩ k hk
    cases k with
    | zero => exact hnodup
    | succ k =>
      rw [pairUp_merkleRow] at hrest
      have hnext : (merkleRow node leaf n (height + 1)).Nodup := by
        rw [← pairUp_merkleRow]
        exact nodup_pairUp node hnodup hinj
      have hrow := ih hnext hrest k (by omega)
      rwa [add_right_comm] at hrow

lemma merkleNode_ne (h : (merkleRow node leaf n height).Nodup) {i j : ℕ}
    (hi : i < treeWidth n height) (hj : j < treeWidth n height) (hne : i ≠ j) :
    merkleNode node leaf n height i ≠ merkleNode node leaf n height j := by
  intro heq
  have hinj := (nodup_map_iff_inj_on nodup_range).mp h
  exact hne (hinj i (mem_range.mpr hi) j (mem_range.mpr hj) heq)

/-! ## Paths -/

variable (n)

/-- The node that a node is hashed with. -/
def sibling (height pos : ℕ) : α :=
  if pos % 2 = 1 then merkleNode node leaf n height (pos - 1)
  else if pos + 1 < treeWidth n height then merkleNode node leaf n height (pos + 1)
  else merkleNode node leaf n height pos

/-- The siblings of the nodes above a leaf, up to a height. -/
def siblings (pos height : ℕ) : List α :=
  (List.range height).map fun k => sibling node leaf n k (pos / 2 ^ k)

@[simp] lemma siblings_zero (pos : ℕ) : siblings node leaf n pos 0 = [] := rfl

lemma siblings_succ (pos height : ℕ) :
    siblings node leaf n pos (height + 1) =
      siblings node leaf n pos height ++ [sibling node leaf n height (pos / 2 ^ height)] := by
  simp [siblings, range_succ]

/-- A hash is hashed with the nodes of a path, on the side that the bits of the position say. -/
def foldPath : (pos : ℕ) → List α → α → α
  | _, [], hash => hash
  | pos, p :: path, hash =>
    foldPath (pos / 2) path (if pos % 2 = 1 then node p hash else node hash p)

lemma foldPath_append : ∀ (pos : ℕ) (path : List α) (p hash : α),
    foldPath node pos (path ++ [p]) hash =
      if pos / 2 ^ path.length % 2 = 1 then node p (foldPath node pos path hash)
      else node (foldPath node pos path hash) p
  | pos, [], p, hash => by simp [foldPath]
  | pos, q :: path, p, hash => by
    have hdiv : pos / 2 / 2 ^ path.length = pos / 2 ^ (path.length + 1) := by
      rw [Nat.div_div_eq_div_mul, Nat.pow_succ']
    rw [cons_append, foldPath, foldPath_append (pos / 2) path, hdiv]
    rfl

lemma merkleNode_succ_half (height pos : ℕ) (hpos : pos < treeWidth n height) :
    merkleNode node leaf n (height + 1) (pos / 2) =
      if pos % 2 = 1 then
        node (sibling node leaf n height pos) (merkleNode node leaf n height pos)
      else node (merkleNode node leaf n height pos) (sibling node leaf n height pos) := by
  rw [merkleNode, sibling]
  by_cases hodd : pos % 2 = 1
  · have hleft : 2 * (pos / 2) = pos - 1 := by omega
    have hright : pos - 1 + 1 = pos := by omega
    rw [if_pos hodd, if_pos hodd, hleft, hright, if_pos hpos]
  · have hleft : 2 * (pos / 2) = pos := by omega
    rw [if_neg hodd, if_neg hodd, hleft]

/-- **Hashing a leaf with its path gives the nodes above it.** -/
lemma foldPath_siblings {pos : ℕ} (hpos : pos < n) : ∀ height : ℕ,
    foldPath node pos (siblings node leaf n pos height) (leaf pos) =
      merkleNode node leaf n height (pos / 2 ^ height)
  | 0 => by simp [foldPath, merkleNode]
  | height + 1 => by
    have hdiv : pos / 2 ^ (height + 1) = pos / 2 ^ height / 2 := by
      rw [Nat.div_div_eq_div_mul, Nat.pow_succ]
    have hlength : (siblings node leaf n pos height).length = height := by simp [siblings]
    rw [siblings_succ, foldPath_append, hlength, foldPath_siblings hpos height, hdiv,
      merkleNode_succ_half node leaf n height _ (div_lt_treeWidth hpos height)]

lemma merkleNode_congr {leaf leaf' : ℕ → α} : ∀ (height pos : ℕ),
    (∀ i ≥ pos * 2 ^ height, leaf i = leaf' i) →
    merkleNode node leaf n height pos = merkleNode node leaf' n height pos
  | 0, pos, h => h pos (by simp)
  | height + 1, pos, h => by
    have hfirst : pos * 2 ^ (height + 1) = 2 * pos * 2 ^ height := by ring
    have hleft := merkleNode_congr height (2 * pos) fun i hi => h i (hfirst.trans_le hi)
    have hright := merkleNode_congr height (2 * pos + 1) fun i hi =>
      h i (hfirst.trans_le ((Nat.mul_le_mul_right _ (le_succ _)).trans hi))
    rw [merkleNode, merkleNode, hleft, hright]

lemma siblings_first_congr {leaf leaf' : ℕ → α} (h : ∀ i > 0, leaf i = leaf' i) :
    siblings node leaf n 0 (Nat.clog 2 n) = siblings node leaf' n 0 (Nat.clog 2 n) := by
  refine map_congr_left fun k hk => ?_
  have hwidth : 0 + 1 < treeWidth n k := one_lt_treeWidth_iff.mpr (mem_range.mp hk)
  simp only [sibling, Nat.zero_div, zero_mod, zero_ne_one, if_false, if_pos hwidth]
  refine merkleNode_congr node n k 1 fun i hi => h i ?_
  have hpos := Nat.two_pow_pos k
  omega

end SlithyTove.Framework
