import SlithyTove.Framework.Forest
import Mathlib.Data.Nat.Bitwise

/-!
# The block index tree and `GetAncestor`

`CBlockIndex` nodes form a forest under `pprev`; each node also holds a pointer `pskip` to an
ancestor much further back, set once by `BuildSkip` when the node is linked in.
`CBlockIndex::GetAncestor` (`chain.cpp`) walks back by whichever of the two pointers suits the
height it looks for.

`BlockTree` is such a forest, with `parent` for `pprev` and `depth` for `nHeight`, and with the
two facts the code maintains about every node: the height counts the `pprev` links, and `pskip`
is what `BuildSkip` computed.
`BlockTree.getAncestor_eq_up` shows that the walk by skip pointers ends where the walk by
`pprev` links ends, and that none of its assertions fails.

Heights are integers without a bound, as chains here may have any length; the argument of
`GetAncestor` may be negative.
-/

namespace SlithyTove

open Framework

/-! ## Skip heights -/

/-- `InvertLowestOne`. -/
def invertLowestOne (n : ℕ) : ℕ := n &&& (n - 1)

/-- `GetSkipHeight`. -/
def getSkipHeight (height : ℕ) : ℕ :=
  if height < 2 then 0
  else if height &&& 1 ≠ 0 then invertLowestOne (invertLowestOne (height - 1)) + 1
  else invertLowestOne height

lemma invertLowestOne_le (n : ℕ) : invertLowestOne n ≤ n - 1 := Nat.and_le_right

lemma getSkipHeight_lt {height : ℕ} (h : 0 < height) : getSkipHeight height < height := by
  have h1 := invertLowestOne_le height
  have h2 := invertLowestOne_le (height - 1)
  have h3 := invertLowestOne_le (invertLowestOne (height - 1))
  rw [getSkipHeight]
  split
  · exact h
  · split <;> omega

/-! ## `GetAncestor` -/

section Walk

variable {Node : Type*} (pprev pskip : Node → Option Node)

/-- The condition under which `GetAncestor` follows `pskip` from a node at `heightWalk`. -/
def followSkip (height heightWalk : ℕ) : Bool :=
  let heightSkip := getSkipHeight heightWalk
  let heightSkipPrev := getSkipHeight (heightWalk - 1)
  heightSkip = height ∨
    (heightSkip > height ∧ ¬ (heightSkipPrev + 2 < heightSkip ∧ heightSkipPrev ≥ height))

/-- The loop of `GetAncestor`, for at most `fuel` passes; each pass lowers `heightWalk`. -/
def getAncestorWalk (height : ℕ) : (fuel : ℕ) → Node → (heightWalk : ℕ) → Except String Node
  | 0, pindexWalk, heightWalk =>
    if heightWalk > height then .error "out of fuel" else .ok pindexWalk
  | fuel + 1, pindexWalk, heightWalk =>
    if heightWalk > height then
      match followSkip height heightWalk, pskip pindexWalk with
      | true, some skip => getAncestorWalk height fuel skip (getSkipHeight heightWalk)
      | _, _ =>
        match pprev pindexWalk with
        | some prev => getAncestorWalk height fuel prev (heightWalk - 1)
        | none => .error "pindexWalk->pprev"
    else .ok pindexWalk

/-- `CBlockIndex::GetAncestor` from a node of height `nHeight`; `none` is `nullptr`. -/
def getAncestorFrom (pindex : Node) (nHeight : ℕ) (height : ℤ) : Except String (Option Node) :=
  if height > nHeight ∨ height < 0 then .ok none
  else (getAncestorWalk pprev pskip height.toNat nHeight pindex nHeight).map some

end Walk

/-- A block index: a forest under `pprev`, with every `pskip` as `BuildSkip` set it. -/
structure BlockTree (Node : Type*) extends Forest Node where
  pskip : Node → Option Node
  /-- A root has no skip pointer. -/
  skip_root : ∀ x, parent x = none → pskip x = none
  /-- `pskip = pprev->GetAncestor(GetSkipHeight(nHeight))`. -/
  skip_child : ∀ x p, parent x = some p →
    getAncestorFrom parent pskip p (depth p) (getSkipHeight (depth x)) = .ok (pskip x)

namespace BlockTree

variable {Node : Type*} (T : BlockTree Node)

/-- `CBlockIndex::GetAncestor`. -/
def getAncestor (pindex : Node) (height : ℤ) : Except String (Option Node) :=
  getAncestorFrom T.parent T.pskip pindex (T.depth pindex) height

lemma getAncestorWalk_eq (n : ℕ) : ∀ (x : Node), T.depth x = n → ∀ (h fuel : ℕ), h ≤ n →
    n ≤ fuel → ∃ y, T.up (n - h) x = some y ∧
      getAncestorWalk T.parent T.pskip h fuel x n = .ok y := by
  -- Strong induction on the height: it serves both the next pass of the loop and the walk that
  -- `BuildSkip` ran at the parent when it set `pskip`.
  induction n using Nat.strong_induction_on with
  | _ n ih =>
    intro x hx h fuel hh hfuel
    by_cases hwalk : n > h
    · obtain ⟨fuel, rfl⟩ := Nat.exists_eq_add_one_of_ne_zero (by omega : fuel ≠ 0)
      rw [getAncestorWalk, if_pos hwalk]
      obtain ⟨p, hp⟩ : ∃ p, T.parent x = some p := by
        cases hp : T.parent x with
        | none =>
          have := T.depth_root x hp
          omega
        | some p => exact ⟨p, rfl⟩
      have hpheight : T.depth p = n - 1 := by
        have := T.depth_child x p hp
        omega
      have hskipLt := getSkipHeight_lt (by omega : 0 < n)
      -- What `BuildSkip` found is the node at the skip height.
      obtain ⟨s, hs, hswalk⟩ := ih (n - 1) (by omega) p hpheight (getSkipHeight n) (n - 1)
        (by omega) le_rfl
      have hskip : T.pskip x = some s := by
        have hbuild := T.skip_child x p hp
        rw [hx, hpheight, getAncestorFrom, if_neg (by omega)] at hbuild
        simp only [Int.toNat_natCast] at hbuild
        rw [hswalk] at hbuild
        simpa [Except.map] using hbuild.symm
      have hsx : T.up (n - getSkipHeight n) x = some s := by
        rw [show n - getSkipHeight n = (n - 1 - getSkipHeight n) + 1 by omega,
          T.up_succ_of_parent hp, hs]
      have hsheight : T.depth s = getSkipHeight n := by
        have := T.depth_of_up hsx
        omega
      cases hfollow : followSkip h n with
      | true =>
        have hle : h ≤ getSkipHeight n := by
          simp only [followSkip, decide_eq_true_eq] at hfollow
          omega
        obtain ⟨y, hy, hrun⟩ := ih (getSkipHeight n) hskipLt s hsheight h fuel hle (by omega)
        refine ⟨y, ?_, by rw [hskip]; exact hrun⟩
        rw [show n - h = (n - getSkipHeight n) + (getSkipHeight n - h) by omega, T.up_add, hsx,
          Option.bind_some, hy]
      | false =>
        obtain ⟨y, hy, hrun⟩ := ih (n - 1) (by omega) p hpheight h fuel (by omega) (by omega)
        refine ⟨y, ?_, by simp only [hp]; exact hrun⟩
        rw [show n - h = (n - 1 - h) + 1 by omega, T.up_succ_of_parent hp, hy]
    · refine ⟨x, by rw [show n - h = 0 by omega, T.up_zero], ?_⟩
      cases fuel <;> rw [getAncestorWalk, if_neg hwalk]

/-- **`GetAncestor` is the walk by `pprev` links.** -/
lemma getAncestor_eq_up (x : Node) {h : ℕ} (hh : h ≤ T.depth x) :
    ∃ y, T.up (T.depth x - h) x = some y ∧ T.getAncestor x h = .ok (some y) := by
  obtain ⟨y, hy, hrun⟩ := T.getAncestorWalk_eq _ x rfl h _ hh le_rfl
  refine ⟨y, hy, ?_⟩
  rw [getAncestor, getAncestorFrom, if_neg (by omega), Int.toNat_natCast, hrun]
  rfl

/-- **`GetAncestor` at every height**, `nullptr` outside the chain. -/
lemma getAncestor_eq_atDepth (x : Node) (height : ℤ) :
    T.getAncestor x height = .ok (if height < 0 then none else T.atDepth x height.toNat) := by
  by_cases hneg : height < 0
  · rw [if_pos hneg, getAncestor, getAncestorFrom, if_pos (.inr hneg)]
  · rw [if_neg hneg]
    obtain ⟨h, rfl⟩ := Int.eq_ofNat_of_zero_le (Int.not_lt.1 hneg)
    rw [Int.toNat_natCast, Forest.atDepth]
    by_cases hh : h ≤ T.depth x
    · obtain ⟨y, hy, hrun⟩ := T.getAncestor_eq_up x hh
      rw [if_pos hh, hy, hrun]
    · rw [if_neg hh, getAncestor, getAncestorFrom, if_pos (.inl (by omega))]

lemma isAncestor_of_getAncestor {x y : Node} {height : ℤ}
    (h : T.getAncestor x height = .ok (some y)) : T.IsAncestor y x := by
  rw [getAncestor_eq_atDepth, Except.ok.injEq] at h
  split at h
  · cases h
  · exact (Forest.atDepth_eq_some_iff.1 h).1

end BlockTree

end SlithyTove
