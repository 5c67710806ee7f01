import Mathlib.Data.List.Nodup

/-!
# Merkle trees that repeat an odd last node

A level of the tree is turned into the next by hashing neighbours together, and the last node of an
odd level with itself.  So two different lists of leaves can have one root, and the computation
also reports whether it met a pair of equal neighbours.  If the leaves are distinct and no two pairs
of nodes of one level collide, it meets none: distinct nodes make distinct pairs, whatever the
level.

Conversely, if no two pairs collide at all and no hash is a leaf, every list but the shortest with a
given root is reported (`merkleLoop_eq_or_reported`).  All nodes of a level are the same number of
hashes away from the leaves (`AtLevel`), so two trees with one root have equally many levels; and
where two levels differ although the next ones agree, one is the other with its last node repeated.
-/

namespace SlithyTove.Framework

open List

variable {α : Type*}

section Levels

variable (node : α → α → α)

/-- The next level. -/
def pairUp : List α → List α
  | a :: b :: rest => node a b :: pairUp rest
  | [a] => [node a a]
  | [] => []

lemma length_pairUp : ∀ l : List α, (pairUp node l).length = (l.length + 1) / 2
  | [] => by simp [pairUp]
  | [_] => by simp [pairUp]
  | a :: b :: rest => by
    simp only [pairUp, length_cons, length_pairUp rest]
    omega

lemma exists_of_mem_pairUp : ∀ {l : List α} {x : α}, x ∈ pairUp node l →
    ∃ a ∈ l, ∃ b ∈ l, x = node a b
  | [a], x, h => ⟨a, mem_cons_self, a, mem_cons_self, mem_singleton.1 h⟩
  | a :: b :: rest, x, h => by
    rcases mem_cons.1 h with rfl | h
    · exact ⟨a, by simp, b, by simp, rfl⟩
    · obtain ⟨c, hc, d, hd, rfl⟩ := exists_of_mem_pairUp h
      exact ⟨c, by simp [hc], d, by simp [hd], rfl⟩

/-- No two pairs of nodes of the level have the same hash. -/
def InjectiveOn (l : List α) : Prop :=
  ∀ a ∈ l, ∀ b ∈ l, ∀ c ∈ l, ∀ d ∈ l, node a b = node c d → a = c ∧ b = d

lemma nodup_pairUp : ∀ {l : List α}, l.Nodup → InjectiveOn node l → (pairUp node l).Nodup
  | [], _, _ => nodup_nil
  | [a], _, _ => nodup_singleton _
  | a :: b :: rest, hnodup, hinj => by
    obtain ⟨ha, hrest⟩ := nodup_cons.1 hnodup
    refine nodup_cons.2 ⟨fun hmem => ?_, nodup_pairUp (nodup_cons.1 hrest).2 ?_⟩
    · obtain ⟨c, hc, d, hd, heq⟩ := exists_of_mem_pairUp node hmem
      obtain ⟨rfl, -⟩ := hinj a (by simp) b (by simp) c (by simp [hc]) d (by simp [hd]) heq
      exact ha (by simp [hc])
    · intro x hx y hy z hz w hw
      exact hinj x (by simp [hx]) y (by simp [hy]) z (by simp [hz]) w (by simp [hw])

/-- No collision is met on the way from the level to the root, for at most `fuel` levels. -/
def NoCollision : (fuel : ℕ) → List α → Prop
  | 0, _ => True
  | fuel + 1, l => InjectiveOn node l ∧ NoCollision fuel (pairUp node l)

end Levels

variable [DecidableEq α] (node : α → α → α)

/-- Two neighbours that are hashed together are equal. -/
def hasTwin : List α → Bool
  | a :: b :: rest => a = b || hasTwin rest
  | _ => false

lemma hasTwin_eq_false : ∀ {l : List α}, l.Nodup → hasTwin l = false
  | [], _ => rfl
  | [_], _ => rfl
  | a :: b :: rest, h => by
    obtain ⟨ha, hrest⟩ := nodup_cons.1 h
    have hab : a ≠ b := fun heq => ha (by simp [heq])
    simp [hasTwin, hab, hasTwin_eq_false (nodup_cons.1 hrest).2]

/-- The loop over the levels; the flag collects whether a pair of equal neighbours was met. -/
def merkleLoop : (fuel : ℕ) → List α → Bool → List α × Bool
  | 0, l, mutated => (l, mutated)
  | fuel + 1, l, mutated =>
    if 1 < l.length then merkleLoop fuel (pairUp node l) (mutated || hasTwin l)
    else (l, mutated)

/-- The root of a tree with the given leaves, and the flag; `empty` is the root without leaves. -/
def merkleRoot (empty : α) (leaves : List α) : α × Bool :=
  let r := merkleLoop node leaves.length leaves false
  (r.1.head?.getD empty, r.2)

/-- **Distinct leaves are not reported**, as long as no collision is met. -/
lemma merkleLoop_snd : ∀ {fuel : ℕ} {l : List α} {mutated : Bool}, l.Nodup →
    NoCollision node fuel l → (merkleLoop node fuel l mutated).2 = mutated
  | 0, _, _, _, _ => rfl
  | fuel + 1, l, mutated, hnodup, ⟨hinj, hrest⟩ => by
    unfold merkleLoop
    split
    · rw [merkleLoop_snd (nodup_pairUp node hnodup hinj) hrest, hasTwin_eq_false hnodup,
        Bool.or_false]
    · rfl

lemma merkleRoot_snd {empty : α} {leaves : List α} (hnodup : leaves.Nodup)
    (hcollision : NoCollision node leaves.length leaves) :
    (merkleRoot node empty leaves).2 = false :=
  merkleLoop_snd node hnodup hcollision

/-! ## Lists with the same root -/

section Malleability

/-- The hashes of the tree over a list. -/
def treeHashes : (fuel : ℕ) → List α → List α
  | 0, l => l
  | fuel + 1, l => if 1 < l.length then l ++ treeHashes fuel (pairUp node l) else l

omit [DecidableEq α] in
lemma subset_treeHashes (fuel : ℕ) (l : List α) : l ⊆ treeHashes node fuel l := by
  cases fuel with
  | zero => exact List.Subset.refl l
  | succ fuel =>
    unfold treeHashes
    split
    · exact subset_append_left _ _
    · exact List.Subset.refl l

omit [DecidableEq α] in
lemma treeHashes_pairUp_subset (fuel : ℕ) {l : List α} (h : 1 < l.length) :
    treeHashes node fuel (pairUp node l) ⊆ treeHashes node (fuel + 1) l := by
  rw [treeHashes, if_pos h]
  exact subset_append_right _ _

/-- No two pairs of hashes of the trees over the two lists have the same hash, and none has the hash
of a leaf. -/
def NoCollisionBetween (l₁ l₂ : List α) : Prop :=
  let met := treeHashes node l₁.length l₁ ++ treeHashes node l₂.length l₂
  InjectiveOn node met ∧ ∀ a ∈ met, ∀ b ∈ met, node a b ∉ l₁ ++ l₂

/-- `k` levels above the leaves, over hashes of the list. -/
inductive AtLevel (leaves : Set α) (met : List α) : ℕ → α → Prop
  | leaf {x : α} (hx : x ∈ leaves) : AtLevel leaves met 0 x
  | node {k : ℕ} {a b : α} (ha : a ∈ met) (hb : b ∈ met) (hlevel : AtLevel leaves met k a) :
      AtLevel leaves met (k + 1) (node a b)

variable {node} {leaves : Set α} {met : List α}

omit [DecidableEq α] in
lemma AtLevel.unique (hinj : InjectiveOn node met)
    (hleaf : ∀ a ∈ met, ∀ b ∈ met, node a b ∉ leaves) {j k : ℕ} {x : α}
    (hj : AtLevel node leaves met j x) (hk : AtLevel node leaves met k x) : j = k := by
  induction hj generalizing k with
  | leaf hx =>
    cases hk with
    | leaf => rfl
    | node ha hb => exact absurd hx (hleaf _ ha _ hb)
  | @node j a b ha hb _ ih =>
    generalize hx : node a b = x at hk
    cases hk with
    | leaf hmem => exact absurd (hx ▸ hmem) (hleaf a ha b hb)
    | node hc hd hlevel =>
      obtain ⟨rfl, rfl⟩ := hinj a ha b hb _ hc _ hd hx
      rw [ih hlevel]

omit [DecidableEq α] in
lemma atLevel_pairUp {k : ℕ} {l : List α} (hmet : l ⊆ met)
    (hl : ∀ x ∈ l, AtLevel node leaves met k x) :
    ∀ x ∈ pairUp node l, AtLevel node leaves met (k + 1) x := by
  intro x hx
  obtain ⟨a, ha, b, hb, rfl⟩ := exists_of_mem_pairUp node hx
  exact .node (hmet ha) (hmet hb) (hl a ha)

lemma eq_or_hasTwin_of_pairUp_eq (hinj : InjectiveOn node met) : ∀ {l₁ l₂ : List α},
    l₁ ⊆ met → l₂ ⊆ met → pairUp node l₁ = pairUp node l₂ →
      l₁ = l₂ ∨ (l₁.length < l₂.length ∧ hasTwin l₂ = true) ∨
        (l₂.length < l₁.length ∧ hasTwin l₁ = true)
  | [], [], _, _, _ => .inl rfl
  | [], [_], _, _, h => by simp [pairUp] at h
  | [], _ :: _ :: _, _, _, h => by simp [pairUp] at h
  | [_], [], _, _, h => by simp [pairUp] at h
  | _ :: _ :: _, [], _, _, h => by simp [pairUp] at h
  | [a], [c], h₁, h₂, h => by
    simp only [pairUp, List.cons.injEq, and_true] at h
    exact .inl (by
      rw [(hinj a (h₁ (by simp)) a (h₁ (by simp)) c (h₂ (by simp)) c (h₂ (by simp)) h).1])
  | [a], c :: d :: rest, h₁, h₂, h => by
    simp only [pairUp, List.cons.injEq] at h
    obtain ⟨rfl, rfl⟩ := hinj a (h₁ (by simp)) a (h₁ (by simp)) c (h₂ (by simp)) d
      (h₂ (by simp)) h.1
    exact .inr (.inl ⟨by simp, by simp [hasTwin]⟩)
  | a :: b :: rest, [c], h₁, h₂, h => by
    simp only [pairUp, List.cons.injEq] at h
    obtain ⟨rfl, rfl⟩ := hinj a (h₁ (by simp)) b (h₁ (by simp)) c (h₂ (by simp)) c
      (h₂ (by simp)) h.1
    exact .inr (.inr ⟨by simp, by simp [hasTwin]⟩)
  | a :: b :: rest, c :: d :: rest', h₁, h₂, h => by
    simp only [pairUp, List.cons.injEq] at h
    obtain ⟨rfl, rfl⟩ := hinj a (h₁ (by simp)) b (h₁ (by simp)) c (h₂ (by simp)) d
      (h₂ (by simp)) h.1
    have hrest₁ : rest ⊆ met := fun x hx => h₁ (by simp [hx])
    have hrest₂ : rest' ⊆ met := fun x hx => h₂ (by simp [hx])
    rcases eq_or_hasTwin_of_pairUp_eq hinj hrest₁ hrest₂ h.2 with
      rfl | ⟨hlen, htwin⟩ | ⟨hlen, htwin⟩
    · exact .inl rfl
    · exact .inr (.inl ⟨by simpa using hlen, by simp [hasTwin, htwin]⟩)
    · exact .inr (.inr ⟨by simpa using hlen, by simp [hasTwin, htwin]⟩)

variable (fuel : ℕ)

lemma merkleLoop_snd_eq : ∀ (l : List α) (mutated : Bool),
    (merkleLoop node fuel l mutated).2 = (mutated || (merkleLoop node fuel l false).2) := by
  induction fuel with
  | zero => simp [merkleLoop]
  | succ fuel ih =>
    intro l mutated
    unfold merkleLoop
    split
    · rw [ih _ (mutated || hasTwin l), ih _ (false || hasTwin l), Bool.false_or, Bool.or_assoc]
    · simp

lemma merkleLoop_fst_eq : ∀ (l : List α) (mutated : Bool),
    (merkleLoop node fuel l mutated).1 = (merkleLoop node fuel l false).1 := by
  induction fuel with
  | zero => simp [merkleLoop]
  | succ fuel ih =>
    intro l mutated
    unfold merkleLoop
    split
    · rw [ih _ (mutated || hasTwin l), ih _ (false || hasTwin l)]
    · rfl

variable (node) in
lemma merkleLoop_succ {l : List α} (h : 1 < l.length) :
    (merkleLoop node (fuel + 1) l false).1 = (merkleLoop node fuel (pairUp node l) false).1 ∧
      (merkleLoop node (fuel + 1) l false).2 =
        (hasTwin l || (merkleLoop node fuel (pairUp node l) false).2) := by
  have hstep : merkleLoop node (fuel + 1) l false =
      merkleLoop node fuel (pairUp node l) (hasTwin l) := by
    rw [merkleLoop, if_pos h, Bool.false_or]
  rw [hstep]
  exact ⟨merkleLoop_fst_eq _ _ _, merkleLoop_snd_eq _ _ _⟩

lemma merkleLoop_singleton (a : α) (mutated : Bool) :
    merkleLoop node fuel [a] mutated = ([a], mutated) := by
  cases fuel <;> simp [merkleLoop]

/-- The root of a list is above its nodes, unless it is the only one. -/
lemma exists_root_atLevel : ∀ {l : List α} {k : ℕ}, l ≠ [] → l.length ≤ fuel →
    treeHashes node fuel l ⊆ met → (∀ x ∈ l, AtLevel node leaves met k x) →
    ∃ r j, (merkleLoop node fuel l false).1 = [r] ∧ AtLevel node leaves met (k + j) r ∧
      (0 < j ↔ 1 < l.length) := by
  induction fuel with
  | zero =>
    intro l k hne hfuel
    exact absurd (eq_nil_of_length_eq_zero (by omega)) hne
  | succ fuel ih =>
    intro l k hne hfuel hmet hl
    by_cases hlen : 1 < l.length
    · have hnext := length_pairUp node l
      obtain ⟨r, j, hr, hlevel, -⟩ := ih (l := pairUp node l) (k := k + 1)
        (fun h => by rw [h, length_nil] at hnext; omega) (by omega)
        (List.Subset.trans (treeHashes_pairUp_subset node fuel hlen) hmet)
        (atLevel_pairUp (List.Subset.trans (subset_treeHashes node _ l) hmet) hl)
      refine ⟨r, j + 1, by rw [(merkleLoop_succ node fuel hlen).1, hr], ?_, by omega⟩
      rwa [show k + (j + 1) = k + 1 + j by omega]
    · obtain ⟨a, rfl⟩ : ∃ a, l = [a] := by
        refine length_eq_one_iff.1 ?_
        have := length_pos_iff.2 hne
        omega
      exact ⟨a, 0, by rw [merkleLoop_singleton], hl a (by simp), by omega⟩

/-- **Two lists with one root are equal, or the longer one is reported.**  Both lists are at one
level; the induction goes up the levels. -/
lemma merkleLoop_eq_or_reported (hinj : InjectiveOn node met)
    (hleaf : ∀ a ∈ met, ∀ b ∈ met, node a b ∉ leaves) (fuel₁ : ℕ) :
    ∀ {fuel₂ k : ℕ} {l₁ l₂ : List α}, l₁ ≠ [] → l₂ ≠ [] → l₁.length ≤ fuel₁ → l₂.length ≤ fuel₂ →
      treeHashes node fuel₁ l₁ ⊆ met → treeHashes node fuel₂ l₂ ⊆ met →
      (∀ x ∈ l₁, AtLevel node leaves met k x) → (∀ x ∈ l₂, AtLevel node leaves met k x) →
      (merkleLoop node fuel₁ l₁ false).1 = (merkleLoop node fuel₂ l₂ false).1 →
      l₁ = l₂ ∨ (l₁.length < l₂.length ∧ (merkleLoop node fuel₂ l₂ false).2 = true) ∨
        (l₂.length < l₁.length ∧ (merkleLoop node fuel₁ l₁ false).2 = true) := by
  induction fuel₁ with
  | zero =>
    intro fuel₂ k l₁ l₂ hne₁ _ hfuel₁
    exact absurd (eq_nil_of_length_eq_zero (by omega)) hne₁
  | succ fuel₁ ih =>
    intro fuel₂ k l₁ l₂ hne₁ hne₂ hfuel₁ hfuel₂ hmet₁ hmet₂ hl₁ hl₂ hroot
    have hsub₁ := List.Subset.trans (subset_treeHashes node _ l₁) hmet₁
    have hsub₂ := List.Subset.trans (subset_treeHashes node _ l₂) hmet₂
    have hpos₁ := length_pos_iff.2 hne₁
    have hpos₂ := length_pos_iff.2 hne₂
    -- Trees of different height have their roots at different levels.
    obtain ⟨r₁, j₁, hr₁, hlevel₁, hstrict₁⟩ := exists_root_atLevel _ hne₁ hfuel₁ hmet₁ hl₁
    obtain ⟨r₂, j₂, hr₂, hlevel₂, hstrict₂⟩ := exists_root_atLevel _ hne₂ hfuel₂ hmet₂ hl₂
    obtain rfl : r₁ = r₂ := by
      rw [hr₁, hr₂] at hroot
      exact head_eq_of_cons_eq hroot
    have hsame : j₁ = j₂ := Nat.add_left_cancel (hlevel₁.unique hinj hleaf hlevel₂)
    by_cases hlen₁ : 1 < l₁.length <;> by_cases hlen₂ : 1 < l₂.length
    · obtain ⟨fuel₂, rfl⟩ := Nat.exists_eq_add_one_of_ne_zero (by omega : fuel₂ ≠ 0)
      obtain ⟨hfst₁, hsnd₁⟩ := merkleLoop_succ node fuel₁ hlen₁
      obtain ⟨hfst₂, hsnd₂⟩ := merkleLoop_succ node fuel₂ hlen₂
      have hnext₁ := length_pairUp node l₁
      have hnext₂ := length_pairUp node l₂
      rw [hfst₁, hfst₂] at hroot
      rw [hsnd₁, hsnd₂]
      rcases ih (fun h => by rw [h, length_nil] at hnext₁; omega)
        (fun h => by rw [h, length_nil] at hnext₂; omega) (by omega) (by omega)
        (List.Subset.trans (treeHashes_pairUp_subset node _ hlen₁) hmet₁)
        (List.Subset.trans (treeHashes_pairUp_subset node _ hlen₂) hmet₂) (atLevel_pairUp hsub₁ hl₁)
        (atLevel_pairUp hsub₂ hl₂) hroot with heq | ⟨hlt, hflag⟩ | ⟨hlt, hflag⟩
      · rcases eq_or_hasTwin_of_pairUp_eq hinj hsub₁ hsub₂ heq with
          heq | ⟨hlt, htwin⟩ | ⟨hlt, htwin⟩
        · exact .inl heq
        · exact .inr (.inl ⟨hlt, by rw [htwin, Bool.true_or]⟩)
        · exact .inr (.inr ⟨hlt, by rw [htwin, Bool.true_or]⟩)
      · exact .inr (.inl ⟨by omega, by rw [hflag, Bool.or_true]⟩)
      · exact .inr (.inr ⟨by omega, by rw [hflag, Bool.or_true]⟩)
    · omega
    · omega
    · obtain ⟨a, rfl⟩ := length_eq_one_iff.1 (by omega : l₁.length = 1)
      obtain ⟨b, rfl⟩ := length_eq_one_iff.1 (by omega : l₂.length = 1)
      rw [merkleLoop_singleton, merkleLoop_singleton] at hroot
      exact .inl hroot

end Malleability

end SlithyTove.Framework
