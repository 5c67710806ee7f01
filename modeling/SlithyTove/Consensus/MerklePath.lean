import SlithyTove.Consensus.Merkle
import SlithyTove.Framework.MerklePath

/-!
# The path of a leaf

`MerkleComputation` (`consensus/merkle.cpp`) goes over the leaves once and keeps one node for each
bit of the number of leaves it has seen: where bit `k` is set, `inner[k]` is the node of the last
`2 ^ k` leaves that are not in a larger one.  A new leaf is hashed with these nodes as a carry goes
through the bits of a counter.  At the end a sweep hashes the last node of every odd level with
itself.  On the way the siblings of one leaf are collected, for which `matchlevel` remembers in
which of the nodes the leaf is.

The counter is the same in both phases: while `h` is the last node at a level of the leaves seen so
far, the nodes before it are those of `c` leaves, and `h` is the node at position `c / 2 ^ level`
(`Climbing`).  For a new leaf `c` is the number of leaves before it, and for the sweep it is the
number of all leaves.
-/

namespace SlithyTove

open Framework Nat

variable {Hash : Type} (node : Hash → Hash → Hash)

/-! ## `MerkleComputation` -/

/-- The variables of the loops that go up the levels. -/
structure MerkleClimb (Hash : Type) where
  level : ℕ
  h : Hash
  matchh : Bool
  path : List Hash

section Computation

variable (inner : ℕ → Hash) (matchlevel : ℤ)

/-- One level up: `h` is hashed with the node before it. -/
def MerkleClimb.next (s : MerkleClimb Hash) : MerkleClimb Hash where
  level := s.level + 1
  h := node (inner s.level) s.h
  matchh := s.matchh || matchlevel = s.level
  path :=
    if s.matchh then s.path ++ [inner s.level]
    else if matchlevel = s.level then s.path ++ [s.h]
    else s.path

/-- Up to the first bit of `count` that is set.  There are `left` levels below 32, where shifting
and `inner` end. -/
def MerkleClimb.propagate (count : ℕ) : (left : ℕ) → MerkleClimb Hash → Option (MerkleClimb Hash)
  | 0, _ => none
  | left + 1, s =>
    if count.testBit s.level then some s
    else propagate count left (s.next node inner matchlevel)

/-- The last node of an odd level is hashed with itself. -/
def MerkleClimb.double (s : MerkleClimb Hash) : MerkleClimb Hash where
  level := s.level + 1
  h := node s.h s.h
  matchh := s.matchh
  path := if s.matchh then s.path ++ [s.h] else s.path

/-- The sweep over the odd levels; no level is met twice. -/
def MerkleClimb.sweep : (left count : ℕ) → MerkleClimb Hash → Option (MerkleClimb Hash)
  | left, count, s =>
    if count = 2 ^ s.level then some s
    else
      match left with
      | 0 => none
      | left + 1 => do
        let count := (count + 2 ^ s.level) % 2 ^ 32
        let s ← (s.double node).propagate node inner matchlevel count (31 - s.level)
        sweep left count s

/-- The lowest bit that is set. -/
def lowestBit (count : ℕ) : (left level : ℕ) → Option ℕ
  | 0, _ => none
  | left + 1, level => if count.testBit level then some level else lowestBit count left (level + 1)

end Computation

/-- The variables of the loop over the leaves. -/
structure MerkleCounter (Hash : Type) where
  count : ℕ
  inner : ℕ → Hash
  matchlevel : ℤ
  path : List Hash

/-- One leaf more. -/
def MerkleCounter.addLeaf (leaf_pos : ℕ) (s : MerkleCounter Hash) (leaf : Hash) :
    Option (MerkleCounter Hash) := do
  let count := (s.count + 1) % 2 ^ 32
  let r ← MerkleClimb.propagate node s.inner s.matchlevel count 32
    { level := 0, h := leaf, matchh := s.count = leaf_pos, path := s.path }
  return {
    count
    inner := Function.update s.inner r.level r.h
    matchlevel := if r.matchh then r.level else s.matchlevel
    path := r.path }

/-- `MerkleComputation`.  Nothing where a loop does not end, or `inner` is read beyond its end. -/
def merkleComputation [Zero Hash] (leaves : List Hash) (leaf_pos : ℕ) : Option (List Hash) :=
  if leaves.length ≥ 2 ^ 32 then none
  else if leaves.length = 0 then some []
  else do
    let s ← leaves.foldlM (MerkleCounter.addLeaf node leaf_pos)
      { count := 0, inner := fun _ => 0, matchlevel := -1, path := [] }
    let level ← lowestBit s.count 32 0
    let r ← MerkleClimb.sweep node s.inner s.matchlevel 32 s.count
      { level, h := s.inner level, matchh := s.matchlevel = level, path := s.path }
    return r.path

/-- `ComputeMerklePath`. -/
def computeMerklePath [Zero Hash] (leaves : List Hash) (position : ℕ) : Option (List Hash) :=
  merkleComputation node leaves position

/-! ## Climbing -/

section Climb

variable {node} {leaf : ℕ → Hash} {n pos c : ℕ} {inner : ℕ → Hash} {matchlevel : ℤ}

variable (node)

/-- The nodes of `c` leaves. -/
def InnerNodes (leaf : ℕ → Hash) (n c : ℕ) (inner : ℕ → Hash) : Prop :=
  ∀ k, c.testBit k = true → inner k = merkleNode node leaf n k (c / 2 ^ k - 1)

/-- The leaf is in the node at `matchlevel`, which is not below `level`, and its siblings up to
there are in `path`. -/
def MatchedAbove (leaf : ℕ → Hash) (n pos c level : ℕ) (matchlevel : ℤ) (path : List Hash) : Prop :=
  ∃ m, matchlevel = (m : ℕ) ∧ level ≤ m ∧ c.testBit m = true ∧ pos / 2 ^ m + 1 = c / 2 ^ m ∧
    path = siblings node leaf n pos m

/-- What is known of the leaf that is looked for. -/
def Tracked (leaf : ℕ → Hash) (n pos c : ℕ) (matchlevel : ℤ) (s : MerkleClimb Hash) : Prop :=
  if s.matchh then
    pos / 2 ^ s.level = c / 2 ^ s.level ∧ s.path = siblings node leaf n pos s.level
  else
    (c < pos ∧ matchlevel = -1 ∧ s.path = []) ∨
      MatchedAbove node leaf n pos c s.level matchlevel s.path

variable {node}

/-- `h` is the node after those of `c` leaves, and `count` is what the counter is then. -/
structure Climbing (node : Hash → Hash → Hash) (leaf : ℕ → Hash) (n pos c count : ℕ)
    (matchlevel : ℤ) (s : MerkleClimb Hash) : Prop where
  h : s.h = merkleNode node leaf n s.level (c / 2 ^ s.level)
  width : c / 2 ^ s.level < treeWidth n s.level
  height : s.level ≤ Nat.clog 2 n
  dvd : 2 ^ s.level ∣ count
  count : count / 2 ^ s.level = c / 2 ^ s.level + 1
  tracked : Tracked node leaf n pos c matchlevel s

lemma testBit_iff {x k : ℕ} : x.testBit k = true ↔ x / 2 ^ k % 2 = 1 := by
  rw [testBit_eq_decide_div_mod_eq, decide_eq_true_iff]

lemma div_two_pow_succ (x k : ℕ) : x / 2 ^ (k + 1) = x / 2 ^ k / 2 := by
  rw [Nat.div_div_eq_div_mul, Nat.pow_succ]

variable {s : MerkleClimb Hash}

lemma Tracked.next (h : Tracked node leaf n pos c matchlevel s)
    (hinner : InnerNodes node leaf n c inner)
    (hh : s.h = merkleNode node leaf n s.level (c / 2 ^ s.level))
    (hwidth : c / 2 ^ s.level < treeWidth n s.level) (hodd : c / 2 ^ s.level % 2 = 1) :
    Tracked node leaf n pos c matchlevel (s.next node inner matchlevel) := by
  have hbefore : inner s.level = merkleNode node leaf n s.level (c / 2 ^ s.level - 1) :=
    hinner s.level (testBit_iff.mpr hodd)
  unfold Tracked at h ⊢
  by_cases hmatch : s.matchh = true
  · rw [if_pos hmatch] at h
    have hsibling : inner s.level = sibling node leaf n s.level (pos / 2 ^ s.level) := by
      rw [hbefore, h.1, sibling, if_pos hodd]
    rw [if_pos (by simp [MerkleClimb.next, hmatch])]
    refine ⟨?_, ?_⟩
    · simp only [MerkleClimb.next, div_two_pow_succ, h.1]
    · simp only [MerkleClimb.next, hmatch, if_true, h.2, siblings_succ, hsibling]
  · rw [if_neg hmatch] at h
    by_cases hlevel : matchlevel = (s.level : ℤ)
    · -- The node before `h` has the leaf, so that `h` is its sibling.
      obtain ⟨-, habsent, -⟩ | ⟨m, hm, -, -, hdiv, hpath⟩ := h
      · omega
      obtain rfl : m = s.level := by exact_mod_cast hm.symm.trans hlevel
      have hsibling : s.h = sibling node leaf n s.level (pos / 2 ^ s.level) := by
        have heven : ¬ pos / 2 ^ s.level % 2 = 1 := by omega
        rw [hh, sibling, if_neg heven, hdiv, if_pos hwidth]
      rw [if_pos (by simp [MerkleClimb.next, hlevel])]
      refine ⟨?_, ?_⟩
      · simp only [MerkleClimb.next, div_two_pow_succ]
        omega
      · simp only [MerkleClimb.next, hmatch, hlevel, if_true, hpath, siblings_succ, ← hsibling]
        rfl
    · rw [if_neg (by simp [MerkleClimb.next, hmatch, hlevel])]
      have hpath : (s.next node inner matchlevel).path = s.path := by
        simp [MerkleClimb.next, hmatch, hlevel]
      rw [hpath]
      refine h.imp id ?_
      rintro ⟨m, hm, hle, hrest⟩
      exact ⟨m, hm, by simp only [MerkleClimb.next]; omega, hrest⟩

lemma Climbing.next {count : ℕ}
    (h : Climbing node leaf n pos c count matchlevel s) (hinner : InnerNodes node leaf n c inner)
    (hbit : count.testBit s.level = false) :
    Climbing node leaf n pos c count matchlevel (s.next node inner matchlevel) := by
  have hodd : c / 2 ^ s.level % 2 = 1 := by
    have hcount := h.count
    have heven : ¬ count / 2 ^ s.level % 2 = 1 := by
      rw [← testBit_iff, hbit]
      exact Bool.false_ne_true
    omega
  have hone : 1 ≤ c / 2 ^ s.level :=
    one_le_iff_ne_zero.mpr fun hzero => by simp [hzero] at hodd
  refine ⟨?_, ?_, one_lt_treeWidth_iff.mp (hone.trans_lt h.width), ?_, ?_,
    h.tracked.next hinner h.h h.width hodd⟩
  · have hparent := merkleNode_succ_half node leaf n s.level _ h.width
    rw [if_pos hodd, sibling, if_pos hodd] at hparent
    simp only [MerkleClimb.next, div_two_pow_succ]
    rw [hparent, ← h.h, hinner s.level (testBit_iff.mpr hodd)]
  · simp only [MerkleClimb.next, div_two_pow_succ]
    exact half_lt_treeWidth h.width
  · obtain ⟨q, rfl⟩ := h.dvd
    have hcount := h.count
    rw [Nat.mul_div_cancel_left _ (Nat.two_pow_pos _)] at hcount
    obtain ⟨r, hr⟩ : 2 ∣ q := by omega
    exact ⟨r, by simp only [MerkleClimb.next]; rw [hr, pow_succ, mul_assoc]⟩
  · simp only [MerkleClimb.next, div_two_pow_succ]
    have hcount := h.count
    omega

/-- **Up to the next bit that is set.**  The counter fits 32 bits, so there is one. -/
lemma Climbing.propagate {count : ℕ} (hpos : 0 < count) (hlt : count < 2 ^ 32)
    (hinner : InnerNodes node leaf n c inner) : ∀ {left : ℕ} {s : MerkleClimb Hash},
    s.level + left = 32 → Climbing node leaf n pos c count matchlevel s →
    ∃ s', s.propagate node inner matchlevel count left = some s' ∧ s.level ≤ s'.level ∧
      count.testBit s'.level = true ∧ Climbing node leaf n pos c count matchlevel s'
  | 0, s, hleft, h => by
    have hdvd := h.dvd
    rw [show s.level = 32 by omega] at hdvd
    exact absurd (le_of_dvd hpos hdvd) (by omega)
  | left + 1, s, hleft, h => by
    rw [MerkleClimb.propagate]
    cases hbit : count.testBit s.level with
    | true => exact ⟨s, rfl, le_rfl, hbit, h⟩
    | false =>
      have hlevel : (s.next node inner matchlevel).level + left = 32 := by
        simp only [MerkleClimb.next]
        omega
      obtain ⟨s', hrun, hle, hset, hs'⟩ :=
        Climbing.propagate hpos hlt hinner hlevel (h.next hinner hbit)
      exact ⟨s', hrun, by simp only [MerkleClimb.next] at hle; omega, hset, hs'⟩

end Climb

/-! ## The leaves -/

section Leaves

variable {node} {leaf : ℕ → Hash} {n pos c : ℕ}

/-- After `c` leaves. -/
structure Counted (node : Hash → Hash → Hash) (leaf : ℕ → Hash) (n pos c : ℕ)
    (s : MerkleCounter Hash) : Prop where
  count : s.count = c
  inner : InnerNodes node leaf n c s.inner
  tracked : (c ≤ pos ∧ s.matchlevel = -1 ∧ s.path = []) ∨
    MatchedAbove node leaf n pos c 0 s.matchlevel s.path

lemma succ_div_two_pow {level k : ℕ} (hbit : (c + 1).testBit level = true) (hlt : level < k) :
    (c + 1) / 2 ^ k = c / 2 ^ k := by
  have hndvd : ¬ 2 ^ k ∣ c + 1 := by
    intro hdvd
    obtain ⟨q, hq⟩ := hdvd
    obtain ⟨j, rfl⟩ := Nat.exists_eq_add_of_lt hlt
    have hsplit : c + 1 = 2 ^ level * (2 * (2 ^ j * q)) := by
      rw [hq]
      ring
    have hodd := testBit_iff.mp hbit
    rw [hsplit, Nat.mul_div_cancel_left _ (Nat.two_pow_pos _)] at hodd
    omega
  rw [Nat.succ_div, if_neg hndvd, Nat.add_zero]

lemma testBit_of_dvd {count level k : ℕ} (hdvd : 2 ^ level ∣ count) (hlt : k < level) :
    count.testBit k = false := by
  obtain ⟨q, rfl⟩ := hdvd
  obtain ⟨j, rfl⟩ := Nat.exists_eq_add_of_lt hlt
  have hsplit : 2 ^ (k + j + 1) * q = 2 ^ k * (2 * (2 ^ j * q)) := by ring
  rw [← Bool.not_eq_true, testBit_iff, hsplit, Nat.mul_div_cancel_left _ (Nat.two_pow_pos _)]
  omega

lemma InnerNodes.update {inner : ℕ → Hash} {matchlevel : ℤ} {r : MerkleClimb Hash}
    (h : InnerNodes node leaf n c inner)
    (hr : Climbing node leaf n pos c (c + 1) matchlevel r)
    (hbit : (c + 1).testBit r.level = true) :
    InnerNodes node leaf n (c + 1) (Function.update inner r.level r.h) := by
  intro k hk
  rcases lt_trichotomy k r.level with hlt | rfl | hgt
  · rw [testBit_of_dvd hr.dvd hlt] at hk
    cases hk
  · rw [Function.update_self, hr.h, hr.count, Nat.add_sub_cancel]
  · have hdiv := succ_div_two_pow hbit hgt
    have hc : c.testBit k = true := by
      rw [testBit_iff, ← hdiv]
      exact testBit_iff.mp hk
    rw [Function.update_of_ne hgt.ne', h k hc, hdiv]

/-- **One leaf more.** -/
lemma Counted.addLeaf {s : MerkleCounter Hash} (h : Counted node leaf n pos c s) (hc : c < n)
    (hn : n ≤ 2 ^ 31) :
    ∃ s', s.addLeaf node pos (leaf c) = some s' ∧ Counted node leaf n pos (c + 1) s' := by
  have hmod : (s.count + 1) % 2 ^ 32 = c + 1 := by
    rw [h.count]
    exact mod_eq_of_lt (by omega)
  have hstart : Climbing node leaf n pos c (c + 1) s.matchlevel
      { level := 0, h := leaf c, matchh := s.count = pos, path := s.path } := by
    refine ⟨by simp [merkleNode], by simpa using hc, zero_le _, by simp, by simp, ?_⟩
    unfold Tracked
    by_cases hpos : c = pos
    · rw [if_pos (by simp [h.count, hpos])]
      obtain ⟨-, -, hpath⟩ | ⟨m, -, -, -, hdiv, -⟩ := h.tracked
      · exact ⟨by rw [hpos], hpath⟩
      · rw [hpos] at hdiv
        omega
    · rw [if_neg (by simp [h.count, hpos])]
      exact h.tracked.imp (fun hbefore => ⟨by omega, hbefore.2⟩) id
  obtain ⟨r, hrun, -, hbit, hr⟩ :=
    hstart.propagate (succ_pos c) (by omega : c + 1 < 2 ^ 32) h.inner
      (show 0 + 32 = 32 from rfl)
  refine ⟨⟨c + 1, Function.update s.inner r.level r.h,
    if r.matchh then r.level else s.matchlevel, r.path⟩, ?_, rfl, h.inner.update hr hbit, ?_⟩
  · simp only [MerkleCounter.addLeaf, hmod, hrun]
    rfl
  · have htracked := hr.tracked
    unfold Tracked at htracked
    cases hmatch : r.matchh with
    | true =>
      rw [if_pos hmatch] at htracked
      refine .inr ⟨r.level, by simp, zero_le _, hbit, ?_, htracked.2⟩
      rw [htracked.1, hr.count]
    | false =>
      rw [if_neg (by rw [hmatch]; exact Bool.false_ne_true)] at htracked
      obtain ⟨hlt, hrest⟩ | ⟨m, hm, hle, hset, hdiv, hpath⟩ := htracked
      · exact .inl ⟨hlt, hrest⟩
      · have hne : m ≠ r.level := by
          rintro rfl
          have hcount := hr.count
          have hodd := testBit_iff.mp hbit
          have hodd' := testBit_iff.mp hset
          omega
        have hsucc := succ_div_two_pow hbit (lt_of_le_of_ne hle hne.symm)
        refine .inr ⟨m, hm, zero_le _, ?_, hdiv.trans hsucc.symm, hpath⟩
        rw [testBit_iff, hsucc]
        exact testBit_iff.mp hset

/-- **All leaves.**  The induction is on the leaves that are left. -/
lemma Counted.foldlM (hn : n ≤ 2 ^ 31) : ∀ (rest : List Hash) {c : ℕ} {s : MerkleCounter Hash},
    Counted node leaf n pos c s → c + rest.length = n →
    (∀ i, (h : i < rest.length) → leaf (c + i) = rest[i]) →
    ∃ s', rest.foldlM (MerkleCounter.addLeaf node pos) s = some s' ∧
      Counted node leaf n pos n s'
  | [], c, s, h, hlength, _ => ⟨s, rfl, by rwa [show c = n by simpa using hlength] at h⟩
  | x :: rest, c, s, h, hlength, hleaf => by
    rw [List.length_cons] at hlength
    have hx : leaf c = x := hleaf 0 (succ_pos _)
    obtain ⟨s₁, hadd, hs₁⟩ := h.addLeaf (by omega) hn
    obtain ⟨s', hrun, hs'⟩ := Counted.foldlM hn rest hs₁ (by omega) fun i hi => by
      have hi' := hleaf (i + 1) (succ_lt_succ hi)
      rwa [← add_assoc, add_right_comm] at hi'
    refine ⟨s', ?_, hs'⟩
    rw [List.foldlM_cons, ← hx, hadd]
    exact hrun

end Leaves

/-! ## The sweep -/

section Sweep

variable {node} {leaf : ℕ → Hash} {n pos : ℕ} {inner : ℕ → Hash} {matchlevel : ℤ}

/-- `h` is the last node of a level, and the counter shows how many nodes the level has. -/
structure Swept (node : Hash → Hash → Hash) (leaf : ℕ → Hash) (n pos count : ℕ) (matchlevel : ℤ)
    (s : MerkleClimb Hash) : Prop where
  h : s.h = merkleNode node leaf n s.level (count / 2 ^ s.level - 1)
  width : treeWidth n s.level = count / 2 ^ s.level
  height : s.level ≤ Nat.clog 2 n
  dvd : 2 ^ s.level ∣ count
  bit : count.testBit s.level = true
  lt : count < 2 ^ 32
  tracked : if s.matchh then
      pos / 2 ^ s.level = count / 2 ^ s.level - 1 ∧ s.path = siblings node leaf n pos s.level
    else MatchedAbove node leaf n pos n (s.level + 1) matchlevel s.path

variable {count : ℕ} {s : MerkleClimb Hash}

lemma Swept.double (h : Swept node leaf n pos count matchlevel s)
    (htop : count ≠ 2 ^ s.level) (hn : n ≤ 2 ^ 31) :
    Climbing node leaf n pos n (count + 2 ^ s.level) matchlevel (s.double node) ∧
      count + 2 ^ s.level < 2 ^ 32 := by
  have hodd := testBit_iff.mp h.bit
  have hwidth := h.width
  obtain ⟨w, rfl⟩ := h.dvd
  rw [Nat.mul_div_cancel_left _ (Nat.two_pow_pos _)] at hodd hwidth
  have hw : w ≠ 1 := fun heq => htop (by rw [heq, mul_one])
  -- The last node begins below the end of the leaves.
  have hlast : (w - 1) * 2 ^ s.level < n := lt_treeWidth_iff.mp (by omega)
  have hend : n ≤ w * 2 ^ s.level := by
    rw [← not_lt, ← lt_treeWidth_iff]
    omega
  have hpow : 2 ^ s.level ≤ 2 ^ 30 := by
    refine Nat.pow_le_pow_right (by omega) ?_
    by_contra hlevel
    have hbig : 2 ^ 31 ≤ 2 ^ s.level := Nat.pow_le_pow_right (by omega) (by omega)
    have htwo : 2 * 2 ^ s.level ≤ (w - 1) * 2 ^ s.level := mul_le_mul_right _ (by omega)
    omega
  obtain ⟨j, rfl⟩ : ∃ j, w = 2 * j + 1 := ⟨w / 2, by omega⟩
  have hdiv : n / 2 ^ s.level / 2 = j := by
    have hlow : 2 * j ≤ n / 2 ^ s.level := by
      rw [Nat.le_div_iff_mul_le (Nat.two_pow_pos _)]
      exact (by simpa using hlast.le)
    have hhigh : n / 2 ^ s.level ≤ 2 * j + 1 := by
      rw [← Nat.lt_succ_iff, Nat.div_lt_iff_lt_mul (Nat.two_pow_pos _)]
      nlinarith [Nat.two_pow_pos s.level]
    omega
  have hhere : 2 ^ s.level * (2 * j + 1) / 2 ^ s.level = 2 * j + 1 :=
    Nat.mul_div_cancel_left _ (Nat.two_pow_pos _)
  have hcount : 2 ^ s.level * (2 * j + 1) + 2 ^ s.level = 2 ^ (s.level + 1) * (j + 1) := by ring
  have hh : s.h = merkleNode node leaf n s.level (2 * j) := by
    rw [h.h, hhere, Nat.add_sub_cancel]
  have halone : ¬ 2 * j + 1 < treeWidth n s.level := by omega
  refine ⟨⟨?_, ?_, ?_, ?_, ?_, ?_⟩, ?_⟩
  · simp only [MerkleClimb.double, div_two_pow_succ, hdiv, hh, merkleNode, if_neg halone]
  · simp only [MerkleClimb.double, div_two_pow_succ, hdiv]
    have hparent := half_lt_treeWidth (show 2 * j < treeWidth n s.level by omega)
    rwa [Nat.mul_div_cancel_left _ (by omega)] at hparent
  · exact one_lt_treeWidth_iff.mp (by omega)
  · exact ⟨j + 1, hcount⟩
  · simp only [MerkleClimb.double, div_two_pow_succ, hdiv]
    rw [← div_two_pow_succ, hcount, Nat.mul_div_cancel_left _ (Nat.two_pow_pos _)]
  · have htracked := h.tracked
    unfold Tracked
    by_cases hmatch : s.matchh = true
    · rw [if_pos hmatch, hhere, Nat.add_sub_cancel] at htracked
      rw [if_pos (show (s.double node).matchh = true from hmatch)]
      simp only [MerkleClimb.double, if_pos hmatch]
      have hsibling : s.h = sibling node leaf n s.level (pos / 2 ^ s.level) := by
        rw [htracked.1, sibling, if_neg (by omega), if_neg halone, hh]
      refine ⟨?_, by rw [siblings_succ, ← htracked.2, ← hsibling]⟩
      rw [div_two_pow_succ, div_two_pow_succ, hdiv, htracked.1]
      omega
    · rw [if_neg hmatch] at htracked
      rw [if_neg (show ¬ (s.double node).matchh = true from hmatch)]
      simp only [MerkleClimb.double, if_neg hmatch]
      exact .inr htracked
  · have hsplit : 2 ^ s.level * (2 * j + 1) + 2 ^ s.level =
        (2 * j + 1 - 1) * 2 ^ s.level + 2 * 2 ^ s.level := by
      rw [Nat.add_sub_cancel]
      ring
    omega

lemma Climbing.swept (h : Climbing node leaf n pos n count matchlevel s) (hpos : pos < n)
    (hbit : count.testBit s.level = true) (hlt : count < 2 ^ 32) :
    Swept node leaf n pos count matchlevel s := by
  have hcount := h.count
  have hwidth : treeWidth n s.level = count / 2 ^ s.level := by
    have hle : ¬ n / 2 ^ s.level + 1 < treeWidth n s.level := by
      rw [lt_treeWidth_iff, not_lt]
      exact (Nat.lt_mul_div_succ n (Nat.two_pow_pos s.level)).le.trans_eq (Nat.mul_comm ..)
    have hlt' := h.width
    omega
  refine ⟨by rw [h.h, hcount, Nat.add_sub_cancel], hwidth, h.height, h.dvd, hbit, hlt, ?_⟩
  have htracked := h.tracked
  unfold Tracked at htracked
  split
  · next hmatch =>
    rw [if_pos hmatch] at htracked
    exact ⟨by rw [htracked.1, hcount, Nat.add_sub_cancel], htracked.2⟩
  · next hmatch =>
    rw [if_neg hmatch] at htracked
    obtain ⟨hlate, -⟩ | ⟨m, hm, hle, hset, hrest⟩ := htracked
    · omega
    · have hne : m ≠ s.level := by
        rintro rfl
        have hodd := testBit_iff.mp hbit
        have hodd' := testBit_iff.mp hset
        omega
      exact ⟨m, hm, by omega, hset, hrest⟩

/-- **The sweep ends with the whole path.** -/
lemma Swept.sweep (hn : n ≤ 2 ^ 31) (hpos : pos < n) (hinner : InnerNodes node leaf n n inner) :
    ∀ {left count : ℕ} {s : MerkleClimb Hash}, 32 ≤ s.level + left →
    Swept node leaf n pos count matchlevel s →
    ∃ r, s.sweep node inner matchlevel left count = some r ∧
      r.path = siblings node leaf n pos (Nat.clog 2 n)
  | left, count, s, hleft, h => by
    by_cases htop : count = 2 ^ s.level
    · have hone : treeWidth n s.level = 1 := by
        rw [h.width, htop, Nat.div_self (Nat.two_pow_pos _)]
      have hheight : s.level = Nat.clog 2 n :=
        h.height.antisymm (not_lt.mp (mt one_lt_treeWidth_iff.mpr (by omega)))
      refine ⟨s, by unfold MerkleClimb.sweep; rw [if_pos htop], ?_⟩
      have htracked := h.tracked
      split at htracked
      · rw [htracked.2, hheight]
      · -- Above the root there is no node that could have the leaf.
        obtain ⟨m, -, hle, hset, -⟩ := htracked
        have hbig : 2 ^ m ≤ n := ge_two_pow_of_testBit hset
        have hsmall : n ≤ 2 ^ s.level := by
          rw [hheight]
          exact le_pow_clog one_lt_two n
        have hlt : 2 ^ s.level < 2 ^ m := Nat.pow_lt_pow_right Nat.one_lt_two (by omega)
        omega
    · obtain ⟨hdouble, hlt⟩ := h.double htop hn
      have hlevel : s.level < 32 := by
        by_contra hge
        have hbig : 2 ^ 32 ≤ 2 ^ s.level := Nat.pow_le_pow_right (by omega) (by omega)
        omega
      match left with
      | 0 => omega
      | left + 1 =>
        have hup : (s.double node).level + (31 - s.level) = 32 := by
          simp only [MerkleClimb.double]
          omega
        obtain ⟨s', hrun, hle, hbit, hs'⟩ :=
          hdouble.propagate (by positivity) hlt hinner hup
        have hleft' : 32 ≤ s'.level + left := by
          omega
        obtain ⟨r, hsweep, hpath⟩ :=
          Swept.sweep hn hpos hinner hleft' (hs'.swept hpos hbit hlt)
        refine ⟨r, ?_, hpath⟩
        rw [MerkleClimb.sweep, if_neg htop, mod_eq_of_lt hlt]
        simp only [hrun]
        exact hsweep

lemma lowestBit_eq_some (hpos : 0 < count) (hlt : count < 2 ^ 32) :
    ∀ {left level : ℕ}, level + left = 32 → 2 ^ level ∣ count →
    ∃ k, lowestBit count left level = some k ∧ 2 ^ k ∣ count ∧ count.testBit k = true
  | 0, level, hleft, hdvd => by
    rw [show level = 32 by omega] at hdvd
    exact absurd (le_of_dvd hpos hdvd) (by omega)
  | left + 1, level, hleft, hdvd => by
    rw [lowestBit]
    cases hbit : count.testBit level with
    | true => exact ⟨level, rfl, hdvd, hbit⟩
    | false =>
      refine lowestBit_eq_some hpos hlt (by omega) ?_
      obtain ⟨q, rfl⟩ := hdvd
      have heven : ¬ q % 2 = 1 := by
        rw [← Nat.mul_div_cancel_left q (Nat.two_pow_pos level), ← testBit_iff, hbit]
        exact Bool.false_ne_true
      obtain ⟨r, rfl⟩ : 2 ∣ q := by omega
      exact ⟨r, by ring⟩

lemma Counted.swept {s : MerkleCounter Hash} {level : ℕ} (h : Counted node leaf n pos n s)
    (hpos : pos < n) (hlt : n < 2 ^ 32) (hdvd : 2 ^ level ∣ n) (hbit : n.testBit level = true) :
    Swept node leaf n pos n s.matchlevel
      { level, h := s.inner level, matchh := s.matchlevel = level, path := s.path } := by
  have hle : 2 ^ level ≤ n := ge_two_pow_of_testBit hbit
  have hwidth : treeWidth n level = n / 2 ^ level := by
    refine eq_of_forall_lt_iff fun i => ?_
    rw [lt_treeWidth_iff, Nat.lt_div_iff_mul_lt_of_dvd (Nat.two_pow_pos level).ne' hdvd]
  have hheight : level ≤ Nat.clog 2 n :=
    (Nat.pow_le_pow_iff_right Nat.one_lt_two).mp (hle.trans (Nat.le_pow_clog Nat.one_lt_two n))
  refine ⟨h.inner level hbit, hwidth, hheight, hdvd, hbit, hlt, ?_⟩
  obtain ⟨hlate, -⟩ | ⟨m, hm, -, hset, hdiv, hpath⟩ := h.tracked
  · omega
  · by_cases hmatch : m = level
    · rw [if_pos (by simp [hm, hmatch])]
      subst hmatch
      exact ⟨Nat.eq_sub_of_add_eq hdiv, hpath⟩
    · rw [if_neg (by simp [hm, hmatch])]
      have hge : ¬ m < level := fun hlt' => by
        rw [testBit_of_dvd hdvd hlt'] at hset
        cases hset
      exact ⟨m, hm, by dsimp only; omega, hset, hdiv, hpath⟩

end Sweep

/-! ## The whole computation -/

lemma merkleComputation_eq [Zero Hash] {leaves : List Hash} {leaf : ℕ → Hash} {pos : ℕ}
    (hn : leaves.length ≤ 2 ^ 31) (hpos : pos < leaves.length)
    (hleaf : ∀ i, (h : i < leaves.length) → leaf i = leaves[i]) :
    merkleComputation node leaves pos =
      some (siblings node leaf leaves.length pos (Nat.clog 2 leaves.length)) := by
  have hstart : Counted node leaf leaves.length pos 0
      { count := 0, inner := fun _ => 0, matchlevel := -1, path := [] } :=
    ⟨rfl, fun k hk => by simp at hk, .inl ⟨zero_le _, rfl, rfl⟩⟩
  obtain ⟨s, hfold, hs⟩ := hstart.foldlM hn leaves (zero_add _) fun i hi => by
    rw [zero_add]
    exact hleaf i hi
  have hlt : leaves.length < 2 ^ 32 := by omega
  obtain ⟨level, hlowest, hdvd, hbit⟩ :=
    lowestBit_eq_some (by omega : 0 < leaves.length) hlt (zero_add 32) (one_dvd _)
  obtain ⟨r, hsweep, hpath⟩ :=
    (hs.swept hpos hlt hdvd hbit).sweep hn hpos hs.inner (le_add_left 32 level)
  rw [merkleComputation, if_neg (by omega), if_neg (by omega)]
  simp only [hfold, Option.bind_eq_bind, Option.bind_some, hs.count, hlowest, hsweep, hpath]
  rfl

variable [DecidableEq Hash] [Zero Hash]

/-- **Paths lead to the root.**  For up to `2 ^ 31` leaves `ComputeMerklePath` comes to its end
within the 32 entries of `inner`, and hashing the leaf at the position with its path, to the left or
to the right by the bits of the position, gives `ComputeMerkleRoot` of the leaves. -/
theorem foldPath_computeMerklePath (leaves : List Hash) (position : ℕ)
    (hn : leaves.length ≤ 2 ^ 31) (hposition : position < leaves.length) :
    ∃ path, computeMerklePath node leaves position = some path ∧
      foldPath node position path leaves[position] = (computeMerkleRoot node leaves).1 := by
  have hne : leaves ≠ [] := List.length_pos_iff.mp (by omega)
  have hleaf : ∀ i, (h : i < leaves.length) → leaves.getD i 0 = leaves[i] :=
    fun i hi => List.getD_eq_getElem leaves 0 hi
  refine ⟨_, merkleComputation_eq node hn hposition hleaf, ?_⟩
  have hfold := foldPath_siblings node (leaves.getD · 0) leaves.length hposition
    (Nat.clog 2 leaves.length)
  have htop : position / 2 ^ Nat.clog 2 leaves.length = 0 :=
    div_eq_of_lt (hposition.trans_le (le_pow_clog one_lt_two _))
  rw [htop, hleaf position hposition] at hfold
  rw [hfold, computeMerkleRoot, merkleRoot_eq node (leaves.getD · 0) 0 hne hleaf]

/-- The path of the last of five leaves, whose node is hashed with itself twice. -/
theorem foldPath_computeMerklePath_five :
    ([10, 11, 12, 13, 14] : List ℕ).length ≤ 2 ^ 31 ∧
      ∃ path, computeMerklePath (fun a b => 100 * a + b) [10, 11, 12, 13, 14] 4 = some path ∧
        foldPath (fun a b => 100 * a + b) 4 path 14 =
          (computeMerkleRoot (fun a b => 100 * a + b) [10, 11, 12, 13, 14]).1 :=
  ⟨by decide, foldPath_computeMerklePath _ [10, 11, 12, 13, 14] 4 (by decide) (by decide)⟩

end SlithyTove
