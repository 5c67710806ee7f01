import SlithyTove.Validation.ContextualCheck

/-!
# Malleability of Merkle roots

`ComputeMerkleRoot` (`consensus/merkle.cpp`) repeats the last hash of an odd level, so that
different lists of transactions can have one root.  It reports the lists in which two hashes of one
pair are equal, and `CheckMerkleRoot` refuses a block whose list is reported.

If the hash of a pair determines the pair and is never a leaf, that is enough
(`computeMerkleRoot_malleability`): of all lists with one root only the shortest is not reported.
The empty list is apart, as its root is the null hash whatever that is the hash of.
-/

namespace SlithyTove

open Framework

variable {Hash : Type} [DecidableEq Hash] [Zero Hash]

/-- `ComputeMerkleRoot`, with the flag it writes to `mutated`. -/
def computeMerkleRoot (node : Hash → Hash → Hash) (hashes : List Hash) : Hash × Bool :=
  merkleRoot node 0 hashes

variable {node : Hash → Hash → Hash} {leaves : Set Hash}

omit [DecidableEq Hash] [Zero Hash] in
lemma noCollisionBetween_of_injective2 (hinj : Function.Injective2 node)
    (hleaf : ∀ a b, node a b ∉ leaves) {L₁ L₂ : List Hash} (hL₁ : ∀ x ∈ L₁, x ∈ leaves)
    (hL₂ : ∀ x ∈ L₂, x ∈ leaves) : NoCollisionBetween node L₁ L₂ := by
  refine ⟨fun _ _ _ _ _ _ _ _ h => hinj h, fun a _ b _ hmem => ?_⟩
  rcases List.mem_append.1 hmem with hmem | hmem
  · exact hleaf a b (hL₁ _ hmem)
  · exact hleaf a b (hL₂ _ hmem)

lemma computeMerkleRoot_eq_or_reported {L₁ L₂ : List Hash}
    (hcollision : NoCollisionBetween node L₁ L₂) (hne₁ : L₁ ≠ []) (hne₂ : L₂ ≠ [])
    (hroot : (computeMerkleRoot node L₁).1 = (computeMerkleRoot node L₂).1) :
    L₁ = L₂ ∨ (L₁.length < L₂.length ∧ (computeMerkleRoot node L₂).2 = true) ∨
      (L₂.length < L₁.length ∧ (computeMerkleRoot node L₁).2 = true) := by
  obtain ⟨hinj, hleaf⟩ := hcollision
  have hlevel : ∀ L ⊆ L₁ ++ L₂, ∀ x ∈ L, AtLevel node {x | x ∈ L₁ ++ L₂}
      (treeHashes node L₁.length L₁ ++ treeHashes node L₂.length L₂) 0 x :=
    fun L hL x hx => .leaf (hL hx)
  have hlevel₁ := hlevel L₁ (List.subset_append_left _ _)
  have hlevel₂ := hlevel L₂ (List.subset_append_right _ _)
  have hmet₁ := List.subset_append_left (treeHashes node L₁.length L₁)
    (treeHashes node L₂.length L₂)
  have hmet₂ := List.subset_append_right (treeHashes node L₁.length L₁)
    (treeHashes node L₂.length L₂)
  obtain ⟨r₁, -, hr₁, -⟩ := exists_root_atLevel L₁.length hne₁ le_rfl hmet₁ hlevel₁
  obtain ⟨r₂, -, hr₂, -⟩ := exists_root_atLevel L₂.length hne₂ le_rfl hmet₂ hlevel₂
  simp only [computeMerkleRoot, merkleRoot, hr₁, hr₂, List.head?_cons, Option.getD_some] at hroot
  exact merkleLoop_eq_or_reported hinj hleaf _ hne₁ hne₂ le_rfl le_rfl hmet₁ hmet₂ hlevel₁ hlevel₂
    (by rw [hr₁, hr₂, hroot])

lemma computeMerkleRoot_of_nodup (hinj : Function.Injective2 node) {L : List Hash} (hL : L.Nodup) :
    (computeMerkleRoot node L).2 = false := by
  refine merkleRoot_snd node hL ?_
  have hany : ∀ (fuel : ℕ) (l : List Hash), NoCollision node fuel l := by
    intro fuel
    induction fuel with
    | zero => exact fun _ => trivial
    | succ fuel ih => exact fun l => ⟨fun _ _ _ _ _ _ _ _ h => hinj h, ih _⟩
  exact hany _ _

/-- **Every repetition is reported.**  For a hash of pairs that is injective and never a leaf, two
different lists of leaves with one root have different lengths, and the longer one is reported as
mutated unless the shorter one is empty; a list of distinct leaves is not reported. -/
theorem computeMerkleRoot_malleability (node : Hash → Hash → Hash) (leaves : Set Hash)
    (hinj : Function.Injective2 node) (hleaf : ∀ a b, node a b ∉ leaves) :
    (∀ L₁ L₂ : List Hash, (∀ x ∈ L₁, x ∈ leaves) → (∀ x ∈ L₂, x ∈ leaves) → L₁ ≠ L₂ →
      (computeMerkleRoot node L₁).1 = (computeMerkleRoot node L₂).1 →
      (L₁.length < L₂.length ∧ (L₁ ≠ [] → (computeMerkleRoot node L₂).2 = true)) ∨
        (L₂.length < L₁.length ∧ (L₂ ≠ [] → (computeMerkleRoot node L₁).2 = true))) ∧
    ∀ L : List Hash, L.Nodup → (computeMerkleRoot node L).2 = false := by
  refine ⟨fun L₁ L₂ hL₁ hL₂ hne hroot => ?_, fun L hL => computeMerkleRoot_of_nodup hinj hL⟩
  rcases eq_or_ne L₁ [] with rfl | hne₁
  · exact .inl ⟨List.length_pos_iff.2 (Ne.symm hne), fun h => absurd rfl h⟩
  rcases eq_or_ne L₂ [] with rfl | hne₂
  · exact .inr ⟨List.length_pos_iff.2 hne, fun h => absurd rfl h⟩
  rcases computeMerkleRoot_eq_or_reported (noCollisionBetween_of_injective2 hinj hleaf hL₁ hL₂)
    hne₁ hne₂ hroot with heq | ⟨hlt, hflag⟩ | ⟨hlt, hflag⟩
  · exact absurd heq hne
  · exact .inl ⟨hlt, fun _ => hflag⟩
  · exact .inr ⟨hlt, fun _ => hflag⟩

/-- Hashes as terms: no two pairs collide, and no leaf is the hash of a pair. -/
inductive HashTerm
  | leaf (n : ℕ)
  | node (a b : HashTerm)
  deriving DecidableEq, Repr

instance : Zero HashTerm := ⟨.leaf 0⟩

lemma HashTerm.node_injective2 : Function.Injective2 HashTerm.node := by
  intro a c b d h
  cases h
  exact ⟨rfl, rfl⟩

lemma HashTerm.node_notMem (a b : HashTerm) : HashTerm.node a b ∉ Set.range HashTerm.leaf := by
  rintro ⟨n, h⟩
  cases h

/-- The six leaves of the comment in the source, and the same with the last two repeated. -/
theorem computeMerkleRoot_malleability_sixLeaves :
    (computeMerkleRoot HashTerm.node
        [.leaf 1, .leaf 2, .leaf 3, .leaf 4, .leaf 5, .leaf 6, .leaf 5, .leaf 6]).2 = true ∧
      (computeMerkleRoot HashTerm.node [.leaf 1, .leaf 2, .leaf 3]).2 = false := by
  obtain ⟨hreported, hdistinct⟩ := computeMerkleRoot_malleability HashTerm.node
    (Set.range HashTerm.leaf) HashTerm.node_injective2 HashTerm.node_notMem
  refine ⟨?_, hdistinct _ (by decide)⟩
  rcases hreported [.leaf 1, .leaf 2, .leaf 3, .leaf 4, .leaf 5, .leaf 6]
    [.leaf 1, .leaf 2, .leaf 3, .leaf 4, .leaf 5, .leaf 6, .leaf 5, .leaf 6] (by simp) (by simp)
    (by decide) rfl with ⟨-, hflag⟩ | ⟨hlt, -⟩
  · exact hflag (by decide)
  · exact absurd hlt (by decide)

/-- The empty list and the list of the null hash have one root, and neither is reported. -/
theorem computeMerkleRoot_empty_and_null :
    (0 : HashTerm) ∈ Set.range HashTerm.leaf ∧ ([] : List HashTerm) ≠ [0] ∧
      (computeMerkleRoot HashTerm.node []).1 = (computeMerkleRoot HashTerm.node [0]).1 ∧
      (computeMerkleRoot HashTerm.node [0]).2 = false :=
  ⟨⟨0, rfl⟩, by decide, rfl, rfl⟩

variable {trees : WitnessHashing Hash} {hashing : Hashing Hash}

lemma checkMerkleRoot_checks
    {block : CBlock Hash} (h : checkMerkleRoot hashing trees block = .ok ()) :
    block.hashMerkleRoot = (computeMerkleRoot trees.node (block.vtx.map hashing.txid)).1 ∧
      (computeMerkleRoot trees.node (block.vtx.map hashing.txid)).2 = false := by
  obtain ⟨_, hmatch, hflag⟩ := bind_eq_ok.1 h
  exact ⟨ensure_eq_ok.1 hmatch, ensure_eq_ok.1 hflag⟩

/-- **Blocks that pass `CheckMerkleRoot` with one root have the same transactions**, if they have
any and the hashes of their trees do not collide. -/
theorem checkMerkleRoot_unique {block block' : CBlock Hash}
    (hcollision : NoCollisionBetween trees.node (block.vtx.map hashing.txid)
      (block'.vtx.map hashing.txid))
    (hne : block.vtx ≠ []) (hne' : block'.vtx ≠ [])
    (hroot : block.hashMerkleRoot = block'.hashMerkleRoot)
    (h : checkMerkleRoot hashing trees block = .ok ())
    (h' : checkMerkleRoot hashing trees block' = .ok ()) :
    block.vtx.map hashing.txid = block'.vtx.map hashing.txid := by
  obtain ⟨hmatch, hflag⟩ := checkMerkleRoot_checks h
  obtain ⟨hmatch', hflag'⟩ := checkMerkleRoot_checks h'
  rcases computeMerkleRoot_eq_or_reported hcollision (by simpa using hne) (by simpa using hne')
    (by rw [← hmatch, ← hmatch', hroot]) with heq | ⟨-, hreported⟩ | ⟨-, hreported⟩
  · exact heq
  · rw [hflag'] at hreported
    cases hreported
  · rw [hflag] at hreported
    cases hreported

/-- Transactions with the same ids in two versions. -/
theorem checkMerkleRoot_unique_versions :
    let hashing : Hashing HashTerm := ⟨fun tx => .leaf tx.nLockTime.toNat, fun _ => 0⟩
    let block (v : UInt32) : CBlock HashTerm := ⟨⟨4, 0, .node (.leaf 1) (.leaf 2), 0, 0, 0⟩,
      [⟨v, [], [], 1⟩, ⟨v, [], [], 2⟩]⟩
    (block 1).vtx.map hashing.txid = (block 2).vtx.map hashing.txid := by
  intro hashing block
  let trees : WitnessHashing HashTerm := ⟨.node, fun _ => 0, fun _ _ => ⟨.replicate 32 0, rfl⟩⟩
  have hcheck : ∀ v, checkMerkleRoot hashing trees (block v) = .ok () := fun _ => rfl
  have hleaf : ∀ v, ∀ x ∈ (block v).vtx.map hashing.txid, x ∈ Set.range HashTerm.leaf := by
    simp [block, hashing]
  exact checkMerkleRoot_unique (noCollisionBetween_of_injective2 HashTerm.node_injective2
    HashTerm.node_notMem (hleaf 1) (hleaf 2)) (by decide) (by decide) rfl (hcheck 1) (hcheck 2)

end SlithyTove
