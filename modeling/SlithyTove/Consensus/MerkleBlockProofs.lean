import SlithyTove.Consensus.MerkleBlock
import Mathlib.Data.BitVec

/-!
# What partial Merkle trees prove

A partial tree that was built from transaction ids gives back the root and the matched ids
(`extractMatches_build`): what `TraverseAndBuild` writes for a node is what `TraverseAndExtract`
takes for it.  The test for equal children does not get in the way, since the nodes of a level are
distinct where the ids are.

And whatever the bits and the hashes are, a tree whose root is that of a list shows nothing that is
not in the list (`extractMatches_sound`): where the hash of a node is right, so are the hashes of
its children, down to the leaves.
-/

namespace SlithyTove

open Framework List Option Nat

namespace CPartialMerkleTree

/-! ## Widths and heights -/

section Widths

variable {n : ℕ}

lemma calcTreeWidth_eq (hmax : n ≤ 16666) {height : ℕ} (hheight : height ≤ 15) :
    calcTreeWidth n height = treeWidth n height := by
  have hpow : 2 ^ height ≤ 2 ^ 15 := Nat.pow_le_pow_right (by omega) hheight
  rw [calcTreeWidth, mod_eq_of_lt (by omega), treeWidth]

lemma clog_le_of_le (hmax : n ≤ 16666) : Nat.clog 2 n ≤ 15 :=
  (clog_le_iff_le_pow one_lt_two).mpr (by omega)

lemma calcHeight_eq_of_le (hmax : n ≤ 16666) : ∀ {left height : ℕ}, height ≤ Nat.clog 2 n →
    Nat.clog 2 n < height + left → calcHeight n left height = some (Nat.clog 2 n)
  | 0, height, hle, hlt => by omega
  | left + 1, height, hle, hlt => by
    have hclog := clog_le_of_le hmax
    rw [calcHeight, calcTreeWidth_eq hmax (hle.trans hclog)]
    by_cases hwidth : 1 < treeWidth n height
    · rw [if_pos hwidth]
      exact calcHeight_eq_of_le hmax (one_lt_treeWidth_iff.mp hwidth) (by omega)
    · rw [if_neg hwidth]
      have hge := mt one_lt_treeWidth_iff.mpr hwidth
      exact congrArg some (by omega)

lemma calcHeight_eq (hmax : n ≤ 16666) : calcHeight n 32 0 = some (Nat.clog 2 n) :=
  calcHeight_eq_of_le hmax (zero_le _) (by have := clog_le_of_le hmax; omega)

end Widths

lemma merkleNode_children {Hash : Type} (node : Hash → Hash → Hash) (leaf : ℕ → Hash)
    (n height pos : ℕ) :
    merkleNode node leaf n (height + 1) pos =
      if pos * 2 + 1 < treeWidth n height then
        node (merkleNode node leaf n height (pos * 2)) (merkleNode node leaf n height (pos * 2 + 1))
      else
        node (merkleNode node leaf n height (pos * 2))
          (merkleNode node leaf n height (pos * 2)) := by
  rw [merkleNode, mul_comm 2 pos]
  split <;> rfl

/-! ## The leaves below a node -/

section Leaves

variable {n height pos : ℕ}

lemma leavesBelow_zero (hpos : pos < n) : leavesBelow n 0 pos = [pos] := by
  have hone : min (pos + 1) n - pos = 1 := by omega
  simp [leavesBelow, hone]

lemma leavesBelow_succ : leavesBelow n (height + 1) pos = leavesBelow n height (pos * 2) ++
      if pos * 2 + 1 < treeWidth n height then leavesBelow n height (pos * 2 + 1) else [] := by
  have hstart : pos * 2 ^ (height + 1) = pos * 2 * 2 ^ height := by ring
  have hmiddle : (pos * 2 + 1) * 2 ^ height = pos * 2 * 2 ^ height + 2 ^ height := by ring
  have hend : (pos * 2 + 1 + 1) * 2 ^ height = pos * 2 * 2 ^ height + 2 * 2 ^ height := by ring
  have hend' : (pos + 1) * 2 ^ (height + 1) = pos * 2 * 2 ^ height + 2 * 2 ^ height := by ring
  simp only [leavesBelow, hstart, hend', hend, lt_treeWidth_iff, hmiddle]
  generalize pos * 2 * 2 ^ height = a at *
  generalize 2 ^ height = w at *
  split
  · next hlt =>
    have hleft : min (a + w) n - a = w := by omega
    have hall : min (a + 2 * w) n - a = w + (min (a + 2 * w) n - (a + w)) := by omega
    rw [hleft, hall, List.range'_append_1]
  · next hge =>
    have hleft : min (a + w) n - a = min (a + 2 * w) n - a := by omega
    rw [hleft, append_nil]

lemma leavesBelow_clog : leavesBelow n (Nat.clog 2 n) 0 = List.range n := by
  have hle := le_pow_clog one_lt_two n
  have hmin : min (2 ^ Nat.clog 2 n) n = n := min_eq_right hle
  simp [leavesBelow, hmin, range_eq_range']

end Leaves

/-! ## Building -/

variable {Hash : Type} [Zero Hash] {node : Hash → Hash → Hash}

section Build

variable {n : ℕ} {vTxid : List Hash} {vMatch : List Bool}

lemma calcHash_eq (hmax : n ≤ 16666) {height : ℕ} (hheight : height ≤ 16) (pos : ℕ) :
    calcHash node n vTxid height pos = merkleNode node (vTxid.getD · 0) n height pos := by
  induction height generalizing pos with
  | zero => rfl
  | succ height ih =>
    simp only [calcHash, merkleNode, ih (by omega : height ≤ 16), mul_comm pos 2,
      calcTreeWidth_eq hmax (by omega : height ≤ 15)]

variable (node n vTxid vMatch) in
/-- The bits and the hashes of a node. -/
def part (height pos : ℕ) : List Bool × List Hash :=
  traverseAndBuild node n vTxid vMatch height pos ([], [])

lemma traverseAndBuild_eq : ∀ (height pos : ℕ) (s : List Bool × List Hash),
    traverseAndBuild node n vTxid vMatch height pos s =
      (s.1 ++ (part node n vTxid vMatch height pos).1,
        s.2 ++ (part node n vTxid vMatch height pos).2)
  | 0, pos, s => by simp [part, traverseAndBuild]
  | height + 1, pos, s => by
    simp only [part, traverseAndBuild]
    split
    · split
      · rw [traverseAndBuild_eq height (pos * 2 + 1), traverseAndBuild_eq height (pos * 2),
          traverseAndBuild_eq height (pos * 2 + 1) (traverseAndBuild ..),
          traverseAndBuild_eq height (pos * 2) ([] ++ _, [])]
        simp
      · rw [traverseAndBuild_eq height (pos * 2),
          traverseAndBuild_eq height (pos * 2) ([] ++ _, [])]
        simp
    · simp

variable {height pos : ℕ}

lemma part_of_match (hmax : n ≤ 16666) (hheight : height ≤ 15)
    (h : parentOfMatch n vMatch (height + 1) pos = true) :
    part node n vTxid vMatch (height + 1) pos =
      if pos * 2 + 1 < treeWidth n height then
        (true :: ((part node n vTxid vMatch height (pos * 2)).1 ++
            (part node n vTxid vMatch height (pos * 2 + 1)).1),
          (part node n vTxid vMatch height (pos * 2)).2 ++
            (part node n vTxid vMatch height (pos * 2 + 1)).2)
      else
        (true :: (part node n vTxid vMatch height (pos * 2)).1,
          (part node n vTxid vMatch height (pos * 2)).2) := by
  rw [part, traverseAndBuild]
  simp only [h, if_true, calcTreeWidth_eq hmax hheight]
  split
  · rw [traverseAndBuild_eq height (pos * 2 + 1), traverseAndBuild_eq height (pos * 2)]
    simp
  · rw [traverseAndBuild_eq height (pos * 2)]
    simp

lemma part_of_not_match (h : parentOfMatch n vMatch (height + 1) pos = false) :
    part node n vTxid vMatch (height + 1) pos =
      ([false], [calcHash node n vTxid (height + 1) pos]) := by
  rw [part, traverseAndBuild]
  simp [h]

lemma part_zero (hpos : pos < n) :
    part node n vTxid vMatch 0 pos = ([vMatch.getD pos false], [vTxid.getD pos 0]) := by
  simp [part, traverseAndBuild, parentOfMatch, leavesBelow_zero hpos, calcHash]

lemma length_part_le (hmax : n ≤ 16666) : ∀ {height : ℕ}, height ≤ 16 → ∀ pos,
    (part node n vTxid vMatch height pos).1.length < 2 ^ (height + 1)
  | 0, _, pos => by simp [part, traverseAndBuild]
  | height + 1, hheight, pos => by
    have hone : 1 ≤ 2 ^ (height + 1) := Nat.one_le_two_pow
    have ih := length_part_le hmax (by omega : height ≤ 16)
    cases hmatch : parentOfMatch n vMatch (height + 1) pos with
    | true =>
      have hleft := ih (pos * 2)
      have hright := ih (pos * 2 + 1)
      rw [part_of_match hmax (by omega) hmatch]
      split
      · simp only [length_cons, length_append]
        omega
      · simp only [length_cons]
        omega
    | false =>
      rw [part_of_not_match hmatch]
      simp only [length_singleton]
      omega

lemma length_part (hmax : n ≤ 16666) : ∀ {height : ℕ}, height ≤ 16 → ∀ pos,
    pos < treeWidth n height →
    (part node n vTxid vMatch height pos).2.length ≤
        (part node n vTxid vMatch height pos).1.length ∧
      (part node n vTxid vMatch height pos).2.length ≤ (leavesBelow n height pos).length
  | 0, _, pos, hpos => by
    rw [treeWidth_zero] at hpos
    simp [part_zero hpos, leavesBelow_zero hpos]
  | height + 1, hheight, pos, hpos => by
    have hchild : pos * 2 < treeWidth n height := by
      rw [treeWidth_succ] at hpos
      omega
    cases hmatch : parentOfMatch n vMatch (height + 1) pos with
    | true =>
      obtain ⟨hbits, hleaves⟩ := length_part hmax (by omega : height ≤ 16) (pos * 2) hchild
      rw [part_of_match hmax (by omega) hmatch, leavesBelow_succ]
      split
      · next hright =>
        obtain ⟨hbits', hleaves'⟩ :=
          length_part hmax (by omega : height ≤ 16) (pos * 2 + 1) hright
        simp only [length_cons, length_append]
        omega
      · simp only [length_cons, length_append]
        omega
    | false =>
      rw [part_of_not_match hmatch]
      refine ⟨le_rfl, ?_⟩
      have hfirst := lt_treeWidth_iff.mp hpos
      have hnext : pos * 2 ^ (height + 1) < (pos + 1) * 2 ^ (height + 1) :=
        Nat.mul_lt_mul_of_pos_right (Nat.lt_succ_self pos) (Nat.two_pow_pos _)
      simp only [length_singleton, leavesBelow, length_range']
      omega

end Build

/-! ## Extracting what was built -/

section Extract

lemma prefix_drop_append {α : Type} {a b l : List α} {k : ℕ} (h : a ++ b <+: l.drop k) :
    a <+: l.drop k ∧ b <+: l.drop (k + a.length) := by
  obtain ⟨rest, hrest⟩ := h
  refine ⟨⟨b ++ rest, by rw [← hrest, append_assoc]⟩, ⟨rest, ?_⟩⟩
  rw [← drop_drop, ← hrest, append_assoc, drop_left]

lemma getElem?_of_prefix_drop {α : Type} {x : α} {l : List α} {k : ℕ} (h : [x] <+: l.drop k) :
    k < l.length ∧ l[k]? = some x := by
  obtain ⟨rest, hrest⟩ := h
  have hget : l[k]? = some x := by
    have hhead : (l.drop k)[0]? = l[k + 0]? := List.getElem?_drop
    rw [← hrest] at hhead
    simpa using hhead.symm
  exact ⟨(List.getElem?_eq_some_iff.mp hget).1, hget⟩

variable {n : ℕ} {vTxid : List Hash} {vMatch : List Bool} {t : CPartialMerkleTree Hash}

variable (n vMatch) in
/-- The matched leaves below a node. -/
def matchesBelow (height pos : ℕ) : List ℕ :=
  (leavesBelow n height pos).filter fun p => vMatch.getD p false

variable (vTxid) in
/-- After the bits and the hashes of a node. -/
def Extraction.advance (s : Extraction Hash) (p : List Bool × List Hash) (positions : List ℕ) :
    Extraction Hash where
  nBitsUsed := s.nBitsUsed + p.1.length
  nHashUsed := s.nHashUsed + p.2.length
  vMatch := s.vMatch ++ positions.map (vTxid.getD · 0)
  vnIndex := s.vnIndex ++ positions
  fBad := s.fBad

lemma takeHash_of_next {hash : Hash} {s : Extraction Hash} (matched : Bool) (pos : ℕ)
    (h : [hash] <+: t.vHash.drop s.nHashUsed) :
    t.takeHash matched pos s = some (hash, { s with
      nHashUsed := s.nHashUsed + 1
      vMatch := if matched then s.vMatch ++ [hash] else s.vMatch
      vnIndex := if matched then s.vnIndex ++ [pos] else s.vnIndex }) := by
  obtain ⟨hlt, hget⟩ := getElem?_of_prefix_drop h
  rw [takeHash, if_neg (by omega), hget]
  rfl

/-- **What was built for a node is taken for it.**  The induction follows the traversal. -/
lemma traverseAndExtract_part [DecidableEq Hash] (ht : t.nTransactions = n) (hmax : n ≤ 16666)
    (hdistinct : ∀ height pos, pos * 2 + 1 < treeWidth n height →
      merkleNode node (vTxid.getD · 0) n height (pos * 2 + 1) ≠
        merkleNode node (vTxid.getD · 0) n height (pos * 2)) :
    ∀ {height : ℕ}, height ≤ 16 → ∀ {pos : ℕ} {s : Extraction Hash}, pos < treeWidth n height →
    (part node n vTxid vMatch height pos).1 <+: t.vBits.drop s.nBitsUsed →
    (part node n vTxid vMatch height pos).2 <+: t.vHash.drop s.nHashUsed →
    t.traverseAndExtract node height pos s =
      some (merkleNode node (vTxid.getD · 0) n height pos,
        s.advance vTxid (part node n vTxid vMatch height pos) (matchesBelow n vMatch height pos))
  | 0, _, pos, s, hpos, hbits, hhashes => by
    rw [treeWidth_zero] at hpos
    rw [part_zero hpos] at hbits hhashes ⊢
    obtain ⟨hlt, hget⟩ := getElem?_of_prefix_drop hbits
    rw [traverseAndExtract, if_neg (by omega), hget]
    simp only [bind_eq_bind, bind_some]
    rw [takeHash_of_next (s := { s with nBitsUsed := s.nBitsUsed + 1 }) _ _ hhashes]
    cases hmatch : vMatch.getD pos false with
    | true =>
      simp [-getD_eq_getElem?_getD, Extraction.advance, matchesBelow,
        leavesBelow_zero hpos, hmatch, merkleNode]
    | false =>
      simp [-getD_eq_getElem?_getD, Extraction.advance, matchesBelow,
        leavesBelow_zero hpos, hmatch, merkleNode]
  | height + 1, hheight, pos, s, hpos, hbits, hhashes => by
    have hchild : pos * 2 < treeWidth n height := by
      rw [treeWidth_succ] at hpos
      omega
    have hwidth := calcTreeWidth_eq hmax (by omega : height ≤ 15)
    cases hmatch : parentOfMatch n vMatch (height + 1) pos with
    | false =>
      rw [part_of_not_match hmatch] at hbits hhashes ⊢
      obtain ⟨hlt, hget⟩ := getElem?_of_prefix_drop hbits
      have hnone : matchesBelow n vMatch (height + 1) pos = [] := by
        rw [matchesBelow, filter_eq_nil_iff]
        exact any_eq_false.mp hmatch
      rw [traverseAndExtract, if_neg (by omega), hget]
      simp only [bind_eq_bind, bind_some, Bool.false_eq_true, if_false]
      rw [takeHash_of_next (s := { s with nBitsUsed := s.nBitsUsed + 1 }) _ _ hhashes,
        calcHash_eq hmax hheight]
      simp [Extraction.advance, hnone]
    | true =>
      have hnode := merkleNode_children node (vTxid.getD · 0) n height pos
      have hmatches : matchesBelow n vMatch (height + 1) pos =
          matchesBelow n vMatch height (pos * 2) ++ if pos * 2 + 1 < treeWidth n height then
            matchesBelow n vMatch height (pos * 2 + 1) else [] := by
        rw [matchesBelow, leavesBelow_succ, filter_append]
        split <;> rfl
      rw [part_of_match hmax (by omega) hmatch] at hbits hhashes ⊢
      by_cases hright : pos * 2 + 1 < treeWidth n height
      · rw [if_pos hright] at hbits hhashes hnode hmatches ⊢
        obtain ⟨hbit, hbits⟩ := prefix_drop_append (a := [true]) hbits
        obtain ⟨hbits₁, hbits₂⟩ := prefix_drop_append hbits
        obtain ⟨hhashes₁, hhashes₂⟩ := prefix_drop_append hhashes
        obtain ⟨hlt, hget⟩ := getElem?_of_prefix_drop hbit
        rw [traverseAndExtract, if_neg (by omega), hget]
        have hleft := traverseAndExtract_part ht hmax hdistinct (by omega : height ≤ 16)
          (s := { s with nBitsUsed := s.nBitsUsed + 1 }) hchild hbits₁ hhashes₁
        have hright' := traverseAndExtract_part ht hmax hdistinct (by omega : height ≤ 16)
          (s := Extraction.advance vTxid { s with nBitsUsed := s.nBitsUsed + 1 }
            (part node n vTxid vMatch height (pos * 2))
            (matchesBelow n vMatch height (pos * 2))) hright hbits₂ hhashes₂
        simp only [bind_eq_bind, bind_some, if_true, hleft, ht, hwidth,
          if_pos hright, hright']
        rw [hnode, hmatches]
        simp [-getD_eq_getElem?_getD, Extraction.advance, hdistinct height pos hright,
          add_assoc, add_comm 1]
      · rw [if_neg hright] at hbits hhashes hnode hmatches ⊢
        obtain ⟨hbit, hbits⟩ := prefix_drop_append (a := [true]) hbits
        obtain ⟨hlt, hget⟩ := getElem?_of_prefix_drop hbit
        rw [traverseAndExtract, if_neg (by omega), hget]
        have hleft := traverseAndExtract_part ht hmax hdistinct (by omega : height ≤ 16)
          (s := { s with nBitsUsed := s.nBitsUsed + 1 }) hchild hbits hhashes
        simp only [bind_eq_bind, bind_some, if_true, hleft, ht, hwidth,
          if_neg hright]
        rw [hnode, hmatches]
        simp [Extraction.advance, add_assoc, add_comm 1]

end Extract

/-! ## Bytes -/

section Bytes

variable (bits : List Bool)

lemma testBit_packByte (p : ℕ) : ∀ k < 8,
    decide (packByte bits p &&& (1 : UInt8) <<< k.toUInt8 ≠ 0) = bits.getD (p + k) false := by
  have hbits : ∀ b₀ b₁ b₂ b₃ b₄ b₅ b₆ b₇ : Bool, ∀ k < 8,
      decide ((List.range 8).foldl (fun (byte : UInt8) (j : ℕ) => byte ||| (if
        [b₀, b₁, b₂, b₃, b₄, b₅, b₆, b₇].getD j false then 1 else 0) <<< j.toUInt8) 0 &&&
          (1 : UInt8) <<< k.toUInt8 ≠ 0) = [b₀, b₁, b₂, b₃, b₄, b₅, b₆, b₇].getD k false := by
    decide +kernel
  intro k hk
  have h := hbits (bits.getD (p + 0) false) (bits.getD (p + 1) false) (bits.getD (p + 2) false)
    (bits.getD (p + 3) false) (bits.getD (p + 4) false) (bits.getD (p + 5) false)
    (bits.getD (p + 6) false) (bits.getD (p + 7) false) k hk
  have hk' : [bits.getD (p + 0) false, bits.getD (p + 1) false, bits.getD (p + 2) false,
      bits.getD (p + 3) false, bits.getD (p + 4) false, bits.getD (p + 5) false,
      bits.getD (p + 6) false, bits.getD (p + 7) false].getD k false = bits.getD (p + k) false := by
    interval_cases k <;> rfl
  rw [← hk']
  exact h

lemma bytesToBits_bitsToBytes : bytesToBits (bitsToBytes bits) =
      bits ++ List.replicate ((bits.length + 7) / 8 * 8 - bits.length) false := by
  have hlength : (bitsToBytes bits).length = (bits.length + 7) / 8 := by simp [bitsToBytes]
  refine ext_getElem (by simp [bytesToBits]; omega) fun p hp hp' => ?_
  have hlt : p < (bits.length + 7) / 8 * 8 := by simpa [bytesToBits, hlength] using hp
  have hbyte : (bitsToBytes bits).getD (p / 8) 0 = packByte bits (8 * (p / 8)) := by
    rw [getD_eq_getElem _ _ (by rw [hlength]; omega)]
    simp [bitsToBytes]
  simp only [bytesToBits, getElem_map, getElem_range]
  rw [hbyte, testBit_packByte bits _ _ (mod_lt _ (by omega)), div_add_mod]
  by_cases hin : p < bits.length
  · rw [getD_eq_getElem _ _ hin, getElem_append_left hin]
  · rw [getD_eq_default _ _ (by omega), getElem_append_right (by omega),
      getElem_replicate]

end Bytes

/-! ## There and back -/

section RoundTrip

variable (format : HashFormat Hash)

omit [Zero Hash] in
lemma reads_readHash (hash : Hash) : Reads (readHash format) (format.write hash) hash := by
  have hread := (reads_readSymbols END_OF_DATA (format.write hash)).map format.read
  rwa [format.length_write, format.read_write] at hread

omit [Zero Hash] in
lemma reads_unserialize {t : CPartialMerkleTree Hash}
    (hn : t.nTransactions < 2 ^ 32) (hhash : t.vHash.length ≤ MAX_SIZE)
    (hbits : t.vBits.length ≤ MAX_SIZE) : Reads (unserialize format) (t.serialize format)
      { t with
        vBits := t.vBits ++ List.replicate ((t.vBits.length + 7) / 8 * 8 - t.vBits.length) false
        fBad := false } := by
  have hbytes : (bitsToBytes t.vBits).length ≤ MAX_SIZE := by
    simp only [bitsToBytes, length_map, length_range]
    omega
  rw [← bytesToBits_bitsToBytes]
  exact (reads_serReadData (by omega)).bind
    ((reads_readVector hhash fun hash _ => reads_readHash format hash).bind
      ((reads_readBytes hbytes).bind_nil (reads_pure _)))

variable [DecidableEq Hash] {node : Hash → Hash → Hash} {vTxid : List Hash}

omit [DecidableEq Hash] in
lemma getD_leaf (i : ℕ) (h : i < vTxid.length) : vTxid.getD i 0 = vTxid[i] :=
  getD_eq_getElem vTxid 0 h

lemma computeMerkleRoot_eq (hne : vTxid ≠ []) :
    (computeMerkleRoot node vTxid).1 =
      merkleNode node (vTxid.getD · 0) vTxid.length (Nat.clog 2 vTxid.length) 0 :=
  merkleRoot_eq node _ 0 hne getD_leaf

omit [DecidableEq Hash] in
lemma distinct_children (hnodup : vTxid.Nodup) (hcollision : NoCollision node vTxid.length vTxid)
    (height pos : ℕ) (hpos : pos * 2 + 1 < treeWidth vTxid.length height) :
    merkleNode node (vTxid.getD · 0) vTxid.length height (pos * 2 + 1) ≠
      merkleNode node (vTxid.getD · 0) vTxid.length height (pos * 2) := by
  have hheight : height < Nat.clog 2 vTxid.length := one_lt_treeWidth_iff.mp (by omega)
  have hfuel : Nat.clog 2 vTxid.length ≤ vTxid.length :=
    Nat.clog_le_of_le_pow Nat.lt_two_pow_self.le
  have hrow := merkleRow_zero node (vTxid.getD · 0) getD_leaf
  have hdistinct := nodup_merkleRow node (vTxid.getD · 0) (by rwa [hrow]) (by rwa [hrow]) height
    (by omega)
  rw [zero_add] at hdistinct
  exact merkleNode_ne node _ hdistinct hpos (by omega) (by omega)

/-- What `ExtractMatches` makes of its traversal. -/
def conclude (t : CPartialMerkleTree Hash) (hashMerkleRoot : Hash) (s : Extraction Hash) :
    Hash × List Hash × List ℕ :=
  (if !s.fBad && (s.nBitsUsed + 7) / 8 = (t.vBits.length + 7) / 8 &&
      s.nHashUsed = t.vHash.length then hashMerkleRoot else 0, s.vMatch, s.vnIndex)

lemma extractMatches_eq {t : CPartialMerkleTree Hash} {vnIndex : List ℕ}
    (hne : t.nTransactions ≠ 0)
    (hmax : t.nTransactions ≤ MAX_BLOCK_WEIGHT / MIN_TRANSACTION_WEIGHT)
    (hleaves : t.vHash.length ≤ t.nTransactions) (hbits : t.vHash.length ≤ t.vBits.length)
    {hashMerkleRoot : Hash} {s : Extraction Hash}
    (h : t.traverseAndExtract node (Nat.clog 2 t.nTransactions) 0
      { nBitsUsed := 0, nHashUsed := 0, vMatch := [], vnIndex, fBad := t.fBad } =
        some (hashMerkleRoot, s)) :
    t.extractMatches node vnIndex = some (t.conclude hashMerkleRoot s) := by
  rw [extractMatches, if_neg hne, if_neg (by omega), if_neg (by omega), if_neg (by omega),
    calcHeight_eq hmax]
  simp only [bind_eq_bind, bind_some, h]
  rfl

/-- **A partial tree shows what it was built for.**  A tree that is built from distinct transaction
ids and any mask, written to a stream and read back, gives the root of the ids and the matched ids
with their positions, in order. -/
theorem extractMatches_build (node : Hash → Hash → Hash) (format : HashFormat Hash)
    (vTxid : List Hash) (vMatch : List Bool) (hne : vTxid ≠ [])
    (hmax : vTxid.length ≤ MAX_BLOCK_WEIGHT / MIN_TRANSACTION_WEIGHT) (hnodup : vTxid.Nodup)
    (hcollision : NoCollision node vTxid.length vTxid) :
    ∃ t t', build node vTxid vMatch = some t ∧
      Reads (unserialize format) (t.serialize format) t' ∧
      t'.extractMatches node [] = some ((computeMerkleRoot node vTxid).1,
        ((List.range vTxid.length).filter fun p => vMatch.getD p false).map (vTxid.getD · 0),
        (List.range vTxid.length).filter fun p => vMatch.getD p false) := by
  have hchildren := distinct_children hnodup hcollision
  rw [computeMerkleRoot_eq hne]
  obtain ⟨n, hn⟩ : ∃ n, n = vTxid.length := ⟨_, rfl⟩
  rw [← hn] at hmax hchildren ⊢
  have hmax' : n ≤ 16666 := hmax
  have hpos : 0 < n := hn ▸ length_pos_iff.mpr hne
  have hheight := clog_le_of_le hmax'
  have hwidth : 0 < treeWidth n (Nat.clog 2 n) := treeWidth_pos hpos _
  obtain ⟨p, hp⟩ : ∃ p, p = part node n vTxid vMatch (Nat.clog 2 n) 0 := ⟨_, rfl⟩
  have hsize : p.1.length < 2 ^ 16 := by
    rw [hp]
    exact (length_part_le hmax' (by omega) 0).trans_le
      (Nat.pow_le_pow_right (by omega) (by omega))
  obtain ⟨hhashes, hleaves⟩ : p.2.length ≤ p.1.length ∧ p.2.length ≤ n := by
    have hlength := @length_part _ _ node n vTxid vMatch hmax' _ (by omega) 0 hwidth
    rwa [leavesBelow_clog, length_range, ← hp] at hlength
  have hbuild : build node vTxid vMatch = some ⟨n, p.1, p.2, false⟩ := by
    simp only [build, ← hn, calcHeight_eq hmax', hp]
    rfl
  have hread := reads_unserialize format (t := ⟨n, p.1, p.2, false⟩)
    (show n < 2 ^ 32 by omega) (show p.2.length ≤ 33554432 by omega)
    (show p.1.length ≤ 33554432 by omega)
  refine ⟨_, _, hbuild, hread, ?_⟩
  have hbits : (part node n vTxid vMatch (Nat.clog 2 n) 0).1 <+:
      p.1 ++ List.replicate ((p.1.length + 7) / 8 * 8 - p.1.length) false := by
    rw [← hp]
    exact prefix_append _ _
  have hhash : (part node n vTxid vMatch (Nat.clog 2 n) 0).2 <+: p.2 := by
    rw [← hp]
  rw [extractMatches_eq hpos.ne' hmax hleaves (by simp only [length_append]; omega)
    (traverseAndExtract_part rfl hmax' hchildren (show Nat.clog 2 n ≤ 16 by omega) hwidth hbits
      hhash), ← hp]
  simp only [conclude, Extraction.advance, matchesBelow, leavesBelow_clog,
    nil_append]
  rw [if_pos]
  simp only [length_append, length_replicate, Bool.not_false, Bool.true_and,
    Bool.and_eq_true, decide_eq_true_eq]
  omega

/-- A 256-bit number as 32 bytes. -/
def uint256Format : HashFormat (BitVec 256) where
  write hash := leBytes 32 hash.toNat
  read bytes := BitVec.ofNat 256 (leValue bytes)
  length_write hash := length_leBytes 32 hash.toNat
  read_write hash := by
    rw [leValue_leBytes (by simpa using hash.isLt), BitVec.ofNat_toNat, BitVec.setWidth_eq]

/-- The tree of three ids, the last of which is matched. -/
theorem extractMatches_build_three :
    (([1, 2, 3] : List (BitVec 256)).Nodup ∧
      NoCollision (fun a b => 100 * a + b) 3 ([1, 2, 3] : List (BitVec 256))) ∧
    ∃ t t', build (fun a b => 100 * a + b) ([1, 2, 3] : List (BitVec 256))
        [false, false, true] = some t ∧
      Reads (unserialize uint256Format) (t.serialize uint256Format) t' ∧
      t'.extractMatches (fun a b => 100 * a + b) [] =
        some ((computeMerkleRoot (fun a b => 100 * a + b) ([1, 2, 3] : List (BitVec 256))).1,
          [3], [2]) := by
  have hnodup : ([1, 2, 3] : List (BitVec 256)).Nodup := by decide
  have hcollision : NoCollision (fun a b => 100 * a + b) 3
      ([1, 2, 3] : List (BitVec 256)) := by
    simp [NoCollision, InjectiveOn, pairUp]
  exact ⟨⟨hnodup, hcollision⟩, extractMatches_build _ uint256Format [1, 2, 3]
    [false, false, true] (by decide) (by decide) hnodup hcollision⟩

end RoundTrip

/-! ## Trees from anywhere -/

section Sound

variable [DecidableEq Hash] {node : Hash → Hash → Hash} {t : CPartialMerkleTree Hash}

variable (node t) in
/-- What a traversal may show of a node. -/
structure Shows (height pos : ℕ) (s s' : Extraction Hash) (hash : Hash) (txids : List Hash)
    (positions : List ℕ) : Prop where
  fBad : s.fBad = true → s'.fBad = true
  vMatch : s'.vMatch = s.vMatch ++ txids
  vnIndex : s'.vnIndex = s.vnIndex ++ positions
  length : txids.length = positions.length
  shown : ∀ leaf : ℕ → Hash, Function.Injective2 node → s'.fBad = false →
    hash = merkleNode node leaf t.nTransactions height pos →
    ∀ txid position, (txid, position) ∈ txids.zip positions →
      position < t.nTransactions ∧ txid = leaf position

omit [Zero Hash] [DecidableEq Hash] in
lemma Shows.of_fBad {height pos : ℕ} {s s' : Extraction Hash} {hash : Hash}
    (hbad : s'.fBad = true) (hmatch : s'.vMatch = s.vMatch) (hindex : s'.vnIndex = s.vnIndex) :
    Shows node t height pos s s' hash [] [] where
  fBad _ := hbad
  vMatch := by rw [hmatch, append_nil]
  vnIndex := by rw [hindex, append_nil]
  length := rfl
  shown _ _ _ _ _ _ hmem := absurd hmem (not_mem_nil)

omit [DecidableEq Hash] in
lemma shows_takeHash {height pos : ℕ} {s : Extraction Hash} {matched : Bool}
    (hleaf : matched = true → height = 0) (hpos : pos < treeWidth t.nTransactions height) :
    ∃ hash s' txids positions, t.takeHash matched pos s = some (hash, s') ∧
      Shows node t height pos s s' hash txids positions := by
  by_cases hused : s.nHashUsed ≥ t.vHash.length
  · exact ⟨0, { s with fBad := true }, [], [], by rw [takeHash, if_pos hused],
      .of_fBad rfl rfl rfl⟩
  · have hget : t.vHash[s.nHashUsed]? = some t.vHash[s.nHashUsed] :=
      List.getElem?_eq_getElem (by omega)
    have htake : ∀ txids positions,
        (if matched then s.vMatch ++ [t.vHash[s.nHashUsed]] else s.vMatch) = s.vMatch ++ txids →
        (if matched then s.vnIndex ++ [pos] else s.vnIndex) = s.vnIndex ++ positions →
        t.takeHash matched pos s = some (t.vHash[s.nHashUsed],
          ⟨s.nBitsUsed, s.nHashUsed + 1, s.vMatch ++ txids, s.vnIndex ++ positions, s.fBad⟩) := by
      intro txids positions htxids hpositions
      rw [takeHash, if_neg hused, hget, ← htxids, ← hpositions]
      rfl
    cases matched with
    | false =>
      refine ⟨_, _, [], [], htake [] [] (by simp) (by simp), id, rfl, rfl, rfl, ?_⟩
      intro _ _ _ _ _ _ hmem
      exact absurd hmem not_mem_nil
    | true =>
      refine ⟨_, _, [_], [pos], htake [_] [pos] rfl rfl, id, rfl, rfl, rfl, ?_⟩
      intro leaf _ _ hhash txid position hmem
      obtain ⟨rfl, rfl⟩ : txid = t.vHash[s.nHashUsed] ∧ position = pos := by simpa using hmem
      rw [hleaf rfl, treeWidth_zero] at hpos
      rw [hleaf rfl] at hhash
      exact ⟨hpos, hhash⟩

omit [Zero Hash] in
lemma Shows.pair {height pos : ℕ} {s s₁ s₂ : Extraction Hash} {left right : Hash}
    {txids₁ txids₂ : List Hash} {positions₁ positions₂ : List ℕ}
    (hleft : Shows node t height (pos * 2) s s₁ left txids₁ positions₁)
    (hright : Shows node t height (pos * 2 + 1) s₁ s₂ right txids₂ positions₂)
    (hwidth : pos * 2 + 1 < treeWidth t.nTransactions height) :
    Shows node t (height + 1) pos s { s₂ with fBad := s₂.fBad || right = left }
      (node left right) (txids₁ ++ txids₂) (positions₁ ++ positions₂) where
  fBad h := by simp [hright.fBad (hleft.fBad h)]
  vMatch := by simp [hright.vMatch, hleft.vMatch]
  vnIndex := by simp [hright.vnIndex, hleft.vnIndex]
  length := by simp [hleft.length, hright.length]
  shown leaf hinj hbad hhash txid position hmem := by
    have hbad₂ : s₂.fBad = false := (Bool.or_eq_false_iff.mp hbad).1
    have hbad₁ : s₁.fBad = false := by
      by_contra h
      rw [hright.fBad (Bool.not_eq_false _ ▸ h)] at hbad₂
      exact absurd hbad₂ (by decide)
    rw [merkleNode_children, if_pos hwidth] at hhash
    obtain ⟨hhash₁, hhash₂⟩ := hinj hhash
    rw [zip_append hleft.length, mem_append] at hmem
    obtain hmem | hmem := hmem
    · exact hleft.shown leaf hinj hbad₁ hhash₁ txid position hmem
    · exact hright.shown leaf hinj hbad₂ hhash₂ txid position hmem

omit [Zero Hash] [DecidableEq Hash] in
lemma Shows.single {height pos : ℕ} {s s₁ : Extraction Hash} {left : Hash} {txids : List Hash}
    {positions : List ℕ} (hleft : Shows node t height (pos * 2) s s₁ left txids positions)
    (hwidth : ¬ pos * 2 + 1 < treeWidth t.nTransactions height) :
    Shows node t (height + 1) pos s s₁ (node left left) txids positions where
  fBad := hleft.fBad
  vMatch := hleft.vMatch
  vnIndex := hleft.vnIndex
  length := hleft.length
  shown leaf hinj hbad hhash := by
    rw [merkleNode_children, if_neg hwidth] at hhash
    exact hleft.shown leaf hinj hbad (hinj hhash).1

/-- **A traversal ends, and where the hash is right it shows leaves.**  The induction is on the
height. -/
lemma traverseAndExtract_shows (hmax : t.nTransactions ≤ 16666) : ∀ {height : ℕ}, height ≤ 16 →
    ∀ {pos : ℕ}, pos < treeWidth t.nTransactions height → ∀ s : Extraction Hash,
    ∃ hash s' txids positions, t.traverseAndExtract node height pos s = some (hash, s') ∧
      Shows node t height pos s s' hash txids positions
  | 0, _, pos, hpos, s => by
    by_cases hused : s.nBitsUsed ≥ t.vBits.length
    · exact ⟨0, { s with fBad := true }, [], [], by rw [traverseAndExtract, if_pos hused],
        .of_fBad rfl rfl rfl⟩
    · have hget : t.vBits[s.nBitsUsed]? = some t.vBits[s.nBitsUsed] :=
        List.getElem?_eq_getElem (by omega)
      obtain ⟨hash, s', txids, positions, htake, hshows⟩ := shows_takeHash
        (s := { s with nBitsUsed := s.nBitsUsed + 1 }) (fun _ => rfl) hpos
      refine ⟨hash, s', txids, positions, ?_, hshows.fBad, hshows.vMatch, hshows.vnIndex,
        hshows.length, hshows.shown⟩
      rw [traverseAndExtract, if_neg hused, hget]
      exact htake
  | height + 1, hheight, pos, hpos, s => by
    by_cases hused : s.nBitsUsed ≥ t.vBits.length
    · exact ⟨0, { s with fBad := true }, [], [], by rw [traverseAndExtract, if_pos hused],
        .of_fBad rfl rfl rfl⟩
    have hget : t.vBits[s.nBitsUsed]? = some t.vBits[s.nBitsUsed] :=
      List.getElem?_eq_getElem (by omega)
    rw [traverseAndExtract, if_neg hused, hget]
    simp only [bind_eq_bind, bind_some]
    -- what is shown after the bit is what is shown before it
    suffices ∃ hash s' txids positions, _ = some (hash, s') ∧
        Shows node t (height + 1) pos { s with nBitsUsed := s.nBitsUsed + 1 } s' hash txids
          positions by
      obtain ⟨hash, s', txids, positions, hstep, hshows⟩ := this
      exact ⟨hash, s', txids, positions, hstep, hshows.fBad, hshows.vMatch, hshows.vnIndex,
        hshows.length, hshows.shown⟩
    have hchild : pos * 2 < treeWidth t.nTransactions height := by
      rw [treeWidth_succ] at hpos
      omega
    split
    · obtain ⟨left, s₁, txids₁, positions₁, hleft, hshows₁⟩ :=
        traverseAndExtract_shows hmax (by omega : height ≤ 16) hchild
          { s with nBitsUsed := s.nBitsUsed + 1 }
      simp only [hleft]
      rw [calcTreeWidth_eq hmax (by omega)]
      split
      next hwidth =>
        obtain ⟨right, s₂, txids₂, positions₂, hright, hshows₂⟩ :=
          traverseAndExtract_shows hmax (by omega : height ≤ 16) hwidth s₁
        simp only [hright, bind_some]
        exact ⟨_, _, _, _, rfl, hshows₁.pair hshows₂ hwidth⟩
      next hwidth => exact ⟨_, _, _, _, rfl, hshows₁.single hwidth⟩
    · exact shows_takeHash (by simp) hpos

omit [DecidableEq Hash] in
lemma conclude_eq_of_ne_zero {hash : Hash} {s : Extraction Hash}
    (h : (t.conclude hash s).1 ≠ 0) : s.fBad = false ∧ (t.conclude hash s).1 = hash := by
  by_cases hgood : (!s.fBad && (s.nBitsUsed + 7) / 8 = (t.vBits.length + 7) / 8 &&
      s.nHashUsed = t.vHash.length) = true
  · refine ⟨?_, if_pos hgood⟩
    simp only [Bool.and_eq_true, Bool.not_eq_true'] at hgood
    exact hgood.1.1
  · exact absurd (if_neg hgood) h

lemma extractMatches_eq_zero {vnIndex : List ℕ} (h : ¬ (t.nTransactions ≠ 0 ∧
      t.nTransactions ≤ MAX_BLOCK_WEIGHT / MIN_TRANSACTION_WEIGHT ∧
      t.vHash.length ≤ t.nTransactions ∧ t.vHash.length ≤ t.vBits.length)) :
    t.extractMatches node vnIndex = some (0, [], vnIndex) := by
  unfold extractMatches
  split_ifs with hzero hmax hleaves hbits
  · rfl
  · rfl
  · rfl
  · rfl
  · exact absurd ⟨hzero, by omega, by omega, by omega⟩ h

/-- **No partial tree shows what is not there.**  `ExtractMatches` ends for every tree, and if it
returns the root of a list of as many ids, and that is not the null hash which it returns for a
failure, then the ids it reports are in the list at the positions it reports. -/
theorem extractMatches_sound (node : Hash → Hash → Hash) (t : CPartialMerkleTree Hash)
    (vnIndex : List ℕ) :
    ∃ root txids positions,
      t.extractMatches node vnIndex = some (root, txids, vnIndex ++ positions) ∧
      txids.length = positions.length ∧
      ∀ vTxid : List Hash, vTxid ≠ [] → t.nTransactions = vTxid.length →
        Function.Injective2 node → root = (computeMerkleRoot node vTxid).1 → root ≠ 0 →
        ∀ txid position, (txid, position) ∈ txids.zip positions →
          vTxid[position]? = some txid := by
  by_cases hchecks : t.nTransactions ≠ 0 ∧
      t.nTransactions ≤ MAX_BLOCK_WEIGHT / MIN_TRANSACTION_WEIGHT ∧
      t.vHash.length ≤ t.nTransactions ∧ t.vHash.length ≤ t.vBits.length
  · obtain ⟨hne, hmax, hleaves, hbits⟩ := hchecks
    have hheight := clog_le_of_le hmax
    obtain ⟨hash, s, txids, positions, htraverse, hshows⟩ :=
      @traverseAndExtract_shows _ _ _ node _ hmax (Nat.clog 2 t.nTransactions) (by omega) 0
        (treeWidth_pos (pos_of_ne_zero hne) _) ⟨0, 0, [], vnIndex, t.fBad⟩
    refine ⟨(t.conclude hash s).1, txids, positions, ?_, hshows.length, ?_⟩
    · rw [extractMatches_eq hne hmax hleaves hbits htraverse, ← hshows.vnIndex,
        ← nil_append txids, ← hshows.vMatch]
      rfl
    · intro vTxid hlist hn hinj hroot hnull txid position hmem
      obtain ⟨hbad, hhash⟩ : s.fBad = false ∧ (t.conclude hash s).1 = hash :=
        conclude_eq_of_ne_zero hnull
      rw [hhash, computeMerkleRoot_eq hlist, ← hn] at hroot
      obtain ⟨hlt, rfl⟩ := hshows.shown _ hinj hbad hroot txid position hmem
      rw [List.getElem?_eq_getElem (hn ▸ hlt), getD_leaf]
  · refine ⟨0, [], [], ?_, rfl, fun _ _ _ _ _ _ _ _ hmem => absurd hmem not_mem_nil⟩
    rw [append_nil]
    exact extractMatches_eq_zero hchecks

/-- The whole tree of two ids. -/
theorem extractMatches_sound_pair : ∃ root txids positions,
    (⟨2, [true, true, false], [.leaf 1, .leaf 2], false⟩ :
        CPartialMerkleTree HashTerm).extractMatches HashTerm.node [] =
      some (root, txids, [] ++ positions) ∧ txids.length = positions.length ∧
      (root = (computeMerkleRoot HashTerm.node [.leaf 1, .leaf 2]).1 ∧ root ≠ 0 ∧
        (HashTerm.leaf 1, 0) ∈ txids.zip positions) ∧
      ∀ txid position, (txid, position) ∈ txids.zip positions →
        ([.leaf 1, .leaf 2] : List HashTerm)[position]? = some txid := by
  obtain ⟨root, txids, positions, hextract, hlength, hsound⟩ := extractMatches_sound HashTerm.node
    ⟨2, [true, true, false], [.leaf 1, .leaf 2], false⟩ []
  have hrun : (⟨2, [true, true, false], [.leaf 1, .leaf 2], false⟩ :
      CPartialMerkleTree HashTerm).extractMatches HashTerm.node [] =
        some (.node (.leaf 1) (.leaf 2), [.leaf 1], [0]) := by decide +kernel
  obtain ⟨rfl, rfl, rfl⟩ := hextract
  have hroot : HashTerm.node (.leaf 1) (.leaf 2) =
      (computeMerkleRoot HashTerm.node [.leaf 1, .leaf 2]).1 := by decide
  exact ⟨_, _, _, hrun, rfl, ⟨hroot, by decide, by decide⟩,
    hsound [.leaf 1, .leaf 2] (by decide) rfl HashTerm.node_injective2 hroot (by decide)⟩

/-- The null hash may be a root, that of one id which is null, and it is what is returned for a tree
with a byte of bits too many.  The id that this tree shows is not in the list. -/
theorem extractMatches_null_root : Function.Injective2 HashTerm.node ∧
    ∃ root txids positions,
      (⟨1, true :: List.replicate 15 false, [.leaf 7], false⟩ :
          CPartialMerkleTree HashTerm).extractMatches HashTerm.node [] =
        some (root, txids, positions) ∧
      root = (computeMerkleRoot HashTerm.node [.leaf 0]).1 ∧
      (HashTerm.leaf 7, 0) ∈ txids.zip positions ∧
      ([.leaf 0] : List HashTerm)[0]? ≠ some (.leaf 7) :=
  ⟨HashTerm.node_injective2, 0, [.leaf 7], [0], by decide +kernel, by decide, by decide, by decide⟩

end Sound

end CPartialMerkleTree

end SlithyTove
