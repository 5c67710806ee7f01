import SlithyTove.Coins.CacheRefinement

/-!
# The coins database

`CCoinsViewDB` keeps the coins in a key-value store next to two records: the best block the coins
belong to, or, while a flush is under way, the two head blocks between which they are.
`BatchWrite` writes a flush in batches.  The first one replaces the best block by the heads, the
last one the heads by the new best block, and each is written atomically; a crash keeps those
already written.

What a database looks like after any number of batches is `writeBatches_cases`.
-/

namespace SlithyTove

open Framework List

/-! ## Records and writes -/

/-- The records of the database. -/
@[ext]
structure CCoinsViewDB (Hash : Type) where
  coins : CoinsMap Hash
  /-- `DB_BEST_BLOCK`. -/
  bestBlock : Option Hash
  /-- `DB_HEAD_BLOCKS`. -/
  headBlocks : Option (List Hash)

/-- One change in a `CDBBatch`. -/
inductive DBWrite (Hash : Type)
  | writeCoin (outpoint : COutPoint Hash) (coin : Coin)
  | eraseCoin (outpoint : COutPoint Hash)
  | writeBestBlock (hash : Hash)
  | eraseBestBlock
  | writeHeadBlocks (heads : List Hash)
  | eraseHeadBlocks

instance (coin : Coin) : Decidable coin.Spendable :=
  decidable_of_iff (coin.isSpent = false ∧ CScript.isUnspendable coin.out.scriptPubKey = false)
    ⟨fun h => ⟨h.1, h.2⟩, fun h => ⟨h.1, h.2⟩⟩

namespace CCoinsViewDB

variable {Hash : Type} [DecidableEq Hash]

variable (db : CCoinsViewDB Hash)

/-- One change.  A cache never holds an unspent coin that is not spendable, since `AddCoin` drops
those, so the database is never asked to write one. -/
def write : DBWrite Hash → CCoinsViewDB Hash
  | .writeCoin o coin =>
    { db with coins := if h : coin.Spendable then db.coins.insert o coin h else db.coins }
  | .eraseCoin o => { db with coins := db.coins.erase o }
  | .writeBestBlock hash => { db with bestBlock := some hash }
  | .eraseBestBlock => { db with bestBlock := none }
  | .writeHeadBlocks heads => { db with headBlocks := some heads }
  | .eraseHeadBlocks => { db with headBlocks := none }

/-- `WriteBatch`. -/
def writeBatch (batch : List (DBWrite Hash)) : CCoinsViewDB Hash :=
  batch.foldl write db

/-- Several batches in order. -/
def writeBatches (batches : List (List (DBWrite Hash))) : CCoinsViewDB Hash :=
  batches.foldl writeBatch db

/-- `GetBestBlock`: the null hash if there is no record. -/
def getBestBlock [Zero Hash] : Hash := db.bestBlock.getD 0

/-- `GetHeadBlocks`. -/
def getHeadBlocks : List Hash := db.headBlocks.getD []

/-! ## `BatchWrite` -/

/-- What one entry of the cursor adds to the batch. -/
def entryWrites (p : COutPoint Hash × CCoinsCacheEntry) : List (DBWrite Hash) :=
  if ¬ p.2.dirty then []
  else if p.2.coin.isSpent then [.eraseCoin p.1] else [.writeCoin p.1 p.2.coin]

/-- The tip the flush starts from.  In the middle of a replay it is the old one of the heads. -/
def oldTip [Zero Hash] (hashBlock : Hash) : Except String Hash :=
  if db.getBestBlock = 0 then
    match db.getHeadBlocks with
    | [head, old] => if head = hashBlock then .ok old else .error "old_heads[0] == hashBlock"
    | _ => .ok 0
  else .ok db.getBestBlock

/-- The loop over the cursor: after entry number `count` the batch is written if it is full. -/
def splitBatches (full : ℕ → Bool) (hashBlock : Hash) :
    (count : ℕ) → (batch : List (DBWrite Hash)) →
      List (COutPoint Hash × CCoinsCacheEntry) → List (List (DBWrite Hash))
  | _, batch, [] => [batch ++ [.eraseHeadBlocks, .writeBestBlock hashBlock]]
  | count, batch, p :: rest =>
    let batch := batch ++ entryWrites p
    if full count then batch :: splitBatches full hashBlock (count + 1) [] rest
    else splitBatches full hashBlock (count + 1) batch rest

/-- `CCoinsViewDB::BatchWrite`: the batches in the order they are written.  `full` says after which
entries the size of the batch exceeds the limit. -/
def batchWrite [Zero Hash] (full : ℕ → Bool) (entries : List (COutPoint Hash × CCoinsCacheEntry))
    (hashBlock : Hash) :
    Except String (List (List (DBWrite Hash))) := do
  ensure (hashBlock ≠ 0) "!hashBlock.IsNull()"
  let old_tip ← db.oldTip hashBlock
  return splitBatches full hashBlock 0
    [.eraseBestBlock, .writeHeadBlocks [hashBlock, old_tip]] entries

variable {entries : List (COutPoint Hash × CCoinsCacheEntry)} {batches : List (List (DBWrite Hash))}
  {full : ℕ → Bool} {hashBlock : Hash}

lemma batchWrite_eq_ok [Zero Hash] {db : CCoinsViewDB Hash} :
    db.batchWrite full entries hashBlock = .ok batches ↔
      hashBlock ≠ 0 ∧ ∃ old_tip, db.oldTip hashBlock = .ok old_tip ∧
        splitBatches full hashBlock 0
          [.eraseBestBlock, .writeHeadBlocks [hashBlock, old_tip]] entries = batches := by
  simp only [batchWrite, bind_eq_ok, ensure_eq_ok, pure_eq_ok, exists_const]

/-! ## A flush cut short -/

lemma writeBatches_eq_foldl (batches : List (List (DBWrite Hash))) :
    db.writeBatches batches = batches.flatten.foldl write db :=
  foldl_flatten.symm

section

omit [DecidableEq Hash]

variable (full : ℕ → Bool) (hashBlock : Hash) (count : ℕ) (batch : List (DBWrite Hash))
  (entries : List (COutPoint Hash × CCoinsCacheEntry))

lemma flatten_splitBatches :
    (splitBatches full hashBlock count batch entries).flatten =
      batch ++ entries.flatMap entryWrites ++ [.eraseHeadBlocks, .writeBestBlock hashBlock] := by
  induction entries generalizing count batch with
  | nil => simp [splitBatches]
  | cons p entries ih =>
    rw [splitBatches]
    split <;> simp [ih]

lemma flatten_take_splitBatches {k : ℕ}
    (hk : k + 1 < (splitBatches full hashBlock count batch entries).length) :
    ∃ j, ((splitBatches full hashBlock count batch entries).take (k + 1)).flatten =
      batch ++ (entries.take j).flatMap entryWrites := by
  induction entries generalizing count batch k with
  | nil => simp [splitBatches] at hk
  | cons p entries ih =>
    rw [splitBatches] at hk ⊢
    split at hk
    · next hfull =>
      rw [if_pos hfull, take_succ_cons, flatten_cons]
      cases k with
      | zero => exact ⟨1, by simp⟩
      | succ k =>
        rw [length_cons] at hk
        obtain ⟨j, hj⟩ := ih _ _ (Nat.lt_of_add_lt_add_right hk)
        exact ⟨j + 1, by rw [hj]; simp⟩
    · next hfull =>
      rw [if_neg hfull]
      obtain ⟨j, hj⟩ := ih _ _ hk
      exact ⟨j + 1, by rw [hj]; simp⟩

lemma length_splitBatches_pos :
    0 < (splitBatches full hashBlock count batch entries).length := by
  induction entries generalizing count batch with
  | nil => exact Nat.one_pos
  | cons p entries ih =>
    rw [splitBatches]
    split
    · exact Nat.succ_pos _
    · exact ih _ _

end

lemma write_entries
    (h : ∀ p ∈ entries, p.2.dirty = true ∧ (p.2.coin.isSpent = false → p.2.coin.Spendable)) :
    ∃ m, (entries.flatMap entryWrites).foldl write db = { db with coins := m } ∧
      m.coin = applyEntries db.coins.coin entries := by
  induction entries generalizing db with
  | nil => exact ⟨db.coins, rfl, rfl⟩
  | cons p entries ih =>
    obtain ⟨hdirty, hspendable⟩ := h p mem_cons_self
    obtain ⟨m, hone, hm⟩ : ∃ m, (entryWrites p).foldl write db = { db with coins := m } ∧
        m.coin = Function.update db.coins.coin p.1 p.2.view := by
      rw [entryWrites, if_neg (not_not.2 hdirty), CCoinsCacheEntry.view]
      cases hs : p.2.coin.isSpent with
      | true => exact ⟨db.coins.erase p.1, rfl, rfl⟩
      | false =>
        refine ⟨db.coins.insert p.1 p.2.coin (hspendable hs), ?_, rfl⟩
        simp [write, hspendable hs]
    obtain ⟨m', hrest, hm'⟩ := ih { db with coins := m } fun q hq =>
      h q (mem_cons_of_mem _ hq)
    refine ⟨m', ?_, ?_⟩
    · rw [flatMap_cons, foldl_append, hone, hrest]
    · rw [hm', hm]
      rfl

/-- A cache over the coins `m` that stands for the coins `target`. -/
structure StandsFor (cache : CCoinsViewCache Hash) (m target : CoinsMap Hash) : Prop where
  inv : LayerInv m.coin cache
  view : cache.view m.coin = target.coin

/-- The dirty entry that puts the coin of `target` at an outpoint. -/
def replacement (target : CoinsMap Hash) (o : COutPoint Hash) : CCoinsCacheEntry :=
  ⟨(target.coin o).getD .empty, true, false⟩

section

omit [DecidableEq Hash]

lemma replacement_view (target : CoinsMap Hash) (o : COutPoint Hash) :
    (replacement target o).view = target.coin o := by
  cases hc : target.coin o with
  | none => simp [replacement, CCoinsCacheEntry.view, hc, Coin.empty, Coin.isSpent, CTxOut.isNull]
  | some c => simp [replacement, CCoinsCacheEntry.view, hc, (target.spendable o c hc).notSpent]

lemma replacement_spent {target : CoinsMap Hash} {o : COutPoint Hash}
    (hs : (replacement target o).coin.isSpent = true) : (replacement target o).coin = .empty := by
  have hview := replacement_view target o
  rw [CCoinsCacheEntry.view, if_pos hs] at hview
  rw [replacement, ← hview]
  rfl

lemma finite_difference (m target : CoinsMap Hash) : {o | m.coin o ≠ target.coin o}.Finite := by
  refine (m.finite.union target.finite).subset fun o ho => ?_
  by_contra hnot
  rw [Set.mem_union, not_or] at hnot
  exact ho ((not_not.1 hnot.1).trans (not_not.1 hnot.2).symm)

/-- The cache with a dirty entry at every outpoint at which two maps differ. -/
noncomputable def differenceCache (m target : CoinsMap Hash) : CCoinsViewCache Hash where
  cacheCoins o := if m.coin o = target.coin o then none else some (replacement target o)
  flagged := (finite_difference m target).toFinset.toList
  m_dirty_count := (finite_difference m target).toFinset.toList.length

lemma differenceCache_standsFor (m target : CoinsMap Hash) :
    StandsFor (differenceCache m target) m target := by
  have hentry : ∀ o e, (differenceCache m target).cacheCoins o = some e ↔
      m.coin o ≠ target.coin o ∧ replacement target o = e := by
    intro o e
    by_cases heq : m.coin o = target.coin o <;> simp [differenceCache, heq]
  refine ⟨⟨fun o e he => ?_, fun o => ?_, Finset.nodup_toList _, rfl⟩, funext fun o => ?_⟩
  · obtain ⟨-, rfl⟩ := (hentry o e).1 he
    exact ⟨fun hs => ⟨replacement_spent hs, rfl, rfl⟩, nofun, nofun⟩
  · have hmem : o ∈ (differenceCache m target).flagged ↔ m.coin o ≠ target.coin o := by
      simp [differenceCache]
    rw [hmem]
    constructor
    · exact fun hne => ⟨replacement target o, (hentry o _).2 ⟨hne, rfl⟩, rfl⟩
    · rintro ⟨e, he, -⟩
      exact ((hentry o e).1 he).1
  · by_cases heq : m.coin o = target.coin o
    · rw [CCoinsViewCache.view_of_none (by simp [differenceCache, heq]), heq]
    · rw [CCoinsViewCache.view_of_some ((hentry o _).2 ⟨heq, rfl⟩), replacement_view]

lemma StandsFor.entry {cache : CCoinsViewCache Hash} {m target : CoinsMap Hash}
    (h : StandsFor cache m target) {p : COutPoint Hash × CCoinsCacheEntry}
    (hp : p ∈ cache.flaggedEntries) :
    p.2.view = target.coin p.1 ∧ p.2.dirty = true ∧
      (p.2.coin.isSpent = false → p.2.coin.Spendable) := by
  obtain ⟨hmem, hc⟩ := mem_flaggedEntries.1 hp
  obtain ⟨e, he, hd⟩ := (h.inv.flagged_iff p.1).1 hmem
  rw [hc, Option.some.injEq] at he
  have hview : p.2.view = target.coin p.1 := by
    rw [← h.view, CCoinsViewCache.view_of_some hc]
  refine ⟨hview, he ▸ hd, fun hs => target.spendable p.1 _ ?_⟩
  rw [← hview, CCoinsCacheEntry.view, hs]
  rfl

end

variable {cache : CCoinsViewCache Hash}

lemma StandsFor.applyEntries_take {m target : CoinsMap Hash}
    (h : StandsFor cache m target) (j : ℕ) (o : COutPoint Hash) :
    applyEntries m.coin (cache.flaggedEntries.take j) o = m.coin o ∨
      applyEntries m.coin (cache.flaggedEntries.take j) o = target.coin o := by
  by_cases hmem : o ∈ (cache.flaggedEntries.take j).map Prod.fst
  · obtain ⟨p, hp, rfl⟩ := mem_map.1 hmem
    have hnodup : ((cache.flaggedEntries.take j).map Prod.fst).Nodup := by
      rw [map_take, h.inv.flaggedEntries_fst]
      exact h.inv.nodup.sublist (take_sublist ..)
    rw [applyEntries_of_mem hnodup hp]
    exact .inr (h.entry (mem_of_mem_take hp)).1
  · exact .inl (applyEntries_of_notMem hmem)

/-- **A flush cut short** after `k` batches: nothing happened, or the heads are recorded and every
coin is the old or the new one, or the flush is complete. -/
lemma writeBatches_cases [Zero Hash] {db : CCoinsViewDB Hash}
    {target : CoinsMap Hash} (h : StandsFor cache db.coins target)
    (hrun : db.batchWrite full cache.flaggedEntries hashBlock = .ok batches) (k : ℕ) :
    (k = 0 ∧ db.writeBatches (batches.take k) = db) ∨
      (0 < k ∧ k < batches.length ∧ ∃ m old_tip, db.oldTip hashBlock = .ok old_tip ∧
        db.writeBatches (batches.take k) = ⟨m, none, some [hashBlock, old_tip]⟩ ∧
        ∀ o, m.coin o = db.coins.coin o ∨ m.coin o = target.coin o) ∨
      (0 < k ∧ batches.length ≤ k ∧
        db.writeBatches (batches.take k) = ⟨target, some hashBlock, none⟩) := by
  obtain ⟨-, old_tip, hold, rfl⟩ := batchWrite_eq_ok.1 hrun
  have hentries : ∀ p ∈ cache.flaggedEntries,
      p.2.dirty = true ∧ (p.2.coin.isSpent = false → p.2.coin.Spendable) :=
    fun p hp => (h.entry hp).2
  cases k with
  | zero => exact .inl ⟨rfl, rfl⟩
  | succ k =>
    rw [writeBatches_eq_foldl]
    by_cases hk : k + 1 < (splitBatches full hashBlock 0
        [.eraseBestBlock, .writeHeadBlocks [hashBlock, old_tip]] cache.flaggedEntries).length
    · obtain ⟨j, hj⟩ := flatten_take_splitBatches full hashBlock 0 _ _ hk
      obtain ⟨m, hm, hcoin⟩ := write_entries (⟨db.coins, none, some [hashBlock, old_tip]⟩)
        fun p hp => hentries p (mem_of_mem_take hp)
      refine .inr (.inl ⟨k.succ_pos, hk, m, old_tip, hold, ?_, fun o => ?_⟩)
      · rw [hj, foldl_append]
        exact hm
      · rw [hcoin]
        exact h.applyEntries_take j o
    · rw [take_of_length_le (Nat.not_lt.1 hk), flatten_splitBatches]
      obtain ⟨m, hm, hcoin⟩ := write_entries (⟨db.coins, none, some [hashBlock, old_tip]⟩)
        hentries
      refine .inr (.inr ⟨k.succ_pos, Nat.not_lt.1 hk, ?_⟩)
      have htarget : m = target := CoinsMap.ext <| by
        rw [hcoin, ← h.view]
        exact h.inv.applyEntries_flagged
      rw [foldl_append, foldl_append]
      have hfirst : ([.eraseBestBlock, .writeHeadBlocks [hashBlock, old_tip]] :
          List (DBWrite Hash)).foldl write db =
            ⟨db.coins, none, some [hashBlock, old_tip]⟩ := rfl
      rw [hfirst, hm, htarget]
      rfl

end CCoinsViewDB

end SlithyTove
