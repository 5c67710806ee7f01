import SlithyTove.Validation.Rollforward
import SlithyTove.Chain.LastCommonAncestor
import SlithyTove.Coins.CoinsDB

/-!
# Recovering from an interrupted flush

`ReplayBlocks` runs when a node starts.  If the coins database records two head blocks, a flush
from the old to the new one was interrupted.  The blocks of the old branch down to the fork are
then disconnected and those of the new branch rolled forward, on a cache over the database, and
the cache is flushed with the new head as its best block.  That flush may be interrupted as well.

Whatever was written, the database holds at every outpoint the coin of the old or of the new tip.
Rolling back and forward gives every outpoint the blocks touch its coin at the new tip, and the
others have the same coin at both tips, so the replay always ends at the coins of the new tip
(`replayBlocks_eq`).
-/

namespace SlithyTove

open Framework CCoinsViewDB

/-! ## The block index and the block files -/

/-- What the chainstate reads of `BlockManager`: the block index and the block and undo files. -/
structure BlockManager (Node Hash : Type) where
  tree : BlockTree Node
  entry : Node → IndexEntry Hash
  entry_pprev : ∀ n, (entry n).pprev = (tree.parent n).map fun p => (entry p).hash
  entry_nHeight : ∀ n, (entry n).nHeight = tree.depth n
  /-- The block index is a map from hashes. -/
  m_block_index : Hash → Option Node
  index_entry : ∀ n, m_block_index (entry n).hash = some n
  readBlock : Node → Option (CBlock Hash)
  readBlockUndo : Node → Option CBlockUndo

variable {Node Hash : Type} [DecidableEq Node] [DecidableEq Hash] [Zero Hash]

/-! ## `ReplayBlocks` -/

variable (rules : ConsensusRules Hash)

/-- One pass of the loop along the old branch.  The genesis block is never disconnected. -/
def rollbackBlock (blockman : BlockManager Node Hash) (pindexOld : Node) (cache : CoinsView Hash) :
    Except String (CoinsView Hash) :=
  if (blockman.entry pindexOld).nHeight > 0 then
    match blockman.readBlock pindexOld, blockman.readBlockUndo pindexOld with
    | some block, some undo =>
      Prod.snd <$> disconnectBlock rules block (blockman.entry pindexOld) undo cache
    | none, _ => .error "RollbackBlock(): ReadBlock() failed"
    | some _, none => .error "DisconnectBlock(): failure reading undo data"
  else .ok cache

/-- The loop along the old branch, for at most `fuel` passes; `none` is `nullptr`. -/
def rollback (rules : ConsensusRules Hash) (blockman : BlockManager Node Hash) :
    (fuel : ℕ) → (pindexOld pindexFork : Option Node) → CoinsView Hash →
      Except String (CoinsView Hash)
  | 0, pindexOld, pindexFork, cache =>
    if pindexOld = pindexFork then .ok cache else .error "out of fuel"
  | fuel + 1, pindexOld, pindexFork, cache =>
    if pindexOld = pindexFork then .ok cache
    else
      match pindexOld with
      | some pindexOld => do
        let cache ← rollbackBlock rules blockman pindexOld cache
        rollback rules blockman fuel (blockman.tree.parent pindexOld) pindexFork cache
      | none => .error "null pointer"

/-- One pass of the loop along the new branch. -/
def rollforwardAt (blockman : BlockManager Node Hash) (pindexNew : Node) (cache : CoinsView Hash)
    (nHeight : ℕ) :
    Except String (CoinsView Hash) := do
  match ← blockman.tree.getAncestor pindexNew nHeight with
  | none => throw "pindexNew->GetAncestor(nHeight)"
  | some pindex =>
    match blockman.readBlock pindex with
    | none => throw "ReplayBlock(): ReadBlock failed"
    | some block => rollforwardView rules (blockman.entry pindex).nHeight block cache

/-- The loop along the new branch. -/
def rollforward (blockman : BlockManager Node Hash) (nForkHeight : ℕ) (pindexNew : Node)
    (cache : CoinsView Hash) : Except String (CoinsView Hash) :=
  (List.range' (nForkHeight + 1) (blockman.tree.depth pindexNew - nForkHeight)).foldlM
    (rollforwardAt rules blockman pindexNew) cache

/-- The old tip and the fork.  The old tip is null in the first flush of a database. -/
def findFork (blockman : BlockManager Node Hash) (pindexNew : Node) (hashOld : Hash) :
    Except String (Option Node × Option Node) :=
  if hashOld = 0 then .ok (none, none)
  else
    match blockman.m_block_index hashOld with
    | none => .error "ReplayBlocks(): reorganization from unknown block requested"
    | some pindexOld => do
      let pindexFork ← blockman.tree.lastCommonAncestor pindexOld pindexNew
      ensure pindexFork.isSome "pindexFork != nullptr"
      return (some pindexOld, pindexFork)

/-- `Chainstate::ReplayBlocks` up to the flush: nothing if the database is consistent, and the
contents of the cache to be flushed otherwise. -/
def replayBlocks (blockman : BlockManager Node Hash) (db : CCoinsViewDB Hash) :
    Except String (Option (CoinsView Hash)) :=
  match db.getHeadBlocks with
  | [] => .ok none
  | [hashNew, hashOld] =>
    match blockman.m_block_index hashNew with
    | none => .error "ReplayBlocks(): reorganization to unknown block requested"
    | some pindexNew => do
      let (pindexOld, pindexFork) ← findFork blockman pindexNew hashOld
      let depth (p : Option Node) : ℕ := (p.map blockman.tree.depth).getD 0
      let cache ← rollback rules blockman (depth pindexOld) pindexOld pindexFork
        ⟨db.coins, db.getBestBlock⟩
      let cache ← rollforward rules blockman (depth pindexFork) pindexNew cache
      return some { cache with hashBlock := (blockman.entry pindexNew).hash }
  | _ => .error "ReplayBlocks(): unknown inconsistent state"

/-! ## Accepted chains -/

/-- The blocks up to a node were connected one after the other, each with BIP30 enforced and with
distinct transactions having distinct txids; their data and the undo data can be read. -/
inductive AcceptedChain (rules : ConsensusRules Hash) (blockman : BlockManager Node Hash) :
    Node → CoinsView Hash → Prop
  | genesis {n : Node} {block : CBlock Hash} {undo : CBlockUndo} {view : CoinsView Hash}
      (hparent : blockman.tree.parent n = none)
      (hconnect : connectBlock rules block (blockman.entry n) false ⟨.empty, 0⟩ =
        .ok (view, undo)) :
      AcceptedChain rules blockman n view
  | child {n p : Node} {block : CBlock Hash} {undo : CBlockUndo} {view view' : CoinsView Hash}
      (hparent : blockman.tree.parent n = some p) (hp : AcceptedChain rules blockman p view)
      (hblock : blockman.readBlock n = some block)
      (hundo : blockman.readBlockUndo n = some undo)
      (hbip30 : enforceBIP30 rules (blockman.entry n) = true)
      (hdistinct : rules.DistinctTxids block.vtx)
      (hconnect : connectBlock rules block (blockman.entry n) false view = .ok (view', undo)) :
      AcceptedChain rules blockman n view'

section Chains

variable {rules : ConsensusRules Hash} {blockman : BlockManager Node Hash}

variable {n : Node} {block : CBlock Hash} {view : CoinsView Hash} {undo : CBlockUndo}

omit [DecidableEq Node] in
lemma connectBlock_genesis (hparent : blockman.tree.parent n = none)
    (hconnect : connectBlock rules block (blockman.entry n) false ⟨.empty, 0⟩ =
      .ok (view, undo)) :
    (blockman.entry n).hash = rules.hashGenesisBlock ∧ view.coins = .empty := by
  have hpprev : (blockman.entry n).pprev = none := by
    rw [blockman.entry_pprev, hparent]
    rfl
  by_cases hgenesis : (blockman.entry n).hash = rules.hashGenesisBlock
  · simp only [connectBlock, if_pos hgenesis, bind_eq_ok] at hconnect
    obtain ⟨_, -, _, -, _, -, heq⟩ := hconnect
    cases heq
    exact ⟨hgenesis, rfl⟩
  · simp only [connectBlock, if_neg hgenesis, connectTransactions, bind_eq_ok,
      hpprev] at hconnect
    obtain ⟨_, -, _, -, _, -, _, ⟨_, hnone, -⟩, -⟩ := hconnect
    cases hnone

namespace AcceptedChain

variable {n : Node} {view : CoinsView Hash}

omit [DecidableEq Node] in
lemma exists_root (h : AcceptedChain rules blockman n view) :
    ∃ r view₀, blockman.tree.IsAncestor r n ∧ blockman.tree.parent r = none ∧
      (blockman.entry r).hash = rules.hashGenesisBlock ∧
      AcceptedChain rules blockman r view₀ ∧ view₀.coins = .empty := by
  induction h with
  | @genesis n _ _ view hparent hconnect =>
    obtain ⟨hhash, hcoins⟩ := connectBlock_genesis hparent hconnect
    exact ⟨n, view, .refl _ _, hparent, hhash, .genesis hparent hconnect, hcoins⟩
  | child hparent _ _ _ _ _ _ ih =>
    obtain ⟨r, view₀, hr, hrest⟩ := ih
    exact ⟨r, view₀, hr.trans (Forest.isAncestor_of_parent hparent), hrest⟩

omit [DecidableEq Node] in
/-- A block with a parent is not the genesis block: the index holds one node per hash. -/
lemma hash_ne_genesis {p : Node} (h : AcceptedChain rules blockman p view)
    (hparent : blockman.tree.parent n = some p) :
    (blockman.entry n).hash ≠ rules.hashGenesisBlock := by
  intro hhash
  obtain ⟨r, -, -, hroot, hrhash, -⟩ := h.exists_root
  have hn := blockman.index_entry n
  rw [hhash, ← hrhash, blockman.index_entry r, Option.some.injEq] at hn
  rw [← hn, hroot] at hparent
  cases hparent

variable {view' : CoinsView Hash}

section

omit [DecidableEq Node]

variable {p : Node} {block : CBlock Hash} {undo : CBlockUndo}
    (hparent : blockman.tree.parent n = some p) (hp : AcceptedChain rules blockman p view)
    (hbip30 : enforceBIP30 rules (blockman.entry n) = true)
    (hdistinct : rules.DistinctTxids block.vtx)
    (hconnect : connectBlock rules block (blockman.entry n) false view = .ok (view', undo))

include hparent hp hbip30 hdistinct hconnect

lemma connectedTo_of_height (hheight : ∀ o c, view.coins.coin o = some c → c.nHeight ≠ 0) :
    ConnectedTo rules block (blockman.entry n) undo view view' := by
  refine .of_connectBlock (hp.hash_ne_genesis hparent) ?_ hbip30 hdistinct hheight hconnect
  rw [blockman.entry_nHeight, blockman.tree.depth_child n p hparent]
  exact Nat.succ_pos _

omit hparent hp hbip30 hdistinct hconnect in
lemma height (h : AcceptedChain rules blockman n view) :
    ∀ o c, view.coins.coin o = some c → c.nHeight ≠ 0 := by
  induction h with
  | genesis hparent hconnect =>
    rw [(connectBlock_genesis hparent hconnect).2]
    simp
  | child hparent hp _ _ hbip30 hdistinct hconnect ih =>
    exact (connectedTo_of_height hparent hp hbip30 hdistinct hconnect ih).height

lemma connectedTo : ConnectedTo rules block (blockman.entry n) undo view view' :=
  connectedTo_of_height hparent hp hbip30 hdistinct hconnect hp.height

end

section

omit [DecidableEq Node]

lemma hashBlock (h : AcceptedChain rules blockman n view) :
    view.hashBlock = (blockman.entry n).hash := by
  cases h with
  | genesis hparent hconnect =>
    have hgenesis := (connectBlock_genesis hparent hconnect).1
    simp only [connectBlock, if_pos hgenesis, bind_eq_ok] at hconnect
    obtain ⟨_, -, _, -, _, -, heq⟩ := hconnect
    cases heq
    rfl
  | child hparent hp _ _ hbip30 hdistinct hconnect =>
    exact (connectedTo hparent hp hbip30 hdistinct hconnect).best

lemma unique (h : AcceptedChain rules blockman n view) (h' : AcceptedChain rules blockman n view') :
    view = view' := by
  induction h generalizing view' with
  | genesis hparent hconnect =>
    have hview := AcceptedChain.genesis hparent hconnect
    cases h' with
    | genesis hparent' hconnect' =>
      refine CoinsView.ext ?_ (hview.hashBlock.trans
        (AcceptedChain.genesis hparent' hconnect').hashBlock.symm)
      rw [(connectBlock_genesis hparent hconnect).2, (connectBlock_genesis hparent' hconnect').2]
    | child hparent' =>
      rw [hparent] at hparent'
      cases hparent'
  | child hparent hp hblock _ _ _ hconnect ih =>
    cases h' with
    | genesis hparent' =>
      rw [hparent] at hparent'
      cases hparent'
    | child hparent' hp' hblock' _ _ _ hconnect' =>
      rw [hparent, Option.some.injEq] at hparent'
      rw [hblock, Option.some.injEq] at hblock'
      subst hparent' hblock'
      rw [ih hp', hconnect', Except.ok.injEq, Prod.mk.injEq] at hconnect
      exact hconnect.1.symm

lemma of_isAncestor {f : Node} (h : AcceptedChain rules blockman n view)
    (hf : blockman.tree.IsAncestor f n) : ∃ view, AcceptedChain rules blockman f view := by
  induction h with
  | @genesis n _ _ view hparent hconnect =>
    by_cases hne : f = n
    · exact ⟨view, hne ▸ .genesis hparent hconnect⟩
    · obtain ⟨p, hp, -⟩ := hf.of_ne hne
      rw [hparent] at hp
      cases hp
  | @child n p block undo view view' hparent hp hblock hundo hbip30 hdistinct hconnect ih =>
    by_cases hne : f = n
    · exact ⟨view', hne ▸ .child hparent hp hblock hundo hbip30 hdistinct hconnect⟩
    · obtain ⟨q, hq, hfq⟩ := hf.of_ne hne
      rw [hparent, Option.some.injEq] at hq
      exact ih (hq ▸ hfq)

end

end AcceptedChain

/-! ## Rolling back and forward along a branch -/

lemma rollback_self (fuel : ℕ) (p : Option Node) (cache : CoinsView Hash) :
    rollback rules blockman fuel p p cache = .ok cache := by
  cases fuel <;> cases p <;> simp [rollback]

omit [DecidableEq Node] in
lemma rollbackBlock_eq (hpos : 0 < blockman.tree.depth n)
    (hblock : blockman.readBlock n = some block) (hundo : blockman.readBlockUndo n = some undo)
    (cache : CoinsView Hash) : rollbackBlock rules blockman n cache =
      Prod.snd <$> disconnectBlock rules block (blockman.entry n) undo cache := by
  rw [rollbackBlock, blockman.entry_nHeight, if_pos hpos, hblock, hundo]

omit [DecidableEq Node] in
lemma rollforward_child {p : Node} {nForkHeight : ℕ} (hparent : blockman.tree.parent n = some p)
    (hblock : blockman.readBlock n = some block) (hfork : nForkHeight ≤ blockman.tree.depth p)
    (cache : CoinsView Hash) :
    rollforward rules blockman nForkHeight n cache =
      rollforward rules blockman nForkHeight p cache >>=
        rollforwardView rules (blockman.entry n).nHeight block := by
  have hdepth := blockman.tree.depth_child n p hparent
  -- Below the child both branches have the same ancestors.
  have hsame : ∀ h ≤ blockman.tree.depth p,
      blockman.tree.getAncestor n h = blockman.tree.getAncestor p h := by
    intro h hh
    obtain ⟨y, hy, hrun⟩ := blockman.tree.getAncestor_eq_up p hh
    obtain ⟨y', hy', hrun'⟩ := blockman.tree.getAncestor_eq_up n (h := h) (by omega)
    rw [show blockman.tree.depth n - h = (blockman.tree.depth p - h) + 1 by omega,
      blockman.tree.up_succ_of_parent hparent, hy] at hy'
    rw [hrun, hrun', Option.some.inj hy']
  have hself : blockman.tree.getAncestor n (blockman.tree.depth n) = .ok (some n) := by
    obtain ⟨y, hy, hrun⟩ := blockman.tree.getAncestor_eq_up n le_rfl
    rw [Nat.sub_self, Forest.up_zero] at hy
    rw [hrun, hy]
  have hlast : ∀ cache, rollforwardAt rules blockman n cache (blockman.tree.depth n) =
      rollforwardView rules (blockman.entry n).nHeight block cache := by
    intro cache
    rw [rollforwardAt, hself]
    simp only [ok_bind, hblock]
  have hbranch : ∀ (l : List ℕ) (cache : CoinsView Hash), (∀ h ∈ l, h ≤ blockman.tree.depth p) →
      l.foldlM (rollforwardAt rules blockman n) cache =
        l.foldlM (rollforwardAt rules blockman p) cache := by
    intro l
    induction l with
    | nil => exact fun _ _ => rfl
    | cons h l ih =>
      intro cache hl
      have hone : rollforwardAt rules blockman n cache h =
          rollforwardAt rules blockman p cache h := by
        rw [rollforwardAt, rollforwardAt, hsame h (hl h List.mem_cons_self)]
      rw [List.foldlM_cons, List.foldlM_cons, hone]
      exact congrArg _ (funext fun cache => ih cache fun x hx => hl x (List.mem_cons_of_mem _ hx))
  have hlength : blockman.tree.depth n - nForkHeight =
      (blockman.tree.depth p - nForkHeight) + 1 := by omega
  have hmem : ∀ h ∈ List.range' (nForkHeight + 1) (blockman.tree.depth p - nForkHeight),
      h ≤ blockman.tree.depth p := by
    intro h hh
    rw [List.mem_range'_1] at hh
    omega
  rw [rollforward, rollforward, hlength, List.range'_concat, List.foldlM_append,
    hbranch _ cache hmem]
  refine congrArg _ (funext fun cache => ?_)
  rw [show nForkHeight + 1 + 1 * (blockman.tree.depth p - nForkHeight) = blockman.tree.depth n by
    omega, List.foldlM_cons, hlast]
  exact bind_pure _

/-- **A branch** of accepted blocks can be rolled back and forward on any view. -/
lemma AcceptedChain.redoable {view' : CoinsView Hash} (h : AcceptedChain rules blockman n view')
    {f : Node} (hf : AcceptedChain rules blockman f view) (hfn : blockman.tree.IsAncestor f n)
    {fuel : ℕ} (hfuel : blockman.tree.depth n - blockman.tree.depth f ≤ fuel) :
    ∃ T, Redoable (fun v : CoinsView Hash => v.coins.coin)
      (rollback rules blockman fuel (some n) (some f)) (fun v : CoinsView Hash => v.coins.coin)
      (rollforward rules blockman (blockman.tree.depth f) n) T
      view.coins.coin view'.coins.coin := by
  -- At the fork itself there is nothing to do.
  have hself : ∀ {view' : CoinsView Hash} (fuel : ℕ), AcceptedChain rules blockman f view' →
      Redoable (fun v : CoinsView Hash => v.coins.coin)
        (rollback rules blockman fuel (some f) (some f)) (fun v : CoinsView Hash => v.coins.coin)
        (rollforward rules blockman (blockman.tree.depth f) f) ∅
        view.coins.coin view'.coins.coin := by
    intro view' fuel hview'
    rw [hf.unique hview']
    refine (Redoable.refl _).congr (fun s => rollback_self fuel _ s) fun s => ?_
    rw [rollforward, Nat.sub_self]
    rfl
  induction h generalizing fuel with
  | @genesis n _ _ view' hparent hconnect =>
    by_cases hne : f = n
    · subst hne
      exact ⟨∅, hself fuel (.genesis hparent hconnect)⟩
    · obtain ⟨p, hp, -⟩ := hfn.of_ne hne
      rw [hparent] at hp
      cases hp
  | @child n p block undo _ view' hparent hp hblock hundo hbip30 hdistinct hconnect ih =>
    by_cases hne : f = n
    · subst hne
      exact ⟨∅, hself fuel (.child hparent hp hblock hundo hbip30 hdistinct hconnect)⟩
    · obtain ⟨q, hq, hfq⟩ := hfn.of_ne hne
      rw [hparent, Option.some.injEq] at hq
      subst hq
      have hdepth := blockman.tree.depth_child n p hparent
      have hle := hfq.depth_le
      obtain ⟨fuel, rfl⟩ := Nat.exists_eq_add_one_of_ne_zero (by omega : fuel ≠ 0)
      have hfuel' : blockman.tree.depth p - blockman.tree.depth f ≤ fuel := by omega
      obtain ⟨T, hbranch⟩ := ih hfq hfuel'
      obtain ⟨T', hone⟩ := (connectedTo hparent hp hbip30 hdistinct hconnect).redoable
      refine ⟨_, (hbranch.comp hone).congr (fun s => ?_) fun s => ?_⟩
      · rw [rollback, if_neg fun heq => hne (Option.some.inj heq).symm, hparent,
          rollbackBlock_eq (by omega) hblock hundo]
      · exact rollforward_child hparent hblock hle s

/-! ## The replay -/

/-- The coins `m` of the tip with a given hash; before the first flush there is no tip. -/
inductive TipCoins (rules : ConsensusRules Hash) (blockman : BlockManager Node Hash) :
    Hash → CoinsMap Hash → Prop
  | null : TipCoins rules blockman 0 .empty
  | tip {n : Node} {view : CoinsView Hash} (hn : AcceptedChain rules blockman n view)
      (hnonnull : (blockman.entry n).hash ≠ 0) :
      TipCoins rules blockman (blockman.entry n).hash view.coins

omit [DecidableEq Node] in
lemma AcceptedChain.exists_common {a b : Node} {viewA viewB : CoinsView Hash}
    (ha : AcceptedChain rules blockman a viewA) (hb : AcceptedChain rules blockman b viewB) :
    ∃ x, blockman.tree.IsAncestor x a ∧ blockman.tree.IsAncestor x b := by
  obtain ⟨r, -, hra, -, hhash, -⟩ := ha.exists_root
  obtain ⟨r', -, hrb, -, hhash', -⟩ := hb.exists_root
  have hindex := blockman.index_entry r
  rw [hhash, ← hhash', blockman.index_entry r', Option.some.injEq] at hindex
  exact ⟨r, hra, hindex ▸ hrb⟩

variable {db : CCoinsViewDB Hash} {hashOld : Hash} {mOld : CoinsMap Hash}

/-- **The replay ends at the coins of the new tip**, from any mixture of the coins of both. -/
lemma replayBlocks_eq {b : Node}
    (hold : TipCoins rules blockman hashOld mOld) (hb : AcceptedChain rules blockman b view)
    (hheads : db.headBlocks = some [(blockman.entry b).hash, hashOld])
    (hmix : ∀ o, db.coins.coin o = mOld.coin o ∨ db.coins.coin o = view.coins.coin o) :
    replayBlocks rules blockman db = .ok (some view) := by
  have hget : db.getHeadBlocks = [(blockman.entry b).hash, hashOld] := by
    rw [getHeadBlocks, hheads]
    rfl
  -- The fork, and the two loops from it.
  obtain ⟨old, fork, cache, cache', hfork, hback, hforward, hcoins⟩ :
      ∃ old fork cache cache', findFork blockman b hashOld = .ok (old, fork) ∧
        rollback rules blockman ((old.map blockman.tree.depth).getD 0) old fork
          ⟨db.coins, db.getBestBlock⟩ = .ok cache ∧
        rollforward rules blockman ((fork.map blockman.tree.depth).getD 0) b cache = .ok cache' ∧
        ∀ o, cache'.coins.coin o = view.coins.coin o := by
    cases hold with
    | null =>
      obtain ⟨r, view₀, hrb, hroot, -, hr, hempty⟩ := hb.exists_root
      obtain ⟨T, hbranch⟩ := hb.redoable hr hrb le_rfl
      have hstart : Redoable (fun v : CoinsView Hash => v.coins.coin)
          (fun v => (.ok v : Except String _)) (fun v : CoinsView Hash => v.coins.coin)
          (fun v => .ok v) ∅ view₀.coins.coin view₀.coins.coin := .refl _
      obtain ⟨cache, cache', hback, hforward, hcoins⟩ := hstart.replay hbranch
        (s := ⟨db.coins, db.getBestBlock⟩) (by rw [hempty]; exact hmix)
      rw [blockman.tree.depth_root r hroot] at hforward
      exact ⟨none, none, cache, cache', if_pos rfl, (rollback_self _ _ _).trans hback, hforward,
        hcoins⟩
    | @tip a viewA ha hnonnull =>
      obtain ⟨f, hf, hfa, hfb, -⟩ := blockman.tree.lastCommonAncestor_spec (ha.exists_common hb)
      obtain ⟨viewF, hviewF⟩ := ha.of_isAncestor hfa
      obtain ⟨T, hbranchA⟩ := ha.redoable hviewF hfa (Nat.sub_le _ _)
      obtain ⟨T', hbranchB⟩ := hb.redoable hviewF hfb le_rfl
      obtain ⟨cache, cache', hback, hforward, hcoins⟩ := hbranchA.replay hbranchB
        (s := ⟨db.coins, db.getBestBlock⟩) hmix
      refine ⟨some a, some f, cache, cache', ?_, hback, hforward, hcoins⟩
      rw [findFork, if_neg hnonnull, blockman.index_entry]
      exact bind_eq_ok.2 ⟨_, hf, rfl⟩
  rw [replayBlocks, hget]
  dsimp only
  rw [blockman.index_entry]
  refine bind_eq_ok.2 ⟨_, hfork, bind_eq_ok.2 ⟨_, hback, bind_eq_ok.2 ⟨_, hforward, ?_⟩⟩⟩
  have hview : cache'.coins = view.coins := CoinsMap.ext (funext hcoins)
  rw [pure_eq_ok, hview, ← hb.hashBlock]

/-! ## Crashes -/

/-- A database that is consistent with a tip; the null hash stands for no tip. -/
def consistentDB (m : CoinsMap Hash) (tip : Hash) : CCoinsViewDB Hash :=
  ⟨m, if tip = 0 then none else some tip, none⟩

/-- Restarts that crash: each replays the blocks and is stopped after some batches of its flush. -/
inductive CrashedReplays (rules : ConsensusRules Hash) (blockman : BlockManager Node Hash)
    (db₀ : CCoinsViewDB Hash) : CCoinsViewDB Hash → Prop
  | refl : CrashedReplays rules blockman db₀ db₀
  | crash {db : CCoinsViewDB Hash} {view : CoinsView Hash} {cache : CCoinsViewCache Hash}
      {full : ℕ → Bool} {batches : List (List (DBWrite Hash))}
      (h : CrashedReplays rules blockman db₀ db)
      (hreplay : replayBlocks rules blockman db = .ok (some view))
      (hcache : CCoinsViewDB.StandsFor cache db.coins view.coins)
      (hflush : db.batchWrite full cache.flaggedEntries view.hashBlock = .ok batches) (k : ℕ) :
      CrashedReplays rules blockman db₀ (db.writeBatches (batches.take k))

/-- A `ReplayBlocks` that runs to completion, with the database after it. -/
inductive ReplayCompletes (rules : ConsensusRules Hash) (blockman : BlockManager Node Hash)
    (db : CCoinsViewDB Hash) : CCoinsViewDB Hash → Prop
  | consistent (hreplay : replayBlocks rules blockman db = .ok none) :
      ReplayCompletes rules blockman db db
  | flushed {view : CoinsView Hash} {cache : CCoinsViewCache Hash} {full : ℕ → Bool}
      {batches : List (List (DBWrite Hash))}
      (hreplay : replayBlocks rules blockman db = .ok (some view))
      (hcache : CCoinsViewDB.StandsFor cache db.coins view.coins)
      (hflush : db.batchWrite full cache.flaggedEntries view.hashBlock = .ok batches) :
      ReplayCompletes rules blockman db (db.writeBatches batches)

/-- What a database can look like once the first batch of a flush from the coins `mOld` of the tip
`hashOld` to `view` was written: complete, or with the heads recorded and old and new coins. -/
inductive Interrupted (hashOld : Hash) (mOld : CoinsMap Hash) (view : CoinsView Hash) :
    CCoinsViewDB Hash → Prop
  | complete : Interrupted hashOld mOld view (consistentDB view.coins view.hashBlock)
  | partway {m : CoinsMap Hash}
      (hmix : ∀ o, m.coin o = mOld.coin o ∨ m.coin o = view.coins.coin o) :
      Interrupted hashOld mOld view ⟨m, none, some [view.hashBlock, hashOld]⟩

variable (m : CoinsMap Hash)

lemma consistentDB_of_ne {tip : Hash} (h : tip ≠ 0) : consistentDB m tip = ⟨m, some tip, none⟩ := by
  rw [consistentDB, if_neg h]

lemma replayCompletes_iff_of_none {db' : CCoinsViewDB Hash}
    (hnone : replayBlocks rules blockman db = .ok none) :
    ReplayCompletes rules blockman db db' ↔ db' = db := by
  constructor
  · rintro (_ | ⟨hreplay, -, -⟩)
    · rfl
    · rw [hnone] at hreplay
      cases hreplay
  · rintro rfl
    exact .consistent hnone

lemma CrashedReplays.eq_of_none {db₀ : CCoinsViewDB Hash}
    (h : CrashedReplays rules blockman db₀ db)
    (hnone : replayBlocks rules blockman db₀ = .ok none) : db = db₀ := by
  induction h with
  | refl => rfl
  | crash _ hreplay _ _ _ ih =>
    rw [ih, hnone] at hreplay
    cases hreplay

lemma Interrupted.of_flush {cache : CCoinsViewCache Hash} {full : ℕ → Bool}
    {batches : List (List (DBWrite Hash))} (hold : db.oldTip view.hashBlock = .ok hashOld)
    (hmix : ∀ o, db.coins.coin o = mOld.coin o ∨ db.coins.coin o = view.coins.coin o)
    (hcache : CCoinsViewDB.StandsFor cache db.coins view.coins)
    (hflush : db.batchWrite full cache.flaggedEntries view.hashBlock = .ok batches) {k : ℕ}
    (hk : k ≠ 0) : Interrupted hashOld mOld view (db.writeBatches (batches.take k)) := by
  have hnonnull := (batchWrite_eq_ok.1 hflush).1
  rcases writeBatches_cases hcache hflush k with
    ⟨hzero, -⟩ | ⟨-, -, m, old_tip, hold', hdb, hm⟩ | ⟨-, -, hdb⟩
  · exact absurd hzero hk
  · rw [hold, Except.ok.injEq] at hold'
    subst hold'
    rw [hdb]
    refine .partway fun o => ?_
    rcases hm o with ho | ho
    · rw [ho]
      exact hmix o
    · exact .inr ho
  · rw [hdb, ← consistentDB_of_ne _ hnonnull]
    exact .complete

lemma oldTip_partway {m : CoinsMap Hash} {hashNew : Hash} :
    (⟨m, none, some [hashNew, hashOld]⟩ : CCoinsViewDB Hash).oldTip hashNew = .ok hashOld := by
  simp [oldTip, getBestBlock, getHeadBlocks]

lemma oldTip_consistentDB (tip hashBlock : Hash) :
    (consistentDB m tip).oldTip hashBlock = .ok tip := by
  by_cases htip : tip = 0 <;>
    simp [consistentDB, oldTip, getBestBlock,
      getHeadBlocks, htip]

section Runs

variable {hashOld : Hash} {mOld : CoinsMap Hash} {b : Node} {view : CoinsView Hash}

variable {db : CCoinsViewDB Hash} (hold : TipCoins rules blockman hashOld mOld)
  (hb : AcceptedChain rules blockman b view)

include hold hb

lemma Interrupted.replayBlocks (h : Interrupted hashOld mOld view db) :
    (db = consistentDB view.coins view.hashBlock ∧
        SlithyTove.replayBlocks rules blockman db = .ok none) ∨
      (SlithyTove.replayBlocks rules blockman db = .ok (some view) ∧
        db.oldTip view.hashBlock = .ok hashOld ∧
        ∀ o, db.coins.coin o = mOld.coin o ∨ db.coins.coin o = view.coins.coin o) := by
  cases h with
  | complete => exact .inl ⟨rfl, rfl⟩
  | partway hmix =>
    exact .inr ⟨replayBlocks_eq hold hb (by rw [hb.hashBlock]) hmix, oldTip_partway, hmix⟩

/-- However often the replay crashes, the database stays as after an interrupted flush. -/
lemma CrashedReplays.interrupted {db₀ : CCoinsViewDB Hash}
    (h : CrashedReplays rules blockman db₀ db) (h₀ : Interrupted hashOld mOld view db₀) :
    Interrupted hashOld mOld view db := by
  induction h with
  | refl => exact h₀
  | crash _ hreplay hcache hflush k ih =>
    rcases ih.replayBlocks hold hb with ⟨-, hnone⟩ | ⟨hsome, holdTip, hmix⟩
    · rw [hnone] at hreplay
      cases hreplay
    · rw [hsome, Except.ok.injEq, Option.some.injEq] at hreplay
      subst hreplay
      by_cases hk : k = 0
      · rw [hk]
        exact ih
      · exact .of_flush holdTip hmix hcache hflush hk

lemma Interrupted.completes_iff {db' : CCoinsViewDB Hash} (h : Interrupted hashOld mOld view db)
    (hnonnull : view.hashBlock ≠ 0) :
    ReplayCompletes rules blockman db db' ↔ db' = consistentDB view.coins view.hashBlock := by
  rcases h.replayBlocks hold hb with ⟨hdb, hnone⟩ | ⟨hsome, holdTip, hmix⟩
  · rw [replayCompletes_iff_of_none hnone, hdb]
  · have hflushed : ∀ {cache : CCoinsViewCache Hash} {full : ℕ → Bool}
        {batches : List (List (DBWrite Hash))},
        CCoinsViewDB.StandsFor cache db.coins view.coins →
        db.batchWrite full cache.flaggedEntries view.hashBlock = .ok batches →
        db.writeBatches batches = consistentDB view.coins view.hashBlock := by
      intro cache full batches hcache hflush
      have hpos : 0 < batches.length := by
        obtain ⟨-, old_tip, -, rfl⟩ := batchWrite_eq_ok.1 hflush
        exact length_splitBatches_pos ..
      rw [consistentDB_of_ne _ hnonnull]
      rcases writeBatches_cases hcache hflush batches.length with
        ⟨hzero, -⟩ | ⟨-, hlt, -⟩ | ⟨-, -, hdb⟩
      · omega
      · omega
      · rwa [List.take_length] at hdb
    constructor
    · rintro (hreplay | ⟨hreplay, hcache, hflush⟩)
      · rw [hsome] at hreplay
        cases hreplay
      · rw [hsome, Except.ok.injEq, Option.some.injEq] at hreplay
        subst hreplay
        exact hflushed hcache hflush
    · rintro rfl
      have hcache := differenceCache_standsFor db.coins view.coins
      have hflush : db.batchWrite (fun _ => false)
          (differenceCache db.coins view.coins).flaggedEntries view.hashBlock = .ok _ :=
        batchWrite_eq_ok.2 ⟨hnonnull, hashOld, holdTip, rfl⟩
      rw [← hflushed hcache hflush]
      exact .flushed hsome hcache hflush

end Runs

/-- **Recovery from crashes.**  A flush from the coins of one tip to those of another, split into
batches in any way, is stopped after `k` of them, and restarts may crash in the middle of their own
flush any number of times.  The first `ReplayBlocks` that completes then leaves exactly the coins of
the new tip, with the new tip as the best block and no heads, if at least one batch was written.  If
none was, the database is still consistent with the old tip and stays so. -/
theorem replayCompletes_after_crashes (rules : ConsensusRules Hash)
    (blockman : BlockManager Node Hash) (tipA : Hash) (coinsA : CoinsMap Hash) (B : Node)
    (viewB : CoinsView Hash) (hA : TipCoins rules blockman tipA coinsA)
    (hB : AcceptedChain rules blockman B viewB) (cache : CCoinsViewCache Hash) (full : ℕ → Bool)
    (batches : List (List (DBWrite Hash)))
    (hcache : CCoinsViewDB.StandsFor cache coinsA viewB.coins)
    (hflush : (consistentDB coinsA tipA).batchWrite full cache.flaggedEntries
      (blockman.entry B).hash = .ok batches) (k : ℕ) (db db' : CCoinsViewDB Hash)
    (hcrash : CrashedReplays rules blockman
      ((consistentDB coinsA tipA).writeBatches (batches.take k)) db) :
    ReplayCompletes rules blockman db db' ↔
      db' = if k = 0 then consistentDB coinsA tipA
        else ⟨viewB.coins, some (blockman.entry B).hash, none⟩ := by
  rw [← hB.hashBlock] at hflush ⊢
  have hnonnull := (batchWrite_eq_ok.1 hflush).1
  by_cases hk : k = 0
  · rw [hk] at hcrash
    have hnone : replayBlocks rules blockman (consistentDB coinsA tipA) = .ok none := rfl
    rw [if_pos hk, hcrash.eq_of_none hnone]
    exact replayCompletes_iff_of_none hnone
  · rw [if_neg hk, ← consistentDB_of_ne _ hnonnull]
    have hfirst : Interrupted tipA coinsA viewB
        ((consistentDB coinsA tipA).writeBatches (batches.take k)) :=
      .of_flush (oldTip_consistentDB ..) (fun o => .inl rfl) hcache hflush hk
    exact (hcrash.interrupted hA hB hfirst).completes_iff hA hB hnonnull

end Chains

/-! ## A reorganisation -/

/-- A block index with the chain up to height `101` and, as the last node, the other block at that
height. -/
def forkManager : BlockManager (Fin 103) ℕ where
  tree :=
    { parent := fun n => if n.val = 0 then none
        else some (if n.val = 102 then 100 else ⟨n.val - 1, by omega⟩)
      depth := fun n => min n.val 101
      depth_root := by decide +kernel
      depth_child := by decide +kernel
      pskip := fun n => if n.val = 0 then none
        else some (Fin.ofNat 103 (getSkipHeight (min n.val 101)))
      skip_root := by decide +kernel
      skip_child := by decide +kernel }
  entry := fun n => if n.val = 0 then ⟨1, none, 0, none⟩
    else if n.val = 102 then forkIndex else chainIndex n.val
  entry_pprev := by decide +kernel
  entry_nHeight := by decide +kernel
  m_block_index := fun hash => if h : 0 < hash ∧ hash ≤ 103 then some ⟨hash - 1, by omega⟩ else none
  index_entry := by decide +kernel
  readBlock := fun n => some (if n.val = 102 then forkBlock else chainBlock n.val)
  readBlockUndo := fun n =>
    (if n.val = 102 then forkState else chainState n.val).toOption.map Prod.snd

lemma forkManager_readBlockUndo (n : Fin 103) : forkManager.readBlockUndo n =
    (if n.val = 102 then forkState else chainState n.val).toOption.map Prod.snd := rfl

lemma acceptedChain_chainState {k : ℕ} {p : CoinsView ℕ × CBlockUndo} (hk : k < 102)
    (h : chainState k = .ok p) :
    AcceptedChain (lenientRules mainParams) forkManager ⟨k, by omega⟩ p.1 := by
  induction k generalizing p with
  | zero =>
    obtain rfl := Except.ok.inj h
    have hconnect : connectBlock (lenientRules mainParams) (chainBlock 0)
      (forkManager.entry 0) false
      ⟨.empty, 0⟩ = .ok (⟨.empty, 1⟩, []) := rfl
    exact .genesis rfl hconnect
  | succ k ih =>
    obtain ⟨q, hq, hconnect⟩ := chainState_succ.1 h
    have hother : k + 1 ≠ 102 := by omega
    have hentry : forkManager.entry ⟨k + 1, by omega⟩ = chainIndex (k + 1) := if_neg hother
    refine .child (congrArg some (if_neg hother)) (ih (by omega) hq) (congrArg some (if_neg hother))
      ?_ (by rw [hentry]; rfl) (chainBlock_distinct _) (hentry ▸ hconnect)
    rw [forkManager_readBlockUndo, if_neg hother, h]
    rfl

lemma acceptedChain_forkState {p : CoinsView ℕ × CBlockUndo} (h : forkState = .ok p) :
    AcceptedChain (lenientRules mainParams) forkManager 102 p.1 := by
  have hrun := h
  simp only [forkState, bind_eq_ok] at hrun
  obtain ⟨q, hq, r, hdisconnect, hconnect⟩ := hrun
  obtain ⟨q', hq', htip⟩ := chainState_succ.1 hq
  rw [(connectedTo_chainBlock (chainState_height hq') htip).disconnect] at hdisconnect
  obtain rfl := Except.ok.inj hdisconnect
  refine .child rfl (acceptedChain_chainState (by decide) hq') rfl ?_ rfl ?_ hconnect
  · rw [forkManager_readBlockUndo, if_pos (by decide), h]
    rfl
  · intro tx htx tx' htx' _
    rw [List.mem_singleton.1 htx, List.mem_singleton.1 htx']

/-- A flush that was to replace a block with spent coins by another one, stopped after its first
batch. -/
theorem replayCompletes_after_fork :
    ∃ p q cache batches, chainState 101 = .ok p ∧ forkState = .ok q ∧
      CCoinsViewDB.StandsFor cache p.1.coins q.1.coins ∧
      (consistentDB p.1.coins 102).batchWrite (fun _ => true) cache.flaggedEntries 103 =
        .ok batches ∧
      ReplayCompletes (lenientRules mainParams) forkManager
        ((consistentDB p.1.coins 102).writeBatches (batches.take 1))
          ⟨q.1.coins, some 103, none⟩ := by
  obtain ⟨p, hp⟩ := exists_chainState le_rfl
  obtain ⟨q, hq⟩ := exists_of_isOk forkState_isOk
  have htip : TipCoins (lenientRules mainParams) forkManager 102 p.1.coins :=
    .tip (acceptedChain_chainState (by decide) hp) (by decide)
  have hcache := differenceCache_standsFor p.1.coins q.1.coins
  have hflush : (consistentDB p.1.coins 102).batchWrite (fun _ => true)
      (differenceCache p.1.coins q.1.coins).flaggedEntries 103 = .ok _ :=
    batchWrite_eq_ok.2 ⟨by decide, 102, rfl, rfl⟩
  exact ⟨p, q, _, _, hp, hq, hcache, hflush,
    (replayCompletes_after_crashes (lenientRules mainParams)
    forkManager 102 p.1.coins 102 q.1 htip (acceptedChain_forkState hq) _ (fun _ => true) _ hcache
    hflush 1 _ _ .refl).2 rfl⟩

/-- If the crash comes before the first batch, the replay keeps the old tip. -/
theorem replayCompletes_before_firstBatch :
    ∃ view cache batches, AcceptedChain (lenientRules mainParams) forkManager 1 view ∧
      CCoinsViewDB.StandsFor cache .empty view.coins ∧
      (consistentDB .empty 1).batchWrite (fun _ => true) cache.flaggedEntries 2 = .ok batches ∧
      ∃ db', ReplayCompletes (lenientRules mainParams) forkManager
        ((consistentDB .empty 1).writeBatches (batches.take 0)) db' ∧
          db'.coins ≠ view.coins ∧ db'.bestBlock ≠ some 2 := by
  have hok : (chainState 1).map (fun p => p.1.coins.haveCoin ⟨1, 0⟩) = .ok true := rfl
  obtain ⟨p, hp⟩ := exists_chainState (k := 1) (by decide)
  rw [hp, Except.map, Except.ok.injEq] at hok
  refine ⟨p.1, _, _, acceptedChain_chainState (by decide) hp, differenceCache_standsFor _ _,
    batchWrite_eq_ok.2 ⟨by decide, 1, rfl, rfl⟩, consistentDB .empty 1, .consistent rfl, ?_,
    by decide⟩
  intro hempty
  rw [← hempty] at hok
  cases hok

end SlithyTove
