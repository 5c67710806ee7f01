import SlithyTove.Validation.Undo
import SlithyTove.Framework.Settle

/-!
# Blocks on a view that went part of the way

After an interrupted flush the coins database holds, outpoint by outpoint, either the old or the
new coin.  `ReplayBlocks` runs `DisconnectBlock` and `RollforwardBlock` on it, on views the blocks
were never connected to.

What makes this work is that neither depends on the view: for a block that was once connected from
`V` to `V'`, disconnecting it gives every outpoint the block touches its coin in `V`, rolling it
forward gives it its coin in `V'`, and both leave every other outpoint alone
(`ConnectedTo.redoable`).
-/

namespace SlithyTove

open Framework List CoinsMap

variable {Hash : Type} [DecidableEq Hash] [Zero Hash]

/-! ## `RollforwardBlock` -/

/-- `SpendCoin` where a missing coin is ignored. -/
def spendIfPresent (m : CoinsMap Hash) (o : COutPoint Hash) : CoinsMap Hash :=
  ((m.spendCoin o).map Prod.snd).getD m

/-- One transaction of `RollforwardBlock`. -/
def rollforwardTx (rules : ConsensusRules Hash) (nHeight : ℕ) (m : CoinsMap Hash)
    (tx : CTransaction Hash) : Except String (CoinsMap Hash) :=
  let m := if tx.isCoinBase then m
    else tx.vin.foldl (fun m txin => spendIfPresent m txin.prevout) m
  addCoins (rules.txid tx) tx nHeight m

/-- `Chainstate::RollforwardBlock`, with the block read. -/
def rollforwardBlock (rules : ConsensusRules Hash) (nHeight : ℕ) (block : CBlock Hash)
    (m : CoinsMap Hash) : Except String (CoinsMap Hash) :=
  block.vtx.foldlM (rollforwardTx rules nHeight) m

omit [Zero Hash] in
lemma spendIfPresent_coin (m : CoinsMap Hash) (o : COutPoint Hash) :
    (spendIfPresent m o).coin = Function.update m.coin o none := by
  rw [spendIfPresent, CoinsMap.spendCoin]
  cases hc : m.coin o with
  | none => exact (Function.update_eq_self_iff.2 hc.symm).symm
  | some c => rfl

/-! ## Outpoints a transaction touches -/

/-- The outpoints of the outputs that become coins. -/
def createdBy (txid : Hash) (vout : List (CTxOut × ℕ)) : Set (COutPoint Hash) :=
  {o | ∃ p ∈ vout, CScript.isUnspendable p.1.scriptPubKey = false ∧ o = ⟨txid, p.2⟩}

/-- The outpoints of the inputs; a coinbase has none. -/
def spentBy (tx : CTransaction Hash) : List (COutPoint Hash) :=
  if tx.isCoinBase then [] else tx.vin.map CTxIn.prevout

omit [DecidableEq Hash] [Zero Hash] in
lemma createdBy_cons (txid : Hash) (p : CTxOut × ℕ) (vout : List (CTxOut × ℕ)) :
    createdBy txid (p :: vout) = createdBy txid [p] ∪ createdBy txid vout := by
  ext o
  simp [createdBy, or_and_right, exists_or]

variable {m m' : CoinsMap Hash}

section

omit [Zero Hash]

lemma addCoin_settles {txid : Hash} {p : CTxOut × ℕ} {nHeight : ℕ} {isCb : Bool}
    (hrun : m.addCoin ⟨txid, p.2⟩ ⟨p.1, nHeight, isCb⟩ = .ok m') :
    Settles CoinsMap.coin (fun m => m.addCoin ⟨txid, p.2⟩ ⟨p.1, nHeight, isCb⟩)
      (createdBy txid [p]) m'.coin ∧ ∀ o ∉ createdBy txid [p], m'.coin o = m.coin o := by
  have hmem : ∀ o, o ∈ createdBy txid [p] ↔
      CScript.isUnspendable p.1.scriptPubKey = false ∧ o = ⟨txid, p.2⟩ := by
    intro o
    simp [createdBy]
  obtain ⟨hspent, ⟨hu, rfl⟩ | ⟨hs, rfl⟩⟩ := addCoin_cases hrun
  · have hnot : ∀ o, o ∉ createdBy txid [p] := by
      intro o ho
      have hfalse := ((hmem o).1 ho).1
      dsimp only at hu
      rw [hu] at hfalse
      cases hfalse
    exact ⟨fun s => ⟨s, s.addCoin_of_unspendable _ hspent hu, fun o ho => absurd ho (hnot o),
      fun _ _ => rfl⟩, fun _ _ => rfl⟩
  · have hin : ∀ o ∈ createdBy txid [p], o = ⟨txid, p.2⟩ := fun o ho => ((hmem o).1 ho).2
    have hout : ∀ o ∉ createdBy txid [p], o ≠ ⟨txid, p.2⟩ :=
      fun o ho heq => ho ((hmem o).2 ⟨hs.notUnspendable, heq⟩)
    refine ⟨fun s => ⟨_, s.addCoin_of_spendable _ hs, fun o ho => ?_, fun o ho => ?_⟩,
      fun o ho => ?_⟩
    · rw [hin o ho, insert_coin_self, insert_coin_self]
    · exact insert_coin_of_ne _ _ hs (hout o ho)
    · exact insert_coin_of_ne _ _ hs (hout o ho)

lemma addOutputs_settles {txid : Hash} {nHeight : ℕ} {isCb : Bool} {vout : List (CTxOut × ℕ)}
    (hrun : vout.foldlM (fun m p => m.addCoin ⟨txid, p.2⟩ ⟨p.1, nHeight, isCb⟩) m = .ok m') :
    Settles CoinsMap.coin
      (fun m => vout.foldlM (fun m p => m.addCoin ⟨txid, p.2⟩ ⟨p.1, nHeight, isCb⟩) m)
      (createdBy txid vout) m'.coin ∧
      ∀ o ∉ createdBy txid vout, m'.coin o = m.coin o := by
  induction vout generalizing m with
  | nil =>
    rw [foldlM_nil, pure_eq_ok] at hrun
    have hempty : createdBy txid [] = ∅ := by
      ext o
      simp [createdBy]
    rw [hempty, hrun]
    exact ⟨settles_pure _, fun _ _ => rfl⟩
  | cons p vout ih =>
    obtain ⟨t, hpass, hrest⟩ := foldlM_cons_eq_ok.1 hrun
    obtain ⟨hone, honeOut⟩ := addCoin_settles hpass
    obtain ⟨hall, hallOut⟩ := ih hrest
    rw [createdBy_cons]
    refine ⟨(hone.comp hall fun o _ ho => (hallOut o ho).symm).congr fun s => rfl,
      fun o ho => ?_⟩
    rw [Set.mem_union, not_or] at ho
    rw [hallOut o ho.2, honeOut o ho.1]

lemma spendAll_settles (outs : List (COutPoint Hash)) :
    Settles CoinsMap.coin
      (fun m => (.ok (outs.foldl spendIfPresent m) : Except String (CoinsMap Hash)))
      {o | ∃ x ∈ outs, o ∈ ({x} : Set (COutPoint Hash))} fun _ => none := by
  refine Settles.foldl fun x _ m => ⟨_, rfl, fun o ho => ?_, fun o ho => ?_⟩
  · rw [Set.mem_singleton_iff.1 ho, spendIfPresent_coin, Function.update_self]
  · rw [spendIfPresent_coin, Function.update_of_ne ho]

lemma removeOutputs_settles (txid : Hash) (nHeight : ℕ) (isCb isEx : Bool)
    (vout : List (CTxOut × ℕ)) :
    Settles (fun s : Bool × CoinsMap Hash => s.2.coin)
      (fun s => (.ok (vout.foldl (removeOutput txid nHeight isCb isEx) s) : Except String _))
      (createdBy txid vout) fun _ => none := by
  refine Settles.foldl (T := fun p : CTxOut × ℕ =>
    {o | CScript.isUnspendable p.1.scriptPubKey = false ∧ o = (⟨txid, p.2⟩ : COutPoint Hash)})
    fun p _ s => ⟨_, rfl, fun o ho => ?_, fun o ho => ?_⟩
  · obtain ⟨hs, rfl⟩ := ho
    rw [removeOutput, hs]
    cases hc : s.2.coin ⟨txid, p.2⟩ with
    | none => simp [CoinsMap.spendCoin, hc]
    | some c => simp [spendCoin_eq_some.2 ⟨hc, rfl⟩]
  · rw [removeOutput]
    split
    · rfl
    · next hs =>
      have hne : o ≠ ⟨txid, p.2⟩ := fun heq => ho ⟨by simpa using hs, heq⟩
      cases hc : s.2.coin ⟨txid, p.2⟩ with
      | none => simp [CoinsMap.spendCoin, hc]
      | some c =>
        simp [spendCoin_eq_some.2 ⟨hc, rfl⟩, erase_coin_of_ne _ hne]

lemma undo_of_spendInputs {vin : List (CTxIn Hash)} {u : CTxUndo}
    (hrun : vin.foldlM spendInput ([], m) = .ok (u, m')) :
    u.length = vin.length ∧ ∀ p ∈ vin.zip u, m.coin p.1.prevout = some p.2 := by
  refine spendInputs_invariant (P := fun pre undo _ => ∀ p ∈ pre.zip undo,
    m.coin p.1.prevout = some p.2) hrun (by simp) ?_
  intro pre txin undo view coin hlen hsub hc hpast p hp
  rw [zip_append hlen.symm, mem_append] at hp
  rcases hp with hp | hp
  · exact hpast p hp
  · rw [mem_singleton.1 hp]
    exact hsub _ _ hc

lemma applyUndo_settles {l : List (CTxIn Hash × Coin)}
    (hheight : ∀ o c, m.coin o = some c → c.nHeight ≠ 0)
    (hundo : ∀ p ∈ l, m.coin p.1.prevout = some p.2) :
    Settles (fun s : Bool × CoinsMap Hash => s.2.coin) (fun s => l.foldlM applyTxInUndo s)
      {o | ∃ p ∈ l, o ∈ ({p.1.prevout} : Set (COutPoint Hash))} m.coin := by
  refine Settles.foldlM fun p hp s => ?_
  have hc := hundo p hp
  have hs := m.spendable _ _ hc
  have hnz := hheight _ _ hc
  refine ⟨(s.1 && !s.2.haveCoin p.1.prevout, s.2.insert p.1.prevout p.2 hs), ?_,
    fun o ho => ?_, fun o ho => ?_⟩
  · simp only [applyTxInUndo, completeUndo, hnz, if_false, ok_bind,
      addCoin_of_spendable _ _ hs, pure_eq]
  · rw [Set.mem_singleton_iff.1 ho, hc]
    exact insert_coin_self _ _ _ hs
  · exact insert_coin_of_ne _ _ hs ho

end

/-! ## One transaction -/

variable {rules : ConsensusRules Hash}

lemma rollforwardTx_settles {nHeight : ℕ} {tx : CTransaction Hash}
    (hgone : ∀ o ∈ spentBy tx, m.coin o = none)
    (hadd : addCoins (rules.txid tx) tx nHeight m = .ok m') :
    Settles CoinsMap.coin (fun s => rollforwardTx rules nHeight s tx)
      ({o | o ∈ spentBy tx} ∪ createdBy (rules.txid tx) tx.vout.zipIdx) m'.coin := by
  obtain ⟨hcreate, hcreateOut⟩ := addOutputs_settles hadd
  have hspend := spendAll_settles (spentBy tx)
  simp only [Set.mem_singleton_iff, exists_eq_right'] at hspend
  refine (hspend.comp hcreate fun o ho hnot => ?_).congr fun s => ?_
  · rw [hcreateOut o hnot, hgone o ho]
  have hfold : (if tx.isCoinBase then s
      else tx.vin.foldl (fun m txin => spendIfPresent m txin.prevout) s) =
        (spentBy tx).foldl spendIfPresent s := by
    rw [spentBy]
    split
    · rfl
    · rw [foldl_map]
  rw [rollforwardTx, hfold]
  rfl

/-- The outpoints a transaction touches. -/
def touchedBy (rules : ConsensusRules Hash) (tx : CTransaction Hash) : Set (COutPoint Hash) :=
  {o | o ∈ spentBy tx} ∪ createdBy (rules.txid tx) tx.vout.zipIdx

omit [DecidableEq Hash] [Zero Hash] in
lemma lt_of_mem_createdBy {txid : Hash} {vout : List CTxOut} {o : COutPoint Hash}
    (h : o ∈ createdBy txid vout.zipIdx) : ∃ n < vout.length, o = ⟨txid, n⟩ := by
  obtain ⟨p, hp, -, rfl⟩ := h
  exact ⟨p.2, by simpa using snd_lt_of_mem_zipIdx hp, rfl⟩

variable {pindex : IndexEntry Hash}

/-- **One transaction** that was connected can be rolled back and forward on any view. -/
lemma ConnectedTx.redoable {view view' : CoinsMap Hash} {p : CTransaction Hash × Option CTxUndo}
    (h : ConnectedTx rules pindex.nHeight view p view') :
    Redoable (fun s : Bool × CoinsMap Hash => s.2.coin) (SlithyTove.disconnectTx rules pindex · p)
      CoinsMap.coin (rollforwardTx rules pindex.nHeight · p.1) (touchedBy rules p.1)
      view.coin view'.coin := by
  cases h with
  | @coinbase _ tx hcoinbase hfresh hadd =>
    have hspent : spentBy tx = [] := if_pos hcoinbase
    refine ⟨?_, rollforwardTx_settles (by simp [hspent]) hadd, fun o ho => ?_⟩
    · rw [touchedBy, hspent]
      simp only [not_mem_nil, Set.ofPred_false, Set.empty_union]
      refine (removeOutputs_settles _ _ _ _ _).congr_values fun o ho => ?_
      obtain ⟨n, hn, rfl⟩ := lt_of_mem_createdBy ho
      exact (hfresh n hn).symm
    · exact (addOutputs_settles hadd).2 o fun hmem => ho (.inr hmem)
  | @spending m _ tx u hcoinbase hheight hspend hfresh hadd =>
    have hspent : spentBy tx = tx.vin.map CTxIn.prevout := if_neg hcoinbase
    have hfrom := SpentFrom.of_spendInputs hspend
    rw [← hspent] at hfrom
    obtain ⟨hlen, hundo⟩ := undo_of_spendInputs hspend
    refine ⟨?_, rollforwardTx_settles hfrom.gone hadd, fun o ho => ?_⟩
    · have hset : {o | ∃ p ∈ (tx.vin.zip u).reverse,
          o ∈ ({p.1.prevout} : Set (COutPoint Hash))} = {o | o ∈ spentBy tx} := by
        have hfst : (tx.vin.zip u).map Prod.fst = tx.vin := map_fst_zip hlen.ge
        ext o
        rw [hspent]
        nth_rewrite 2 [← hfst]
        simp [eq_comm]
      have hback := applyUndo_settles (l := (tx.vin.zip u).reverse) hheight
        fun p hp => hundo p (mem_reverse.1 hp)
      rw [hset] at hback
      rw [touchedBy, Set.union_comm]
      have hremove := removeOutputs_settles (rules.txid tx) pindex.nHeight tx.isCoinBase
        (tx.isCoinBase && rules.isBIP30Unspendable pindex.nHeight pindex.hash) tx.vout.zipIdx
      refine (hremove.comp hback fun o ho hnot => ?_).congr fun s => ?_
      · obtain ⟨n, hn, rfl⟩ := lt_of_mem_createdBy ho
        rw [← hfrom.kept _ hnot, hfresh n hn]
      · rw [SlithyTove.disconnectTx]
        dsimp only
        rw [if_neg (not_not.2 hlen)]
        rfl
    · rw [touchedBy, Set.mem_union, not_or] at ho
      rw [(addOutputs_settles hadd).2 o ho.2, hfrom.kept o ho.1]

/-! ## One block -/

lemma ConnectedTxs.redoable {V view : CoinsMap Hash}
    {l : List (CTransaction Hash × Option CTxUndo)}
    (h : ConnectedTxs rules pindex.nHeight V l view) :
    ∃ T, Redoable (fun s : Bool × CoinsMap Hash => s.2.coin)
      (fun s => l.reverse.foldlM (disconnectTx rules pindex) s)
      CoinsMap.coin (fun m => (l.map Prod.fst).foldlM (rollforwardTx rules pindex.nHeight) m) T
      V.coin view.coin := by
  induction h with
  | nil => exact ⟨∅, .refl _⟩
  | snoc _ hp ih =>
    obtain ⟨T, hpast⟩ := ih
    refine ⟨_, (hpast.comp hp.redoable).congr (fun s => ?_) fun m => ?_⟩
    · rw [reverse_append, reverse_singleton, singleton_append, foldlM_cons]
    · rw [map_append, map_singleton, foldlM_append]
      exact congrArg _ (funext fun _ => bind_pure _)

/-- `RollforwardBlock` on a view; the best block is set by the caller. -/
def rollforwardView (rules : ConsensusRules Hash) (nHeight : ℕ) (block : CBlock Hash)
    (view : CoinsView Hash) : Except String (CoinsView Hash) := do
  let coins ← rollforwardBlock rules nHeight block view.coins
  return { view with coins }

/-- **One block** that was connected can be rolled back and forward on any view. -/
lemma ConnectedTo.redoable {block : CBlock Hash} {undo : CBlockUndo} {view view' : CoinsView Hash}
    (h : ConnectedTo rules block pindex undo view view') :
    ∃ T, Redoable (fun v : CoinsView Hash => v.coins.coin)
      (fun v => Prod.snd <$> disconnectBlock rules block pindex undo v)
      (fun v : CoinsView Hash => v.coins.coin)
      (fun v => rollforwardView rules pindex.nHeight block v) T
      view.coins.coin view'.coins.coin := by
  obtain ⟨T, htxs⟩ := h.txs.redoable
  refine ⟨T, fun v => ?_, fun v => ?_, htxs.same⟩
  · obtain ⟨⟨fClean, coins⟩, hrun, hin, hout⟩ := htxs.back (true, v.coins)
    refine ⟨⟨coins, view.hashBlock⟩, ?_, hin, hout⟩
    have hdisconnect : disconnectBlock rules block pindex undo v =
        .ok (if fClean then .DISCONNECT_OK else .DISCONNECT_UNCLEAN, ⟨coins, view.hashBlock⟩) := by
      simp only [disconnectBlock, bind_eq_ok, ensure_eq_ok]
      exact ⟨(), h.length, _, hrun, by rw [h.parent]; rfl⟩
    rw [hdisconnect]
    rfl
  · obtain ⟨coins, hrun, hin, hout⟩ := htxs.forward v.coins
    rw [map_fst_zip (by simp [← h.length])] at hrun
    exact ⟨{ v with coins }, bind_eq_ok.2 ⟨coins, hrun, rfl⟩, hin, hout⟩

end SlithyTove
