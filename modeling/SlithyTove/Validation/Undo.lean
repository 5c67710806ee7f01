import SlithyTove.Validation.ConnectBlock

/-!
# Disconnecting is the inverse of connecting

`DisconnectBlock` takes a transaction's outputs out of the view and puts the coins of its undo
record back, last transaction first.  Each pass undoes the corresponding pass of `ConnectBlock`
exactly, provided that pass overwrote nothing.

That no transaction of an accepted block overwrites a coin is where the BIP30 check and the
txids come in.  BIP30 rules out coins of the view the block is connected to.  A coin created
earlier in the block could only be overwritten by a transaction with the same txid, hence with the
same inputs; but these were spent by the first of the two, and an outpoint spent within the block
is never created again (`BlockLoop.spent`).
-/

namespace SlithyTove

open Framework List CoinsMap

variable {Hash : Type} [DecidableEq Hash]

/-! ## One transaction -/

variable {m m' : CoinsMap Hash}

section

variable {txid : Hash} {nHeight : ℕ} {isCb : Bool} {vout : List (CTxOut × ℕ)}
  (hrun : vout.foldlM (fun m p => m.addCoin ⟨txid, p.2⟩ ⟨p.1, nHeight, isCb⟩) m = .ok m')

include hrun

lemma addOutputs_erase {n : ℕ} (hn : n ∉ vout.map Prod.snd) : m'.coin ⟨txid, n⟩ = m.coin ⟨txid, n⟩ ∧
      vout.foldlM (fun m p => m.addCoin ⟨txid, p.2⟩ ⟨p.1, nHeight, isCb⟩) (m.erase ⟨txid, n⟩) =
        .ok (m'.erase ⟨txid, n⟩) := by
  induction vout generalizing m with
  | nil =>
    rw [foldlM_nil, pure_eq_ok] at hrun
    rw [← hrun]
    exact ⟨rfl, rfl⟩
  | cons p vout ih =>
    obtain ⟨t, hpass, hrest⟩ := foldlM_cons_eq_ok.1 hrun
    rw [map_cons, mem_cons, not_or] at hn
    have hne : (⟨txid, n⟩ : COutPoint Hash) ≠ ⟨txid, p.2⟩ := by
      rw [Ne, COutPoint.mk.injEq]
      exact fun heq => hn.1 heq.2
    obtain ⟨hsame, hcommute⟩ := ih hrest hn.2
    obtain ⟨hspent, ⟨hu, rfl⟩ | ⟨hs, rfl⟩⟩ := addCoin_cases hpass
    · exact ⟨hsame, foldlM_cons_eq_ok.2
        ⟨_, addCoin_of_unspendable _ _ hspent hu, hcommute⟩⟩
    · rw [insert_coin_of_ne _ _ hs hne] at hsame
      rw [m.erase_insert_of_ne hs hne.symm] at hcommute
      exact ⟨hsame, foldlM_cons_eq_ok.2
        ⟨_, addCoin_of_spendable _ _ hs, hcommute⟩⟩

/-- The loop that removes outputs undoes `AddCoins` on a view that has none of them. -/
lemma removeOutputs_addCoins (isEx : Bool) (hnodup : (vout.map Prod.snd).Nodup)
    (hfresh : ∀ p ∈ vout, m.coin ⟨txid, p.2⟩ = none) :
    vout.foldl (removeOutput txid nHeight isCb isEx) (true, m') = (true, m) := by
  induction vout generalizing m m' with
  | nil =>
    rw [foldlM_nil, pure_eq_ok] at hrun
    rw [← hrun]
    rfl
  | cons p vout ih =>
    obtain ⟨t, hpass, hrest⟩ := foldlM_cons_eq_ok.1 hrun
    rw [map_cons, nodup_cons] at hnodup
    have hfresh' : ∀ q ∈ vout, m.coin ⟨txid, q.2⟩ = none :=
      fun q hq => hfresh q (mem_cons_of_mem _ hq)
    obtain ⟨hspent, ⟨hu, rfl⟩ | ⟨hs, rfl⟩⟩ := addCoin_cases hpass
    · have hskip : removeOutput txid nHeight isCb isEx (true, m') p = (true, m') := if_pos hu
      rw [foldl_cons, hskip]
      exact ih hrest hnodup.2 hfresh'
    · -- The later outputs are added the same way without this one.
      obtain ⟨hsame, hcommute⟩ := addOutputs_erase hrest hnodup.1
      rw [insert_coin_self] at hsame
      rw [m.erase_insert hs (hfresh p mem_cons_self)] at hcommute
      have hremove : removeOutput txid nHeight isCb isEx (true, m') p =
          (true, m'.erase ⟨txid, p.2⟩) := by
        have hu : CScript.isUnspendable p.1.scriptPubKey = false := hs.notUnspendable
        rw [removeOutput, hu, spendCoin_eq_some.2 ⟨hsame, rfl⟩]
        simp
      rw [foldl_cons, hremove]
      exact ih hcommute hnodup.2 hfresh'

end

lemma applyUndo_spendInputs {vin : List (CTxIn Hash)} {u : CTxUndo}
    (hheight : ∀ o c, m.coin o = some c → c.nHeight ≠ 0)
    (hrun : vin.foldlM spendInput ([], m) = .ok (u, m')) :
    u.length = vin.length ∧
      (vin.zip u).reverse.foldlM applyTxInUndo (true, m') = .ok (true, m) := by
  refine spendInputs_invariant (P := fun pre undo view =>
    (pre.zip undo).reverse.foldlM applyTxInUndo (true, view) = .ok (true, m)) hrun rfl
    fun pre txin undo view coin hlen hsub hc hback => ?_
  have hone : applyTxInUndo (true, view.erase txin.prevout) (txin, coin) = .ok (true, view) := by
    have hnz := hheight _ _ (hsub _ _ hc)
    have hs := view.spendable _ _ hc
    simp only [applyTxInUndo, completeUndo, hnz, if_false, ok_bind,
      addCoin_of_spendable _ _ hs, pure_eq, CoinsMap.haveCoin, erase_coin_self,
      Option.isSome_none, Bool.not_false, Bool.and_self, view.insert_erase hc]
  rw [zip_append hlen.symm, reverse_append]
  exact foldlM_cons_eq_ok.2 ⟨_, hone, hback⟩

/-! ## No overwriting within a block -/

section Block

variable [Zero Hash] {rules : ConsensusRules Hash} {V : CoinsMap Hash}

/-- What holds of the view after the transactions `pre` of a block connected to `V`. -/
structure BlockLoop (rules : ConsensusRules Hash) (V : CoinsMap Hash)
    (pre : List (CTransaction Hash)) (view : CoinsMap Hash) : Prop where
  origin : ∀ o c, view.coin o = some c → V.coin o ≠ none ∨ o.hash ∈ pre.map rules.txid
  spent : ∀ tx ∈ pre, ¬ tx.isCoinBase → ∀ txin ∈ tx.vin, view.coin txin.prevout = none ∧
    (V.coin txin.prevout ≠ none ∨ txin.prevout.hash ∈ pre.map rules.txid)
  height : ∀ o c, view.coin o = some c → c.nHeight ≠ 0

/-- What spending a list of outpoints does to a view. -/
structure SpentFrom (m m' : CoinsMap Hash) (outs : List (COutPoint Hash)) : Prop where
  gone : ∀ o ∈ outs, m'.coin o = none
  kept : ∀ o ∉ outs, m'.coin o = m.coin o
  had : ∀ o ∈ outs, ∃ c, m.coin o = some c

variable {m m' : CoinsMap Hash}

omit [Zero Hash] in
lemma SpentFrom.sub {outs : List (COutPoint Hash)} (h : SpentFrom m m' outs) (o : COutPoint Hash)
    (c : Coin) (ho : m'.coin o = some c) : m.coin o = some c := by
  by_cases hmem : o ∈ outs
  · rw [h.gone o hmem] at ho
    cases ho
  · rwa [← h.kept o hmem]

omit [Zero Hash] in
lemma SpentFrom.of_spendInputs {vin : List (CTxIn Hash)} {u : CTxUndo}
    (hrun : vin.foldlM spendInput ([], m) = .ok (u, m')) :
    SpentFrom m m' (vin.map CTxIn.prevout) := by
  refine (spendInputs_invariant (P := fun pre _ view => SpentFrom m view (pre.map CTxIn.prevout))
    hrun ⟨by simp, fun _ _ => rfl, by simp⟩ ?_).2
  intro pre txin _ view coin _ hsub hc hpre
  rw [map_append, map_singleton]
  refine ⟨fun o ho => ?_, fun o ho => ?_, fun o ho => ?_⟩
  · by_cases heq : o = txin.prevout
    · rw [heq]
      exact erase_coin_self ..
    · rw [mem_append, mem_singleton] at ho
      rw [erase_coin_of_ne _ heq]
      exact hpre.gone o (ho.resolve_right heq)
  · rw [mem_append, mem_singleton, not_or] at ho
    rw [erase_coin_of_ne _ ho.2]
    exact hpre.kept o ho.1
  · rw [mem_append, mem_singleton] at ho
    rcases ho with ho | rfl
    · exact hpre.had o ho
    · exact ⟨coin, hsub _ _ hc⟩

variable {tx : CTransaction Hash} {nHeight : ℕ}

/-- The coins after `AddCoins` are old ones or outputs of the transaction. -/
lemma addCoins_origin {txid : Hash} (hrun : addCoins txid tx nHeight m = .ok m') :
    ∀ o c, m'.coin o = some c →
      m.coin o = some c ∨
        (o.hash = txid ∧ o.n < tx.vout.length ∧ c.nHeight = nHeight ∧ c.out ∈ tx.vout) := by
  refine foldlM_invariant (fun _ (t : CoinsMap Hash) => ∀ o c, t.coin o = some c →
    m.coin o = some c ∨
      (o.hash = txid ∧ o.n < tx.vout.length ∧ c.nHeight = nHeight ∧ c.out ∈ tx.vout)) hrun
    (fun _ _ h => .inl h) ?_
  rintro pre ⟨out, i⟩ t t' hmem ht hpass o c ho
  obtain ⟨-, ⟨-, rfl⟩ | ⟨hs, rfl⟩⟩ := addCoin_cases hpass
  · exact ht o c ho
  · by_cases heq : o = ⟨txid, i⟩
    · rw [heq, insert_coin_self, Option.some.injEq] at ho
      rw [heq, ← ho]
      exact .inr ⟨rfl, by simpa using snd_lt_of_mem_zipIdx hmem, rfl,
        fst_mem_of_mem_zipIdx hmem⟩
    · rw [insert_coin_of_ne _ _ hs heq] at ho
      exact ht o c ho

variable {tx' : CTransaction Hash}

omit [DecidableEq Hash] [Zero Hash] in
lemma prevouts_eq_of_stripWitness (h : tx.stripWitness = tx'.stripWitness) :
    tx.vin.map CTxIn.prevout = tx'.vin.map CTxIn.prevout := by
  have hvin := congrArg (fun t => t.vin.map CTxIn.prevout) h
  simpa [CTransaction.stripWitness, Function.comp_def] using hvin

lemma isCoinBase_eq_of_prevouts (h : tx.vin.map CTxIn.prevout = tx'.vin.map CTxIn.prevout) :
    tx.isCoinBase = tx'.isCoinBase := by
  have hform : ∀ t : CTransaction Hash,
      t.isCoinBase = decide (t.vin.map CTxIn.prevout = [COutPoint.null]) := by
    intro t
    rw [CTransaction.isCoinBase]
    split
    · next txin hvin => simp [hvin]
    · next hvin =>
      symm
      rw [decide_eq_false_iff_not]
      intro hnull
      obtain ⟨txin, hsingle, -⟩ := map_eq_singleton_iff.1 hnull
      exact hvin txin hsingle
  rw [hform, hform, h]

variable {pre : List (CTransaction Hash)} {view : CoinsMap Hash}

/-- A transaction with inputs never repeats an earlier one: its inputs would be gone. -/
lemma BlockLoop.txid_fresh {vtx : List (CTransaction Hash)} (h : BlockLoop rules V pre view)
    (hdistinct : rules.DistinctTxids vtx) (hpre : ∀ tx ∈ pre, tx ∈ vtx) (htx : tx ∈ vtx)
    (hcoinbase : ¬ tx.isCoinBase) (hvin : tx.vin ≠ [])
    (havailable : ∀ txin ∈ tx.vin, ∃ c, view.coin txin.prevout = some c) :
    rules.txid tx ∉ pre.map rules.txid := by
  intro hmem
  obtain ⟨tx', htx', hid⟩ := mem_map.1 hmem
  have hprevouts := prevouts_eq_of_stripWitness (hdistinct tx' (hpre tx' htx') tx htx hid)
  obtain ⟨txin, rest, hcons⟩ := exists_cons_of_ne_nil hvin
  have htxin : txin ∈ tx.vin := hcons ▸ mem_cons_self
  have hsame : txin.prevout ∈ tx'.vin.map CTxIn.prevout :=
    hprevouts ▸ mem_map_of_mem htxin
  obtain ⟨txin', htxin', heq⟩ := mem_map.1 hsame
  have hgone := (h.spent tx' htx' (by rwa [isCoinBase_eq_of_prevouts hprevouts]) txin' htxin').1
  obtain ⟨c, hc⟩ := havailable txin htxin
  rw [heq, hc] at hgone
  cases hgone

variable {s s' : ConnectState Hash}

section

variable (hpos : nHeight ≠ 0) (hbip30 : ∀ n < tx.vout.length, V.coin ⟨rules.txid tx, n⟩ = none)

include hpos hbip30

/-- One transaction: its outputs are new in the view, and the invariant goes on. -/
lemma BlockLoop.step (h : BlockLoop rules V pre view) (hfresh : rules.txid tx ∉ pre.map rules.txid)
    (hspent : SpentFrom view m (if tx.isCoinBase then [] else tx.vin.map CTxIn.prevout))
    (hadd : addCoins (rules.txid tx) tx nHeight m = .ok m') :
    (∀ n < tx.vout.length, m.coin ⟨rules.txid tx, n⟩ = none) ∧
      BlockLoop rules V (pre ++ [tx]) m' := by
  have hmono : ∀ {a}, a ∈ pre.map rules.txid → a ∈ (pre ++ [tx]).map rules.txid :=
    fun ha => by rw [map_append]; exact mem_append_left _ ha
  -- An outpoint with an origin is not one of this transaction's outputs.
  have hother : ∀ o : COutPoint Hash, V.coin o ≠ none ∨ o.hash ∈ pre.map rules.txid →
      ¬ (o.hash = rules.txid tx ∧ o.n < tx.vout.length) := by
    rintro ⟨hash, n⟩ horigin ⟨rfl, hn⟩
    rcases horigin with hV | hmem
    · exact hV (hbip30 n hn)
    · exact hfresh hmem
  have hstay : ∀ o : COutPoint Hash, m.coin o = none →
      (V.coin o ≠ none ∨ o.hash ∈ pre.map rules.txid) → m'.coin o = none := by
    intro o hnone horigin
    cases hc : m'.coin o with
    | none => rfl
    | some c =>
      rcases addCoins_origin hadd o c hc with hold | ⟨hhash, hn, -⟩
      · rw [hnone] at hold
        cases hold
      · exact absurd ⟨hhash, hn⟩ (hother o horigin)
  have hsub_none : ∀ o, view.coin o = none → m.coin o = none := by
    intro o hnone
    cases hc : m.coin o with
    | none => rfl
    | some c =>
      rw [hspent.sub o c hc] at hnone
      cases hnone
  refine ⟨fun n hn => ?_, ⟨fun o c ho => ?_, fun t ht hcb txin htxin => ?_, fun o c ho => ?_⟩⟩
  · cases hc : m.coin ⟨rules.txid tx, n⟩ with
    | none => rfl
    | some c => exact absurd ⟨rfl, hn⟩ (hother _ (h.origin _ c (hspent.sub _ c hc)))
  · rcases addCoins_origin hadd o c ho with hold | ⟨hhash, -, -⟩
    · exact (h.origin o c (hspent.sub o c hold)).imp_right hmono
    · rw [hhash]
      exact .inr (by simp)
  · rcases mem_append.1 ht with ht | ht
    · obtain ⟨hnone, horigin⟩ := h.spent t ht hcb txin htxin
      exact ⟨hstay _ (hsub_none _ hnone) horigin, horigin.imp_right hmono⟩
    · rw [mem_singleton.1 ht] at hcb htxin
      have hmem : txin.prevout ∈ if tx.isCoinBase then [] else tx.vin.map CTxIn.prevout := by
        rw [if_neg hcb]
        exact mem_map_of_mem htxin
      obtain ⟨c, hc⟩ := hspent.had _ hmem
      have horigin := h.origin _ c hc
      exact ⟨hstay _ (hspent.gone _ hmem) horigin, horigin.imp_right hmono⟩
  · rcases addCoins_origin hadd o c ho with hold | ⟨-, -, hheight, -⟩
    · exact h.height o c (hspent.sub o c hold)
    · rwa [hheight]

/-! ## Connected transactions -/

/-- One transaction of an accepted block, with its undo record, and the views around it. -/
inductive ConnectedTx (rules : ConsensusRules Hash) (nHeight : ℕ) :
    CoinsMap Hash → CTransaction Hash × Option CTxUndo → CoinsMap Hash → Prop
  | coinbase {view view' : CoinsMap Hash} {tx : CTransaction Hash} (hcoinbase : tx.isCoinBase)
      (hfresh : ∀ n < tx.vout.length, view.coin ⟨rules.txid tx, n⟩ = none)
      (hadd : addCoins (rules.txid tx) tx nHeight view = .ok view') :
      ConnectedTx rules nHeight view (tx, none) view'
  | spending {view m view' : CoinsMap Hash} {tx : CTransaction Hash} {u : CTxUndo}
      (hcoinbase : ¬ tx.isCoinBase) (hheight : ∀ o c, view.coin o = some c → c.nHeight ≠ 0)
      (hspend : tx.vin.foldlM spendInput ([], view) = .ok (u, m))
      (hfresh : ∀ n < tx.vout.length, m.coin ⟨rules.txid tx, n⟩ = none)
      (hadd : addCoins (rules.txid tx) tx nHeight m = .ok view') :
      ConnectedTx rules nHeight view (tx, some u) view'

/-- The transactions of an accepted block, in order. -/
inductive ConnectedTxs (rules : ConsensusRules Hash) (nHeight : ℕ) (V : CoinsMap Hash) :
    List (CTransaction Hash × Option CTxUndo) → CoinsMap Hash → Prop
  | nil : ConnectedTxs rules nHeight V [] V
  | snoc {l : List (CTransaction Hash × Option CTxUndo)} {m m' : CoinsMap Hash}
      {p : CTransaction Hash × Option CTxUndo} (hl : ConnectedTxs rules nHeight V l m)
      (hp : ConnectedTx rules nHeight m p m') : ConnectedTxs rules nHeight V (l ++ [p]) m'

lemma connectedTx_of_coinbase (h : BlockLoop rules V [] s.view) (hcoinbase : tx.isCoinBase)
    (hpass : connectTx rules nHeight s (tx, 0) = .ok s') :
    s'.vtxundo = s.vtxundo ∧ BlockLoop rules V [tx] s'.view ∧
      ConnectedTx rules nHeight s.view (tx, none) s'.view := by
  obtain ⟨hundo, -, hadd⟩ := connectTx_of_coinbase hpass hcoinbase
  have hspent : SpentFrom s.view s.view
      (if tx.isCoinBase then [] else tx.vin.map CTxIn.prevout) := by
    rw [if_pos hcoinbase]
    exact ⟨by simp, fun _ _ => rfl, by simp⟩
  obtain ⟨hfresh, hloop⟩ := h.step hpos hbip30 (by simp) hspent hadd
  exact ⟨hundo, hloop, .coinbase hcoinbase hfresh hadd⟩

lemma connectedTx_of_spending {i : ℕ} {vtx : List (CTransaction Hash)}
    (h : BlockLoop rules V pre s.view)
    (hdistinct : rules.DistinctTxids vtx) (hpre : ∀ tx ∈ pre, tx ∈ vtx) (htx : tx ∈ vtx)
    (hcoinbase : ¬ tx.isCoinBase) (hvin : tx.vin ≠ []) (hi : i ≠ 0)
    (hpass : connectTx rules nHeight s (tx, i) = .ok s') :
    ∃ u, s'.vtxundo = s.vtxundo ++ [u] ∧ BlockLoop rules V (pre ++ [tx]) s'.view ∧
      ConnectedTx rules nHeight s.view (tx, some u) s'.view := by
  obtain ⟨fee, u, m, hundo, hfee, -, hspend, hadd⟩ := connectTx_of_spending hpass hcoinbase
  rw [if_neg hi] at hundo
  have hid := h.txid_fresh hdistinct hpre htx hcoinbase hvin
    (CheckedInputs.of_checkTxInputs hfee).available
  have hspent := SpentFrom.of_spendInputs hspend
  rw [← if_neg (c := tx.isCoinBase = true) (t := []) (e := tx.vin.map CTxIn.prevout) hcoinbase]
    at hspent
  obtain ⟨hfresh, hloop⟩ := h.step hpos hbip30 hid hspent hadd
  exact ⟨u, hundo, hloop, .spending hcoinbase h.height hspend hfresh hadd⟩

end

lemma connectedTxs_of_rest {coinbase : CTransaction Hash} {txs : List (CTransaction Hash)}
    (h : BlockLoop rules V [coinbase] s.view) (hundo : s.vtxundo = [])
    (hcb : ConnectedTx rules nHeight V (coinbase, none) s.view) (hpos : nHeight ≠ 0)
    (hbip30 : ∀ tx ∈ txs, ∀ n < tx.vout.length, V.coin ⟨rules.txid tx, n⟩ = none)
    (hdistinct : rules.DistinctTxids (coinbase :: txs)) (hcoinbase : ∀ tx ∈ txs, ¬ tx.isCoinBase)
    (hvin : ∀ tx ∈ txs, tx.vin ≠ [])
    (hrun : (txs.zipIdx 1).foldlM (connectTx rules nHeight) s = .ok s') :
    s'.vtxundo.length = txs.length ∧ BlockLoop rules V (coinbase :: txs) s'.view ∧
      ConnectedTxs rules nHeight V ((coinbase :: txs).zip (none :: s'.vtxundo.map some))
        s'.view := by
  have hinv := foldlM_invariant (fun pre (t : ConnectState Hash) =>
    (∀ p ∈ pre, p.1 ∈ txs) ∧ t.vtxundo.length = pre.length ∧
      BlockLoop rules V (coinbase :: pre.map Prod.fst) t.view ∧
      ConnectedTxs rules nHeight V
        ((coinbase :: pre.map Prod.fst).zip (none :: t.vtxundo.map some)) t.view) hrun
    ⟨by simp, by simp [hundo], h, by simpa [hundo] using .snoc .nil hcb⟩ ?_
  · rw [zipIdx_map_fst] at hinv
    exact ⟨by simpa using hinv.2.1, hinv.2.2⟩
  rintro pre ⟨tx, i⟩ t t' hmem ⟨hsub, hlen, hloop, hpast⟩ hpass
  have htx : tx ∈ txs := fst_mem_of_mem_zipIdx hmem
  have hi : i ≠ 0 := by
    have hle := le_snd_of_mem_zipIdx hmem
    omega
  have hpre : ∀ x ∈ coinbase :: pre.map Prod.fst, x ∈ coinbase :: txs :=
    forall_mem_cons.2 ⟨mem_cons_self, forall_mem_map.2 fun p hp => mem_cons_of_mem _ (hsub p hp)⟩
  obtain ⟨u, hu, hnext, hone⟩ := connectedTx_of_spending hpos (hbip30 tx htx) hloop hdistinct hpre
    (mem_cons_of_mem _ htx) (hcoinbase tx htx) (hvin tx htx) hi hpass
  refine ⟨?_, by simp [hu, hlen], by simpa using hnext, ?_⟩
  · exact forall_mem_append.2 ⟨hsub, forall_mem_singleton.2 htx⟩
  · rw [hu, map_append, map_append, ← cons_append, ← cons_append,
      zip_append (by simp [hlen])]
    exact hpast.snoc hone

/-- What accepting a block says: its transactions were connected one after the other. -/
structure ConnectedTo (rules : ConsensusRules Hash) (block : CBlock Hash)
    (pindex : IndexEntry Hash) (undo : CBlockUndo) (view view' : CoinsView Hash) : Prop where
  length : undo.length + 1 = block.vtx.length
  parent : pindex.pprev = some view.hashBlock
  best : view'.hashBlock = pindex.hash
  txs : ConnectedTxs rules pindex.nHeight view.coins (block.vtx.zip (none :: undo.map some))
    view'.coins
  height : ∀ o c, view'.coins.coin o = some c → c.nHeight ≠ 0

variable {pindex : IndexEntry Hash}

lemma ConnectedTo.of_connectBlock {block : CBlock Hash} {view view' : CoinsView Hash}
    {undo : CBlockUndo} (hgenesis : pindex.hash ≠ rules.hashGenesisBlock)
    (hpos : 0 < pindex.nHeight) (hbip30 : enforceBIP30 rules pindex = true)
    (hdistinct : rules.DistinctTxids block.vtx)
    (hheight : ∀ o c, view.coins.coin o = some c → c.nHeight ≠ 0)
    (hconnect : connectBlock rules block pindex false view = .ok (view', undo)) :
    ConnectedTo rules block pindex undo view view' := by
  simp only [connectBlock, if_neg hgenesis, bind_eq_ok, ensure_eq_ok, pure_eq_ok] at hconnect
  obtain ⟨_, -, ⟨⟩, hblock, _, hbest, s, hrun, heq⟩ := hconnect
  cases heq
  simp only [checkBlock, bind_eq_ok, ensure_eq_ok] at hblock
  obtain ⟨_, -, _, -, _, ⟨hne, -⟩, _, hfirst, _, hrest, _, htxs, -⟩ := hblock
  simp only [connectTransactions, hbip30, whenever_eq_ok, bind_eq_ok, ensure_eq_ok,
    pure_eq_ok] at hrun
  obtain ⟨_, hprev, _, hover, s', hloop, _, -, rfl⟩ := hrun
  have hnone : ∀ tx ∈ block.vtx, ∀ n < tx.vout.length,
      view.coins.coin ⟨rules.txid tx, n⟩ = none := by
    simpa [noOverwrite, CoinsMap.haveCoin] using hover
  obtain ⟨coinbase, txs, hvtx⟩ := exists_cons_of_ne_nil hne
  rw [hvtx] at hfirst hrest hloop hdistinct hnone
  rw [zipIdx_cons] at hloop
  obtain ⟨t, hpass, hloop⟩ := foldlM_cons_eq_ok.1 hloop
  have hstart : BlockLoop rules view.coins [] view.coins :=
    ⟨fun o c ho => .inl (by rw [ho]; simp), by simp, hheight⟩
  obtain ⟨hundo, hafter, hcb⟩ := connectedTx_of_coinbase hpos.ne'
    (hnone coinbase mem_cons_self) hstart (hfirst _ rfl) hpass
  obtain ⟨hlen, hall, hpast⟩ := connectedTxs_of_rest hafter hundo hcb hpos.ne'
    (fun tx hmem => hnone tx (mem_cons_of_mem _ hmem)) hdistinct hrest
    (fun tx hmem => (CheckedTx.of_checkTransaction
      (forM_eq_ok htxs tx (hvtx ▸ mem_cons_of_mem _ hmem))).vin_ne_nil) hloop
  obtain ⟨parent, hparent⟩ := Option.isSome_iff_exists.1 hprev
  rw [hparent, Option.getD_some] at hbest
  exact ⟨by rw [hvtx, length_cons, hlen], by rw [hparent, hbest], rfl, by rwa [hvtx],
    hall.height⟩

/-! ## The inverse -/

lemma removeOutputs_of_addCoins (isEx : Bool)
    (hfresh : ∀ n < tx.vout.length, m.coin ⟨rules.txid tx, n⟩ = none)
    (hadd : addCoins (rules.txid tx) tx nHeight m = .ok m') :
    tx.vout.zipIdx.foldl (removeOutput (rules.txid tx) nHeight tx.isCoinBase isEx) (true, m') =
      (true, m) := by
  refine removeOutputs_addCoins hadd isEx ?_ fun p hp => hfresh p.2 ?_
  · rw [zipIdx_map_snd]
    exact nodup_range'
  · simpa using snd_lt_of_mem_zipIdx hp

lemma ConnectedTx.disconnectTx {view' : CoinsMap Hash} {p : CTransaction Hash × Option CTxUndo}
    (h : ConnectedTx rules pindex.nHeight view p view') :
    SlithyTove.disconnectTx rules pindex (true, view') p = .ok (true, view) := by
  cases h with
  | coinbase _ hfresh hadd => exact congrArg Except.ok (removeOutputs_of_addCoins _ hfresh hadd)
  | spending _ hheight hspend hfresh hadd =>
    obtain ⟨hlen, hback⟩ := applyUndo_spendInputs hheight hspend
    rw [SlithyTove.disconnectTx]
    dsimp only
    rw [removeOutputs_of_addCoins _ hfresh hadd, if_neg (not_not.2 hlen)]
    exact hback

lemma ConnectedTxs.disconnect {l : List (CTransaction Hash × Option CTxUndo)}
    (h : ConnectedTxs rules pindex.nHeight V l view) :
    l.reverse.foldlM (disconnectTx rules pindex) (true, view) = .ok (true, V) := by
  induction h with
  | nil => rfl
  | snoc _ hp ih =>
    rw [reverse_append]
    exact foldlM_cons_eq_ok.2 ⟨_, hp.disconnectTx, ih⟩

lemma ConnectedTo.disconnect {block : CBlock Hash} {undo : CBlockUndo}
    {view view' : CoinsView Hash} (h : ConnectedTo rules block pindex undo view view') :
    disconnectBlock rules block pindex undo view' = .ok (.DISCONNECT_OK, view) := by
  simp only [disconnectBlock, bind_eq_ok, ensure_eq_ok]
  exact ⟨(), h.length, _, h.txs.disconnect, by rw [h.parent]; rfl⟩

/-- **Disconnecting a block undoes connecting it.**  A block other than the genesis block that was
accepted with BIP30 enforced is disconnected cleanly with the undo data its connection produced,
and the view is again the one it was connected to: every coin as it was, and the parent as the
best block. -/
theorem disconnectBlock_connectBlock (rules : ConsensusRules Hash) (block : CBlock Hash)
    (pindex : IndexEntry Hash) (view view' : CoinsView Hash) (undo : CBlockUndo)
    (hgenesis : pindex.hash ≠ rules.hashGenesisBlock) (hpos : 0 < pindex.nHeight)
    (hbip30 : enforceBIP30 rules pindex = true) (hdistinct : rules.DistinctTxids block.vtx)
    (hheight : ∀ o c, view.coins.coin o = some c → c.nHeight ≠ 0)
    (hconnect : connectBlock rules block pindex false view = .ok (view', undo)) :
    disconnectBlock rules block pindex undo view' = .ok (.DISCONNECT_OK, view) ∧
      pindex.pprev = some view.hashBlock := by
  have hblock := ConnectedTo.of_connectBlock hgenesis hpos hbip30 hdistinct hheight hconnect
  exact ⟨hblock.disconnect, hblock.parent⟩

end Block

lemma connectedTo_chainBlock {k : ℕ} {p q : CoinsView ℕ × CBlockUndo}
    (hheight : ∀ o c, q.1.coins.coin o = some c → c.nHeight ≠ 0)
    (hconnect : connectBlock (lenientRules mainParams) (chainBlock (k + 1))
    (chainIndex (k + 1)) false
      q.1 = .ok p) :
    ConnectedTo (lenientRules mainParams) (chainBlock (k + 1)) (chainIndex (k + 1)) p.2 q.1 p.1 :=
  .of_connectBlock (by simp [chainIndex, lenientRules]) (Nat.succ_pos k) rfl
    (chainBlock_distinct _) hheight hconnect

lemma chainState_height {k : ℕ} {p : CoinsView ℕ × CBlockUndo} (h : chainState k = .ok p) :
    ∀ o c, p.1.coins.coin o = some c → c.nHeight ≠ 0 := by
  induction k generalizing p with
  | zero =>
    obtain rfl := Except.ok.inj h
    simp
  | succ k ih =>
    obtain ⟨q, hq, hconnect⟩ := chainState_succ.1 h
    exact (connectedTo_chainBlock (ih hq) hconnect).height

/-- A block that spends two coins of the view and one of its own outputs. -/
theorem disconnectBlock_connectBlock_treasurySpend :
    ∃ view view' undo, connectBlock (lenientRules mainParams) (chainBlock 101)
      (chainIndex 101) false
        view = .ok (view', undo) ∧ treasurySpend ⊆ (chainBlock 101).vtx ∧
      disconnectBlock (lenientRules mainParams) (chainBlock 101) (chainIndex 101) undo view' =
        .ok (.DISCONNECT_OK, view) := by
  obtain ⟨⟨view', undo⟩, hp⟩ := exists_chainState le_rfl
  obtain ⟨⟨view, _⟩, hq, hconnect⟩ := chainState_succ.1 hp
  exact ⟨view, view', undo, hconnect, by decide, (disconnectBlock_connectBlock
    (lenientRules mainParams) (chainBlock 101) (chainIndex 101) view view' undo
    (by decide) (by decide)
    (by decide) (chainBlock_distinct 101) (chainState_height hq) hconnect).1⟩

end SlithyTove
