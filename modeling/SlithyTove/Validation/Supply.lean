import SlithyTove.Mining.CoinbaseRules
import SlithyTove.Consensus.SupplySchedule
import SlithyTove.Framework.Ledger

/-!
# The supply over connected and disconnected blocks

The blocks of the current chain are booked in a ledger: every spendable output that was created
is a deposit under its outpoint, every coin that was spent a withdrawal of the value its undo
record holds.  The invariant of a run (`Sound`) is that this ledger is funded and covers the coins
of the view.  Connecting a block books its transactions; disconnecting the tip takes exactly these
bookings back, and the view that `DisconnectBlock` leaves, clean or not, is covered by the shorter
ledger.  What a block books is at most its subsidy, so the coins are worth at most the schedule.

The argument never needs to know that transaction ids are distinct: an overwritten coin only makes
the view poorer than the ledger.
-/

namespace SlithyTove

open Framework List CoinsMap Option

variable {Hash : Type} [DecidableEq Hash]

/-! ## Bookings -/

/-- The deposits of a transaction: its spendable outputs. -/
def depositsOf (txid : Hash) (vout : List (CTxOut × ℕ)) : List (COutPoint Hash × ℤ) :=
  (vout.filter fun p => ¬ CScript.isUnspendable p.1.scriptPubKey).map
    fun p => (⟨txid, p.2⟩, p.1.nValue)

/-- The withdrawals of a transaction: the coins in its undo record. -/
def withdrawalsOf (spent : List (CTxIn Hash × Coin)) : List (COutPoint Hash × ℤ) :=
  spent.map fun p => (p.1.prevout, -p.2.out.nValue)

/-- The holdings of a view are its coin values; none is negative. -/
structure Sound (l : List (COutPoint Hash × ℤ)) (m : CoinsMap Hash) : Prop where
  funded : Funded l
  covers : Framework.Covers l m.value
  nonneg : ∀ o, 0 ≤ m.value o

namespace CoinsMap

variable {o : COutPoint Hash} {m : CoinsMap Hash}

omit [DecidableEq Hash] in
lemma value_of_some {c : Coin} (h : m.coin o = some c) : m.value o = c.out.nValue := by
  rw [value, h, map_some, getD_some]

omit [DecidableEq Hash] in
lemma value_of_none (h : m.coin o = none) : m.value o = 0 := by
  rw [value, h, map_none, getD_none]

@[simp] lemma value_erase_self (m : CoinsMap Hash) (o : COutPoint Hash) :
    (m.erase o).value o = 0 := value_of_none (m.erase_coin_self o)

variable {o' : COutPoint Hash}

lemma value_erase_of_ne (m : CoinsMap Hash) (h : o' ≠ o) : (m.erase o).value o' = m.value o' := by
  rw [value, value, erase_coin_of_ne _ h]

@[simp] lemma value_insert_self (m : CoinsMap Hash) (o : COutPoint Hash) (c : Coin)
    (h : c.Spendable) : (m.insert o c h).value o = c.out.nValue :=
  value_of_some (m.insert_coin_self o c h)

lemma value_insert_of_ne (m : CoinsMap Hash) (c : Coin) (h : c.Spendable)
    (hne : o' ≠ o) : (m.insert o c h).value o' = m.value o' := by
  rw [value, value, insert_coin_of_ne _ _ _ hne]

end CoinsMap

/-! ## Connecting -/

variable {l : List (COutPoint Hash × ℤ)} {m : CoinsMap Hash}

lemma Sound.spend (h : Sound l m) {o : COutPoint Hash} {c : Coin} (hc : m.coin o = some c) :
    Sound (l ++ [(o, -c.out.nValue)]) (m.erase o) := by
  rw [← value_of_some hc]
  obtain ⟨hfunded, hcovers⟩ := h.covers.withdraw h.funded (m.value_erase_self o)
    fun o' ho' => m.value_erase_of_ne ho'
  refine ⟨hfunded, hcovers, fun o' => ?_⟩
  by_cases heq : o' = o
  · rw [heq, m.value_erase_self]
  · rw [m.value_erase_of_ne heq]
    exact h.nonneg o'

lemma Sound.create (h : Sound l m) (o : COutPoint Hash) {c : Coin} (hs : c.Spendable)
    (hv : 0 ≤ c.out.nValue) : Sound (l ++ [(o, c.out.nValue)]) (m.insert o c hs) := by
  have hself := m.value_insert_self o c hs
  obtain ⟨hfunded, hcovers⟩ := h.covers.deposit (g := (m.insert o c hs).value) h.funded
    (hself.symm ▸ hv) fun o' ho' => m.value_insert_of_ne c hs ho'
  rw [hself] at hfunded hcovers
  refine ⟨hfunded, hcovers, fun o' => ?_⟩
  by_cases heq : o' = o
  · rwa [heq, hself]
  · rw [m.value_insert_of_ne c hs heq]
    exact h.nonneg o'

variable {m' : CoinsMap Hash} {vin : List (CTxIn Hash)} {txundo : CTxUndo}

/-- The input loop of `UpdateCoins` books the withdrawals of the undo record it builds. -/
lemma Sound.spendInputs (h : Sound l m) (hrun : vin.foldlM spendInput ([], m) = .ok (txundo, m')) :
    txundo.length = vin.length ∧ (∀ c ∈ txundo, 0 ≤ c.out.nValue) ∧
      Sound (l ++ withdrawalsOf (vin.zip txundo)) m' := by
  refine spendInputs_invariant (P := fun pre undo view => (∀ c ∈ undo, 0 ≤ c.out.nValue) ∧
    Sound (l ++ withdrawalsOf (pre.zip undo)) view) hrun ⟨by simp, by simpa [withdrawalsOf]⟩ ?_
  rintro pre txin undo view coin hlen - hc ⟨hundo, hsound⟩
  constructor
  · refine forall_mem_append.2 ⟨hundo, forall_mem_singleton.2 ?_⟩
    rw [← value_of_some hc]
    exact hsound.nonneg _
  · rw [zip_append hlen.symm, withdrawalsOf, map_append, ← append_assoc]
    exact hsound.spend hc

lemma Sound.addCoins (h : Sound l m) [Zero Hash] {txid : Hash} {tx : CTransaction Hash}
    {nHeight : ℕ} (hnonneg : ∀ out ∈ tx.vout, 0 ≤ out.nValue)
    (hrun : SlithyTove.addCoins txid tx nHeight m = .ok m') :
    Sound (l ++ depositsOf txid tx.vout.zipIdx) m' := by
  refine foldlM_invariant (fun pre t => Sound (l ++ depositsOf txid pre) t) hrun
    (by simpa [depositsOf]) ?_
  rintro pre ⟨out, i⟩ t t' hmem hsound hpass
  obtain ⟨-, ⟨hu, rfl⟩ | ⟨hs, rfl⟩⟩ := addCoin_cases hpass
  · have hskip : depositsOf txid (pre ++ [(out, i)]) = depositsOf txid pre := by
      simpa [depositsOf] using hu
    rwa [hskip]
  · have hbook : depositsOf txid (pre ++ [(out, i)]) =
        depositsOf txid pre ++ [(⟨txid, i⟩, out.nValue)] := by
      have hu := hs.notUnspendable
      simp [depositsOf, hu]
    rw [hbook, ← append_assoc]
    exact hsound.create ⟨txid, i⟩ hs (hnonneg out (fst_mem_of_mem_zipIdx hmem))

/-! ## What a transaction books -/

/-- The bookings of one transaction with its undo record. -/
def txBookings [Zero Hash] (rules : ConsensusRules Hash) (p : CTransaction Hash × CTxUndo) :
    List (COutPoint Hash × ℤ) :=
  withdrawalsOf (p.1.vin.zip p.2) ++ depositsOf (rules.txid p.1) p.1.vout.zipIdx

/-- The undo record of a transaction holds the coins it found: their values are those of the
view before. -/
lemma spendInputs_value {u u' : CTxUndo} (hnodup : (vin.map CTxIn.prevout).Nodup)
    (hrun : vin.foldlM spendInput (u, m) = .ok (u', m')) :
    (u'.map fun c => c.out.nValue).sum = (u.map fun c => c.out.nValue).sum +
      (vin.map fun txin => m.value txin.prevout).sum := by
  induction vin generalizing u m with
  | nil =>
    cases hrun
    simp
  | cons txin vin ih =>
    obtain ⟨c, hc, hrest⟩ := spendInputs_cons hrun
    rw [map_cons, nodup_cons] at hnodup
    have hsame : ∀ x ∈ vin, (m.erase txin.prevout).value x.prevout = m.value x.prevout :=
      fun x hx => m.value_erase_of_ne fun heq => hnodup.1 (heq ▸ mem_map_of_mem hx)
    rw [ih hnodup.2 hrest, map_congr_left hsame, map_cons, sum_cons, value_of_some hc]
    simp [add_assoc]

omit [DecidableEq Hash] in
lemma booked_withdrawalsOf (h : txundo.length = vin.length) :
    booked (withdrawalsOf (vin.zip txundo)) = -(txundo.map fun c => c.out.nValue).sum := by
  induction txundo generalizing vin with
  | nil => simp [withdrawalsOf]
  | cons c txundo ih =>
    cases vin with
    | nil => cases h
    | cons txin vin =>
      have hrest := @ih vin (Nat.succ.inj h)
      simp only [withdrawalsOf, booked, zip_cons_cons, map_cons, sum_cons]
        at hrest ⊢
      omega

omit [DecidableEq Hash] in
lemma booked_depositsOf_le (txid : Hash) {vout : List CTxOut} (n : ℕ)
    (h : ∀ out ∈ vout, 0 ≤ out.nValue) :
    booked (depositsOf txid (vout.zipIdx n)) ≤ totalOut vout := by
  induction vout generalizing n with
  | nil => exact le_rfl
  | cons out vout ih =>
    have hrest := ih (n + 1) fun o ho => h o (mem_cons_of_mem _ ho)
    have hout := h out mem_cons_self
    rw [zipIdx_cons, totalOut_cons]
    by_cases hu : CScript.isUnspendable out.scriptPubKey
    · have hskip : depositsOf txid ((out, n) :: vout.zipIdx (n + 1)) =
          depositsOf txid (vout.zipIdx (n + 1)) := by simp [depositsOf, hu]
      rw [hskip]
      omega
    · have hbook : booked (depositsOf txid ((out, n) :: vout.zipIdx (n + 1))) =
          out.nValue + booked (depositsOf txid (vout.zipIdx (n + 1))) := by
        simp [depositsOf, hu, booked]
      omega

section Connect

variable [Zero Hash] {rules : ConsensusRules Hash} {l : List (COutPoint Hash × ℤ)}

/-- What one pass of the transaction loop books. -/
structure BookedTx (rules : ConsensusRules Hash) (l : List (COutPoint Hash × ℤ))
    (tx : CTransaction Hash) (txundo : CTxUndo) (view : CoinsMap Hash) : Prop where
  sound : Sound (l ++ txBookings rules (tx, txundo)) view
  undo_nonneg : ∀ c ∈ txundo, 0 ≤ c.out.nValue

variable {s s' : ConnectState Hash} {tx : CTransaction Hash} {nHeight : ℕ}

lemma connectTx_coinbase (h : Sound l s.view) (hchecked : CheckedTx tx) (hcoinbase : tx.isCoinBase)
    (hpass : connectTx rules nHeight s (tx, 0) = .ok s') :
    s'.vtxundo = s.vtxundo ∧ s'.nFees = s.nFees ∧ BookedTx rules l tx [] s'.view ∧
      booked (txBookings rules (tx, [])) ≤ totalOut tx.vout := by
  obtain ⟨hundo, hfees, hadd⟩ := connectTx_of_coinbase hpass hcoinbase
  have hbookings : txBookings rules (tx, []) = depositsOf (rules.txid tx) tx.vout.zipIdx := by
    simp [txBookings, withdrawalsOf]
  refine ⟨hundo, hfees, ⟨?_, by simp⟩, ?_⟩
  · rw [hbookings]
    exact h.addCoins hchecked.out_nonneg hadd
  · rw [hbookings]
    exact booked_depositsOf_le _ 0 hchecked.out_nonneg

lemma connectTx_spending {i : ℕ} (h : Sound l s.view)
    (hchecked : CheckedTx tx) (hcoinbase : ¬ tx.isCoinBase) (hi : i ≠ 0)
    (hpass : connectTx rules nHeight s (tx, i) = .ok s') :
    ∃ txundo, s'.vtxundo = s.vtxundo ++ [txundo] ∧ BookedTx rules l tx txundo s'.view ∧
      booked (txBookings rules (tx, txundo)) ≤ s.nFees - s'.nFees := by
  obtain ⟨fee, u, m, hundo, hfee, hfees, hspend, hadd⟩ := connectTx_of_spending hpass hcoinbase
  rw [if_neg hi] at hundo
  have hinputs := CheckedInputs.of_checkTxInputs hfee
  obtain ⟨hlen, hnonneg, hsound⟩ := h.spendInputs hspend
  refine ⟨u, hundo, ⟨?_, hnonneg⟩, ?_⟩
  · rw [txBookings, ← append_assoc]
    exact hsound.addCoins hchecked.out_nonneg hadd
  · have hspent := spendInputs_value hchecked.inputs_nodup hspend
    have hin : totalIn s.view tx = (u.map fun c => c.out.nValue).sum := by
      rw [totalIn, hspent]
      simp
    have hout := booked_depositsOf_le (rules.txid tx) 0 hchecked.out_nonneg
    have hfee_eq := hinputs.fee_eq
    rw [txBookings, booked_append, booked_withdrawalsOf hlen]
    dsimp only
    omega

/-- The bookings of a block: the coinbase has no undo record. -/
def blockBookings (rules : ConsensusRules Hash) (block : CBlock Hash) (undo : CBlockUndo) :
    List (COutPoint Hash × ℤ) :=
  (block.vtx.zip ([] :: undo)).flatMap (txBookings rules)

lemma connectRest {txs : List (CTransaction Hash)} (h : Sound l s.view)
    (hundo : s.vtxundo = []) (hchecked : ∀ tx ∈ txs, CheckedTx tx)
    (hcoinbase : ∀ tx ∈ txs, ¬ tx.isCoinBase)
    (hrun : (txs.zipIdx 1).foldlM (connectTx rules nHeight) s = .ok s') :
    s'.vtxundo.length = txs.length ∧ (∀ u ∈ s'.vtxundo, ∀ c ∈ u, 0 ≤ c.out.nValue) ∧
      Sound (l ++ (txs.zip s'.vtxundo).flatMap (txBookings rules)) s'.view ∧
      booked ((txs.zip s'.vtxundo).flatMap (txBookings rules)) ≤ s.nFees - s'.nFees := by
  have hinv := foldlM_invariant (fun pre (t : ConnectState Hash) =>
    t.vtxundo.length = pre.length ∧ (∀ u ∈ t.vtxundo, ∀ c ∈ u, 0 ≤ c.out.nValue) ∧
      Sound (l ++ ((pre.map Prod.fst).zip t.vtxundo).flatMap (txBookings rules)) t.view ∧
      booked (((pre.map Prod.fst).zip t.vtxundo).flatMap (txBookings rules)) ≤
        s.nFees - t.nFees) hrun (by simpa [hundo] using h) ?_
  · rw [zipIdx_map_fst] at hinv
    simpa using hinv
  rintro pre ⟨tx, i⟩ t t' hmem ⟨hlen, hnonneg, hsound, hbooked⟩ hpass
  have htx : tx ∈ txs := fst_mem_of_mem_zipIdx hmem
  have hi : i ≠ 0 := by
    have := le_snd_of_mem_zipIdx hmem
    omega
  obtain ⟨u, hu, hbookedTx, hle⟩ :=
    connectTx_spending hsound (hchecked tx htx) (hcoinbase tx htx) hi hpass
  have hzip : ((pre ++ [(tx, i)]).map Prod.fst).zip t'.vtxundo =
      (pre.map Prod.fst).zip t.vtxundo ++ [(tx, u)] := by
    rw [hu, map_append, zip_append (by rw [length_map, hlen])]
    rfl
  rw [hzip, flatMap_append, flatMap_singleton]
  refine ⟨by simp [hu, hlen], ?_, ?_, ?_⟩
  · rw [hu]
    exact forall_mem_append.2 ⟨hnonneg, forall_mem_singleton.2 hbookedTx.undo_nonneg⟩
  · rw [← append_assoc]
    exact hbookedTx.sound
  · rw [booked_append]
    omega

/-- What a successful connection books: the transactions of the block, worth at most the
subsidy. -/
lemma connectTransactions_books {block : CBlock Hash} {pindex : IndexEntry Hash}
    {view : CoinsMap Hash} (h : Sound l view) (hblock : checkBlock rules block true true = .ok ())
    (hrun : connectTransactions rules block pindex view = .ok s) :
    (∀ u ∈ s.vtxundo, ∀ c ∈ u, 0 ≤ c.out.nValue) ∧
      Sound (l ++ blockBookings rules block s.vtxundo) s.view ∧
      booked (blockBookings rules block s.vtxundo) ≤ getBlockSubsidy pindex.nHeight
        rules.params := by
  simp only [checkBlock, bind_eq_ok, ensure_eq_ok] at hblock
  obtain ⟨_, -, _, -, _, ⟨hne, -⟩, _, hfirst, _, hrest, _, htxs, -⟩ := hblock
  have hchecked := fun tx hmem => CheckedTx.of_checkTransaction (forM_eq_ok htxs tx hmem)
  simp only [connectTransactions, bind_eq_ok, pure_eq_ok] at hrun
  obtain ⟨_, -, _, -, s', hloop, _, hcoinbase, rfl⟩ := hrun
  obtain ⟨coinbase, txs, hvtx⟩ := exists_cons_of_ne_nil hne
  rw [hvtx] at hfirst hrest hchecked hloop hcoinbase
  obtain ⟨t, hpass, hloop⟩ := foldlM_cons_eq_ok.1 hloop
  obtain ⟨hundo, hfees, hbookedTx, hle⟩ :=
    connectTx_coinbase h (hchecked _ mem_cons_self) (hfirst _ rfl) hpass
  obtain ⟨hlen, hnonneg, hsound, hrestle⟩ := connectRest hbookedTx.sound hundo
    (fun tx hmem => hchecked tx (mem_cons_of_mem _ hmem)) hrest hloop
  have hbookings : blockBookings rules block s'.vtxundo = txBookings rules (coinbase, []) ++
      (txs.zip s'.vtxundo).flatMap (txBookings rules) := by
    rw [blockBookings, hvtx, zip_cons_cons, flatMap_cons]
  refine ⟨hnonneg, ?_, ?_⟩
  · rw [hbookings, ← append_assoc]
    exact hsound
  · have hreward := (checkCoinbase_eq_ok.1 hcoinbase).2.2.1
    simp only [List.head?_cons, map_some, getD_some] at hreward
    rw [hbookings, booked_append]
    dsimp only at hfees
    omega

end Connect

/-! ## Disconnecting -/

/-- The loop that removes outputs clears the outpoints of the spendable ones and touches nothing
else. -/
lemma removeOutputs_value (txid : Hash) (nHeight : ℕ) (isCb isEx : Bool)
    (vout : List (CTxOut × ℕ)) (s : Bool × CoinsMap Hash) :
    (∀ o ∈ (depositsOf txid vout).map Prod.fst,
      (vout.foldl (removeOutput txid nHeight isCb isEx) s).2.value o = 0) ∧
    ∀ o, (vout.foldl (removeOutput txid nHeight isCb isEx) s).2.value o = 0 ∨
      (vout.foldl (removeOutput txid nHeight isCb isEx) s).2.value o = s.2.value o := by
  induction vout generalizing s with
  | nil => simp [depositsOf]
  | cons p vout ih =>
    rw [foldl_cons]
    obtain ⟨hcleared, hother⟩ := ih (removeOutput txid nHeight isCb isEx s p)
    have hone : ∀ o, (removeOutput txid nHeight isCb isEx s p).2.value o = 0 ∨
        (removeOutput txid nHeight isCb isEx s p).2.value o = s.2.value o := by
      intro o
      rw [removeOutput]
      split
      · exact .inr rfl
      · split
        · next coin rest hspend =>
          obtain ⟨-, rfl⟩ := spendCoin_eq_some.1 hspend
          by_cases ho : o = ⟨txid, p.2⟩
          · exact .inl (ho ▸ value_erase_self ..)
          · exact .inr (value_erase_of_ne _ ho)
        · exact .inr rfl
    have hself : CScript.isUnspendable p.1.scriptPubKey = false →
        (removeOutput txid nHeight isCb isEx s p).2.value ⟨txid, p.2⟩ = 0 := by
      intro hu
      rw [removeOutput, hu]
      simp only [Bool.false_eq_true, if_false]
      split
      · next coin rest hspend =>
        obtain ⟨-, rfl⟩ := spendCoin_eq_some.1 hspend
        exact value_erase_self ..
      · next hspend =>
        exact value_of_none (map_eq_none_iff.1 hspend)
    refine ⟨fun o ho => ?_, fun o => ?_⟩
    · have hmem : o ∈ (depositsOf txid vout).map Prod.fst ∨
          (CScript.isUnspendable p.1.scriptPubKey = false ∧ o = ⟨txid, p.2⟩) := by
        cases hu : CScript.isUnspendable p.1.scriptPubKey with
        | true => exact .inl (by simpa [depositsOf, hu] using ho)
        | false =>
          have ho' : o = ⟨txid, p.2⟩ ∨ o ∈ (depositsOf txid vout).map Prod.fst := by
            simpa [depositsOf, hu] using ho
          exact ho'.symm.imp_right fun heq => ⟨rfl, heq⟩
      rcases hmem with hmem | ⟨hu, rfl⟩
      · exact hcleared o hmem
      · rcases hother ⟨txid, p.2⟩ with hzero | heq
        · exact hzero
        · exact heq.trans (hself hu)
    · rcases hother o with hzero | heq
      · exact .inl hzero
      · rw [heq]
        exact hone o

lemma restoreInputs_covers {spent : List (CTxIn Hash × Coin)} {s s' : Bool × CoinsMap Hash}
    (hfunded : Funded (l ++ withdrawalsOf spent))
    (hcovers : Framework.Covers (l ++ withdrawalsOf spent) s.2.value)
    (hnonneg : ∀ o, 0 ≤ s.2.value o)
    (hundo : ∀ p ∈ spent, 0 ≤ p.2.out.nValue)
    (hrun : spent.reverse.foldlM applyTxInUndo s = .ok s') :
    Framework.Covers l s'.2.value ∧ ∀ o, 0 ≤ s'.2.value o := by
  induction spent using List.reverseRecOn generalizing s with
  | nil =>
    rw [reverse_nil, foldlM_nil, pure_eq_ok] at hrun
    rw [← hrun]
    exact ⟨by simpa [withdrawalsOf] using hcovers, hnonneg⟩
  | append_singleton spent p ih =>
    rw [reverse_append, reverse_singleton, singleton_append] at hrun
    obtain ⟨t, hpass, hrest⟩ := foldlM_cons_eq_ok.1 hrun
    rw [withdrawalsOf, map_append, map_singleton, ← append_assoc] at hfunded hcovers
    have hp : 0 ≤ p.2.out.nValue := hundo p (by simp)
    have hview : (t.2.value p.1.prevout = p.2.out.nValue ∨
        t.2.value p.1.prevout = s.2.value p.1.prevout) ∧
        ∀ o, o ≠ p.1.prevout → t.2.value o = s.2.value o := by
      simp only [applyTxInUndo, bind_eq_ok, pure_eq_ok] at hpass
      obtain ⟨undo, hcomplete, view, hadd, rfl⟩ := hpass
      have hout : undo.out = p.2.out := by
        rw [completeUndo] at hcomplete
        split at hcomplete
        · dsimp only at hcomplete
          split at hcomplete
          · rw [← Except.ok.inj hcomplete]
          · cases hcomplete
        · rw [← Except.ok.inj hcomplete]
      obtain ⟨-, ⟨-, rfl⟩ | ⟨hs, rfl⟩⟩ := addCoin_cases hadd
      · exact ⟨.inr rfl, fun _ _ => rfl⟩
      · exact ⟨.inl ((s.2.value_insert_self _ undo hs).trans (by rw [hout])),
          fun o ho => s.2.value_insert_of_ne undo hs ho⟩
    refine ih hfunded.of_append (hcovers.restore hp hfunded hview.1 hview.2) (fun o => ?_)
      (fun q hq => hundo q (mem_append_left _ hq)) hrest
    by_cases ho : o = p.1.prevout
    · rw [ho]
      rcases hview.1 with heq | heq
      · rwa [heq]
      · rw [heq]
        exact hnonneg _
    · rw [hview.2 o ho]
      exact hnonneg o

section Disconnect

variable [Zero Hash] {rules : ConsensusRules Hash} {pindex : IndexEntry Hash}
  {l : List (COutPoint Hash × ℤ)}

/-- One pass of the loop of `DisconnectBlock` takes the transaction's bookings back. -/
lemma disconnectTx_covers {s s' : Bool × CoinsMap Hash} {tx : CTransaction Hash}
    {undo : Option CTxUndo} (hfunded : Funded (l ++ txBookings rules (tx, undo.getD [])))
    (hcovers : Framework.Covers (l ++ txBookings rules (tx, undo.getD [])) s.2.value)
    (hnonneg : ∀ o, 0 ≤ s.2.value o) (hundo : ∀ u ∈ undo, ∀ c ∈ u, 0 ≤ c.out.nValue)
    (hrun : disconnectTx rules pindex s (tx, undo) = .ok s') :
    Framework.Covers l s'.2.value ∧ ∀ o, 0 ≤ s'.2.value o := by
  rw [txBookings, ← append_assoc] at hfunded hcovers
  rw [disconnectTx] at hrun
  set t := tx.vout.zipIdx.foldl (removeOutput (rules.txid tx) pindex.nHeight tx.isCoinBase
    (tx.isCoinBase && rules.isBIP30Unspendable pindex.nHeight pindex.hash)) s with ht
  obtain ⟨hcleared, hother⟩ := removeOutputs_value (rules.txid tx) pindex.nHeight tx.isCoinBase
    (tx.isCoinBase && rules.isBIP30Unspendable pindex.nHeight pindex.hash) tx.vout.zipIdx s
  have htcovers := hcovers.clear hfunded.of_append hcleared hother
  have htnonneg : ∀ o, 0 ≤ t.2.value o := fun o => by
    rcases hother o with hzero | heq
    · exact hzero.ge
    · rw [heq]
      exact hnonneg o
  cases undo with
  | none =>
    rw [← Except.ok.inj hrun]
    exact ⟨by simpa [withdrawalsOf] using htcovers, htnonneg⟩
  | some txundo =>
    dsimp only at hrun
    split at hrun
    · cases hrun
    · exact restoreInputs_covers hfunded.of_append htcovers htnonneg
        (fun p hp => hundo txundo rfl p.2 (of_mem_zip hp).2) hrun

lemma disconnectLoop_covers {ps : List (CTransaction Hash × Option CTxUndo)}
    {s s' : Bool × CoinsMap Hash}
    (hfunded : Funded (l ++ ps.flatMap fun p => txBookings rules (p.1, p.2.getD [])))
    (hcovers : Framework.Covers (l ++ ps.flatMap fun p => txBookings rules (p.1, p.2.getD []))
      s.2.value)
    (hnonneg : ∀ o, 0 ≤ s.2.value o)
    (hundo : ∀ p ∈ ps, ∀ u ∈ p.2, ∀ c ∈ u, 0 ≤ c.out.nValue)
    (hrun : ps.reverse.foldlM (disconnectTx rules pindex) s = .ok s') :
    Framework.Covers l s'.2.value ∧ ∀ o, 0 ≤ s'.2.value o := by
  induction ps using List.reverseRecOn generalizing s with
  | nil =>
    rw [reverse_nil, foldlM_nil, pure_eq_ok] at hrun
    rw [← hrun]
    exact ⟨by simpa using hcovers, hnonneg⟩
  | append_singleton ps p ih =>
    rw [reverse_append, reverse_singleton, singleton_append] at hrun
    obtain ⟨t, hpass, hrest⟩ := foldlM_cons_eq_ok.1 hrun
    rw [flatMap_append, flatMap_singleton, ← append_assoc] at hfunded hcovers
    obtain ⟨htcovers, htnonneg⟩ :=
      disconnectTx_covers hfunded hcovers hnonneg (hundo p (by simp)) hpass
    exact ih hfunded.of_append htcovers htnonneg
      (fun q hq => hundo q (mem_append_left _ hq)) hrest

end Disconnect

/-! ## Runs -/

section Runs

variable [Zero Hash]

/-- A block of the current chain with the undo data its connection wrote. -/
structure ConnectedBlock (Hash : Type) where
  block : CBlock Hash
  pindex : IndexEntry Hash
  undo : CBlockUndo

/-- The states reached from the genesis block by connecting blocks and disconnecting the tip with
its own undo data; the tip is the head of the chain, the genesis block is not listed. -/
inductive ChainRun (rules : ConsensusRules Hash) :
    List (ConnectedBlock Hash) → CoinsView Hash → Prop
  | genesis : ChainRun rules [] { coins := .empty, hashBlock := rules.hashGenesisBlock }
  | connect {chain view block pindex view' undo} : ChainRun rules chain view →
      pindex.nHeight = chain.length + 1 →
      connectBlock rules block pindex false view = .ok (view', undo) →
      ChainRun rules (⟨block, pindex, undo⟩ :: chain) view'
  | disconnect {chain view tip result view'} : ChainRun rules (tip :: chain) view →
      disconnectBlock rules tip.block tip.pindex tip.undo view = .ok (result, view') →
      ChainRun rules chain view'

/-- What a block of the chain has booked.  A block with the hash of the genesis block is connected
without its transactions. -/
def ConnectedBlock.bookings (rules : ConsensusRules Hash) (b : ConnectedBlock Hash) :
    List (COutPoint Hash × ℤ) :=
  if b.pindex.hash = rules.hashGenesisBlock then [] else blockBookings rules b.block b.undo

/-- The ledger of a chain. -/
def chainBookings (rules : ConsensusRules Hash) :
    List (ConnectedBlock Hash) → List (COutPoint Hash × ℤ)
  | [] => []
  | tip :: chain => chainBookings rules chain ++ tip.bookings rules

/-- The invariant of a run. -/
structure RunInv (rules : ConsensusRules Hash) (chain : List (ConnectedBlock Hash))
    (view : CoinsView Hash) : Prop where
  sound : Sound (chainBookings rules chain) view.coins
  undo_nonneg : ∀ b ∈ chain, ∀ u ∈ b.undo, ∀ c ∈ u, 0 ≤ c.out.nValue
  genesis_undo : ∀ b ∈ chain, b.pindex.hash = rules.hashGenesisBlock → b.undo = []
  -- At every height of the chain, so that it is still there after a disconnection.
  booked_le : ∀ low, low <:+ chain →
    booked (chainBookings rules low) ≤ scheduledSupply rules.params low.length

variable {rules : ConsensusRules Hash} {chain : List (ConnectedBlock Hash)}
  {view view' : CoinsView Hash}

lemma RunInv.genesis :
    RunInv rules [] { coins := .empty, hashBlock := rules.hashGenesisBlock } := by
  refine ⟨⟨funded_nil, fun o => le_rfl, fun o => le_rfl⟩, by simp, by simp, fun low hlow => ?_⟩
  rw [suffix_nil.1 hlow]
  exact le_rfl

variable {l : List (COutPoint Hash × ℤ)} {pindex : IndexEntry Hash} {block : CBlock Hash}
  {undo : CBlockUndo}

lemma connectBlock_books (h : Sound l view.coins)
    (hrun : connectBlock rules block pindex false view = .ok (view', undo)) :
    (∀ u ∈ undo, ∀ c ∈ u, 0 ≤ c.out.nValue) ∧
      (pindex.hash = rules.hashGenesisBlock → undo = []) ∧
      Sound (l ++ (ConnectedBlock.mk block pindex undo).bookings rules) view'.coins ∧
      booked ((ConnectedBlock.mk block pindex undo).bookings rules) ≤
        getBlockSubsidy pindex.nHeight rules.params := by
  simp only [connectBlock, bind_eq_ok] at hrun
  obtain ⟨_, -, ⟨⟩, hblock, _, -, hrun⟩ := hrun
  rw [ConnectedBlock.bookings]
  split at hrun
  · next hgenesis =>
    cases hrun
    rw [if_pos hgenesis, append_nil]
    exact ⟨by simp, fun _ => rfl, h, getBlockSubsidy_nonneg _ _⟩
  · next hgenesis =>
    simp only [bind_eq_ok] at hrun
    obtain ⟨s, hs, heq⟩ := hrun
    cases heq
    rw [if_neg hgenesis]
    obtain ⟨hundo, hsound, hle⟩ := connectTransactions_books h hblock hs
    exact ⟨hundo, fun heq => absurd heq hgenesis, hsound, hle⟩

lemma RunInv.connect (h : RunInv rules chain view) (hheight : pindex.nHeight = chain.length + 1)
    (hrun : connectBlock rules block pindex false view = .ok (view', undo)) :
    RunInv rules (⟨block, pindex, undo⟩ :: chain) view' := by
  obtain ⟨hundo, hgenesis, hsound, hle⟩ := connectBlock_books h.sound hrun
  refine ⟨hsound, forall_mem_cons.2 ⟨hundo, h.undo_nonneg⟩,
    forall_mem_cons.2 ⟨hgenesis, h.genesis_undo⟩, fun low hlow => ?_⟩
  rcases suffix_cons_iff.1 hlow with rfl | hlow
  · have hchain := h.booked_le chain (suffix_refl chain)
    rw [chainBookings, booked_append, length_cons, scheduledSupply_succ, ← hheight]
    omega
  · exact h.booked_le low hlow

variable {result : DisconnectResult}

lemma disconnectBlock_covers {b : ConnectedBlock Hash}
    (h : Sound (l ++ b.bookings rules) view.coins)
    (hundo : ∀ u ∈ b.undo, ∀ c ∈ u, 0 ≤ c.out.nValue)
    (hgenesis : b.pindex.hash = rules.hashGenesisBlock → b.undo = [])
    (hrun : disconnectBlock rules b.block b.pindex b.undo view = .ok (result, view')) :
    Sound l view'.coins := by
  simp only [disconnectBlock, bind_eq_ok, ensure_eq_ok] at hrun
  obtain ⟨_, hlen, ⟨clean, coins⟩, hloop, hrun⟩ := hrun
  have hcoins : view'.coins = coins := by
    split at hrun
    · cases hrun
    · rw [pure_eq_ok] at hrun
      cases hrun
      rfl
  rw [hcoins]
  by_cases hhash : b.pindex.hash = rules.hashGenesisBlock
  · -- Nothing was booked: the loop only removes coins.
    rw [ConnectedBlock.bookings, if_pos hhash, append_nil] at h
    rw [hgenesis hhash] at hlen hloop
    obtain ⟨tx, hvtx⟩ := length_eq_one_iff.1 hlen.symm
    rw [hvtx] at hloop
    obtain ⟨t, hpass, hrest⟩ := foldlM_cons_eq_ok.1 hloop
    rw [foldlM_nil, pure_eq_ok] at hrest
    rw [hrest] at hpass
    have hcoinsEq := Except.ok.inj hpass
    obtain ⟨-, hother⟩ := removeOutputs_value (rules.txid tx) b.pindex.nHeight tx.isCoinBase
      (tx.isCoinBase && rules.isBIP30Unspendable b.pindex.nHeight b.pindex.hash) tx.vout.zipIdx
      (true, view.coins)
    rw [hcoinsEq] at hother
    refine ⟨h.funded, Framework.Covers.clear (m := []) h.funded (by simpa using h.covers)
      (by simp) hother,
      fun o => ?_⟩
    rcases hother o with hzero | heq
    · exact hzero.ge
    · exact heq ▸ h.nonneg o
  · rw [ConnectedBlock.bookings, if_neg hhash] at h
    have hbookings : blockBookings rules b.block b.undo =
        (b.block.vtx.zip (none :: b.undo.map some)).flatMap
          fun p => txBookings rules (p.1, p.2.getD []) := by
      have hzip : b.block.vtx.zip ([] :: b.undo) =
          (b.block.vtx.zip (none :: b.undo.map some)).map fun p => (p.1, p.2.getD []) := by
        have hundos : ([] : CTxUndo) :: b.undo =
            (none :: b.undo.map some).map fun u => Option.getD u [] := by
          simp
        rw [hundos, zip_map_right]
        rfl
      rw [blockBookings, hzip, flatMap_map]
    rw [hbookings] at h
    have hrecords : ∀ p ∈ b.block.vtx.zip (none :: b.undo.map some), ∀ u ∈ p.2, ∀ c ∈ u,
        0 ≤ c.out.nValue := by
      intro p hp u hu
      have hmem := (of_mem_zip hp).2
      rw [mem_def.1 hu] at hmem
      exact hundo u (by simpa using hmem)
    obtain ⟨hcovers, hnonneg⟩ :=
      disconnectLoop_covers h.funded h.covers h.nonneg hrecords hloop
    exact ⟨h.funded.of_append, hcovers, hnonneg⟩

lemma RunInv.disconnect {tip : ConnectedBlock Hash} (h : RunInv rules (tip :: chain) view)
    (hrun : disconnectBlock rules tip.block tip.pindex tip.undo view = .ok (result, view')) :
    RunInv rules chain view' :=
  ⟨disconnectBlock_covers h.sound (h.undo_nonneg tip mem_cons_self)
      (h.genesis_undo tip mem_cons_self) hrun,
    fun b hb => h.undo_nonneg b (mem_cons_of_mem _ hb),
    fun b hb => h.genesis_undo b (mem_cons_of_mem _ hb),
    fun low hlow => h.booked_le low (hlow.trans (suffix_cons tip chain))⟩

lemma ChainRun.inv (h : ChainRun rules chain view) : RunInv rules chain view := by
  induction h with
  | genesis => exact RunInv.genesis
  | connect _ hheight hrun ih => exact ih.connect hheight hrun
  | disconnect _ hrun ih => exact ih.disconnect hrun

/-- **The supply never exceeds the schedule.**  After any sequence of connected and disconnected
blocks the coins of the view are worth at most the subsidies up to the height of the tip; and with
the halving interval of the chain these never reach `MAX_MONEY`, at any height. -/
theorem total_le_scheduledSupply (rules : ConsensusRules Hash)
    (hinterval : rules.params.nSubsidyHalvingInterval = 1051200)
    (chain : List (ConnectedBlock Hash)) (view : CoinsView Hash) (h : ChainRun rules chain view) :
    view.coins.total ≤ scheduledSupply rules.params chain.length ∧
      ∀ n, scheduledSupply rules.params n ≤ 2102398986334400 ∧
        scheduledSupply rules.params n < MAX_MONEY := by
  refine ⟨?_, fun n => ?_⟩
  · exact (h.inv.sound.covers.sum_le h.inv.sound.funded _).trans
      (h.inv.booked_le chain (suffix_refl chain))
  · have hle := scheduledSupply_le rules.params hinterval n
    exact ⟨hle, hle.trans_lt (by decide)⟩

end Runs

lemma exists_chainRun {k : ℕ} {p : CoinsView ℕ × CBlockUndo} (h : chainState k = .ok p) :
    ∃ chain, chain.length = k ∧ ChainRun (lenientRules mainParams) chain p.1 := by
  induction k generalizing p with
  | zero =>
    obtain rfl := Except.ok.inj h
    exact ⟨[], rfl, .genesis⟩
  | succ k ih =>
    obtain ⟨q, hq, hconnect⟩ := chainState_succ.1 h
    obtain ⟨chain, hlength, hchain⟩ := ih hq
    exact ⟨_ :: chain, congrArg (· + 1) hlength,
      .connect hchain (congrArg (· + 1) hlength.symm) hconnect⟩

/-- A block with fees and spent coins is replaced by another one. -/
theorem total_le_scheduledSupply_fork :
    ∃ chain view undo, forkState = .ok (view, undo) ∧
      ChainRun (lenientRules mainParams) chain view ∧
      view.coins.total ≤ scheduledSupply mainParams 101 := by
  obtain ⟨⟨view, undo⟩, hfork⟩ := exists_of_isOk forkState_isOk
  have hrun := hfork
  simp only [forkState, bind_eq_ok] at hrun
  obtain ⟨p, hp, r, hdisconnect, hconnect⟩ := hrun
  obtain ⟨q, hq, htip⟩ := chainState_succ.1 hp
  obtain ⟨chain, hlength, hchain⟩ := exists_chainRun hq
  have htop : ChainRun (lenientRules mainParams)
    (⟨chainBlock 101, chainIndex 101, p.2⟩ :: chain) p.1 :=
    .connect hchain (congrArg (· + 1) hlength.symm) htip
  have hall : ChainRun (lenientRules mainParams) (⟨forkBlock, forkIndex, undo⟩ :: chain) view :=
    .connect (.disconnect htop hdisconnect) (congrArg (· + 1) hlength.symm) hconnect
  refine ⟨_, view, undo, hfork, hall, ?_⟩
  have hle := (total_le_scheduledSupply (lenientRules mainParams) rfl _ _ hall).1
  rwa [List.length_cons, hlength] at hle

end SlithyTove
