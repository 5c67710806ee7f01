import SlithyTove.Desktop.TreasuryStatus
import SlithyTove.Framework.KeyedTotal
import SlithyTove.Validation.Supply
import SlithyTove.Validation.Undo

/-!
# What the treasury owns

The status server follows the treasury by reading blocks; the node keeps the coins.  This module
ties the two together over every chain that `ConnectBlock` accepts.

The index mirrors the coins (`Mirrors`): under every outpoint it has an entry exactly where the view
has a coin for the treasury script, with the value, height and kind of that coin.  A transaction
keeps this, since its inputs leave both and its outputs enter both, and none of the outputs was
there before.  The balances of the report are therefore sums over coins, and the coins counted as
unlocked are those that `CheckTxInputs` lets the next block spend.

The totals follow from what one transaction moves.  With the coins in its undo record it takes
something from the treasury, with its outputs it pays something; the larger of the two is a gain or
a loss.  What the treasury owns and the losses together are the gains, the rewards are the gains of
the coinbases, and so what is left over are the gains of the other transactions.

The collector adds up with 28 digits.  Balances and rewards always fit, being bounded by the supply.
The losses need not: money can come back and be spent again.  A sum of losses that no longer fits
stays too large (`Holds`), which is enough for the comparison.
-/

namespace SlithyTove

open Framework List ConnectedBlock CoinsMap

variable {Hash : Type} [DecidableEq Hash]

/-! ## Recorded chains -/

section Chains

variable [Zero Hash]

/-- The blocks at heights `1` and up were connected one after the other; the last one comes first.
The genesis block is in the index only at height zero, and the ancestor at the BIP34 height is a
block below. -/
inductive RecordedChain (rules : ConsensusRules Hash) :
    List (ConnectedBlock Hash) → CoinsView Hash → Prop
  | genesis : RecordedChain rules [] ⟨.empty, rules.hashGenesisBlock⟩
  | connect {chain : List (ConnectedBlock Hash)} {view view' : CoinsView Hash} {block : CBlock Hash}
      {pindex : IndexEntry Hash} {undo : CBlockUndo} (hchain : RecordedChain rules chain view)
      (hheight : pindex.nHeight = chain.length + 1)
      (hgenesis : pindex.hash ≠ rules.hashGenesisBlock)
      (hancestor : ∀ hash ∈ pindex.bip34Ancestor,
        hash = rules.hashGenesisBlock ∨ ∃ b ∈ chain, hash = rules.ofBlock b.block)
      (hconnect : connectBlock rules block pindex false view = .ok (view', undo)) :
      RecordedChain rules (⟨block, pindex, undo⟩ :: chain) view'

/-- What the networks have in common: none names a BIP34 block, and the two numbers are `int`s, the
first of them positive. -/
structure NetworkRules (rules : ConsensusRules Hash) : Prop where
  BIP34Hash : rules.BIP34Hash = 0
  genesis_ne : rules.hashGenesisBlock ≠ 0
  interval_pos : 0 < rules.params.nSubsidyHalvingInterval
  interval_lt : rules.params.nSubsidyHalvingInterval < 2 ^ 31
  percent_lt : rules.params.treasury_percent < 2 ^ 31

/-- A block whose hash is not null, and that is none of the two historical blocks. -/
def OrdinaryBlock (rules : ConsensusRules Hash) (b : ConnectedBlock Hash) : Prop :=
  rules.ofBlock b.block ≠ 0 ∧ rules.isBIP30Repeat b.pindex.nHeight b.pindex.hash = false

/-- The transactions of a block, each but the first with the coins it spent. -/
def ConnectedBlock.records {Hash : Type} (b : ConnectedBlock Hash) :
    List (CTransaction Hash × Option CTxUndo) :=
  b.block.vtx.zip (none :: b.undo.map some)

/-- The transactions of a chain. -/
def chainRecords {Hash : Type} (chain : List (ConnectedBlock Hash)) :
    List (CTransaction Hash × Option CTxUndo) :=
  chain.flatMap records

variable {rules : ConsensusRules Hash} {chain : List (ConnectedBlock Hash)}
  {view view' : CoinsView Hash} {block : CBlock Hash} {pindex : IndexEntry Hash} {undo : CBlockUndo}

lemma RecordedChain.chainRun (h : RecordedChain rules chain view) : ChainRun rules chain view := by
  induction h with
  | genesis => exact .genesis
  | connect _ hheight _ _ hconnect ih => exact .connect ih hheight hconnect

lemma NetworkRules.enforceBIP30 (h : NetworkRules rules)
    (hancestor : ∀ hash ∈ pindex.bip34Ancestor,
      hash = rules.hashGenesisBlock ∨ ∃ b ∈ chain, hash = rules.ofBlock b.block)
    (hordinary : ∀ b ∈ (⟨block, pindex, undo⟩ :: chain), OrdinaryBlock rules b) :
    SlithyTove.enforceBIP30 rules pindex = true := by
  obtain ⟨⟨-, hrepeat⟩, hbelow⟩ := forall_mem_cons.1 hordinary
  have hother : pindex.bip34Ancestor ≠ some rules.BIP34Hash := by
    intro hsome
    rw [h.BIP34Hash] at hsome
    rcases hancestor 0 hsome with hzero | ⟨b, hb, hzero⟩
    · exact h.genesis_ne hzero.symm
    · exact (hbelow b hb).1 hzero.symm
  simp [SlithyTove.enforceBIP30, hrepeat, hother]

/-- Every transaction of an accepted block passed `CheckTransaction`. -/
lemma checkedTx_of_connectBlock
    (hconnect : connectBlock rules block pindex false view = .ok (view', undo)) :
    ∀ tx ∈ block.vtx, CheckedTx tx := by
  simp only [connectBlock, bind_eq_ok] at hconnect
  obtain ⟨_, -, ⟨⟩, hblock, -⟩ := hconnect
  simp only [checkBlock, bind_eq_ok] at hblock
  obtain ⟨_, -, _, -, _, -, _, -, _, -, _, htxs, -⟩ := hblock
  intro tx htx
  exact .of_checkTransaction (forM_eq_ok htxs tx htx)

variable {tx : CTransaction Hash}

/-- The coins a transaction may spend are worth at most twice what there is of money: its outputs
and its fee. -/
lemma totalIn_le_of_checkTxInputs {m : CoinsMap Hash}
    {nSpendHeight : ℕ} {fee : ℤ} (h : checkTxInputs tx m nSpendHeight = .ok fee) :
    totalIn m tx ≤ 2 * MAX_MONEY := by
  have hfee := (CheckedInputs.of_checkTxInputs h).fee_eq
  simp only [checkTxInputs, bind_eq_ok, ensure_eq_ok, pure_eq_ok] at h
  obtain ⟨_, -, nValueIn, -, value_out, hout, _, -, _, hrange, rfl⟩ := h
  obtain ⟨-, hle, -⟩ := getValueOut_eq_ok.1 hout
  have := hrange.2
  omega

/-- A pass of the loop adds an undo record, except for the first transaction. -/
lemma connectTx_undo {nHeight i : ℕ} {s s' : ConnectState Hash}
    (hchecked : CheckedTx tx) (hpass : connectTx rules nHeight s (tx, i) = .ok s') :
    ∃ u : CTxUndo, s'.vtxundo = (if i = 0 then s.vtxundo else s.vtxundo ++ [u]) ∧
      (u.map fun c => c.out.nValue).sum ≤ 2 * MAX_MONEY := by
  by_cases hcoinbase : tx.isCoinBase
  · exact ⟨[], (connectTx_of_coinbase hpass hcoinbase).1, by decide⟩
  · obtain ⟨fee, u, m, hundo, hfee, -, hspend, -⟩ := connectTx_of_spending hpass hcoinbase
    refine ⟨u, hundo, ?_⟩
    rw [spendInputs_value hchecked.inputs_nodup hspend, map_nil, sum_nil, zero_add]
    exact totalIn_le_of_checkTxInputs hfee

lemma undo_le_of_connectBlock (hgenesis : pindex.hash ≠ rules.hashGenesisBlock)
    (hconnect : connectBlock rules block pindex false view = .ok (view', undo)) :
    ∀ u ∈ undo, (u.map fun c => c.out.nValue).sum ≤ 2 * MAX_MONEY := by
  have hchecked := checkedTx_of_connectBlock hconnect
  simp only [connectBlock, if_neg hgenesis, bind_eq_ok] at hconnect
  obtain ⟨_, -, _, -, _, -, s, hrun, heq⟩ := hconnect
  cases heq
  simp only [connectTransactions, bind_eq_ok, pure_eq_ok] at hrun
  obtain ⟨_, -, _, -, s', hloop, _, -, rfl⟩ := hrun
  refine foldlM_invariant (fun _ (t : ConnectState Hash) =>
    ∀ u ∈ t.vtxundo, (u.map fun c => c.out.nValue).sum ≤ 2 * MAX_MONEY) hloop (by simp) ?_
  rintro pre ⟨tx, i⟩ t t' hmem ht hpass
  obtain ⟨v, hundo, hle⟩ := connectTx_undo (hchecked tx (fst_mem_of_mem_zipIdx hmem)) hpass
  rw [hundo]
  split
  · exact ht
  · exact forall_mem_append.2 ⟨ht, forall_mem_singleton.2 hle⟩

end Chains

/-! ## The index mirrors the coins -/

/-- The entry of the index for a coin, if it is the treasury's. -/
def treasuryEntry (script : CScript) (c : Coin) : Option TreasuryUtxo :=
  if c.out.scriptPubKey = script then some ⟨c.out.nValue, c.nHeight, c.fCoinBase⟩ else none

/-- The index has the treasury's coins of a view. -/
def Mirrors (script : CScript) (m : CoinsMap Hash)
    (utxos : AList fun _ : Hash × ℕ => TreasuryUtxo) : Prop :=
  ∀ o : COutPoint Hash, utxos.lookup (o.hash, o.n) = (m.coin o).bind (treasuryEntry script)

/-- The sum of the values in the index. -/
abbrev utxoTotal (utxos : AList fun _ : Hash × ℕ => TreasuryUtxo) : ℤ :=
  keyedTotal TreasuryUtxo.value utxos

/-- What the coins of an undo record took from the treasury. -/
def treasurySpent (params : Params) (u : CTxUndo) : ℤ := treasuryPaid params (u.map Coin.out)

variable {config : CollectorConfig} {params : Params} {m m' : CoinsMap Hash} {s : TxScan Hash}

lemma treasuryPaid_le_totalOut {vout : List CTxOut} (h : ∀ out ∈ vout, 0 ≤ out.nValue) :
    treasuryPaid params vout ≤ totalOut vout := by
  have hsplit := totalOut_filter_add
    (fun out => out.scriptPubKey = params.treasury_script_pub_key) vout
  have hrest : 0 ≤ totalOut (vout.filter fun out =>
      ¬ out.scriptPubKey = params.treasury_script_pub_key) :=
    totalOut_nonneg fun out hout => h out (mem_of_mem_filter hout)
  rw [treasuryPaid]
  omega

lemma decAdd_eq {a b : ℤ} (hlow : 0 ≤ a + b) (hhigh : a + b < 10 ^ 28) : decAdd a b = a + b :=
  roundDigits_of_lt (by unfold DECIMAL_PRECISION; omega)

omit [DecidableEq Hash] in
lemma key_ne {o o' : COutPoint Hash} (h : o' ≠ o) : (o'.hash, o'.n) ≠ (o.hash, o.n) := by
  intro heq
  rw [Prod.mk.injEq] at heq
  refine h ?_
  cases o
  cases o'
  exact congrArg₂ COutPoint.mk heq.1 heq.2

section Mirrors

variable {script : CScript} {utxos : AList fun _ : Hash × ℕ => TreasuryUtxo}

lemma Mirrors.erase (h : Mirrors script m utxos) (o : COutPoint Hash) :
    Mirrors script (m.erase o) (utxos.erase (o.hash, o.n)) := by
  intro o'
  by_cases ho : o' = o
  · rw [ho, erase_coin_self, AList.lookup_erase]
    rfl
  · rw [erase_coin_of_ne m ho, AList.lookup_erase_ne (key_ne ho)]
    exact h o'

lemma Mirrors.insert (h : Mirrors script m utxos) (o : COutPoint Hash) {c : Coin} (hc : c.Spendable)
    (hpays : c.out.scriptPubKey = script) :
    Mirrors script (m.insert o c hc)
      (utxos.insert (o.hash, o.n) ⟨c.out.nValue, c.nHeight, c.fCoinBase⟩) := by
  intro o'
  by_cases ho : o' = o
  · rw [ho, insert_coin_self, AList.lookup_insert]
    exact (if_pos hpays).symm
  · rw [insert_coin_of_ne m c hc ho, AList.lookup_insert_ne (key_ne ho)]
    exact h o'

lemma Mirrors.of_eq (h : Mirrors script m utxos) {o : COutPoint Hash}
    (hold : (m.coin o).bind (treasuryEntry script) = none)
    (hnew : (m'.coin o).bind (treasuryEntry script) = none)
    (hother : ∀ o', o' ≠ o → m'.coin o' = m.coin o') : Mirrors script m' utxos := by
  intro o'
  by_cases ho : o' = o
  · rw [h o', ho, hold, hnew]
  · rw [h o', hother o' ho]

end Mirrors

/-! ## One transaction -/

section Transaction

variable (hscript : config.TREASURY_SCRIPT = params.treasury_script_pub_key)

/-- What scanning inputs has done once it is through: the coins left the index, and what they were
worth to the treasury was added up. -/
structure InputsScanned (params : Params) (u : CTxUndo) (m' : CoinsMap Hash) (s s' : TxScan Hash) :
    Prop where
  mirrors : Mirrors params.treasury_script_pub_key m' s'.utxos
  spent : s'.spent_value = s.spent_value + treasurySpent params u
  received : s'.received_value = s.received_value
  total : utxoTotal s'.utxos + treasurySpent params u = utxoTotal s.utxos

lemma scanInput_scanned {o : COutPoint Hash} {c : Coin}
    (h : Mirrors params.treasury_script_pub_key m s.utxos) (ho : m.coin o = some c)
    (hc : 0 ≤ c.out.nValue) (hs : 0 ≤ s.spent_value)
    (hbound : s.spent_value + treasurySpent params [c] < 10 ^ 28) :
    InputsScanned params [c] (m.erase o) s (scanInput s ⟨false, some (o.hash, o.n)⟩) := by
  have hlookup := h o
  have hspent : treasurySpent params [c] =
      if c.out.scriptPubKey = params.treasury_script_pub_key then c.out.nValue else 0 :=
    treasuryPaid_singleton ..
  rw [ho, Option.bind_some, treasuryEntry] at hlookup
  by_cases hpays : c.out.scriptPubKey = params.treasury_script_pub_key
  · rw [if_pos hpays] at hlookup hspent
    have hscan : scanInput s ⟨false, some (o.hash, o.n)⟩ =
        { s with utxos := s.utxos.erase (o.hash, o.n)
                 spent_value := decAdd s.spent_value c.out.nValue } := by
      unfold scanInput
      dsimp only
      rw [hlookup]
    have htotal := keyedTotal_erase TreasuryUtxo.value s.utxos (o.hash, o.n)
    rw [contribution_of_lookup _ _ _ hlookup] at htotal
    rw [hspent] at hbound
    rw [hscan]
    exact ⟨h.erase o, by rw [hspent]; exact decAdd_eq (by omega) hbound, rfl, by rwa [hspent]⟩
  · rw [if_neg hpays] at hlookup hspent
    have hscan : scanInput s ⟨false, some (o.hash, o.n)⟩ = s := by
      unfold scanInput
      dsimp only
      rw [hlookup]
    rw [hscan]
    refine ⟨h.of_eq (o := o) ?_ ?_ fun o' ho' => m.erase_coin_of_ne ho', ?_, rfl, ?_⟩
    · rw [← h o, hlookup]
    · rw [erase_coin_self]
      rfl
    · rw [hspent, add_zero]
    · rw [hspent, add_zero]

/-- The inputs of a transaction as `getblock` shows them. -/
def rpcInput (txin : CTxIn Hash) : RpcInput Hash :=
  ⟨false, some (txin.prevout.hash, txin.prevout.n)⟩

variable {vin : List (CTxIn Hash)} {u₀ : CTxUndo}

lemma spendInputs_append {u' : CTxUndo} (hrun : vin.foldlM spendInput (u₀, m) = .ok (u', m')) :
    ∃ u, u' = u₀ ++ u := by
  induction vin generalizing u₀ m with
  | nil =>
    cases hrun
    exact ⟨[], (append_nil _).symm⟩
  | cons txin vin ih =>
    obtain ⟨c, -, hrest⟩ := spendInputs_cons hrun
    obtain ⟨u, hu⟩ := ih hrest
    exact ⟨c :: u, by rw [hu, append_assoc]; rfl⟩

omit [DecidableEq Hash] in
lemma treasurySpent_nonneg {u : CTxUndo} (h : ∀ c ∈ u, 0 ≤ c.out.nValue) :
    0 ≤ treasurySpent params u :=
  treasuryPaid_nonneg (forall_mem_map.2 h)

/-- All inputs, while `UpdateCoins` moves their coins into the undo record. -/
lemma scanInputs_scanned {u : CTxUndo} (h : Mirrors params.treasury_script_pub_key m s.utxos)
    (hrun : vin.foldlM spendInput (u₀, m) = .ok (u₀ ++ u, m')) (hu : ∀ c ∈ u, 0 ≤ c.out.nValue)
    (hs : 0 ≤ s.spent_value) (hbound : s.spent_value + treasurySpent params u < 10 ^ 28) :
    InputsScanned params u m' s ((vin.map rpcInput).foldl scanInput s) := by
  induction vin generalizing u₀ u m s with
  | nil =>
    rw [foldlM_nil, pure_eq_ok, Prod.mk.injEq] at hrun
    obtain ⟨hundo, rfl⟩ := hrun
    obtain rfl : u = [] := self_eq_append_right.1 hundo
    exact ⟨h, (add_zero _).symm, rfl, add_zero _⟩
  | cons txin vin ih =>
    obtain ⟨c, hc, hrest⟩ := spendInputs_cons hrun
    obtain ⟨v, hv⟩ := spendInputs_append hrest
    obtain rfl : u = c :: v := by
      rw [append_assoc] at hv
      exact append_cancel_left hv
    obtain ⟨hcoin, hv'⟩ := forall_mem_cons.1 hu
    obtain ⟨hsplit, hfirst_nonneg, hrest_nonneg⟩ : treasurySpent params (c :: v) =
        treasurySpent params [c] + treasurySpent params v ∧ 0 ≤ treasurySpent params [c] ∧
        0 ≤ treasurySpent params v := treasuryPaid_map_cons params hu
    have hone := scanInput_scanned h hc hcoin hs (by omega)
    rw [hv] at hrest
    have hall := ih hone.mirrors hrest hv' (by rw [hone.spent]; omega) (by rw [hone.spent]; omega)
    refine ⟨hall.mirrors, hall.spent.trans ?_, hall.received.trans hone.received, ?_⟩
    · rw [hone.spent, hsplit, add_assoc]
    · rw [hsplit, add_comm (treasurySpent params [c]), ← add_assoc, ← hone.total, ← hall.total]
      rfl

/-- What scanning outputs has done: those for the treasury entered the index and were added up. -/
structure OutputsScanned (params : Params) (outs : List CTxOut) (m' : CoinsMap Hash)
    (s s' : TxScan Hash) : Prop where
  mirrors : Mirrors params.treasury_script_pub_key m' s'.utxos
  spent : s'.spent_value = s.spent_value
  received : s'.received_value = s.received_value + treasuryPaid params outs
  total : utxoTotal s'.utxos = utxoTotal s.utxos + treasuryPaid params outs

include hscript

variable (hspendable : CScript.isUnspendable params.treasury_script_pub_key = false)
  {txid : Hash} {nHeight : ℕ} {isCb : Bool}
  (h : Mirrors params.treasury_script_pub_key m s.utxos) (hs : 0 ≤ s.received_value)

include hspendable h hs

lemma scanOutput_scanned {p : CTxOut × ℕ} (hfresh : m.coin ⟨txid, p.2⟩ = none) (hp : 0 ≤ p.1.nValue)
    (hbound : s.received_value + treasuryPaid params [p.1] < 10 ^ 28)
    (hadd : m.addCoin ⟨txid, p.2⟩ ⟨p.1, nHeight, isCb⟩ = .ok m') :
    OutputsScanned params [p.1] m' s (scanOutput config txid nHeight isCb s (rpcOutput p)) := by
  obtain ⟨-, hcases⟩ := addCoin_cases hadd
  have hpaid := treasuryPaid_singleton params p.1
  by_cases hpays : p.1.scriptPubKey = params.treasury_script_pub_key
  · rw [if_pos hpays] at hpaid
    rw [hpaid] at hbound
    have hscan : scanOutput config txid nHeight isCb s (rpcOutput p) =
        { s with utxos := s.utxos.insert (txid, p.2) ⟨p.1.nValue, nHeight, isCb⟩
                 rewards := if isCb then decAdd s.rewards p.1.nValue else s.rewards
                 received_value := decAdd s.received_value p.1.nValue } := by
      unfold scanOutput rpcOutput
      rw [hscript, if_neg (not_not.2 hpays)]
    have hnone : s.utxos.lookup (txid, p.2) = none := by
      rw [h ⟨txid, p.2⟩, hfresh]
      rfl
    have htotal := keyedTotal_put TreasuryUtxo.value s.utxos (txid, p.2)
      (some ⟨p.1.nValue, nHeight, isCb⟩)
    rw [contribution_of_none _ _ _ hnone, add_zero] at htotal
    rw [hscan]
    rcases hcases with ⟨hu, -⟩ | ⟨hc, rfl⟩
    · rw [hpays, hspendable] at hu
      cases hu
    · exact ⟨h.insert ⟨txid, p.2⟩ hc hpays, rfl, by rw [hpaid]; exact decAdd_eq (by omega) hbound,
        by rw [hpaid]; exact htotal⟩
  · rw [if_neg hpays] at hpaid
    have hscan : scanOutput config txid nHeight isCb s (rpcOutput p) = s := by
      unfold scanOutput rpcOutput
      rw [hscript, if_pos hpays]
    rw [hscan]
    refine ⟨?_, rfl, by rw [hpaid, add_zero], by rw [hpaid, add_zero]⟩
    rcases hcases with ⟨-, rfl⟩ | ⟨hc, rfl⟩
    · exact h
    · refine h.of_eq (o := ⟨txid, p.2⟩) (by rw [hfresh]; rfl) ?_ fun o' ho' =>
        m.insert_coin_of_ne _ hc ho'
      rw [insert_coin_self]
      exact if_neg hpays

lemma scanOutputs_scanned {outs : List (CTxOut × ℕ)} (hnodup : (outs.map Prod.snd).Nodup)
    (hfresh : ∀ p ∈ outs, m.coin ⟨txid, p.2⟩ = none) (houts : ∀ p ∈ outs, 0 ≤ p.1.nValue)
    (hbound : s.received_value + treasuryPaid params (outs.map Prod.fst) < 10 ^ 28)
    (hrun : outs.foldlM (fun m p => m.addCoin ⟨txid, p.2⟩ ⟨p.1, nHeight, isCb⟩) m = .ok m') :
    OutputsScanned params (outs.map Prod.fst) m' s
      ((outs.map rpcOutput).foldl (scanOutput config txid nHeight isCb) s) := by
  induction outs generalizing m s with
  | nil =>
    rw [foldlM_nil, pure_eq_ok] at hrun
    rw [← hrun]
    exact ⟨h, rfl, (add_zero _).symm, (add_zero _).symm⟩
  | cons p outs ih =>
    obtain ⟨t, hpass, hrest⟩ := foldlM_cons_eq_ok.1 hrun
    obtain ⟨hp, houts'⟩ := forall_mem_cons.1 houts
    obtain ⟨hnew, hfresh'⟩ := forall_mem_cons.1 hfresh
    rw [map_cons, nodup_cons] at hnodup
    obtain ⟨hsplit, hfirst_nonneg, hrest_nonneg⟩ := treasuryPaid_map_cons params houts
    have hone := scanOutput_scanned hscript hspendable h hs hnew hp (by omega) hpass
    -- The later outputs have other numbers, so they are still new.
    have hstill : ∀ q ∈ outs, t.coin ⟨txid, q.2⟩ = none := by
      intro q hq
      have hne : (⟨txid, q.2⟩ : COutPoint Hash) ≠ ⟨txid, p.2⟩ := by
        intro heq
        rw [COutPoint.mk.injEq] at heq
        exact hnodup.1 (heq.2 ▸ mem_map_of_mem hq)
      obtain ⟨-, ⟨-, rfl⟩ | ⟨hc, rfl⟩⟩ := addCoin_cases hpass
      · exact hfresh' q hq
      · rw [insert_coin_of_ne m _ hc hne]
        exact hfresh' q hq
    have hall := ih hone.mirrors (by rw [hone.received]; omega) hnodup.2 hstill houts'
      (by rw [hone.received]; omega) hrest
    refine ⟨hall.mirrors, hall.spent.trans hone.spent, hall.received.trans ?_,
      hall.total.trans ?_⟩
    · rw [hone.received, hsplit, add_assoc]
    · rw [hone.total, hsplit, add_assoc]

end Transaction

/-! ## What transactions move -/

/-- What a transaction pays the treasury beyond what it takes. -/
def treasuryGain (params : Params) (p : CTransaction Hash × Option CTxUndo) : ℤ :=
  max 0 (treasuryPaid params p.1.vout - treasurySpent params (p.2.getD []))

/-- What a transaction takes from the treasury beyond what it pays. -/
def treasuryLoss (params : Params) (p : CTransaction Hash × Option CTxUndo) : ℤ :=
  max 0 (treasurySpent params (p.2.getD []) - treasuryPaid params p.1.vout)

/-- What a transaction without an undo record, a coinbase, pays the treasury. -/
def coinbaseReward (params : Params) (p : CTransaction Hash × Option CTxUndo) : ℤ :=
  if p.2.isSome then 0 else treasuryPaid params p.1.vout

/-- What indexing transactions does to the figures of the index. -/
structure Advances (params : Params) (l : List (CTransaction Hash × Option CTxUndo))
    (c c' : TreasuryIndex Hash) : Prop where
  total : utxoTotal c'.utxos + (l.map (treasuryLoss params)).sum =
    utxoTotal c.utxos + (l.map (treasuryGain params)).sum
  rewards : c'.rewards = c.rewards + (l.map (coinbaseReward params)).sum
  spent : ∀ y, 0 ≤ y → Holds 28 c.spent y →
    Holds 28 c'.spent (y + (l.map (treasuryLoss params)).sum)

omit [DecidableEq Hash] in
lemma sum_loss_nonneg (params : Params) (l : List (CTransaction Hash × Option CTxUndo)) :
    0 ≤ (l.map (treasuryLoss params)).sum :=
  sum_nonneg (forall_mem_map.2 fun _ _ => le_max_left ..)

omit [DecidableEq Hash] in
lemma Advances.trans {l l' : List (CTransaction Hash × Option CTxUndo)}
    {c c' c'' : TreasuryIndex Hash} (h : Advances params l c c') (h' : Advances params l' c' c'') :
    Advances params (l ++ l') c c'' := by
  refine ⟨?_, ?_, fun y hy hholds => ?_⟩
  · have htotal := h.total
    have htotal' := h'.total
    simp only [map_append, sum_append]
    omega
  · rw [h'.rewards, h.rewards, map_append, sum_append, add_assoc]
  · have hnonneg := sum_loss_nonneg params l
    rw [map_append, sum_append, ← add_assoc]
    exact h'.spent _ (by omega) (h.spent y hy hholds)

section Records

variable [Zero Hash] {rules : ConsensusRules Hash} {nHeight : ℕ} {c : TreasuryIndex Hash}
  (hscript : config.TREASURY_SCRIPT = params.treasury_script_pub_key)
  (hspendable : CScript.isUnspendable params.treasury_script_pub_key = false)

/-- What must hold of a transaction for its figures to fit. -/
structure Fits (p : CTransaction Hash × Option CTxUndo) : Prop where
  checked : CheckedTx p.1
  undo_nonneg : ∀ u ∈ p.2, ∀ c ∈ u, 0 ≤ c.out.nValue
  undo_le : ∀ u ∈ p.2, (u.map fun c => c.out.nValue).sum ≤ 2 * MAX_MONEY

variable {p : CTransaction Hash × Option CTxUndo}

omit [DecidableEq Hash] [Zero Hash] in
lemma Fits.spent_le (params : Params) (h : Fits p) :
    treasurySpent params (p.2.getD []) ≤ 2 * MAX_MONEY := by
  obtain ⟨tx, _ | u⟩ := p
  · exact show (0 : ℤ) ≤ 2 * MAX_MONEY by decide
  · have hle : treasuryPaid params (u.map Coin.out) ≤ totalOut (u.map Coin.out) :=
      treasuryPaid_le_totalOut (forall_mem_map.2 (h.undo_nonneg u rfl))
    rw [totalOut, map_map] at hle
    exact hle.trans (h.undo_le u rfl)

omit [DecidableEq Hash] [Zero Hash] in
lemma Fits.spent_nonneg (params : Params) (h : Fits p) :
    0 ≤ treasurySpent params (p.2.getD []) := by
  obtain ⟨tx, _ | u⟩ := p
  · exact le_rfl
  · exact treasurySpent_nonneg (h.undo_nonneg u rfl)

include hscript hspendable

lemma indexTx_advances {m₁ : CoinsMap Hash} {t : TxScan Hash} (hp : Fits p)
    (hinputs : (rpcTx rules p.1).vin.foldl scanInput ⟨c.utxos, c.rewards, 0, 0⟩ = t)
    (hscanned : InputsScanned params (p.2.getD []) m₁ ⟨c.utxos, c.rewards, 0, 0⟩ t)
    (hfresh : ∀ n < p.1.vout.length, m₁.coin ⟨rules.txid p.1, n⟩ = none)
    (hadd : addCoins (rules.txid p.1) p.1 nHeight m₁ = .ok m')
    (hrewards : (indexTx config nHeight c (rpcTx rules p.1)).rewards =
      c.rewards + coinbaseReward params p) :
    Mirrors params.treasury_script_pub_key m' (indexTx config nHeight c (rpcTx rules p.1)).utxos ∧
      Advances params [p] c (indexTx config nHeight c (rpcTx rules p.1)) := by
  have hvout : p.1.vout.zipIdx.map Prod.fst = p.1.vout := zipIdx_map_fst ..
  have hmoney : 2 * MAX_MONEY < 10 ^ 28 := by decide
  have hspent_le := hp.spent_le params
  have hspent_nonneg := hp.spent_nonneg params
  have hpaid_nonneg : 0 ≤ treasuryPaid params p.1.vout := treasuryPaid_nonneg hp.checked.out_nonneg
  have hpaid_le : treasuryPaid params p.1.vout ≤ MAX_MONEY :=
    (treasuryPaid_le_totalOut hp.checked.out_nonneg).trans hp.checked.total_le
  have hreceived : t.received_value = 0 := hscanned.received
  have hspent : t.spent_value = treasurySpent params (p.2.getD []) := by
    rw [hscanned.spent]
    exact zero_add _
  obtain ⟨t', ht'⟩ : ∃ t', t' = (p.1.vout.zipIdx.map rpcOutput).foldl
    (scanOutput config (rules.txid p.1) nHeight p.1.isCoinBase) t := ⟨_, rfl⟩
  have houtputs : OutputsScanned params (p.1.vout.zipIdx.map Prod.fst) m' t t' := by
    rw [ht']
    exact scanOutputs_scanned hscript hspendable hscanned.mirrors hreceived.ge
      (by rw [zipIdx_map_snd]; exact nodup_range')
      (fun q hq => hfresh q.2 (by simpa using snd_lt_of_mem_zipIdx hq))
      (fun q hq => hp.checked.out_nonneg q.1 (fst_mem_of_mem_zipIdx hq))
      (by rw [hvout, hreceived]; omega) hadd
  rw [hvout] at houtputs
  have hindex : indexTx config nHeight c (rpcTx rules p.1) =
      { c with utxos := t'.utxos, rewards := t'.rewards
               spent := if t'.spent_value ≠ 0 then
                   decAdd c.spent (max 0 (decSub t'.spent_value t'.received_value))
                 else c.spent } := by
    unfold indexTx
    rw [rpcTx_coinbase, hinputs, ht']
    rfl
  have hgain : treasuryGain params p =
      max 0 (treasuryPaid params p.1.vout - treasurySpent params (p.2.getD [])) := rfl
  have hloss : treasuryLoss params p =
      max 0 (treasurySpent params (p.2.getD []) - treasuryPaid params p.1.vout) := rfl
  rw [hindex] at hrewards ⊢
  refine ⟨houtputs.mirrors, ?_, ?_, fun y hy hholds => ?_⟩
  · have hin := hscanned.total
    have hout := houtputs.total
    rw [map_singleton, map_singleton, sum_singleton, sum_singleton]
    dsimp only at hin ⊢
    omega
  · rw [map_singleton, sum_singleton]
    exact hrewards
  · rw [map_singleton, sum_singleton]
    rw [houtputs.spent, houtputs.received, hspent, hreceived, zero_add]
    split
    · have hsub : decSub (treasurySpent params (p.2.getD [])) (treasuryPaid params p.1.vout) =
          treasurySpent params (p.2.getD []) - treasuryPaid params p.1.vout :=
        roundDigits_of_lt (by unfold DECIMAL_PRECISION; omega)
      rw [hsub, ← hloss]
      exact hholds.add hy (le_max_left ..)
    · next hzero =>
      have hnothing : treasuryLoss params p = 0 := by omega
      rwa [hnothing, add_zero]

omit [Zero Hash] hscript hspendable in
lemma scanInputs_coinbase (vin : List (CTxIn Hash))
    (s : TxScan Hash) : (vin.map fun _ => (⟨true, none⟩ : RpcInput Hash)).foldl
      scanInput s = s := by
  induction vin with
  | nil => rfl
  | cons txin vin ih => exact ih

/-- **One transaction of an accepted block.** -/
lemma ConnectedTx.advances (h : ConnectedTx rules nHeight m p m') (hp : Fits p)
    (hmirrors : Mirrors params.treasury_script_pub_key m c.utxos) (hc : 0 ≤ c.rewards)
    (hbound : c.rewards + coinbaseReward params p < 10 ^ 28) :
    Mirrors params.treasury_script_pub_key m' (indexTx config nHeight c (rpcTx rules p.1)).utxos ∧
      Advances params [p] c (indexTx config nHeight c (rpcTx rules p.1)) := by
  cases h with
  | @coinbase _ tx hcoinbase hfresh hadd =>
    have hvin : (rpcTx rules tx).vin = tx.vin.map fun _ => ⟨true, none⟩ := by
      unfold rpcTx
      rw [hcoinbase]
      rfl
    refine indexTx_advances hscript hspendable hp (by rw [hvin, scanInputs_coinbase])
      ⟨hmirrors, (add_zero _).symm, rfl, add_zero _⟩ hfresh hadd ?_
    exact indexTx_rewards hscript nHeight hc hp.checked.out_nonneg hcoinbase hbound
  | @spending m₁ _ tx u hcoinbase _ hspend hfresh hadd =>
    have hcb : tx.isCoinBase = false := by rwa [Bool.not_eq_true] at hcoinbase
    have hvin : (rpcTx rules tx).vin = tx.vin.map rpcInput := by
      unfold rpcTx
      rw [hcb]
      rfl
    have hle := hp.spent_le params
    have hmoney : 2 * MAX_MONEY < 10 ^ 28 := by decide
    have hbelow : (0 : ℤ) + treasurySpent params u < 10 ^ 28 := by
      rw [zero_add]
      exact hle.trans_lt hmoney
    have hrun : tx.vin.foldlM spendInput ([], m) = .ok ([] ++ u, m₁) := hspend
    have hscanned := scanInputs_scanned (s := ⟨c.utxos, c.rewards, 0, 0⟩) hmirrors hrun
      (hp.undo_nonneg u rfl) le_rfl hbelow
    refine indexTx_advances hscript hspendable hp (by rw [hvin]) hscanned hfresh hadd ?_
    rw [indexTx_rewards_of_not_coinbase nHeight c hcb]
    exact (add_zero _).symm

variable {l : List (CTransaction Hash × Option CTxUndo)}

omit [DecidableEq Hash] [Zero Hash] hscript hspendable in
lemma sum_reward_nonneg (hl : ∀ p ∈ l, Fits p) : 0 ≤ (l.map (coinbaseReward params)).sum := by
  refine sum_nonneg (forall_mem_map.2 fun p hp => ?_)
  unfold coinbaseReward
  split
  · exact le_rfl
  · exact treasuryPaid_nonneg (hl p hp).checked.out_nonneg

/-- **The transactions of an accepted block.** -/
lemma ConnectedTxs.advances (h : ConnectedTxs rules nHeight m l m') (hl : ∀ p ∈ l, Fits p)
    (hmirrors : Mirrors params.treasury_script_pub_key m c.utxos) (hc : 0 ≤ c.rewards)
    (hbound : c.rewards + (l.map (coinbaseReward params)).sum < 10 ^ 28) :
    Mirrors params.treasury_script_pub_key m'
        ((l.map fun p => rpcTx rules p.1).foldl (indexTx config nHeight) c).utxos ∧
      Advances params l c ((l.map fun p => rpcTx rules p.1).foldl (indexTx config nHeight) c) := by
  induction h with
  | nil => exact ⟨hmirrors, rfl, (add_zero _).symm, fun y _ hy => (add_zero y).symm ▸ hy⟩
  | @snoc l m₁ m₂ p _ hp ih =>
    have hpre : ∀ q ∈ l, Fits q := fun q hq => hl q (mem_append_left _ hq)
    have hlast : Fits p := hl p (mem_append_right _ mem_cons_self)
    have hpre_nonneg : 0 ≤ (l.map (coinbaseReward params)).sum := sum_reward_nonneg hpre
    have hlast_nonneg : 0 ≤ ([p].map (coinbaseReward params)).sum :=
      sum_reward_nonneg fun q hq => by rwa [mem_singleton.1 hq]
    rw [map_append, sum_append] at hbound
    obtain ⟨hmirrors₁, hadvances⟩ := ih hpre (by omega)
    rw [map_append, foldl_append]
    rw [map_singleton, sum_singleton] at hbound hlast_nonneg
    have hrewards := hadvances.rewards
    obtain ⟨hmirrors₂, hstep⟩ := hp.advances hscript hspendable hlast hmirrors₁ (by omega)
      (by omega)
    exact ⟨hmirrors₂, hadvances.trans hstep⟩

omit hscript hspendable in
lemma ConnectedTxs.value_le (h : ConnectedTxs rules nHeight m l m') (hl : ∀ p ∈ l, Fits p)
    (hm : ∀ o c, m.coin o = some c → c.out.nValue ≤ MAX_MONEY) :
    ∀ o c, m'.coin o = some c → c.out.nValue ≤ MAX_MONEY := by
  have hout : ∀ {tx : CTransaction Hash}, CheckedTx tx →
    ∀ out ∈ tx.vout, out.nValue ≤ MAX_MONEY := by
    intro tx htx out hmem
    exact (single_le_sum (forall_mem_map.2 htx.out_nonneg) _ (mem_map_of_mem hmem)).trans
      htx.total_le
  induction h with
  | nil => exact hm
  | @snoc l m₁ m₂ p _ hp ih =>
    have hbefore := ih fun q hq => hl q (mem_append_left _ hq)
    have hlast : Fits p := hl p (mem_append_right _ mem_cons_self)
    intro o c ho
    cases hp with
    | coinbase _ _ hadd =>
      rcases addCoins_origin hadd o c ho with hold | ⟨-, -, -, hmem⟩
      · exact hbefore o c hold
      · exact hout hlast.checked _ hmem
    | spending _ _ hspend _ hadd =>
      rcases addCoins_origin hadd o c ho with hold | ⟨-, -, -, hmem⟩
      · exact hbefore o c ((SpentFrom.of_spendInputs hspend).sub o c hold)
      · exact hout hlast.checked _ hmem

end Records

/-! ## The chain -/

section Chain

variable [Zero Hash] {rules : ConsensusRules Hash} {chain : List (ConnectedBlock Hash)}
  {view view' : CoinsView Hash}

/-- The treasury's shares of the subsidies for the blocks at heights `1` to `n`. -/
def treasuryShares (params : Params) (n : ℕ) : ℤ :=
  ∑ k ∈ Finset.range n, treasuryShare (k + 1) params

omit [DecidableEq Hash] in
lemma scheduledSupply_lt (h : NetworkRules rules) (n : ℕ) :
    scheduledSupply rules.params n < 2 ^ 31 * 1999999987 := by
  have hsupply := scheduledSupply_le_eras rules.params h.interval_pos n
  have hsum : ∑ era ∈ Finset.range 64, eraSubsidy era = 1999999987 := by decide +kernel
  have hinterval := h.interval_lt
  have hcoin : COIN = 100000000 := rfl
  rw [hsum] at hsupply
  omega

omit [DecidableEq Hash] in
lemma treasuryShares_lt (h : NetworkRules rules) (n : ℕ) :
    treasuryShares rules.params n < 10 ^ 28 := by
  have hsupply := scheduledSupply_lt h n
  have hpercent := h.percent_lt
  have hshare : ∀ k, treasuryShare k rules.params ≤ 2 ^ 31 * getBlockSubsidy k rules.params := by
    intro k
    have hsubsidy := getBlockSubsidy_nonneg k rules.params
    have hle : getBlockSubsidy k rules.params * rules.params.treasury_percent ≤
        2 ^ 31 * getBlockSubsidy k rules.params := by nlinarith
    rw [treasuryShare]
    rcases le_total 0 (getBlockSubsidy k rules.params * rules.params.treasury_percent) with hx | hx
    · exact (Int.tdiv_le_self _ hx).trans hle
    · have hneg := Int.tdiv_nonneg (neg_nonneg.2 hx) (show (0 : ℤ) ≤ 100 by decide)
      rw [Int.neg_tdiv] at hneg
      omega
  have hall : treasuryShares rules.params n ≤ 2 ^ 31 * scheduledSupply rules.params n := by
    rw [treasuryShares, scheduledSupply, Finset.mul_sum]
    exact Finset.sum_le_sum fun k _ => hshare (k + 1)
  omega

lemma total_lt (h : NetworkRules rules) (hchain : RecordedChain rules chain view) :
    view.coins.total < 10 ^ 28 := by
  have hinv := hchain.chainRun.inv
  have htotal : view.coins.total ≤ scheduledSupply rules.params chain.length :=
    (hinv.sound.covers.sum_le hinv.sound.funded _).trans
      (hinv.booked_le chain (suffix_refl chain))
  have hsupply := scheduledSupply_lt h chain.length
  omega

variable {block : CBlock Hash} {pindex : IndexEntry Hash} {undo : CBlockUndo}

/-- The records of a block are in agreement with what `ConnectBlock` checked. -/
lemma fits_of_connectBlock (hgenesis : pindex.hash ≠ rules.hashGenesisBlock)
    (hconnect : connectBlock rules block pindex false view = .ok (view', undo))
    (hundo : ∀ u ∈ undo, ∀ c ∈ u, 0 ≤ c.out.nValue) :
    ∀ p ∈ (mk block pindex undo).records, Fits p := by
  intro p hp
  obtain ⟨htx, hrecord⟩ := of_mem_zip hp
  have hmem : ∀ u ∈ p.2, u ∈ undo := by
    intro u hu
    rw [Option.mem_def.1 hu] at hrecord
    simpa using hrecord
  exact ⟨checkedTx_of_connectBlock hconnect p.1 htx, fun u hu => hundo u (hmem u hu),
    fun u hu => undo_le_of_connectBlock hgenesis hconnect u (hmem u hu)⟩

lemma sum_reward_records
    (hpays : PaysShare rules.params pindex.nHeight block) (hne : block.vtx ≠ []) :
    (((mk block pindex undo).records).map (coinbaseReward rules.params)).sum =
      treasuryShare pindex.nHeight rules.params := by
  obtain ⟨coinbase, txs, hvtx⟩ := exists_cons_of_ne_nil hne
  have hothers : ((txs.zip (undo.map some)).map (coinbaseReward rules.params)).sum = 0 := by
    refine sum_eq_zero (forall_mem_map.2 fun p hp => ?_)
    obtain ⟨u, -, hu⟩ := mem_map.1 (of_mem_zip hp).2
    rw [coinbaseReward, ← hu]
    rfl
  have hpaid := hpays.paid
  rw [hvtx] at hpaid
  rw [records]
  rw [hvtx, zip_cons_cons, map_cons, sum_cons, hothers, add_zero]
  exact hpaid

/-- The index of a chain against the coins and the transactions of the chain. -/
structure Books (rules : ConsensusRules Hash) (chain : List (ConnectedBlock Hash))
    (coins : CoinsMap Hash) (c : TreasuryIndex Hash) : Prop where
  mirrors : Mirrors rules.params.treasury_script_pub_key coins c.utxos
  total : utxoTotal c.utxos + ((chainRecords chain).map (treasuryLoss rules.params)).sum =
    ((chainRecords chain).map (treasuryGain rules.params)).sum
  rewards : c.rewards = ((chainRecords chain).map (coinbaseReward rules.params)).sum
  shares : c.rewards = treasuryShares rules.params chain.length
  spent : Holds 28 c.spent ((chainRecords chain).map (treasuryLoss rules.params)).sum
  fits : ∀ p ∈ chainRecords chain, Fits p
  value_le : ∀ o c, coins.coin o = some c → c.out.nValue ≤ MAX_MONEY
  height : ∀ o c, coins.coin o = some c → c.nHeight ≠ 0

omit [Zero Hash] in
lemma Books.genesis : Books rules [] .empty .reset where
  mirrors _ := rfl
  total := rfl
  rewards := rfl
  shares := rfl
  spent := .inl ⟨rfl, show (0 : ℤ) < 10 ^ 28 by decide⟩
  fits := by simp [chainRecords]
  value_le := by simp
  height := by simp

section Connect

variable (hnetwork : NetworkRules rules)
  (hscript : config.TREASURY_SCRIPT = rules.params.treasury_script_pub_key)
  (hset : rules.params.treasury_script_pub_key ≠ [])
  (hspendable : CScript.isUnspendable rules.params.treasury_script_pub_key = false)

include hnetwork hscript hset hspendable

/-- **One more block.** -/
lemma Books.connect {block : CBlock Hash} {pindex : IndexEntry Hash} {undo : CBlockUndo}
    {c : TreasuryIndex Hash} {hash : Hash} (h : Books rules chain view.coins c)
    (hchain : RecordedChain rules chain view) (hheight : pindex.nHeight = chain.length + 1)
    (hgenesis : pindex.hash ≠ rules.hashGenesisBlock)
    (hancestor : ∀ hash ∈ pindex.bip34Ancestor,
      hash = rules.hashGenesisBlock ∨ ∃ b ∈ chain, hash = rules.ofBlock b.block)
    (hconnect : connectBlock rules block pindex false view = .ok (view', undo))
    (hordinary : ∀ b ∈ (⟨block, pindex, undo⟩ :: chain), OrdinaryBlock rules b)
    (hdistinct : rules.DistinctTxids block.vtx) {prev : Option Hash} :
    Books rules (⟨block, pindex, undo⟩ :: chain) view'.coins
      (indexBlock config pindex.nHeight hash ⟨prev, block.vtx.map (rpcTx rules)⟩ c) := by
  have hpos : 0 < pindex.nHeight := by omega
  obtain ⟨hundo, -⟩ := connectBlock_books hchain.chainRun.inv.sound hconnect
  have hfits := fits_of_connectBlock hgenesis hconnect hundo
  have hto := ConnectedTo.of_connectBlock hgenesis hpos (hnetwork.enforceBIP30 hancestor hordinary)
    hdistinct h.height hconnect
  have hpays := PaysShare.of_connectBlock hgenesis hpos hset hconnect
  have hne : block.vtx ≠ [] := ne_nil_of_length_pos (by rw [← hto.length]; omega)
  have hreward : (((ConnectedBlock.mk block pindex undo).records).map
      (coinbaseReward rules.params)).sum = treasuryShare pindex.nHeight rules.params :=
    sum_reward_records hpays hne
  have hshares : treasuryShares rules.params (chain.length + 1) =
      treasuryShares rules.params chain.length + treasuryShare pindex.nHeight rules.params := by
    rw [hheight]
    exact Finset.sum_range_succ ..
  have hbound := treasuryShares_lt hnetwork (chain.length + 1)
  have hnonneg : 0 ≤ c.rewards := by
    rw [h.rewards]
    exact sum_reward_nonneg h.fits
  have hlist : ((ConnectedBlock.mk block pindex undo).records.map fun p => rpcTx rules p.1) =
      block.vtx.map (rpcTx rules) := by
    have hfst : (ConnectedBlock.mk block pindex undo).records.map Prod.fst = block.vtx :=
      map_fst_zip (by rw [length_cons, length_map, hto.length])
    rw [← hfst, map_map]
    rfl
  have htxs : ConnectedTxs rules pindex.nHeight view.coins
    (ConnectedBlock.mk block pindex undo).records view'.coins := hto.txs
  have hall := htxs.advances hscript hspendable hfits h.mirrors hnonneg
    (by rw [hreward, h.shares]; omega)
  rw [hlist] at hall
  obtain ⟨hmirrors, hadvances⟩ := hall
  have hrecords : chainRecords (⟨block, pindex, undo⟩ :: chain) =
      (ConnectedBlock.mk block pindex undo).records ++ chainRecords chain := flatMap_cons
  have hloss_nonneg := sum_loss_nonneg rules.params (chainRecords chain)
  have htotal := hadvances.total
  have htotal₀ := h.total
  have hrewards := hadvances.rewards
  have hrewards₀ := h.rewards
  refine ⟨hmirrors, ?_, ?_, ?_, ?_, ?_, hto.txs.value_le hfits h.value_le, hto.height⟩
  · rw [hrecords, map_append, map_append, sum_append, sum_append]
    change utxoTotal ((block.vtx.map (rpcTx rules)).foldl (indexTx config pindex.nHeight) c).utxos +
      _ = _
    omega
  · rw [hrecords, map_append, sum_append]
    exact hrewards.trans (by rw [hrewards₀, add_comm])
  · rw [length_cons, hshares, ← h.shares, ← hreward]
    exact hrewards
  · rw [hrecords, map_append, sum_append, add_comm]
    exact hadvances.spent _ hloss_nonneg h.spent
  · intro p hp
    exact (mem_append.1 hp).elim (hfits p) (h.fits p)

end Connect

variable {node : NodeBlocks Hash}

lemma ShowsChain.parent {x p : Hash} {blocks : List (CBlock Hash)}
    (h : ShowsChain rules node x (blocks ++ [block])) (hp : node.parent x = some p) :
    ShowsChain rules node p blocks ∧ node.tx x = block.vtx.map (rpcTx rules) := by
  have hdepth := h.depth
  have hchild := node.depth_child x p hp
  rw [length_append, length_singleton] at hdepth
  have hlength : node.depth p = blocks.length := by omega
  refine ⟨⟨hlength, fun k y hy => ?_⟩, ?_⟩
  · have hk : k < node.depth p := by
      obtain ⟨hanc, hdepth_y⟩ := Forest.atDepth_eq_some_iff.1 hy
      have := hanc.depth_le
      omega
    rw [← Forest.atDepth_of_parent hp hk] at hy
    obtain ⟨b, hb, htx⟩ := h.blocks k y hy
    rw [List.getElem?_append_left (hlength ▸ hk)] at hb
    exact ⟨b, hb, htx⟩
  · have hself : node.atDepth x (blocks.length + 1) = some x := by
      rw [← hdepth]
      exact Forest.atDepth_self ..
    obtain ⟨b, hb, htx⟩ := h.blocks blocks.length x hself
    rw [List.getElem?_concat_length, Option.some.injEq] at hb
    rw [htx, hb]

/-- **The index of an accepted chain.** -/
lemma RecordedChain.books (hchain : RecordedChain rules chain view) (hnetwork : NetworkRules rules)
    (hordinary : ∀ b ∈ chain, OrdinaryBlock rules b)
    (hdistinct : ∀ b ∈ chain, rules.DistinctTxids b.block.vtx)
    (hscript : config.TREASURY_SCRIPT = rules.params.treasury_script_pub_key)
    (hset : rules.params.treasury_script_pub_key ≠ [])
    (hspendable : CScript.isUnspendable rules.params.treasury_script_pub_key = false) {x : Hash}
    (hshows : ShowsChain rules node x (chain.map ConnectedBlock.block).reverse) :
    Books rules chain view.coins (indexChain config node x) := by
  induction hchain generalizing x with
  | genesis =>
    rw [indexChain_root hshows.depth]
    exact .genesis
  | @connect chain view view' block pindex undo hbelow hheight hgenesis hancestor hconnect ih =>
    obtain ⟨hnew, hold⟩ := forall_mem_cons.1 hdistinct
    rw [map_cons, reverse_cons] at hshows
    have hdepth := hshows.depth
    rw [length_append, length_reverse, length_map, length_singleton] at hdepth
    obtain ⟨p, hp, -⟩ := node.exists_parent (show 0 < node.depth x by omega)
    obtain ⟨hparent, htx⟩ := hshows.parent hp
    rw [indexChain_child hp, hdepth, ← hheight, NodeBlocks.rpcBlock, htx]
    exact (ih (forall_mem_cons.1 hordinary).2 hold hparent).connect hnetwork hscript hset hspendable
      hbelow hheight hgenesis hancestor hconnect hordinary hnew

end Chain

/-! ## Sums of coins -/

open Classical in
/-- The sum of the values of the coins with a property. -/
noncomputable def CoinsMap.totalOf {Hash : Type} (m : CoinsMap Hash)
    (P : COutPoint Hash → Prop) : ℤ :=
  ∑ o ∈ m.finite.toFinset with P o, m.value o

/-- There is a coin with this script. -/
def CoinsMap.Pays {Hash : Type} (m : CoinsMap Hash) (script : CScript) (o : COutPoint Hash) :
    Prop :=
  ∃ c, m.coin o = some c ∧ c.out.scriptPubKey = script

/-- `CheckTxInputs` lets a transaction in a block at this height spend the coin. -/
def CoinsMap.MaySpend [Zero Hash] (m : CoinsMap Hash) (nSpendHeight : ℕ) (o : COutPoint Hash) :
    Prop :=
  ∃ (tx : CTransaction Hash) (fee : ℤ), o ∈ tx.vin.map CTxIn.prevout ∧
    checkTxInputs tx m nSpendHeight = .ok fee

omit [DecidableEq Hash] in
lemma CoinsMap.totalOf_le_total (hm : ∀ o, 0 ≤ m.value o) (P : COutPoint Hash → Prop) :
    m.totalOf P ≤ m.total := by
  classical
  refine Finset.sum_le_sum_of_subset_of_nonneg (fun o ho => ?_) fun o _ _ => hm o
  exact (Finset.mem_filter.1 ho).1

omit [DecidableEq Hash] in
lemma checkInput_mature {nSpendHeight : ℕ} {vin : List (CTxIn Hash)} {n v : ℤ}
    (h : vin.foldlM (checkInput m nSpendHeight) n = .ok v) :
    ∀ txin ∈ vin, ¬ ((m.accessCoin txin.prevout).fCoinBase ∧
      (nSpendHeight : ℤ) - (m.accessCoin txin.prevout).nHeight < COINBASE_MATURITY) := by
  refine foldlM_invariant (fun pre _ => ∀ txin ∈ pre, ¬ ((m.accessCoin txin.prevout).fCoinBase ∧
    (nSpendHeight : ℤ) - (m.accessCoin txin.prevout).nHeight < COINBASE_MATURITY)) h (by simp) ?_
  intro pre txin t t' _ hpre hpass
  simp only [checkInput, bind_eq_ok, ensure_eq_ok] at hpass
  obtain ⟨_, -, _, hmature, -⟩ := hpass
  exact forall_mem_append.2 ⟨hpre, forall_mem_singleton.2 hmature⟩

/-- A coin can be spent at a height unless it is a coinbase output that is not mature there. -/
lemma CoinsMap.maySpend_iff [Zero Hash] {o : COutPoint Hash} {c : Coin} (ho : m.coin o = some c)
    (hrange : MoneyRange c.out.nValue) (nSpendHeight : ℕ) :
    m.MaySpend nSpendHeight o ↔
      ¬ (c.fCoinBase ∧ (nSpendHeight : ℤ) - c.nHeight < COINBASE_MATURITY) := by
  have haccess : m.accessCoin o = c := accessCoin_of_some ho
  constructor
  · rintro ⟨tx, fee, hmem, hcheck⟩
    obtain ⟨txin, htxin, rfl⟩ := mem_map.1 hmem
    simp only [checkTxInputs, bind_eq_ok] at hcheck
    obtain ⟨_, -, v, hin, -⟩ := hcheck
    have hmature := checkInput_mature hin txin htxin
    rwa [haccess] at hmature
  · intro hmature
    -- A transaction that spends only this coin and pays all of it to somebody.
    refine ⟨⟨2, [⟨o, [], 0xffffffff, []⟩], [⟨c.out.nValue, []⟩], 0⟩, 0, mem_singleton_self o, ?_⟩
    have hout : getValueOut [⟨c.out.nValue, []⟩] = .ok c.out.nValue :=
      getValueOut_eq_ok.2 ⟨by simpa using hrange.1, by simpa using hrange.2, by simp⟩
    have hspent : c.isSpent = false := (m.spendable o c ho).notSpent
    have hinput : checkInput m nSpendHeight 0 ⟨o, [], 0xffffffff, []⟩ = .ok c.out.nValue := by
      simp only [checkInput, haccess, bind_eq_ok, ensure_eq_ok, pure_eq_ok, zero_add]
      exact ⟨(), by rw [hspent]; exact Bool.false_ne_true, (), hmature, (),
        ⟨hrange, hrange⟩, trivial⟩
    simp only [checkTxInputs, bind_eq_ok, ensure_eq_ok, pure_eq_ok]
    refine ⟨(), ?_, c.out.nValue, foldlM_cons_eq_ok.2 ⟨_, hinput, rfl⟩, c.out.nValue, hout, (),
      lt_irrefl _, (), ?_, sub_self _⟩
    · simp [CoinsMap.haveInputs, CoinsMap.haveCoin, ho]
    · rw [sub_self]
      decide

variable {utxos : AList fun _ : Hash × ℕ => TreasuryUtxo} {script : CScript}

/-- **The index adds up what the view adds up**: a quantity of the entries is the value of the coins
with a property. -/
lemma Mirrors.keyedTotal_eq
    (h : Mirrors script m utxos) {f : TreasuryUtxo → ℤ} {P : COutPoint Hash → Prop}
    (hin : ∀ o c, m.coin o = some c → c.out.scriptPubKey = script → P o →
      f ⟨c.out.nValue, c.nHeight, c.fCoinBase⟩ = c.out.nValue)
    (hout : ∀ o c, m.coin o = some c → c.out.scriptPubKey = script → ¬ P o →
      f ⟨c.out.nValue, c.nHeight, c.fCoinBase⟩ = 0) :
    keyedTotal f utxos = m.totalOf fun o => m.Pays script o ∧ P o := by
  have hinjective : Function.Injective fun o : COutPoint Hash => (o.hash, o.n) := by
    intro o o' heq
    by_contra hne
    exact key_ne hne heq
  have hkeys : ∀ a ∈ utxos, a ∈ m.finite.toFinset.image fun o => (o.hash, o.n) := by
    intro a ha
    refine Finset.mem_image.2 ⟨⟨a.1, a.2⟩, ?_, rfl⟩
    rw [Set.Finite.mem_toFinset]
    intro hnone
    have hlookup := h ⟨a.1, a.2⟩
    rw [hnone] at hlookup
    exact AList.lookup_eq_none.1 hlookup ha
  rw [keyedTotal_eq_sum f utxos hkeys, Finset.sum_image hinjective.injOn, CoinsMap.totalOf,
    Finset.sum_filter]
  refine Finset.sum_congr rfl fun o ho => ?_
  obtain ⟨c, hc⟩ := Option.ne_none_iff_exists'.1 (m.finite.mem_toFinset.1 ho)
  have hlookup := h o
  rw [hc, Option.bind_some, treasuryEntry] at hlookup
  rw [value_of_some hc]
  by_cases hpays : c.out.scriptPubKey = script
  · rw [if_pos hpays] at hlookup
    rw [contribution_of_lookup f utxos _ hlookup]
    by_cases hP : P o
    · rw [if_pos ⟨⟨c, hc, hpays⟩, hP⟩, hin o c hc hpays hP]
    · rw [if_neg fun hboth => hP hboth.2, hout o c hc hpays hP]
  · rw [if_neg hpays] at hlookup
    rw [contribution_of_none f utxos _ hlookup, if_neg]
    rintro ⟨⟨c', hc', hpays'⟩, -⟩
    rw [hc, Option.some.injEq] at hc'
    exact hpays (hc' ▸ hpays')

lemma decSum_eq {values : List ℤ} (hnonneg : ∀ v ∈ values, 0 ≤ v) (hsum : values.sum < 10 ^ 28) :
    decSum values = values.sum := by
  suffices hfrom : ∀ a, 0 ≤ a → a + values.sum < 10 ^ 28 →
      values.foldl decAdd a = a + values.sum by
    have := hfrom 0 le_rfl (by omega)
    rwa [zero_add] at this
  clear hsum
  induction values with
  | nil => exact fun a _ _ => (add_zero a).symm
  | cons v values ih =>
    intro a ha hbound
    obtain ⟨hv, hvalues⟩ := forall_mem_cons.1 hnonneg
    have hrest : 0 ≤ values.sum := sum_nonneg hvalues
    rw [sum_cons] at hbound ⊢
    rw [foldl_cons, decAdd_eq (by omega) (by omega), ih hvalues _ (by omega) (by omega),
      add_assoc]

lemma sum_filter_map {α : Type} (f : α → ℤ) (q : α → Bool) (l : List α) :
    ((l.filter q).map f).sum = (l.map fun a => if q a then f a else 0).sum := by
  simpa using (sum_map_ite (fun a => q a = true) f (fun _ => 0) l).symm

/-- The value of an entry that is counted as unlocked at a height. -/
def unlockedValue (height : ℕ) (u : TreasuryUtxo) : ℤ :=
  if !u.coinbase || decide ((height : ℤ) - u.height + 1 ≥ 100) then u.value else 0

omit [DecidableEq Hash] in
lemma treasuryReport_balances (config : CollectorConfig) (height : ℕ) {c : TreasuryIndex Hash}
    (hnonneg : ∀ p ∈ c.utxos.entries, 0 ≤ p.2.value) (hbound : utxoTotal c.utxos < 10 ^ 28) :
    (treasuryReport config height c).currentBalance = formatAmount (utxoTotal c.utxos) ∧
      (treasuryReport config height c).unlockedBalance =
        formatAmount (keyedTotal (unlockedValue height) c.utxos) := by
  have hvalues : ∀ u ∈ c.utxos.entries.map Sigma.snd, 0 ≤ u.value := forall_mem_map.2 hnonneg
  obtain ⟨l, hl⟩ : ∃ l, l = c.utxos.entries.map Sigma.snd := ⟨_, rfl⟩
  have htotal : ∀ f : TreasuryUtxo → ℤ, keyedTotal f c.utxos = (l.map f).sum := by
    intro f
    rw [hl, map_map]
    rfl
  rw [← hl] at hvalues
  rw [utxoTotal, htotal] at hbound
  rw [utxoTotal, htotal, htotal]
  unfold treasuryReport
  dsimp only
  rw [← hl]
  constructor
  · rw [decSum_eq (by simpa using hvalues) hbound]
  · have hsum := sum_filter_map TreasuryUtxo.value
      (fun u => !u.coinbase || decide ((height : ℤ) - u.height + 1 ≥ 100)) l
    have hle : (l.map (unlockedValue height)).sum ≤ (l.map TreasuryUtxo.value).sum := by
      refine sum_le_sum fun u hu => ?_
      unfold unlockedValue
      split
      · exact le_rfl
      · exact hvalues u hu
    rw [decSum_eq ?_ ?_, hsum]
    · rfl
    · exact forall_mem_map.2 fun u hu => hvalues u (mem_of_mem_filter hu)
    · rw [hsum]
      exact hle.trans_lt hbound

lemma Mirrors.value_nonneg (h : Mirrors script m utxos) (hm : ∀ o, 0 ≤ m.value o) :
    ∀ p ∈ utxos.entries, 0 ≤ p.2.value := by
  intro p hp
  have hlookup : utxos.lookup p.1 = some p.2 := AList.mem_lookup_iff.2 hp
  have hcoin := h ⟨p.1.1, p.1.2⟩
  rw [show (p.1.1, p.1.2) = p.1 from rfl, hlookup] at hcoin
  obtain ⟨c, hc, hentry⟩ := Option.bind_eq_some_iff.1 hcoin.symm
  unfold treasuryEntry at hentry
  split at hentry
  · rw [← Option.some.inj hentry]
    exact value_of_some hc ▸ hm _
  · cases hentry

/-! ## Gains and rewards -/

omit [DecidableEq Hash] in
/-- A transaction gains at least its reward, and exactly that unless it is not a coinbase and pays
more than it takes. -/
lemma gain_eq_reward_iff (params : Params) {p : CTransaction Hash × Option CTxUndo} (hp : Fits p) :
    coinbaseReward params p ≤ treasuryGain params p ∧
      (treasuryGain params p = coinbaseReward params p ↔
        ∀ u, p.2 = some u → treasuryPaid params p.1.vout ≤ treasurySpent params u) := by
  obtain ⟨tx, _ | u⟩ := p
  · have hpaid : 0 ≤ treasuryPaid params tx.vout := treasuryPaid_nonneg hp.checked.out_nonneg
    have hgain : treasuryGain params (tx, none) = treasuryPaid params tx.vout := by
      change max 0 (treasuryPaid params tx.vout - 0) = _
      omega
    rw [hgain]
    exact ⟨le_rfl, fun _ => nofun, fun _ => rfl⟩
  · have hreward : coinbaseReward params (tx, some u) = 0 := rfl
    have hgain : treasuryGain params (tx, some u) =
        max 0 (treasuryPaid params tx.vout - treasurySpent params u) := rfl
    refine ⟨le_max_left .., fun hzero v hv => ?_, fun hle => ?_⟩
    · rw [← Option.some.inj hv]
      dsimp only
      omega
    · have := hle u rfl
      dsimp only at this
      omega

omit [DecidableEq Hash] in
lemma sum_gain_eq_reward_iff (params : Params) {l : List (CTransaction Hash × Option CTxUndo)}
    (hl : ∀ p ∈ l, Fits p) :
    (l.map (coinbaseReward params)).sum ≤ (l.map (treasuryGain params)).sum ∧
      ((l.map (treasuryGain params)).sum = (l.map (coinbaseReward params)).sum ↔
        ∀ tx u, (tx, some u) ∈ l → treasuryPaid params tx.vout ≤ treasurySpent params u) := by
  induction l with
  | nil => exact ⟨le_rfl, fun _ => by simp, fun _ => rfl⟩
  | cons p l ih =>
    obtain ⟨hp, hl⟩ := forall_mem_cons.1 hl
    obtain ⟨hle, heq⟩ := ih hl
    obtain ⟨hle_p, heq_p⟩ := gain_eq_reward_iff params hp
    simp only [map_cons, sum_cons]
    refine ⟨by omega, fun hsum tx u hmem => ?_, fun hall => ?_⟩
    · rcases mem_cons.1 hmem with rfl | hmem
      · exact heq_p.1 (by omega) u rfl
      · exact heq.1 (by omega) tx u hmem
    · have hfirst := heq_p.2 fun u hu => hall p.1 u (hu ▸ mem_cons_self)
      have hrest := heq.2 fun tx u hmem => hall tx u (mem_cons_of_mem _ hmem)
      omega

/-! ## The figures of the index -/

section Figures

variable [Zero Hash] {rules : ConsensusRules Hash} {chain : List (ConnectedBlock Hash)}
  {c : TreasuryIndex Hash}

omit [Zero Hash] in
lemma Books.utxoTotal_eq (h : Books rules chain m c) :
    utxoTotal c.utxos = m.totalOf (m.Pays rules.params.treasury_script_pub_key) := by
  have hall := h.mirrors.keyedTotal_eq (f := TreasuryUtxo.value) (P := fun _ => True)
    (fun _ _ _ _ _ => rfl) (fun _ _ _ _ hnot => absurd trivial hnot)
  simpa only [and_true] using hall

lemma Books.unlocked_eq (h : Books rules chain m c) (hm : ∀ o, 0 ≤ m.value o) (height : ℕ) :
    keyedTotal (unlockedValue height) c.utxos =
      m.totalOf fun o => m.Pays rules.params.treasury_script_pub_key o ∧
        m.MaySpend (height + 1) o := by
  have hiff : ∀ o coin, m.coin o = some coin → (m.MaySpend (height + 1) o ↔
      (!coin.fCoinBase || decide ((height : ℤ) - coin.nHeight + 1 ≥ 100)) = true) := by
    intro o coin ho
    have hvalue := hm o
    rw [value_of_some ho] at hvalue
    rw [maySpend_iff ho ⟨hvalue, h.value_le o coin ho⟩, COINBASE_MATURITY]
    rw [Bool.or_eq_true, Bool.not_eq_true', decide_eq_true_eq, not_and, Nat.cast_add, Nat.cast_one]
    cases coin.fCoinBase with
    | false => exact ⟨fun _ => .inl rfl, fun _ => nofun⟩
    | true => exact ⟨fun hmature => .inr (by have := hmature rfl; omega),
        fun hold _ => by have := hold.resolve_left nofun; omega⟩
  refine h.mirrors.keyedTotal_eq (fun o coin ho _ hspend => ?_) fun o coin ho _ hnot => ?_
  · exact if_pos ((hiff o coin ho).1 hspend)
  · exact if_neg fun hold => hnot ((hiff o coin ho).2 hold)

/-- **The balance and the spending against the rewards.** -/
lemma Books.rewards_le (h : Books rules chain m c) (hnetwork : NetworkRules rules)
    (htotal : 0 ≤ utxoTotal c.utxos) :
    c.rewards ≤ utxoTotal c.utxos + c.spent ∧
      (utxoTotal c.utxos + c.spent = c.rewards ↔ ∀ tx u, (tx, some u) ∈ chainRecords chain →
        treasuryPaid rules.params tx.vout ≤ treasurySpent rules.params u) := by
  obtain ⟨hle, heq⟩ := sum_gain_eq_reward_iff rules.params h.fits
  have hbooked := h.total
  have hrewards := h.rewards
  have hbound := treasuryShares_lt hnetwork chain.length
  rw [← h.shares] at hbound
  rcases h.spent with ⟨hspent, -⟩ | ⟨hspent, hloss⟩
  · refine ⟨by omega, ?_⟩
    rw [← heq]
    constructor <;> intro hsame <;> omega
  · -- The losses are more than all rewards, so something was paid in.
    refine ⟨by omega, fun hsame => by omega, fun hall => ?_⟩
    have := heq.2 hall
    omega

end Figures

/-! ## The report -/

section Report

variable {node : NodeBlocks Hash} {env : Environment Hash} {s : Session Hash}

variable [Zero Hash]

/-- **The balances of the treasury.**  Where the blocks at heights `1` to `h` were accepted and the
status server, set up for the treasury script, reports at height `h` with its index at the last of
them: the current balance is the sum of the coins for the treasury script, the unlocked balance is
the sum of those that `CheckTxInputs` lets a block at height `h + 1` spend, and the balance and the
spending together are at least the rewards, with equality exactly if no transaction but a coinbase
pays the treasury more than it spends from it.  The report is text, but each amount of it is that of
one number only. -/
theorem treasuryReport_of_coins (rules : ConsensusRules Hash) (chain : List (ConnectedBlock Hash))
    (view : CoinsView Hash) (node : NodeBlocks Hash) (x : Hash) (config : CollectorConfig)
    (env : Environment Hash) (heights : List ℕ) (report : TreasuryReport) (s' : Session Hash)
    (hnetwork : NetworkRules rules) (hchain : RecordedChain rules chain view)
    (hordinary : ∀ b ∈ chain, OrdinaryBlock rules b)
    (hdistinct : ∀ b ∈ chain, rules.DistinctTxids b.block.vtx)
    (hspendable : CScript.isUnspendable rules.params.treasury_script_pub_key = false)
    (hconfig : config.TREASURY_SCRIPT = rules.params.treasury_script_pub_key)
    (hshows : ShowsChain rules node x (chain.map block).reverse)
    (hstatus : treasuryStatus config node env chain.length (afterCalls config node env heights) =
      .ok (some report) s') (hlast : chain ≠ [] → s'.index.hash = some x) :
    ∃ current unlocked rewards spent : ℤ,
      (∀ v, report.currentBalance = formatAmount v ↔ v = current) ∧
      (∀ v, report.unlockedBalance = formatAmount v ↔ v = unlocked) ∧
      (∀ v, report.accruedRewards = formatAmount v ↔ v = rewards) ∧
      (∀ v, report.totalSpent = formatAmount v ↔ v = spent) ∧
      current = view.coins.totalOf (view.coins.Pays rules.params.treasury_script_pub_key) ∧
      unlocked = (view.coins.totalOf fun o =>
        view.coins.Pays rules.params.treasury_script_pub_key o ∧
          view.coins.MaySpend (chain.length + 1) o) ∧
      rewards ≤ current + spent ∧
      (current + spent = rewards ↔ ∀ tx u, (tx, some u) ∈ chainRecords chain →
        treasuryPaid rules.params tx.vout ≤ treasurySpent rules.params u) := by
  have hindexed := afterCalls_indexed config node env heights
  obtain ⟨hreturns, hreported⟩ := (treasuryStatus_ends hindexed env chain.length).of_ok hstatus
  have hheight := hreported.height_eq rfl
  have hset : rules.params.treasury_script_pub_key ≠ [] := hconfig ▸ hreported.set rfl
  have hindex : s'.index = indexChain config node x := by
    have hdepth := hshows.depth
    rw [length_reverse, length_map] at hdepth
    rcases hreturns.indexed with hreset | ⟨y, hy, hy'⟩
    · rw [hreset] at hheight ⊢
      exact (indexChain_root (hdepth.trans hheight.symm)).symm
    · obtain ⟨hheight', hhash⟩ := indexChain_last config hy
      rw [hy', hheight'] at hheight
      have hx := hlast (ne_nil_of_length_pos (by omega))
      rw [hy', hhash, Option.some.injEq] at hx
      rw [hy', hx]
  have hbooks := hchain.books hnetwork hordinary hdistinct hconfig hset hspendable hshows
  rw [← hindex] at hbooks
  have hsound := hchain.chainRun.inv.sound
  have hvalues := hbooks.mirrors.value_nonneg hsound.nonneg
  have htotal := hbooks.utxoTotal_eq
  have hnonneg : 0 ≤ utxoTotal s'.index.utxos := sum_nonneg (forall_mem_map.2 hvalues)
  have hbound : utxoTotal s'.index.utxos < 10 ^ 28 := by
    rw [htotal]
    exact (totalOf_le_total hsound.nonneg _).trans_lt (total_lt hnetwork hchain)
  obtain ⟨hcurrent, hunlocked⟩ := treasuryReport_balances config chain.length hvalues hbound
  obtain ⟨hle, heq⟩ := hbooks.rewards_le hnetwork hnonneg
  have hamount (w v : ℤ) : formatAmount w = formatAmount v ↔ v = w :=
    formatAmount_injective.eq_iff.trans eq_comm
  rw [hreported.report_eq report rfl, hcurrent, hunlocked]
  exact ⟨_, _, _, _, hamount _, hamount _, hamount _, hamount _, htotal,
    hbooks.unlocked_eq hsound.nonneg _, hle, heq⟩

end Report

lemma lenientRules_networkRules : NetworkRules (lenientRules mainParams) where
  BIP34Hash := rfl
  genesis_ne := Nat.one_ne_zero
  interval_pos := by decide
  interval_lt := by decide
  percent_lt := by decide

lemma exists_recordedChain {k : ℕ} {p : CoinsView ℕ × CBlockUndo} (h : chainState k = .ok p) :
    ∃ chain, RecordedChain (lenientRules mainParams) chain p.1 ∧
      (∀ b ∈ chain, OrdinaryBlock (lenientRules mainParams) b ∧
        (lenientRules mainParams).DistinctTxids b.block.vtx) ∧
      (chain.map block).reverse = (List.range k).map fun i => chainBlock (i + 1) := by
  induction k generalizing p with
  | zero =>
    obtain rfl := Except.ok.inj h
    exact ⟨[], .genesis, by simp, rfl⟩
  | succ k ih =>
    obtain ⟨q, hq, hconnect⟩ := chainState_succ.1 h
    obtain ⟨chain, hchain, hblocks, hmap⟩ := ih hq
    have hlength : chain.length = k := by simpa using congrArg length hmap
    refine ⟨⟨chainBlock (k + 1), chainIndex (k + 1), p.2⟩ :: chain, .connect hchain
      (by rw [hlength]; rfl) (by simp [chainIndex, lenientRules]) (by simp [chainIndex]) hconnect,
      forall_mem_cons.2 ⟨⟨⟨Nat.succ_ne_zero _, rfl⟩, chainBlock_distinct _⟩, hblocks⟩, ?_⟩
    rw [map_cons, reverse_cons, hmap, range_succ, map_append]
    rfl

/-- The report that a call returns, and the last block of the index. -/
def published : EStateM.Result String (Session ℕ) (Option TreasuryReport) →
    Option (TreasuryReport × Option ℕ)
  | .ok (some report) s => some (report, s.index.hash)
  | _ => none

lemma of_published {r : EStateM.Result String (Session ℕ) (Option TreasuryReport)}
    {report : TreasuryReport} {hash : Option ℕ} (h : published r = some (report, hash)) :
    ∃ s', r = .ok (some report) s' ∧ s'.index.hash = hash := by
  unfold published at h
  split at h
  · next report' s' =>
    obtain ⟨rfl, hhash⟩ := Prod.mk.inj (Option.some.inj h)
    exact ⟨s', rfl, hhash⟩
  · cases h

/-- The report at height `101` of the chain. -/
def chainReport : TreasuryReport where
  treasuryAddress := "treasury"
  accruedRewards := formatAmount 10100000000
  currentBalance := formatAmount 10030000000
  unlockedBalance := formatAmount 130000000
  immatureBalance := formatAmount 9900000000
  totalSpent := formatAmount 70000000

/-- At height `101` the treasury has spent a coin and got change; of the hundred rewards that it
still owns one is unlocked. -/
theorem treasuryReport_of_coins_chain :
    ∃ s' undo, ∃ view : CoinsView ℕ, chainState 101 = .ok (view, undo) ∧
      treasuryStatus chainConfig chainNode chainEnvironment 101
        (afterCalls chainConfig chainNode chainEnvironment [101]) = .ok (some chainReport) s' ∧
      view.coins.totalOf (view.coins.Pays mainParams.treasury_script_pub_key) = 10030000000 ∧
      (view.coins.totalOf fun o => view.coins.Pays mainParams.treasury_script_pub_key o ∧
        view.coins.MaySpend 102 o) = 130000000 := by
  obtain ⟨⟨view, undo⟩, hstate⟩ := exists_chainState (k := 101) le_rfl
  obtain ⟨chain, hchain, hblocks, hmap⟩ := exists_recordedChain hstate
  have hlength : chain.length = 101 := by simpa using congrArg length hmap
  have hshows := chainNode_showsChain 101
  have hpublished : published (treasuryStatus chainConfig chainNode chainEnvironment 101
    (afterCalls chainConfig chainNode chainEnvironment [101])) = some (chainReport, some 102) := by
    decide +kernel
  obtain ⟨s', hrun, hhash⟩ := of_published hpublished
  refine ⟨s', undo, view, hstate, hrun, ?_⟩
  rw [← hmap] at hshows
  obtain ⟨current, unlocked, rewards, spent, hcurrent, hunlocked, -, -, rfl, rfl, -⟩ :=
    treasuryReport_of_coins (lenientRules mainParams) chain view chainNode 102 chainConfig
      chainEnvironment [101] chainReport s' lenientRules_networkRules hchain
      (fun b hb => (hblocks b hb).1) (fun b hb => (hblocks b hb).2) (by decide) rfl hshows
      (by rw [hlength]; exact hrun) fun _ => hhash
  rw [hlength] at hunlocked
  exact ⟨((hcurrent _).1 rfl).symm, ((hunlocked _).1 rfl).symm⟩

end SlithyTove
