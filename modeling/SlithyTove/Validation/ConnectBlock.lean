import SlithyTove.Consensus.TxCheck

/-!
# Connecting and disconnecting a block

`Chainstate::ConnectBlock` applies a block to a coins view: context-free checks, the rule
against overwriting unspent outputs (BIP30), then transaction by transaction the input checks
and `UpdateCoins`, and last the two checks on the coinbase, its amount and its treasury payment.
It leaves the changed view and, for every transaction but the first, the coins it spent.
`Chainstate::DisconnectBlock` takes a block off again with that undo data.

A rejected block is an error carrying the reject reason, an assertion that fails is one carrying
its text; `DISCONNECT_FAILED` is an error as well.  What the two functions read of the block's
index entry is `IndexEntry`.
-/

namespace SlithyTove

open Framework

/-! ## The data -/

/-- A coins view: the unspent outputs and the block they belong to. -/
@[ext]
structure CoinsView (Hash : Type) where
  coins : CoinsMap Hash
  hashBlock : Hash

/-- What block validation reads of a block's index entry. -/
structure IndexEntry (Hash : Type) where
  /-- `GetBlockHash()`. -/
  hash : Hash
  /-- `pprev->GetBlockHash()`. -/
  pprev : Option Hash
  nHeight : ℕ
  /-- The hash of `pprev->GetAncestor(BIP34Height)`. -/
  bip34Ancestor : Option Hash

/-- The consensus parameters and functions a chainstate validates with. -/
structure ConsensusRules (Hash : Type) extends Externals Hash where
  params : Params
  hashGenesisBlock : Hash
  BIP34Hash : Hash
  /-- `IsBIP30Repeat`: the two historical blocks that repeat a coinbase. -/
  isBIP30Repeat : ℕ → Hash → Bool
  /-- The two historical blocks whose coinbase was overwritten later. -/
  isBIP30Unspendable : ℕ → Hash → Bool

/-- `CTxUndo`: the coins a transaction spent, input by input. -/
abbrev CTxUndo := List Coin

/-- `CBlockUndo`: the undo data of every transaction but the coinbase. -/
abbrev CBlockUndo := List CTxUndo

variable {Hash : Type} [DecidableEq Hash] [Zero Hash]

/-! ## `CheckBlock` -/

variable (rules : ConsensusRules Hash)

/-- `CheckBlock`. -/
def checkBlock (block : CBlock Hash) (fCheckPOW fCheckMerkleRoot : Bool) : Except String Unit := do
  whenever fCheckPOW (rules.headerChecks block)
  whenever fCheckMerkleRoot (rules.checkMerkleRoot block)
  ensure (block.vtx ≠ [] ∧ block.vtx.length * WITNESS_SCALE_FACTOR ≤ MAX_BLOCK_WEIGHT ∧
    rules.blockSize block * WITNESS_SCALE_FACTOR ≤ MAX_BLOCK_WEIGHT) "bad-blk-length"
  ensure (∀ tx ∈ block.vtx.head?, tx.isCoinBase) "bad-cb-missing"
  ensure (∀ tx ∈ block.vtx.tail, ¬ tx.isCoinBase) "bad-cb-multiple"
  block.vtx.forM (checkTransaction rules.toExternals)
  ensure ((block.vtx.map rules.legacySigOpCount).sum * WITNESS_SCALE_FACTOR ≤
    MAX_BLOCK_SIGOPS_COST) "bad-blk-sigops"

/-! ## `UpdateCoins` -/

/-- One input of `UpdateCoins`: the coin moves from the view to the undo record. -/
def spendInput (s : CTxUndo × CoinsMap Hash) (txin : CTxIn Hash) :
    Except String (CTxUndo × CoinsMap Hash) :=
  match s.2.spendCoin txin.prevout with
  | some (coin, m) => .ok (s.1 ++ [coin], m)
  | none => .error "is_spent"

/-- `AddCoins`: every output of a transaction becomes a coin. -/
def addCoins (txid : Hash) (tx : CTransaction Hash) (nHeight : ℕ) (m : CoinsMap Hash) :
    Except String (CoinsMap Hash) :=
  tx.vout.zipIdx.foldlM (fun m (out, i) => m.addCoin ⟨txid, i⟩ ⟨out, nHeight, tx.isCoinBase⟩) m

/-- `UpdateCoins`. -/
def updateCoins (tx : CTransaction Hash) (inputs : CoinsMap Hash) (nHeight : ℕ) :
    Except String (CTxUndo × CoinsMap Hash) := do
  let (txundo, inputs) ← if tx.isCoinBase then pure ([], inputs)
    else tx.vin.foldlM spendInput ([], inputs)
  let inputs ← addCoins (rules.txid tx) tx nHeight inputs
  return (txundo, inputs)

/-! ## `ConnectBlock` -/

/-- The accumulators of the transaction loop of `ConnectBlock`. -/
structure ConnectState (Hash : Type) where
  view : CoinsMap Hash
  nFees : ℤ
  nSigOpsCost : ℕ
  vtxundo : CBlockUndo

/-- The part of the loop that only transactions with inputs go through: the fee, the accumulated
fees and the sequence locks. -/
def connectInputs (nHeight : ℕ) (s : ConnectState Hash) (tx : CTransaction Hash) :
    Except String ℤ := do
  let txfee ← checkTxInputs tx s.view nHeight
  ensure (MoneyRange (s.nFees + txfee)) "bad-txns-accumulated-fee-outofrange"
  let prevheights := tx.vin.map fun txin => (s.view.accessCoin txin.prevout).nHeight
  ensure (rules.sequenceLocks tx prevheights nHeight) "bad-txns-nonfinal"
  return s.nFees + txfee

/-- One pass of the transaction loop of `ConnectBlock`, for the transaction at index `i`. -/
def connectTx (nHeight : ℕ) (s : ConnectState Hash) (p : CTransaction Hash × ℕ) :
    Except String (ConnectState Hash) := do
  let (tx, i) := p
  let nFees ← if tx.isCoinBase then pure s.nFees else connectInputs rules nHeight s tx
  let nSigOpsCost := s.nSigOpsCost + rules.sigOpCost tx s.view nHeight
  ensure (nSigOpsCost ≤ MAX_BLOCK_SIGOPS_COST) "bad-blk-sigops"
  whenever (!tx.isCoinBase) (rules.checkInputScripts tx s.view nHeight)
  let (txundo, view) ← updateCoins rules tx s.view nHeight
  return { view, nFees, nSigOpsCost, vtxundo := if i = 0 then s.vtxundo else s.vtxundo ++ [txundo] }

/-- What the coinbase outputs pay to the treasury script. -/
def treasuryPaid (params : Params) (vout : List CTxOut) : ℤ :=
  totalOut (vout.filter fun out => out.scriptPubKey = params.treasury_script_pub_key)

/-- The checks of `ConnectBlock` on the coinbase outputs: the amount, and from height one on the
treasury payment. -/
def checkCoinbase (params : Params) (nHeight : ℕ) (nFees : ℤ) (vout : List CTxOut) :
    Except String Unit := do
  let blockReward := nFees + getBlockSubsidy nHeight params
  let value_out ← getValueOut vout
  ensure (¬ value_out > blockReward) "bad-cb-amount"
  if nHeight > 0 ∧ params.treasury_script_pub_key ≠ [] then
    ensure (treasuryPaid params vout = treasuryShare nHeight params) "bad-cb-treasury"

/-- Up to this height blocks on the known chain cannot repeat a coinbase. -/
def BIP34_IMPLIES_BIP30_LIMIT : ℕ := 1983702

/-- Whether `ConnectBlock` runs the BIP30 check on a block. -/
def enforceBIP30 (pindex : IndexEntry Hash) : Bool :=
  (¬ rules.isBIP30Repeat pindex.nHeight pindex.hash ∧
    pindex.bip34Ancestor ≠ some rules.BIP34Hash) ∨ pindex.nHeight ≥ BIP34_IMPLIES_BIP30_LIMIT

/-- The BIP30 check: no output of the block's transactions is unspent in the view. -/
def noOverwrite (view : CoinsMap Hash) (block : CBlock Hash) : Bool :=
  block.vtx.all fun tx => (List.range tx.vout.length).all fun o =>
    ¬ view.haveCoin ⟨rules.txid tx, o⟩

/-- The part of `ConnectBlock` past the special case of the genesis block. -/
def connectTransactions (block : CBlock Hash) (pindex : IndexEntry Hash) (view : CoinsMap Hash) :
    Except String (ConnectState Hash) := do
  ensure pindex.pprev.isSome "pindex->pprev"
  whenever (enforceBIP30 rules pindex) (ensure (noOverwrite rules view block) "bad-txns-BIP30")
  let s ← block.vtx.zipIdx.foldlM (connectTx rules pindex.nHeight)
    { view, nFees := 0, nSigOpsCost := 0, vtxundo := [] }
  checkCoinbase rules.params pindex.nHeight s.nFees
    ((block.vtx.head?.map CTransaction.vout).getD [])
  return s

/-- `Chainstate::ConnectBlock`.  With `fJustCheck` nothing is recorded. -/
def connectBlock (block : CBlock Hash) (pindex : IndexEntry Hash) (fJustCheck : Bool)
    (view : CoinsView Hash) : Except String (CoinsView Hash × CBlockUndo) := do
  ensure (pindex.hash = rules.ofBlock block) "*pindex->phashBlock == block_hash"
  checkBlock rules block (!fJustCheck) (!fJustCheck)
  ensure (pindex.pprev.getD 0 = view.hashBlock) "hashPrevBlock == view.GetBestBlock()"
  let hashBlock := if fJustCheck then view.hashBlock else pindex.hash
  if pindex.hash = rules.hashGenesisBlock then return ({ view with hashBlock }, [])
  else
    let s ← connectTransactions rules block pindex view.coins
    return ({ coins := s.view, hashBlock }, s.vtxundo)

/-! ## `DisconnectBlock` -/

/-- `DisconnectResult`, apart from the failure. -/
inductive DisconnectResult
  | DISCONNECT_OK
  | DISCONNECT_UNCLEAN
  deriving DecidableEq

/-- The most outputs a block has room for. -/
def MAX_OUTPUTS_PER_BLOCK : ℕ := MAX_BLOCK_WEIGHT / (WITNESS_SCALE_FACTOR * 9)

/-- `AccessByTxid`: the first unspent output of a transaction. -/
def accessByTxid (view : CoinsMap Hash) (txid : Hash) : Coin :=
  ((List.range MAX_OUTPUTS_PER_BLOCK).findSome? fun n => view.coin ⟨txid, n⟩).getD .empty

/-- The undo coin with height and kind filled in, where an old record lacks them. -/
def completeUndo (undo : Coin) (view : CoinsMap Hash) (out : COutPoint Hash) :
    Except String Coin :=
  if undo.nHeight = 0 then
    let alternate := accessByTxid view out.hash
    if ¬ alternate.isSpent then
      .ok { undo with nHeight := alternate.nHeight, fCoinBase := alternate.fCoinBase }
    else .error "adding output for transaction without known metadata"
  else .ok undo

/-- `ApplyTxInUndo`, on the cleanliness so far and the view. -/
def applyTxInUndo (s : Bool × CoinsMap Hash) (p : CTxIn Hash × Coin) :
    Except String (Bool × CoinsMap Hash) := do
  let out := p.1.prevout
  let undo ← completeUndo p.2 s.2 out
  let view ← s.2.addCoin out undo
  return (s.1 && !s.2.haveCoin out, view)

/-- One output of the loop that removes a transaction's outputs.  A missing or different coin
makes the result unclean, unless the block is one of the two exceptions. -/
def removeOutput (txid : Hash) (nHeight : ℕ) (is_coinbase is_bip30_exception : Bool)
    (s : Bool × CoinsMap Hash) (p : CTxOut × ℕ) : Bool × CoinsMap Hash :=
  if CScript.isUnspendable p.1.scriptPubKey then s
  else
    match s.2.spendCoin ⟨txid, p.2⟩ with
    | some (coin, view) =>
      (s.1 && (is_bip30_exception ||
        (p.1 = coin.out && nHeight = coin.nHeight && is_coinbase = coin.fCoinBase)), view)
    | none => (s.1 && is_bip30_exception, s.2)

/-- One pass of the transaction loop of `DisconnectBlock`: the outputs go, the inputs come back,
last one first.  The first transaction has no undo record. -/
def disconnectTx (pindex : IndexEntry Hash) (s : Bool × CoinsMap Hash)
    (p : CTransaction Hash × Option CTxUndo) : Except String (Bool × CoinsMap Hash) :=
  let tx := p.1
  let is_bip30_exception :=
    tx.isCoinBase && rules.isBIP30Unspendable pindex.nHeight pindex.hash
  let s := tx.vout.zipIdx.foldl
    (removeOutput (rules.txid tx) pindex.nHeight tx.isCoinBase is_bip30_exception) s
  match p.2 with
  | none => .ok s
  | some txundo =>
    if txundo.length ≠ tx.vin.length then
      .error "DisconnectBlock(): transaction and undo data inconsistent"
    else (tx.vin.zip txundo).reverse.foldlM applyTxInUndo s

/-- `Chainstate::DisconnectBlock`, with the undo data read for the block. -/
def disconnectBlock (block : CBlock Hash) (pindex : IndexEntry Hash) (blockUndo : CBlockUndo)
    (view : CoinsView Hash) :
    Except String (DisconnectResult × CoinsView Hash) := do
  ensure (blockUndo.length + 1 = block.vtx.length)
    "DisconnectBlock(): block and undo data inconsistent"
  let (fClean, coins) ← (block.vtx.zip (none :: blockUndo.map some)).reverse.foldlM
    (disconnectTx rules pindex) (true, view.coins)
  match pindex.pprev with
  | none => throw "pindex->pprev"
  | some hashBlock =>
    return (if fClean then .DISCONNECT_OK else .DISCONNECT_UNCLEAN, { coins, hashBlock })

/-! ## What the coinbase checks read -/

variable {vout : List CTxOut} {params : Params}

lemma checkCoinbase_eq_ok {nHeight : ℕ} {nFees : ℤ} :
    checkCoinbase params nHeight nFees vout = .ok () ↔
      (∀ out ∈ vout, 0 ≤ out.nValue) ∧ totalOut vout ≤ MAX_MONEY ∧
      totalOut vout ≤ nFees + getBlockSubsidy nHeight params ∧
      (0 < nHeight → params.treasury_script_pub_key ≠ [] →
        treasuryPaid params vout = treasuryShare nHeight params) := by
  simp only [checkCoinbase, bind_eq_ok, ensure_eq_ok, getValueOut_eq_ok]
  constructor
  · rintro ⟨s, ⟨hnonneg, hmax, rfl⟩, -, hle, htreasury⟩
    refine ⟨hnonneg, hmax, by omega, fun hpos hscript => ?_⟩
    rwa [if_pos ⟨hpos, hscript⟩, ensure_eq_ok] at htreasury
  · rintro ⟨hnonneg, hmax, hle, htreasury⟩
    refine ⟨_, ⟨hnonneg, hmax, rfl⟩, (), by omega, ?_⟩
    split
    · next h => exact ensure_eq_ok.2 (htreasury h.1 h.2)
    · rfl

@[simp] lemma treasuryPaid_nil (params : Params) : treasuryPaid params [] = 0 := rfl

lemma treasuryPaid_cons (params : Params) (out : CTxOut) (vout : List CTxOut) :
    treasuryPaid params (out :: vout) =
      (if out.scriptPubKey = params.treasury_script_pub_key then out.nValue else 0) +
        treasuryPaid params vout := by
  rw [treasuryPaid, List.filter_cons]
  split <;> simp_all [treasuryPaid]

lemma treasuryPaid_singleton (params : Params) (out : CTxOut) : treasuryPaid params [out] =
    if out.scriptPubKey = params.treasury_script_pub_key then out.nValue else 0 := by
  rw [treasuryPaid_cons, treasuryPaid_nil, add_zero]

lemma treasuryPaid_append (params : Params) (v w : List CTxOut) :
    treasuryPaid params (v ++ w) = treasuryPaid params v + treasuryPaid params w := by
  rw [treasuryPaid, List.filter_append, totalOut_append, treasuryPaid, treasuryPaid]

lemma treasuryPaid_eq_zero (h : ∀ out ∈ vout, out.scriptPubKey ≠ params.treasury_script_pub_key) :
    treasuryPaid params vout = 0 := by
  rw [treasuryPaid, List.filter_eq_nil_iff.2 (by simpa using h), totalOut_nil]

lemma treasuryPaid_nonneg (h : ∀ out ∈ vout, 0 ≤ out.nValue) : 0 ≤ treasuryPaid params vout :=
  totalOut_nonneg fun out hout => h out (List.mem_of_mem_filter hout)

lemma treasuryPaid_map_cons (params : Params) {α : Type} {f : α → CTxOut} {a : α} {l : List α}
    (h : ∀ x ∈ a :: l, 0 ≤ (f x).nValue) :
    treasuryPaid params ((a :: l).map f) =
        treasuryPaid params [f a] + treasuryPaid params (l.map f) ∧
      0 ≤ treasuryPaid params [f a] ∧ 0 ≤ treasuryPaid params (l.map f) := by
  obtain ⟨hfirst, hrest⟩ := List.forall_mem_cons.1 h
  exact ⟨treasuryPaid_append params [f a] (l.map f), treasuryPaid_nonneg (by simpa using hfirst),
    treasuryPaid_nonneg (by simpa using hrest)⟩

/-! ## What a pass of the loops did -/

section Inputs

variable {Hash : Type} [DecidableEq Hash] {vin : List (CTxIn Hash)} {m m' : CoinsMap Hash}
  {u u' : CTxUndo} {txin : CTxIn Hash}

lemma spendInput_eq_ok {s t : CTxUndo × CoinsMap Hash} (h : spendInput s txin = .ok t) :
    ∃ c, s.2.coin txin.prevout = some c ∧ t = (s.1 ++ [c], s.2.erase txin.prevout) := by
  rw [spendInput] at h
  split at h
  · next c view hspend =>
    obtain ⟨hc, rfl⟩ := CoinsMap.spendCoin_eq_some.1 hspend
    exact ⟨c, hc, (Except.ok.inj h).symm⟩
  · cases h

lemma spendInputs_cons (hrun : (txin :: vin).foldlM spendInput (u, m) = .ok (u', m')) :
    ∃ c, m.coin txin.prevout = some c ∧
      vin.foldlM spendInput (u ++ [c], m.erase txin.prevout) = .ok (u', m') := by
  obtain ⟨t, hfirst, hrest⟩ := foldlM_cons_eq_ok.1 hrun
  obtain ⟨c, hc, rfl⟩ := spendInput_eq_ok hfirst
  exact ⟨c, hc, hrest⟩

/-- **The input loop of `UpdateCoins`**: what holds of the inputs so far, their undo record and the
view holds of all of them, if taking one more coin of the first view keeps it. -/
lemma spendInputs_invariant {P : List (CTxIn Hash) → CTxUndo → CoinsMap Hash → Prop}
    (hrun : vin.foldlM spendInput ([], m) = .ok (u, m')) (hstart : P [] [] m)
    (hstep : ∀ pre txin undo view c, undo.length = pre.length →
      (∀ o c, view.coin o = some c → m.coin o = some c) → view.coin txin.prevout = some c →
      P pre undo view → P (pre ++ [txin]) (undo ++ [c]) (view.erase txin.prevout)) :
    u.length = vin.length ∧ P vin u m' := by
  have hinv := foldlM_invariant (fun pre (s : CTxUndo × CoinsMap Hash) =>
    s.1.length = pre.length ∧ (∀ o c, s.2.coin o = some c → m.coin o = some c) ∧ P pre s.1 s.2)
    hrun ⟨rfl, fun _ _ h => h, hstart⟩ ?_
  · exact ⟨hinv.1, hinv.2.2⟩
  rintro pre txin s t - ⟨hlen, hsub, hpre⟩ hpass
  obtain ⟨c, hc, rfl⟩ := spendInput_eq_ok hpass
  refine ⟨by simp [hlen], fun o c' ho => ?_, hstep pre txin s.1 s.2 c hlen hsub hc hpre⟩
  by_cases heq : o = txin.prevout
  · rw [heq, CoinsMap.erase_coin_self] at ho
    cases ho
  · rw [CoinsMap.erase_coin_of_ne _ heq] at ho
    exact hsub o c' ho

end Inputs

section Loop

variable {Hash : Type} [DecidableEq Hash] [Zero Hash] {rules : ConsensusRules Hash}
  {nHeight i : ℕ} {s s' : ConnectState Hash} {tx : CTransaction Hash}
  (hpass : connectTx rules nHeight s (tx, i) = .ok s')

include hpass

lemma connectTx_of_coinbase (hcoinbase : tx.isCoinBase) :
    s'.vtxundo = (if i = 0 then s.vtxundo else s.vtxundo ++ [[]]) ∧ s'.nFees = s.nFees ∧
      addCoins (rules.txid tx) tx nHeight s.view = .ok s'.view := by
  simp only [connectTx, updateCoins, hcoinbase, if_true, bind_eq_ok, pure_eq_ok] at hpass
  obtain ⟨nFees, rfl, _, -, _, -, ⟨undo, view⟩, ⟨_, rfl, m, hadd, heq⟩, rfl⟩ := hpass
  cases heq
  exact ⟨rfl, rfl, hadd⟩

lemma connectTx_of_spending (hcoinbase : ¬ tx.isCoinBase) :
    ∃ fee u m, s'.vtxundo = (if i = 0 then s.vtxundo else s.vtxundo ++ [u]) ∧
      checkTxInputs tx s.view nHeight = .ok fee ∧ s'.nFees = s.nFees + fee ∧
      tx.vin.foldlM spendInput ([], s.view) = .ok (u, m) ∧
      addCoins (rules.txid tx) tx nHeight m = .ok s'.view := by
  simp only [connectTx, updateCoins, hcoinbase, Bool.false_eq_true, if_false, bind_eq_ok,
    pure_eq_ok] at hpass
  obtain ⟨nFees, hfees, _, -, _, -, ⟨undo, view⟩, ⟨⟨u, m⟩, hspend, m', hadd, heq⟩, rfl⟩ := hpass
  cases heq
  simp only [connectInputs, bind_eq_ok, pure_eq_ok] at hfees
  obtain ⟨fee, hfee, _, -, _, -, rfl⟩ := hfees
  exact ⟨fee, u, m, rfl, hfee, rfl, hspend, hadd⟩

end Loop

/-! ## Rules for concrete runs -/

/-- Rules with numbers for hashes under which every check that is not modelled passes: a
transaction is named by its lock time, a block by its time, and the genesis block by `1`. -/
def lenientRules (params : Params) : ConsensusRules ℕ where
  txid tx := tx.nLockTime.toNat + 1
  blockHash header := header.nTime.toNat + 1
  txSize _ := 0
  blockSize _ := 0
  headerChecks _ := .ok ()
  checkMerkleRoot _ := .ok ()
  legacySigOpCount _ := 0
  sigOpCost _ _ _ := 0
  sequenceLocks _ _ _ := true
  checkInputScripts _ _ _ := .ok ()
  params
  hashGenesisBlock := 1
  BIP34Hash := 0
  isBIP30Repeat _ _ := false
  isBIP30Unspendable _ _ := false

/-- The coinbase at a height of the main network: it claims the subsidy of the first era and the
fees, and pays the treasury. -/
def rewardTx (height : ℕ) (nFees : ℤ) : CTransaction ℕ where
  version := 2
  vin := [⟨.null, [0x51, UInt8.ofNat height], 0xffffffff, []⟩]
  vout := [⟨900000000 + nFees, [0x51]⟩, ⟨100000000, mainParams.treasury_script_pub_key⟩]
  nLockTime := UInt32.ofNat (height - 1)

/-- The first coinbase is spent, with change for the treasury, and what it pays out is spent again
in the same block. -/
def treasurySpend : List (CTransaction ℕ) :=
  [{ version := 2
     vin := [⟨⟨1, 0⟩, [], 0xffffffff, []⟩, ⟨⟨1, 1⟩, [], 0xffffffff, []⟩]
     vout := [⟨960000000, [0x51]⟩, ⟨30000000, mainParams.treasury_script_pub_key⟩]
     nLockTime := 1000 },
   { version := 2
     vin := [⟨⟨1001, 0⟩, [], 0xffffffff, []⟩]
     vout := [⟨950000000, [0x52]⟩]
     nLockTime := 1001 }]

/-- A chain of blocks with nothing but a coinbase, up to the height where the first coinbase may be
spent. -/
def chainBlock (height : ℕ) : CBlock ℕ where
  nVersion := 0x20000000
  hashPrevBlock := height
  hashMerkleRoot := 0
  nTime := UInt32.ofNat height
  nBits := 0x1e3fffff
  nNonce := 0
  vtx := if height = 101 then rewardTx 101 20000000 :: treasurySpend else [rewardTx height 0]

/-- The index entry at a height. -/
def chainIndex (height : ℕ) : IndexEntry ℕ where
  hash := height + 1
  pprev := some height
  nHeight := height
  bip34Ancestor := none

/-- Another block at height `101`. -/
def forkBlock : CBlock ℕ := { chainBlock 101 with nTime := 102, vtx := [rewardTx 101 0] }

def forkIndex : IndexEntry ℕ := { chainIndex 101 with hash := 103 }

/-- The coins after the block at a height, and its undo data. -/
def chainState : ℕ → Except String (CoinsView ℕ × CBlockUndo)
  | 0 => .ok (⟨.empty, 1⟩, [])
  | k + 1 => do
    let (view, _) ← chainState k
    connectBlock (lenientRules mainParams) (chainBlock (k + 1)) (chainIndex (k + 1)) false view

/-- The last block is replaced by the other one. -/
def forkState : Except String (CoinsView ℕ × CBlockUndo) := do
  let (view, undo) ← chainState 101
  let (_, view) ← disconnectBlock (lenientRules mainParams) (chainBlock 101)
    (chainIndex 101) undo view
  connectBlock (lenientRules mainParams) forkBlock forkIndex false view

lemma forkState_isOk : forkState.isOk = true := by decide +kernel

lemma chainState_succ {k : ℕ} {p : CoinsView ℕ × CBlockUndo} :
    chainState (k + 1) = .ok p ↔ ∃ q, chainState k = .ok q ∧
      connectBlock (lenientRules mainParams) (chainBlock (k + 1)) (chainIndex (k + 1)) false q.1 =
        .ok p := by
  rw [chainState, bind_eq_ok]

lemma exists_chainState {k : ℕ} (h : k ≤ 101) : ∃ p, chainState k = .ok p := by
  induction h using Nat.decreasingInduction with
  | self =>
    obtain ⟨r, hr⟩ := exists_of_isOk forkState_isOk
    rw [forkState, bind_eq_ok] at hr
    exact hr.imp fun _ => And.left
  | of_succ k _ ih =>
    obtain ⟨q, hq⟩ := ih
    exact (chainState_succ.1 hq).imp fun _ => And.left

lemma chainBlock_distinct (height : ℕ) :
    (lenientRules mainParams).DistinctTxids (chainBlock height).vtx := by
  unfold chainBlock
  dsimp only
  split
  · unfold Hashing.DistinctTxids
    decide
  · intro tx htx tx' htx' _
    rw [List.mem_singleton.1 htx, List.mem_singleton.1 htx']

end SlithyTove
