import SlithyTove.Coins.CoinsMap

/-!
# Transaction checks

`CheckTransaction` looks at a transaction alone, `Consensus::CheckTxInputs` at a transaction and
the coins it spends.  Each stops at its first failed check with the reject reason of the source.

`Externals` collects the functions these checks and block validation call and that stay
uninterpreted here: hashes, serialised sizes, signature-operation counts, scripts, sequence
locks and proof of work.  They can only reject a block, never change a coin.
-/

namespace SlithyTove

open Framework

def MAX_BLOCK_WEIGHT : ℕ := 4000000

def MAX_BLOCK_SIGOPS_COST : ℕ := 80000

def COINBASE_MATURITY : ℤ := 100

def WITNESS_SCALE_FACTOR : ℕ := 4

/-- The functions validation calls that are not modelled. -/
structure Externals (Hash : Type) extends Hashing Hash where
  /-- `GetSerializeSize(TX_NO_WITNESS(tx))`. -/
  txSize : CTransaction Hash → ℕ
  /-- `GetSerializeSize(TX_NO_WITNESS(block))`. -/
  blockSize : CBlock Hash → ℕ
  /-- `CheckProofOfWork` of the header and, on a signet, the block solution. -/
  headerChecks : CBlock Hash → Except String Unit
  /-- `CheckMerkleRoot`. -/
  checkMerkleRoot : CBlock Hash → Except String Unit
  /-- `GetLegacySigOpCount`. -/
  legacySigOpCount : CTransaction Hash → ℕ
  /-- `GetTransactionSigOpCost` under the block's script flags. -/
  sigOpCost : CTransaction Hash → CoinsMap Hash → ℕ → ℕ
  /-- `SequenceLocks`, from the heights of the spent coins and of the block. -/
  sequenceLocks : CTransaction Hash → List ℕ → ℕ → Bool
  /-- `CheckInputScripts` under the block's script flags. -/
  checkInputScripts : CTransaction Hash → CoinsMap Hash → ℕ → Except String Unit

variable {Hash : Type} [DecidableEq Hash] [Zero Hash]

/-! ## `CheckTransaction` -/

/-- One pass of the output loop of `CheckTransaction`. -/
def checkOutput (nValueOut : ℤ) (txout : CTxOut) : Except String ℤ := do
  ensure (¬ txout.nValue < 0) "bad-txns-vout-negative"
  ensure (¬ txout.nValue > MAX_MONEY) "bad-txns-vout-toolarge"
  ensure (MoneyRange (nValueOut + txout.nValue)) "bad-txns-txouttotal-toolarge"
  return nValueOut + txout.nValue

/-- `CheckTransaction`. -/
def checkTransaction (ext : Externals Hash) (tx : CTransaction Hash) : Except String Unit := do
  ensure (tx.vin ≠ []) "bad-txns-vin-empty"
  ensure (tx.vout ≠ []) "bad-txns-vout-empty"
  ensure (ext.txSize tx * WITNESS_SCALE_FACTOR ≤ MAX_BLOCK_WEIGHT) "bad-txns-oversize"
  let _ ← tx.vout.foldlM checkOutput 0
  ensure (tx.vin.map CTxIn.prevout).Nodup "bad-txns-inputs-duplicate"
  if tx.isCoinBase then
    ensure (∀ txin ∈ tx.vin.head?, 2 ≤ txin.scriptSig.length ∧ txin.scriptSig.length ≤ 100)
      "bad-cb-length"
  else
    ensure (∀ txin ∈ tx.vin, txin.prevout ≠ .null) "bad-txns-prevout-null"

/-- What a transaction that passed `CheckTransaction` satisfies, as far as coins go. -/
structure CheckedTx (tx : CTransaction Hash) : Prop where
  vin_ne_nil : tx.vin ≠ []
  out_nonneg : ∀ txout ∈ tx.vout, 0 ≤ txout.nValue
  total_le : totalOut tx.vout ≤ MAX_MONEY
  inputs_nodup : (tx.vin.map CTxIn.prevout).Nodup

omit [DecidableEq Hash] [Zero Hash] in
lemma checkOutput_eq_ok {n m : ℤ} {txout : CTxOut} :
    checkOutput n txout = .ok m ↔ valueOutStep n txout = .ok m := by
  rw [valueOutStep_eq_ok]
  simp only [checkOutput, bind_eq_ok, ensure_eq_ok, pure_eq_ok]
  constructor
  · rintro ⟨-, h1, -, h2, -, h3, rfl⟩
    exact ⟨⟨by omega, by omega⟩, h3, rfl⟩
  · rintro ⟨⟨h1, h2⟩, h3, rfl⟩
    exact ⟨(), by omega, (), by omega, (), h3, rfl⟩

/-- The output loop of `CheckTransaction` accepts what `GetValueOut` accepts. -/
lemma foldlM_checkOutput_eq_ok {vout : List CTxOut} {n s : ℤ} :
    vout.foldlM checkOutput n = .ok s ↔ vout.foldlM valueOutStep n = .ok s := by
  induction vout generalizing n with
  | nil => rfl
  | cons o vout ih => simp only [foldlM_cons_eq_ok, checkOutput_eq_ok, ih]

variable {tx : CTransaction Hash}

lemma CheckedTx.of_checkTransaction {ext : Externals Hash}
    (h : checkTransaction ext tx = .ok ()) : CheckedTx tx := by
  simp only [checkTransaction, bind_eq_ok, ensure_eq_ok] at h
  obtain ⟨-, hvin, -, -, -, -, s, hout, -, hdup, -⟩ := h
  rw [foldlM_checkOutput_eq_ok] at hout
  obtain ⟨hnonneg, hle, -⟩ := getValueOut_eq_ok.1 hout
  exact ⟨hvin, hnonneg, hle, hdup⟩

/-! ## `CheckTxInputs` -/

/-- One pass of the input loop of `CheckTxInputs`. -/
def checkInput (inputs : CoinsMap Hash) (nSpendHeight : ℕ) (nValueIn : ℤ) (txin : CTxIn Hash) :
    Except String ℤ := do
  let coin := inputs.accessCoin txin.prevout
  ensure (¬ coin.isSpent) "!coin.IsSpent()"
  ensure (¬ (coin.fCoinBase ∧ (nSpendHeight : ℤ) - coin.nHeight < COINBASE_MATURITY))
    "bad-txns-premature-spend-of-coinbase"
  ensure (MoneyRange coin.out.nValue ∧ MoneyRange (nValueIn + coin.out.nValue))
    "bad-txns-inputvalues-outofrange"
  return nValueIn + coin.out.nValue

/-- `Consensus::CheckTxInputs`, returning the fee. -/
def checkTxInputs (tx : CTransaction Hash) (inputs : CoinsMap Hash) (nSpendHeight : ℕ) :
    Except String ℤ := do
  ensure (inputs.haveInputs tx) "bad-txns-inputs-missingorspent"
  let nValueIn ← tx.vin.foldlM (checkInput inputs nSpendHeight) 0
  let value_out ← getValueOut tx.vout
  ensure (¬ nValueIn < value_out) "bad-txns-in-belowout"
  ensure (MoneyRange (nValueIn - value_out)) "bad-txns-fee-outofrange"
  return nValueIn - value_out

/-- The sum of the values of the coins a transaction spends. -/
def totalIn (inputs : CoinsMap Hash) (tx : CTransaction Hash) : ℤ :=
  (tx.vin.map fun txin => inputs.value txin.prevout).sum

variable {o : COutPoint Hash} {m : CoinsMap Hash}

omit [DecidableEq Hash] [Zero Hash] in
lemma CoinsMap.accessCoin_of_some {c : Coin} (h : m.coin o = some c) : m.accessCoin o = c := by
  rw [CoinsMap.accessCoin, h, Option.getD_some]

omit [DecidableEq Hash] [Zero Hash] in
lemma CoinsMap.exists_coin_of_not_spent
    (h : ¬ (m.accessCoin o).isSpent) : ∃ c, m.coin o = some c := by
  cases hc : m.coin o with
  | none =>
    rw [CoinsMap.accessCoin, hc] at h
    exact absurd rfl h
  | some c => exact ⟨c, rfl⟩

/-- What `CheckTxInputs` established about a transaction and the coins it spends. -/
structure CheckedInputs (inputs : CoinsMap Hash) (tx : CTransaction Hash) (fee : ℤ) : Prop where
  available : ∀ txin ∈ tx.vin, ∃ c, inputs.coin txin.prevout = some c
  fee_eq : fee = totalIn inputs tx - totalOut tx.vout
  fee_nonneg : 0 ≤ fee

variable {inputs : CoinsMap Hash} {nSpendHeight : ℕ}

omit [DecidableEq Hash] [Zero Hash] in
/-- The input loop: every coin is there, and their values are summed. -/
lemma foldlM_checkInput {vin : List (CTxIn Hash)}
    {n s : ℤ} (h : vin.foldlM (checkInput inputs nSpendHeight) n = .ok s) :
    (∀ txin ∈ vin, ∃ c, inputs.coin txin.prevout = some c) ∧
      s = n + (vin.map fun txin => inputs.value txin.prevout).sum := by
  refine foldlM_invariant (fun pre t => (∀ txin ∈ pre, ∃ c, inputs.coin txin.prevout = some c) ∧
    t = n + (pre.map fun txin => inputs.value txin.prevout).sum) h ⟨by simp, by simp⟩ ?_
  rintro pre txin t t' - ⟨hpre, rfl⟩ hpass
  simp only [checkInput, bind_eq_ok, ensure_eq_ok, pure_eq_ok] at hpass
  obtain ⟨-, hspent, -, -, -, -, rfl⟩ := hpass
  obtain ⟨c, hc⟩ := CoinsMap.exists_coin_of_not_spent hspent
  refine ⟨?_, ?_⟩
  · exact List.forall_mem_append.2 ⟨hpre, List.forall_mem_singleton.2 ⟨c, hc⟩⟩
  · rw [CoinsMap.accessCoin_of_some hc, List.map_append, List.sum_append]
    simp [CoinsMap.value, hc, add_assoc]

lemma CheckedInputs.of_checkTxInputs {fee : ℤ}
    (h : checkTxInputs tx inputs nSpendHeight = .ok fee) :
    CheckedInputs inputs tx fee := by
  simp only [checkTxInputs, bind_eq_ok, ensure_eq_ok, pure_eq_ok] at h
  obtain ⟨-, -, nValueIn, hin, value_out, hout, -, -, -, hfee, rfl⟩ := h
  obtain ⟨havail, rfl⟩ := foldlM_checkInput hin
  obtain ⟨-, -, rfl⟩ := getValueOut_eq_ok.1 hout
  rw [zero_add] at hfee ⊢
  exact ⟨havail, rfl, hfee.1⟩

end SlithyTove
