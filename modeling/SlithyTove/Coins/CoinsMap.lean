import SlithyTove.Consensus.Amount

/-!
# Coins and the map of unspent outputs

`Coin` is an unspent output with the height and kind of the transaction that created it; a coin
whose output is null stands for "spent".  The unspent outputs themselves are a `CoinsMap`: a
partial function from outpoints to coins that is defined at finitely many outpoints and never
holds a spent coin or an output nobody can spend.  `AddCoin` maintains the latter by dropping
such outputs.

Block validation reads and writes a coins view only through `HaveCoin`, `AccessCoin`, `AddCoin`
and `SpendCoin`; on a `CoinsMap` these are lookup, update and removal.  That the layered caches
the node keeps behave like such a map is the subject of `Coins/Cache.lean`.
-/

namespace SlithyTove

open Framework Function

/-! ## Coins -/

/-- The opcode `OP_RETURN`. -/
def OP_RETURN : UInt8 := 0x6a

/-- The longest script that can be executed. -/
def MAX_SCRIPT_SIZE : ℕ := 10000

/-- `CScript::IsUnspendable`. -/
def CScript.isUnspendable (script : CScript) : Bool :=
  script.head? = some OP_RETURN ∨ script.length > MAX_SCRIPT_SIZE

/-- `CTxOut::IsNull`. -/
def CTxOut.isNull (out : CTxOut) : Bool := out.nValue = -1

/-- `Coin`. -/
structure Coin where
  out : CTxOut
  nHeight : ℕ
  fCoinBase : Bool
  deriving DecidableEq

namespace Coin

/-- The default coin, also what `Clear` leaves: a null output at height zero. -/
def empty : Coin := ⟨⟨-1, []⟩, 0, false⟩

/-- `IsSpent`. -/
def isSpent (coin : Coin) : Bool := coin.out.isNull

/-- An output a later transaction may still spend: neither spent nor provably unspendable. -/
structure Spendable (coin : Coin) : Prop where
  notSpent : coin.isSpent = false
  notUnspendable : CScript.isUnspendable coin.out.scriptPubKey = false

end Coin

/-! ## The map -/

/-- The unspent outputs: finitely many, each of them spendable. -/
@[ext]
structure CoinsMap (Hash : Type) where
  coin : COutPoint Hash → Option Coin
  spendable : ∀ o c, coin o = some c → c.Spendable
  finite : {o | coin o ≠ none}.Finite

namespace CoinsMap

variable {Hash : Type}

/-- No unspent output. -/
def empty : CoinsMap Hash where
  coin _ := none
  spendable := by simp
  finite := by simp

@[simp] lemma empty_coin (o : COutPoint Hash) : (empty : CoinsMap Hash).coin o = none := rfl

variable (m : CoinsMap Hash)

/-- `HaveCoin`. -/
def haveCoin (outpoint : COutPoint Hash) : Bool := (m.coin outpoint).isSome

/-- `AccessCoin`: the coin, or the empty one. -/
def accessCoin (outpoint : COutPoint Hash) : Coin :=
  (m.coin outpoint).getD .empty

/-- The value of the coin at an outpoint, zero if there is none. -/
def value (outpoint : COutPoint Hash) : ℤ :=
  ((m.coin outpoint).map fun c => c.out.nValue).getD 0

/-- The sum of the values of all coins. -/
noncomputable def total : ℤ := ∑ o ∈ m.finite.toFinset, m.value o

/-- `CCoinsViewCache::HaveInputs`. -/
def haveInputs [DecidableEq Hash] [Zero Hash] (tx : CTransaction Hash) : Bool :=
  tx.isCoinBase ∨ ∀ txin ∈ tx.vin, m.haveCoin txin.prevout

variable [DecidableEq Hash]

/-- The map with a coin put at an outpoint, over whatever was there. -/
def insert (m : CoinsMap Hash) (outpoint : COutPoint Hash) (c : Coin) (h : c.Spendable) :
    CoinsMap Hash where
  coin := Function.update m.coin outpoint (some c)
  spendable o c' hc := by
    by_cases ho : o = outpoint
    · rw [ho, update_self, Option.some.injEq] at hc
      exact hc ▸ h
    · rw [update_of_ne ho] at hc
      exact m.spendable o c' hc
  finite := (m.finite.insert outpoint).subset fun o ho => by
    by_cases heq : o = outpoint
    · exact .inl heq
    · rw [Set.mem_ofPred_eq, update_of_ne heq] at ho
      exact .inr ho

/-- The map without an outpoint. -/
def erase (outpoint : COutPoint Hash) : CoinsMap Hash where
  coin := Function.update m.coin outpoint none
  spendable o c hc := by
    by_cases ho : o = outpoint
    · rw [ho, update_self] at hc
      cases hc
    · rw [update_of_ne ho] at hc
      exact m.spendable o c hc
  finite := m.finite.subset fun o ho => by
    by_cases heq : o = outpoint
    · rw [Set.mem_ofPred_eq, heq, update_self] at ho
      exact absurd rfl ho
    · rwa [Set.mem_ofPred_eq, update_of_ne heq] at ho

@[simp] lemma insert_coin_self (o : COutPoint Hash) (c : Coin) (h : c.Spendable) :
    (m.insert o c h).coin o = some c := update_self ..

variable {o o' : COutPoint Hash}

lemma insert_coin_of_ne (c : Coin) (h : c.Spendable) (hne : o' ≠ o) :
    (m.insert o c h).coin o' = m.coin o' := update_of_ne hne ..

@[simp] lemma erase_coin_self (o : COutPoint Hash) :
    (m.erase o).coin o = none := update_self ..

lemma erase_coin_of_ne (hne : o' ≠ o) :
    (m.erase o).coin o' = m.coin o' := update_of_ne hne ..

/-- `AddCoin`.  An unspendable output is dropped.  The `possible_overwrite` argument of the source
only guards against overwriting a coin by mistake; here the new coin is put in either way. -/
def addCoin (outpoint : COutPoint Hash) (c : Coin) : Except String (CoinsMap Hash) :=
  if hs : c.isSpent then .error "!coin.IsSpent()"
  else if hu : CScript.isUnspendable c.out.scriptPubKey then .ok m
  else .ok (m.insert outpoint c ⟨by simpa using hs, by simpa using hu⟩)

/-- `SpendCoin`: the removed coin and the rest; nothing if there is no coin. -/
def spendCoin (outpoint : COutPoint Hash) : Option (Coin × CoinsMap Hash) :=
  (m.coin outpoint).map fun c => (c, m.erase outpoint)

variable {c : Coin}

lemma addCoin_of_unspendable (o : COutPoint Hash) (hs : c.isSpent = false)
    (hu : CScript.isUnspendable c.out.scriptPubKey = true) : m.addCoin o c = .ok m := by
  simp [addCoin, hs, hu]

lemma addCoin_of_spendable (o : COutPoint Hash) (h : c.Spendable) :
    m.addCoin o c = .ok (m.insert o c h) := by
  simp [addCoin, h.notSpent, h.notUnspendable]

/-- Where `AddCoin` succeeds it drops an unspendable output and puts in any other. -/
lemma addCoin_cases {m m' : CoinsMap Hash} (h : m.addCoin o c = .ok m') :
    c.isSpent = false ∧ ((CScript.isUnspendable c.out.scriptPubKey = true ∧ m' = m) ∨
      ∃ hc : c.Spendable, m' = m.insert o c hc) := by
  cases hs : c.isSpent with
  | true => simp [addCoin, hs] at h
  | false =>
    refine ⟨rfl, ?_⟩
    cases hu : CScript.isUnspendable c.out.scriptPubKey with
    | true =>
      rw [m.addCoin_of_unspendable o hs hu] at h
      exact .inl ⟨rfl, (Except.ok.inj h).symm⟩
    | false =>
      rw [m.addCoin_of_spendable o ⟨hs, hu⟩] at h
      exact .inr ⟨⟨hs, hu⟩, (Except.ok.inj h).symm⟩

lemma spendCoin_eq_some {m m' : CoinsMap Hash} :
    m.spendCoin o = some (c, m') ↔ m.coin o = some c ∧ m' = m.erase o := by
  simp only [spendCoin, Option.map_eq_some_iff, Prod.mk.injEq]
  constructor
  · rintro ⟨c', hc, rfl, rfl⟩
    exact ⟨hc, rfl⟩
  · rintro ⟨hc, rfl⟩
    exact ⟨c, hc, rfl, rfl⟩

lemma insert_erase (hc : m.coin o = some c) : (m.erase o).insert o c (m.spendable o c hc) = m := by
  ext1
  funext o'
  by_cases ho : o' = o
  · rw [ho, insert_coin_self, hc]
  · rw [insert_coin_of_ne _ _ _ ho, erase_coin_of_ne _ ho]

lemma erase_insert (h : c.Spendable) (hnone : m.coin o = none) : (m.insert o c h).erase o = m := by
  ext1
  funext o'
  by_cases ho : o' = o
  · rw [ho, erase_coin_self, hnone]
  · rw [erase_coin_of_ne _ ho, insert_coin_of_ne _ _ _ ho]

lemma erase_insert_of_ne (h : c.Spendable) (hne : o ≠ o') :
    (m.insert o c h).erase o' = (m.erase o').insert o c h := by
  ext1
  exact update_comm hne _ _ _

end CoinsMap

end SlithyTove
