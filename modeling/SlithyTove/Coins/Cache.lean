import SlithyTove.Coins.CoinsMap

/-!
# The layered coins cache

A `CCoinsViewCache` keeps entries over another view, which may again be a cache, down to a base
map.  An entry is DIRTY when it may differ from the view below and FRESH when the view below has
no such coin; the flagged entries form a linked list that `BatchWrite` walks.  Looking a coin up
fills every layer it passes through.

The layers are a list, top first.  Only coins are modelled: the best-block hash and the memory
accounting next to them do not influence any coin.
-/

namespace SlithyTove

open Framework

/-! ## Entries and layers -/

/-- `CCoinsCacheEntry`. -/
structure CCoinsCacheEntry where
  coin : Coin
  dirty : Bool
  fresh : Bool
  deriving DecidableEq

/-- A map of coins, none of them spent: what the lowest layer rests on. -/
structure BaseView (Hash : Type) where
  coin : COutPoint Hash → Option Coin
  unspent : ∀ o c, coin o = some c → c.isSpent = false

/-- One `CCoinsViewCache`: the entries, the linked list of flagged ones and their count. -/
structure CCoinsViewCache (Hash : Type) where
  cacheCoins : COutPoint Hash → Option CCoinsCacheEntry
  flagged : List (COutPoint Hash)
  m_dirty_count : ℕ

/-- Cache layers, top first, over a base. -/
structure CacheStack (Hash : Type) where
  layers : List (CCoinsViewCache Hash)
  base : BaseView Hash

variable {Hash : Type} [DecidableEq Hash]

namespace CCoinsViewCache

/-- A new cache. -/
def empty : CCoinsViewCache Hash := ⟨fun _ => none, [], 0⟩

variable (c : CCoinsViewCache Hash)

/-- An entry is put in the map; its place in the linked list is not touched. -/
def setEntry (o : COutPoint Hash) (e : CCoinsCacheEntry) : CCoinsViewCache Hash :=
  { c with cacheCoins := Function.update c.cacheCoins o (some e) }

/-- `AddFlags`: an entry without flags goes to the end of the linked list. -/
def link (o : COutPoint Hash) : CCoinsViewCache Hash :=
  if o ∈ c.flagged then c else { c with flagged := c.flagged ++ [o] }

/-- `erase`: the entry's destructor takes it off the linked list. -/
def eraseEntry (o : COutPoint Hash) : CCoinsViewCache Hash :=
  { c with
    cacheCoins := Function.update c.cacheCoins o none
    flagged := c.flagged.filter fun x => x ≠ o }

/-- `TrySub` on the count, by one for a dirty entry. -/
def uncount (dirty : Bool) : CCoinsViewCache Hash :=
  { c with m_dirty_count := c.m_dirty_count - if dirty then 1 else 0 }

/-- A dirty entry is written, linked and counted. -/
def setDirtyEntry (o : COutPoint Hash) (coin : Coin) (fresh : Bool) : CCoinsViewCache Hash :=
  let c := (c.setEntry o ⟨coin, true, fresh⟩).link o
  { c with m_dirty_count := c.m_dirty_count + 1 }

section Fields

variable (c : CCoinsViewCache Hash) (o : COutPoint Hash) (e : CCoinsCacheEntry) (b : Bool)

@[simp] lemma setEntry_cacheCoins :
    (c.setEntry o e).cacheCoins = Function.update c.cacheCoins o (some e) := rfl

@[simp] lemma setEntry_flagged : (c.setEntry o e).flagged = c.flagged := rfl

@[simp] lemma eraseEntry_cacheCoins :
    (c.eraseEntry o).cacheCoins = Function.update c.cacheCoins o none := rfl

@[simp] lemma eraseEntry_flagged : (c.eraseEntry o).flagged = c.flagged.filter fun x => x ≠ o := rfl

@[simp] lemma eraseEntry_count : (c.eraseEntry o).m_dirty_count = c.m_dirty_count := rfl

section

omit [DecidableEq Hash]

@[simp] lemma uncount_cacheCoins : (c.uncount b).cacheCoins = c.cacheCoins := rfl

@[simp] lemma uncount_flagged : (c.uncount b).flagged = c.flagged := rfl

@[simp] lemma uncount_count :
    (c.uncount b).m_dirty_count = c.m_dirty_count - if b then 1 else 0 := rfl

end

variable (coin : Coin) (fresh : Bool)

@[simp] lemma setDirtyEntry_cacheCoins : (c.setDirtyEntry o coin fresh).cacheCoins =
    Function.update c.cacheCoins o (some ⟨coin, true, fresh⟩) := by
  simp only [setDirtyEntry, link]
  split <;> rfl

@[simp] lemma setDirtyEntry_flagged : (c.setDirtyEntry o coin fresh).flagged =
    if o ∈ c.flagged then c.flagged else c.flagged ++ [o] := by
  by_cases h : o ∈ c.flagged <;> simp [setDirtyEntry, link, h]

@[simp] lemma setDirtyEntry_count :
    (c.setDirtyEntry o coin fresh).m_dirty_count = c.m_dirty_count + 1 := by
  simp only [setDirtyEntry, link]
  split <;> rfl

end Fields

variable (c : CCoinsViewCache Hash)

/-- `AddCoin`. -/
def addCoin (outpoint : COutPoint Hash) (coin : Coin) (possible_overwrite : Bool) :
    Except String (CCoinsViewCache Hash) :=
  if coin.isSpent then .error "!coin.IsSpent()"
  else if CScript.isUnspendable coin.out.scriptPubKey then .ok c
  else
    let found := c.cacheCoins outpoint
    -- A missing entry is emplaced with the empty coin and no flags.
    let it := found.getD ⟨.empty, false, false⟩
    if ¬ possible_overwrite ∧ ¬ it.coin.isSpent then
      .error "Attempted to overwrite an unspent coin (when possible_overwrite is false)"
    else
      let fresh := !possible_overwrite && !it.dirty
      let c := if found.isSome then c.uncount it.dirty else c
      .ok (c.setDirtyEntry outpoint coin (it.fresh || fresh))

/-- `Uncache`. -/
def uncache (hash : COutPoint Hash) : CCoinsViewCache Hash :=
  match c.cacheCoins hash with
  | some e => if e.dirty then c else c.eraseEntry hash
  | none => c

/-- One entry of `CCoinsViewCache::BatchWrite`. -/
def batchWriteEntry (p : COutPoint Hash × CCoinsCacheEntry) :
    Except String (CCoinsViewCache Hash) :=
  let (o, it) := p
  if ¬ it.dirty then .ok c
  else
    match c.cacheCoins o with
    | none =>
      if it.fresh ∧ it.coin.isSpent then .ok c
      else .ok (c.setDirtyEntry o it.coin it.fresh)
    | some itUs =>
      if it.fresh ∧ ¬ itUs.coin.isSpent then
        .error "FRESH flag misapplied to coin that exists in parent cache"
      else if itUs.fresh ∧ it.coin.isSpent then .ok ((c.uncount itUs.dirty).eraseEntry o)
      else if itUs.dirty then .ok (c.setEntry o { itUs with coin := it.coin })
      else .ok (c.setDirtyEntry o it.coin itUs.fresh)

/-- The entries a cursor walks. -/
def flaggedEntries : List (COutPoint Hash × CCoinsCacheEntry) :=
  c.flagged.filterMap fun o => (c.cacheCoins o).map (o, ·)

/-- `NextAndMaybeErase` of a cursor that does not erase: spent coins go, others become clean. -/
def syncEntry (p : COutPoint Hash × CCoinsCacheEntry) : CCoinsViewCache Hash :=
  let c := c.uncount p.2.dirty
  if p.2.coin.isSpent then c.eraseEntry p.1
  else { c.setEntry p.1 ⟨p.2.coin, false, false⟩ with
    flagged := c.flagged.filter fun x => x ≠ p.1 }

end CCoinsViewCache

/-- One entry of the base's `BatchWrite`: a spent coin is erased, another one written. -/
def BaseView.batchWriteEntry (b : BaseView Hash) (p : COutPoint Hash × CCoinsCacheEntry) :
    BaseView Hash :=
  if ¬ p.2.dirty then b
  else if hs : p.2.coin.isSpent then
    { coin := Function.update b.coin p.1 none
      unspent := fun o c hc => by
        by_cases ho : o = p.1
        · rw [ho, Function.update_self] at hc
          cases hc
        · rw [Function.update_of_ne ho] at hc
          exact b.unspent o c hc }
  else
    { coin := Function.update b.coin p.1 (some p.2.coin)
      unspent := fun o c hc => by
        by_cases ho : o = p.1
        · rw [ho, Function.update_self, Option.some.injEq] at hc
          rw [← hc]
          simpa using hs
        · rw [Function.update_of_ne ho] at hc
          exact b.unspent o c hc }

/-! ## Lookups -/

/-- `GetCoin` on a list of layers: the coin, and the layers with what was fetched on the way. -/
def getCoin (base : BaseView Hash) :
    List (CCoinsViewCache Hash) → COutPoint Hash → Option Coin × List (CCoinsViewCache Hash)
  | [], o => (base.coin o, [])
  | c :: below, o =>
    match c.cacheCoins o with
    | some e => (if e.coin.isSpent then none else some e.coin, c :: below)
    | none =>
      match getCoin base below o with
      | (some coin, below) => (some coin, c.setEntry o ⟨coin, false, false⟩ :: below)
      | (none, below) => (none, c :: below)

/-- `FetchCoin` on the top layer: the entry, if there is one now, and the layers. -/
def fetchCoin (s : CacheStack Hash) (o : COutPoint Hash) :
    Option CCoinsCacheEntry × CacheStack Hash :=
  let layers := (getCoin s.base s.layers o).2
  ((layers.head?.bind fun c => c.cacheCoins o), { s with layers })

/-! ## Calls on the top layer -/

/-- The calls. -/
inductive CacheCall (Hash : Type)
  | addCoin (outpoint : COutPoint Hash) (coin : Coin) (possible_overwrite : Bool)
  | spendCoin (outpoint : COutPoint Hash)
  | accessCoin (outpoint : COutPoint Hash)
  | getCoin (outpoint : COutPoint Hash)
  | haveCoin (outpoint : COutPoint Hash)
  | uncache (outpoint : COutPoint Hash)
  | sync
  | flush

/-- What a lookup answers. -/
inductive CacheAnswer
  | none
  | coin (c : Coin)
  | found (c : Option Coin)
  | have (b : Bool)
  deriving DecidableEq

/-- `SpendCoin` on the top layer, after `FetchCoin`. -/
def CCoinsViewCache.spendEntry (c : CCoinsViewCache Hash) (o : COutPoint Hash)
    (e : CCoinsCacheEntry) : CCoinsViewCache Hash :=
  let c := c.uncount e.dirty
  if e.fresh then c.eraseEntry o else c.setDirtyEntry o .empty e.fresh

/-- `base->BatchWrite` of the layer below the top. -/
def writeBelow (entries : List (COutPoint Hash × CCoinsCacheEntry))
    (below : List (CCoinsViewCache Hash)) (base : BaseView Hash) :
    Except String (List (CCoinsViewCache Hash) × BaseView Hash) :=
  match below with
  | [] => .ok ([], entries.foldl BaseView.batchWriteEntry base)
  | c :: rest => do
    let c ← entries.foldlM CCoinsViewCache.batchWriteEntry c
    return (c :: rest, base)

/-- The stack with its top layer replaced. -/
def CacheStack.setTop (s : CacheStack Hash) (c : CCoinsViewCache Hash) : CacheStack Hash :=
  { s with layers := c :: s.layers.tail }

/-- One call on the top layer. -/
def runCall (s : CacheStack Hash) (call : CacheCall Hash) :
    Except String (CacheStack Hash × CacheAnswer) :=
  match s.layers with
  | [] => .error "no cache"
  | top :: below =>
    match call with
    | .addCoin o coin overwrite => do
      let c ← top.addCoin o coin overwrite
      return (s.setTop c, .none)
    | .spendCoin o =>
      match fetchCoin s o with
      | (some e, s) => .ok (s.setTop ((s.layers.headD .empty).spendEntry o e), .none)
      | (none, s) => .ok (s, .none)
    | .accessCoin o =>
      let (it, s) := fetchCoin s o
      .ok (s, .coin ((it.map CCoinsCacheEntry.coin).getD .empty))
    | .getCoin o =>
      let (it, s) := fetchCoin s o
      .ok (s, .found ((it.map CCoinsCacheEntry.coin).filter fun c => ¬ c.isSpent))
    | .haveCoin o =>
      let (it, s) := fetchCoin s o
      .ok (s, .have (it.any fun e => ¬ e.coin.isSpent))
    | .uncache o => .ok (s.setTop (top.uncache o), .none)
    | .sync => do
      let (below, base) ← writeBelow top.flaggedEntries below s.base
      let top := top.flaggedEntries.foldl CCoinsViewCache.syncEntry top
      ensure (top.flagged = []) "Not all unspent flagged entries were cleared"
      return (⟨top :: below, base⟩, .none)
    | .flush => do
      let (below, base) ← writeBelow top.flaggedEntries below s.base
      return (⟨.empty :: below, base⟩, .none)

end SlithyTove
