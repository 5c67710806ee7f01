import SlithyTove.Coins.CoinsMap
import SlithyTove.Framework.KeyedTotal
import SlithyTove.Framework.LinkedRing

/-!
# The bookkeeping of a coins cache

`Coins/Cache.lean` follows the coins through a stack of caches.  Here one cache is modelled with
what it keeps besides the coins: the pointers of the doubly linked list of flagged entries, the
running count of dirty entries and the running sum of the entries' memory.  Each is updated by hand
in every operation, so each could drift.

What the cache rests on and what rests on the cache are open: the view below answers a lookup as it
likes or throws, it takes the coins of a cursor or leaves them and may throw after any number of
entries, and a child writes any entries.  An exception leaves the cache as it was changed so far; a
failed assertion ends the process.  A failed `Assume` is recorded.
-/

namespace SlithyTove

open Framework

/-! ## Coins in memory -/

/-- A `Coin` as the program holds it: its script has so many bytes on the heap, or none if it is
short enough to be kept in place. -/
structure HeldCoin where
  coin : Coin
  allocated_memory : ℕ
  deriving DecidableEq

namespace HeldCoin

/-- The longest script that is kept in place. -/
def STATIC_SIZE : ℕ := 36

/-- The default coin, also what `Clear` leaves. -/
def empty : HeldCoin := ⟨.empty, 0⟩

/-- `IsSpent`. -/
def isSpent (c : HeldCoin) : Bool := c.coin.isSpent

/-- `MallocUsage`, where a pointer has eight bytes. -/
def mallocUsage (alloc : ℕ) : ℕ := if alloc = 0 then 0 else (alloc + 31) / 16 * 16

/-- `DynamicMemoryUsage`. -/
def dynamicMemoryUsage (c : HeldCoin) : ℕ := mallocUsage c.allocated_memory

/-- Copy assignment.  The script keeps the memory it has if that is enough for the new bytes. -/
def assign (dst src : HeldCoin) : HeldCoin :=
  let n := src.coin.out.scriptPubKey.length
  let capacity := if dst.allocated_memory = 0 then STATIC_SIZE else dst.allocated_memory
  let allocated_memory :=
    if capacity < n then (if n ≤ STATIC_SIZE then 0 else n) else dst.allocated_memory
  ⟨src.coin, allocated_memory⟩

/-- What a move leaves behind: the amount, and an empty script in place. -/
def movedFrom (c : HeldCoin) : HeldCoin :=
  ⟨{ c.coin with out := ⟨c.coin.out.nValue, []⟩ }, 0⟩

@[simp] lemma dynamicMemoryUsage_empty : empty.dynamicMemoryUsage = 0 := rfl

@[simp] lemma isSpent_movedFrom (c : HeldCoin) : c.movedFrom.isSpent = c.isSpent := rfl

@[simp] lemma dynamicMemoryUsage_movedFrom (c : HeldCoin) :
    c.movedFrom.dynamicMemoryUsage = 0 := rfl

end HeldCoin

/-! ## The cache -/

/-- `CCoinsCacheEntry`; its pointers are kept in `LinkedCache.links`. -/
structure LinkedEntry where
  coin : HeldCoin
  dirty : Bool
  fresh : Bool
  deriving DecidableEq

namespace LinkedEntry

/-- `m_flags` is not zero. -/
def flagged (e : LinkedEntry) : Bool := e.dirty || e.fresh

/-- A new entry. -/
def clean : LinkedEntry := ⟨.empty, false, false⟩

/-- What an entry adds to the number of flagged ones. -/
def flaggedCount (e : LinkedEntry) : ℕ := e.flagged.toNat

/-- What an entry adds to the memory. -/
def usage (e : LinkedEntry) : ℕ := e.coin.dynamicMemoryUsage

section Written

variable (coin : HeldCoin) (dirty fresh : Bool)

@[simp] lemma flagged_dirty : flagged ⟨coin, true, fresh⟩ = true := rfl

@[simp] lemma flagged_clean : flagged ⟨coin, false, false⟩ = false := rfl

@[simp] lemma flaggedCount_dirty : flaggedCount ⟨coin, true, fresh⟩ = 1 := rfl

@[simp] lemma flaggedCount_clean : flaggedCount ⟨coin, false, false⟩ = 0 := rfl

@[simp] lemma usage_mk : usage ⟨coin, dirty, fresh⟩ = coin.dynamicMemoryUsage := rfl

end Written

end LinkedEntry

/-- `CCoinsViewCache`.  A node of the linked list is an outpoint, or `none` for `m_sentinel`;
`assumed` tells whether every `Assume` has held so far. -/
structure LinkedCache (Hash : Type) where
  cacheCoins : AList fun _ : COutPoint Hash => LinkedEntry
  links : Links (Option (COutPoint Hash))
  cachedCoinsUsage : ℕ
  m_dirty_count : ℕ
  assumed : Bool

/-- What leaves an operation other than by return: an exception of the cache or of the view below,
or an assertion that ends the process. -/
inductive CacheFailure
  | logic_error (what : String)
  | thrownBelow
  | aborted (assertion : String)
  deriving DecidableEq

/-- A computation on a cache. -/
abbrev CacheM (Hash : Type) := EStateM CacheFailure (LinkedCache Hash)

/-- What `base->GetCoin` does. -/
inductive BaseCoin
  | found (coin : HeldCoin)
  | missing
  | throws
  deriving DecidableEq

/-- What `base->BatchWrite` does with a cursor: whose coin it moves out, where the entry will be
erased anyway, and after how many entries an exception leaves it, if one does. -/
structure BaseWrite (Hash : Type) where
  takes : COutPoint Hash → Bool
  throwsAfter : Option ℕ

variable {Hash : Type} [DecidableEq Hash]

namespace LinkedCache

/-- A new cache. -/
def new : LinkedCache Hash := ⟨∅, .selfRef none, 0, 0, true⟩

variable (c : LinkedCache Hash)

/-- `Assume`. -/
def assume (holds : Bool) : LinkedCache Hash :=
  { c with assumed := c.assumed && holds }

/-- `Assume(TrySub(m_dirty_count, dirty))`. -/
def trySubDirty (dirty : Bool) : LinkedCache Hash :=
  if c.m_dirty_count < dirty.toNat then c.assume false
  else { c with m_dirty_count := c.m_dirty_count - dirty.toNat }

/-- `Assume(TrySub(cachedCoinsUsage, usage))`. -/
def trySubUsage (usage : ℕ) : LinkedCache Hash :=
  if c.cachedCoinsUsage < usage then c.assume false
  else { c with cachedCoinsUsage := c.cachedCoinsUsage - usage }

/-- An entry is written; its pointers stay as they are. -/
def setEntry (o : COutPoint Hash) (e : LinkedEntry) : LinkedCache Hash :=
  { c with cacheCoins := c.cacheCoins.insert o e }

/-- `AddFlags`: an entry without flags is linked in before the sentinel. -/
def addFlags (o : COutPoint Hash) (dirty fresh : Bool) : LinkedCache Hash :=
  match c.cacheCoins.lookup o with
  | none => c
  | some e =>
    let c :=
      if e.flagged then c
      else
        let c := c.assume ((c.links.prev (some o)).isNone && (c.links.next (some o)).isNone)
        { c with links := c.links.linkBefore none (some o) }
    c.setEntry o ⟨e.coin, e.dirty || dirty, e.fresh || fresh⟩

/-- The coin of an entry is overwritten. -/
def setCoin (o : COutPoint Hash) (coin : HeldCoin) : LinkedCache Hash :=
  match c.cacheCoins.lookup o with
  | none => c
  | some e => c.setEntry o { e with coin }

/-- `SetDirty`. -/
def setDirty (o : COutPoint Hash) : LinkedCache Hash :=
  c.addFlags o true false

/-- `SetFresh`. -/
def setFresh (o : COutPoint Hash) : LinkedCache Hash :=
  c.addFlags o false true

/-- `SetClean`. -/
def setClean (o : COutPoint Hash) : LinkedCache Hash :=
  match c.cacheCoins.lookup o with
  | none => c
  | some e =>
    if e.flagged then { c.setEntry o ⟨e.coin, false, false⟩ with links := c.links.unlink (some o) }
    else c

/-- `cacheCoins.erase`: the destructor of the entry unlinks it. -/
def eraseEntry (o : COutPoint Hash) : LinkedCache Hash :=
  let c := c.setClean o
  { c with cacheCoins := c.cacheCoins.erase o }

/-- `cacheCoins.clear()`. -/
def clear : LinkedCache Hash := c.cacheCoins.keys.foldl eraseEntry c

/-- `++m_dirty_count`. -/
def countDirty : LinkedCache Hash :=
  { c with m_dirty_count := c.m_dirty_count + 1 }

/-- `cachedCoinsUsage += usage`. -/
def addUsage (usage : ℕ) : LinkedCache Hash :=
  { c with cachedCoinsUsage := c.cachedCoinsUsage + usage }

/-! ## Operations -/

/-- `FetchCoin`.  The entry is there before the view below is asked. -/
def fetchCoin (outpoint : COutPoint Hash) (base : BaseCoin) : CacheM Hash PUnit := fun c =>
  match c.cacheCoins.lookup outpoint with
  | some _ => .ok ⟨⟩ c
  | none =>
    let c := c.setEntry outpoint .clean
    match base with
    | .throws => .error .thrownBelow c
    | .found coin =>
      let c := (c.setEntry outpoint ⟨coin, false, false⟩).addUsage coin.dynamicMemoryUsage
      if coin.isSpent then .error (.aborted "!ret->second.coin.IsSpent()") c else .ok ⟨⟩ c
    | .missing => .ok ⟨⟩ (c.eraseEntry outpoint)

/-- `AddCoin`. -/
def addCoin (outpoint : COutPoint Hash) (coin : HeldCoin) (possible_overwrite : Bool) :
    CacheM Hash PUnit := fun c =>
  if coin.isSpent then .error (.aborted "!coin.IsSpent()") c
  else if CScript.isUnspendable coin.coin.out.scriptPubKey then .ok ⟨⟩ c
  else
    let inserted := (c.cacheCoins.lookup outpoint).isNone
    let it := (c.cacheCoins.lookup outpoint).getD .clean
    let c := if inserted then c.setEntry outpoint it else c
    if ¬ possible_overwrite ∧ ¬ it.coin.isSpent then
      .error (.logic_error
        "Attempted to overwrite an unspent coin (when possible_overwrite is false)") c
    else
      let fresh := !possible_overwrite && !it.dirty
      let c := if inserted then c
        else (c.trySubDirty it.dirty).trySubUsage it.coin.dynamicMemoryUsage
      let c := c.setEntry outpoint { it with coin }
      let c := (c.setDirty outpoint).countDirty
      let c := if fresh then c.setFresh outpoint else c
      .ok ⟨⟩ (c.addUsage coin.dynamicMemoryUsage)

/-- `EmplaceCoinInternalDANGER`. -/
def emplaceCoinInternalDANGER (outpoint : COutPoint Hash) (coin : HeldCoin) :
    CacheM Hash PUnit := fun c =>
  match c.cacheCoins.lookup outpoint with
  | some _ => .ok ⟨⟩ c
  | none =>
    let c := c.setEntry outpoint ⟨coin, false, false⟩
    .ok ⟨⟩ ((c.setDirty outpoint).countDirty.addUsage coin.dynamicMemoryUsage)

/-- `SpendCoin` after `FetchCoin`.  Whether the coin is moved out first makes no difference to the
cache: the entry is erased or its coin cleared. -/
def spendFetched (outpoint : COutPoint Hash) : CacheM Hash PUnit := fun c =>
  match c.cacheCoins.lookup outpoint with
  | none => .ok ⟨⟩ c
  | some it =>
    let c := (c.trySubDirty it.dirty).trySubUsage it.coin.dynamicMemoryUsage
    if it.fresh then .ok ⟨⟩ (c.eraseEntry outpoint)
    else
      let c := (c.setDirty outpoint).countDirty
      .ok ⟨⟩ (c.setCoin outpoint .empty)

/-- `SpendCoin`. -/
def spendCoin (outpoint : COutPoint Hash) (base : BaseCoin) : CacheM Hash PUnit := do
  fetchCoin outpoint base
  spendFetched outpoint

/-- `Uncache`. -/
def uncache (hash : COutPoint Hash) : CacheM Hash PUnit := fun c =>
  match c.cacheCoins.lookup hash with
  | none => .ok ⟨⟩ c
  | some it =>
    if it.dirty then .ok ⟨⟩ c
    else .ok ⟨⟩ ((c.trySubUsage it.coin.dynamicMemoryUsage).eraseEntry hash)

/-- One entry of `BatchWrite`.  The coin of an entry that the cursor will erase is moved, another
one is copied. -/
def batchWriteEntry (will_erase : Bool) (p : COutPoint Hash × LinkedEntry) :
    CacheM Hash PUnit := fun c =>
  let (o, it) := p
  let received (dst : HeldCoin) : HeldCoin :=
    if will_erase || it.coin.isSpent then it.coin else dst.assign it.coin
  if ¬ it.dirty then .ok ⟨⟩ c
  else
    match c.cacheCoins.lookup o with
    | none =>
      let c := c.setEntry o .clean
      if it.fresh ∧ it.coin.isSpent then .ok ⟨⟩ (c.eraseEntry o)
      else
        let coin := received .empty
        let c := ((c.setEntry o ⟨coin, false, false⟩).setDirty o).countDirty
        let c := c.addUsage coin.dynamicMemoryUsage
        .ok ⟨⟩ (if it.fresh then c.setFresh o else c)
    | some itUs =>
      if it.fresh ∧ ¬ itUs.coin.isSpent then
        .error (.logic_error "FRESH flag misapplied to coin that exists in parent cache") c
      else if itUs.fresh ∧ it.coin.isSpent then
        let c := (c.trySubDirty itUs.dirty).trySubUsage itUs.coin.dynamicMemoryUsage
        .ok ⟨⟩ (c.eraseEntry o)
      else
        let c := c.trySubUsage itUs.coin.dynamicMemoryUsage
        let coin := received itUs.coin
        let c := (c.setEntry o { itUs with coin }).addUsage coin.dynamicMemoryUsage
        .ok ⟨⟩ (if itUs.dirty then c else (c.setDirty o).countDirty)

/-- `BatchWrite` from a child, whose cursor stands at these entries one after the other. -/
def batchWrite (will_erase : Bool) (entries : List (COutPoint Hash × LinkedEntry)) :
    CacheM Hash PUnit :=
  entries.forM (batchWriteEntry will_erase)

/-! ## Writing to the view below -/

/-- The view below takes the coin out of an entry that will be erased. -/
def takeCoin (takes : COutPoint Hash → Bool) (will_erase : Bool) (c : LinkedCache Hash)
    (o : COutPoint Hash) : LinkedCache Hash :=
  match c.cacheCoins.lookup o with
  | none => c
  | some e =>
    if takes o && (will_erase || e.coin.isSpent) then
      c.setEntry o { e with coin := e.coin.movedFrom }
    else c

/-- `NextAndMaybeErase`, without the pointer it returns. -/
def nextAndMaybeErase (will_erase : Bool) (o : COutPoint Hash) : CacheM Hash PUnit := fun c =>
  match c.cacheCoins.lookup o with
  | none => .ok ⟨⟩ c
  | some current =>
    let c := c.trySubDirty current.dirty
    if will_erase then .ok ⟨⟩ c
    else if current.coin.isSpent then
      if current.coin.dynamicMemoryUsage ≠ 0 then
        .error (.aborted "current.second.coin.DynamicMemoryUsage() == 0") c
      else .ok ⟨⟩ (c.eraseEntry o)
    else .ok ⟨⟩ (c.setClean o)

/-- `base->BatchWrite` on a cursor of this cache, which stands at `it` and has passed so many
entries.  The next entry is read off the pointers before the current one is changed. -/
def writeBelow (base : BaseWrite Hash) (will_erase : Bool) :
    ℕ → ℕ → Option (Option (COutPoint Hash)) → CacheM Hash PUnit
  | fuel + 1, passed, some (some o) => fun c =>
    if base.throwsAfter = some passed then .error .thrownBelow c
    else
      let c := takeCoin base.takes will_erase c o
      let next_entry := c.links.next (some o)
      (nextAndMaybeErase will_erase o >>= fun _ =>
        writeBelow base will_erase fuel (passed + 1) next_entry) c
  | _, _, _ => fun c =>
    if base.throwsAfter.isSome then .error .thrownBelow c else .ok ⟨⟩ c

/-- The cursor from its `Begin`. -/
def writeAllBelow (base : BaseWrite Hash) (will_erase : Bool) : CacheM Hash PUnit := fun c =>
  writeBelow base will_erase (c.cacheCoins.entries.length + 1) 0 (c.links.next none) c

/-- The end of `Flush`. -/
def wipe : CacheM Hash PUnit := fun c =>
  .ok ⟨⟩ { (c.assume (c.m_dirty_count = 0)).clear with cachedCoinsUsage := 0 }

/-- `Flush`.  A reallocated map is empty as well. -/
def flush (base : BaseWrite Hash) : CacheM Hash PUnit := do
  writeAllBelow base true
  wipe

/-- The end of `Sync`. -/
def checkCleared : CacheM Hash PUnit := fun c =>
  let c := c.assume (c.m_dirty_count = 0)
  if c.links.next none ≠ some none then
    .error (.logic_error "Not all unspent flagged entries were cleared") c
  else .ok ⟨⟩ c

/-- `Sync`. -/
def sync (base : BaseWrite Hash) : CacheM Hash PUnit := do
  writeAllBelow base false
  checkCleared

/-- `Reset`. -/
def reset : CacheM Hash PUnit := fun c =>
  .ok ⟨⟩ { c.clear with cachedCoinsUsage := 0, m_dirty_count := 0 }

end LinkedCache

/-! ## Runs -/

/-- The calls, each with what the view below does meanwhile. -/
inductive CacheOperation (Hash : Type)
  | addCoin (outpoint : COutPoint Hash) (coin : HeldCoin) (possible_overwrite : Bool)
  | emplaceCoinInternalDANGER (outpoint : COutPoint Hash) (coin : HeldCoin)
  | spendCoin (outpoint : COutPoint Hash) (base : BaseCoin)
  /-- `GetCoin`, `AccessCoin` and `HaveCoin`: to the cache each is one `FetchCoin`. -/
  | lookup (outpoint : COutPoint Hash) (base : BaseCoin)
  | uncache (outpoint : COutPoint Hash)
  | batchWrite (will_erase : Bool) (entries : List (COutPoint Hash × LinkedEntry))
  | sync (base : BaseWrite Hash)
  | flush (base : BaseWrite Hash)
  | reset

/-- One call. -/
def CacheOperation.procedure : CacheOperation Hash → CacheM Hash PUnit
  | .addCoin o coin overwrite => LinkedCache.addCoin o coin overwrite
  | .emplaceCoinInternalDANGER o coin => LinkedCache.emplaceCoinInternalDANGER o coin
  | .spendCoin o base => LinkedCache.spendCoin o base
  | .lookup o base => LinkedCache.fetchCoin o base
  | .uncache o => LinkedCache.uncache o
  | .batchWrite will_erase entries => LinkedCache.batchWrite will_erase entries
  | .sync base => LinkedCache.sync base
  | .flush base => LinkedCache.flush base
  | .reset => LinkedCache.reset

/-- The cache after a call, if the process is still there. -/
def coinsCacheAfter : EStateM.Result CacheFailure (LinkedCache Hash) PUnit →
    Option (LinkedCache Hash)
  | .ok _ c => some c
  | .error (.aborted _) _ => none
  | .error _ c => some c

/-- The cache after a sequence of calls, each made whatever happened to the one before. -/
def coinsCacheAfterAll : LinkedCache Hash → List (CacheOperation Hash) → Option (LinkedCache Hash)
  | c, [] => some c
  | c, op :: ops => (coinsCacheAfter (op.procedure c)).bind fun c => coinsCacheAfterAll c ops

end SlithyTove
