import SlithyTove.Coins.LinkedCache
import SlithyTove.Framework.Stateful

/-!
# Changes at one outpoint

`LinkedCache.SanityCheck` collects what the function of that name asserts.  Nearly every operation
does its work at one outpoint: it writes or erases the entry there, links or unlinks it and changes
the two running figures by what the entry adds (`rewrite`).  Any such change keeps the conditions,
so each operation is read once, for the change it makes.
-/

namespace SlithyTove

open Framework LinkedEntry Bool List

variable {Hash : Type} [DecidableEq Hash]

/-! ## The conditions -/

/-- The valid combinations of flags. -/
structure LinkedEntry.Valid (e : LinkedEntry) : Prop where
  spent : e.coin.isSpent = true → e.dirty = true ∧ e.fresh = false
  fresh : e.coin.isSpent = false → e.fresh = true → e.dirty = true

variable {e : LinkedEntry}

lemma LinkedEntry.Valid.flagged_eq (h : e.Valid) : e.flagged = e.dirty := by
  have hspent := h.spent
  have hfresh := h.fresh
  unfold flagged
  cases hs : e.coin.isSpent <;> cases hd : e.dirty <;> cases hf : e.fresh <;> simp_all

lemma LinkedEntry.valid_of_dirty {coin : HeldCoin} {fresh : Bool}
    (h : coin.isSpent = true → fresh = false) : LinkedEntry.Valid ⟨coin, true, fresh⟩ :=
  ⟨fun hs => ⟨rfl, h hs⟩, fun _ _ => rfl⟩

lemma LinkedEntry.valid_of_unflagged (hs : e.coin.isSpent = false)
    (hf : e.flagged = false) : e.Valid := by
  refine ⟨fun hs' => ?_, fun _ hfresh => ?_⟩
  · rw [hs] at hs'
    cases hs'
  · rw [flagged, hfresh, Bool.or_true] at hf
    cases hf

namespace LinkedCache

/-- Whether there is a flagged entry at an outpoint. -/
def flaggedAt (c : LinkedCache Hash) (o : COutPoint Hash) : Bool :=
  (c.cacheCoins.lookup o).any flagged

variable (links : Links (Option (COutPoint Hash)))

/-- The pointers thread exactly the chosen outpoints. -/
def Threads (chosen : COutPoint Hash → Bool) : Prop :=
  ∃ l : List (COutPoint Hash), Ring links none (l.map some) ∧ ∀ o, o ∈ l ↔ chosen o = true

/-- The conditions of `SanityCheck`, and that no `Assume` has failed: above all, that every
subtraction had enough to subtract from. -/
structure SanityCheck (c : LinkedCache Hash) : Prop where
  valid : ∀ o e, c.cacheCoins.lookup o = some e → e.Valid
  linked : Threads c.links c.flaggedAt
  count : c.m_dirty_count = keyedTotal flaggedCount c.cacheCoins
  usage : c.cachedCoinsUsage = keyedTotal usage c.cacheCoins
  assumed : c.assumed = true

variable {c : LinkedCache Hash} {o : COutPoint Hash}

lemma flaggedAt_of_lookup {e : LinkedEntry} (h : c.cacheCoins.lookup o = some e) :
    c.flaggedAt o = e.flagged := by
  rw [flaggedAt, h]
  rfl

lemma flaggedAt_of_none (h : c.cacheCoins.lookup o = none) : c.flaggedAt o = false := by
  rw [flaggedAt, h]
  rfl

lemma sanityCheck_new : (new : LinkedCache Hash).SanityCheck where
  valid := by simp [new]
  linked := ⟨[], Ring.selfRef none, by simp [flaggedAt, new]⟩
  count := rfl
  usage := rfl
  assumed := rfl

/-! ## A change at one outpoint -/

/-- The pointers after an entry got or lost its flags. -/
def relink (o : COutPoint Hash) (before after : Bool) : Links (Option (COutPoint Hash)) :=
  if before = after then links
  else if after then links.linkBefore none (some o)
  else links.unlink (some o)

@[simp] lemma relink_self (o : COutPoint Hash) (b : Bool) : relink links o b b = links := if_pos rfl

omit [DecidableEq Hash] in
lemma some_notMem_map {l : List (COutPoint Hash)} (h : o ∉ l) : some o ∉ none :: l.map some := by
  simpa using h

lemma Threads.relink {links : Links (Option (COutPoint Hash))} {chosen : COutPoint Hash → Bool}
    (h : Threads links chosen) (o : COutPoint Hash) (after : Bool) :
    Threads (relink links o (chosen o) after) (Function.update chosen o after) := by
  obtain ⟨l, hring, hmem⟩ := h
  by_cases heq : chosen o = after
  · rw [← heq, relink_self, Function.update_eq_self]
    exact ⟨l, hring, hmem⟩
  · rw [LinkedCache.relink, if_neg heq]
    cases after with
    | true =>
      have hnot : o ∉ l := fun hin => heq ((hmem o).1 hin)
      refine ⟨l ++ [o], ?_, fun x => ?_⟩
      · rw [map_append]
        exact hring.linkBefore (some_notMem_map hnot)
      · rw [mem_append, mem_singleton, hmem]
        by_cases hx : x = o
        · simp [hx]
        · simp [hx]
    | false =>
      have hin : o ∈ l := (hmem o).2 (by simpa using heq)
      have hnodup : l.Nodup := (nodup_cons.1 hring.nodup).2.of_map some
      obtain ⟨l₁, l₂, rfl⟩ := append_of_mem hin
      rw [map_append, map_cons] at hring
      refine ⟨l₁ ++ l₂, ?_, fun x => ?_⟩
      · rw [map_append]
        exact hring.unlink
      · by_cases hx : x = o
        · have hnot := (nodup_cons.1 (nodup_middle.1 hnodup)).1
          simpa [hx] using hnot
        · rw [Function.update_of_ne hx, ← hmem]
          simp [hx]

/-- The cache with the entry at `o` written, or erased, and all figures adjusted to it. -/
def rewrite (c : LinkedCache Hash) (o : COutPoint Hash) (e : Option LinkedEntry) :
    LinkedCache Hash where
  cacheCoins := put c.cacheCoins o e
  links := relink c.links o (c.flaggedAt o) (e.any flagged)
  cachedCoinsUsage := c.cachedCoinsUsage - contribution usage c.cacheCoins o +
    (e.map usage).getD 0
  m_dirty_count := c.m_dirty_count - contribution flaggedCount c.cacheCoins o +
    (e.map flaggedCount).getD 0
  assumed := c.assumed

lemma flaggedAt_put {c' : LinkedCache Hash} {e : Option LinkedEntry}
    (h : c'.cacheCoins = put c.cacheCoins o e) :
    c'.flaggedAt = Function.update c.flaggedAt o (e.any flagged) := by
  funext x
  by_cases hx : x = o
  · rw [hx, Function.update_self, flaggedAt, h, lookup_put_self]
  · rw [Function.update_of_ne hx, flaggedAt, flaggedAt, h, lookup_put_of_ne _ _ _ hx]

/-- **A change at one outpoint keeps the conditions**, if the new flags are valid. -/
lemma SanityCheck.rewrite {e : Option LinkedEntry} (h : c.SanityCheck) (he : ∀ e' ∈ e, e'.Valid) :
    (c.rewrite o e).SanityCheck where
  valid x e' hx := by
    change (put c.cacheCoins o e).lookup x = some e' at hx
    by_cases hxo : x = o
    · rw [hxo, lookup_put_self] at hx
      exact he e' hx
    · rw [lookup_put_of_ne _ _ _ hxo] at hx
      exact h.valid x e' hx
  linked := by
    rw [flaggedAt_put (c := c) rfl]
    exact h.linked.relink o _
  count := by
    have htotal := keyedTotal_put flaggedCount c.cacheCoins o e
    have hle := contribution_le flaggedCount c.cacheCoins o
    change c.m_dirty_count - contribution flaggedCount c.cacheCoins o +
      (e.map flaggedCount).getD 0 = keyedTotal _ (put c.cacheCoins o e)
    rw [h.count]
    omega
  usage := by
    have htotal := keyedTotal_put LinkedEntry.usage c.cacheCoins o e
    have hle := contribution_le LinkedEntry.usage c.cacheCoins o
    change c.cachedCoinsUsage - contribution LinkedEntry.usage c.cacheCoins o +
      (e.map LinkedEntry.usage).getD 0 = keyedTotal _ (put c.cacheCoins o e)
    rw [h.usage]
    omega
  assumed := h.assumed

/-! ## The steps of an operation -/

section Steps

variable {c : LinkedCache Hash} {o : COutPoint Hash} {e : LinkedEntry}

section

variable (h : c.SanityCheck) (he : c.cacheCoins.lookup o = some e)

include h he

lemma SanityCheck.count_le : e.flaggedCount ≤ c.m_dirty_count := by
  have hle := contribution_le flaggedCount c.cacheCoins o
  rwa [contribution_of_lookup _ _ _ he, ← h.count] at hle

lemma SanityCheck.trySubDirty :
    c.trySubDirty e.dirty = { c with m_dirty_count := c.m_dirty_count - e.flaggedCount } := by
  have hle := h.count_le he
  have hdirty : e.dirty.toNat = e.flaggedCount := by
    rw [flaggedCount, (h.valid o e he).flagged_eq]
  rw [LinkedCache.trySubDirty, hdirty, if_neg (Nat.not_lt.2 hle)]

lemma SanityCheck.usage_le : e.coin.dynamicMemoryUsage ≤ c.cachedCoinsUsage := by
  have hle := contribution_le LinkedEntry.usage c.cacheCoins o
  rwa [contribution_of_lookup _ _ _ he, ← h.usage] at hle

lemma SanityCheck.trySub : (c.trySubDirty e.dirty).trySubUsage e.coin.dynamicMemoryUsage = { c with
      m_dirty_count := c.m_dirty_count - e.flaggedCount
      cachedCoinsUsage := c.cachedCoinsUsage - e.coin.dynamicMemoryUsage } := by
  rw [h.trySubDirty he, trySubUsage, if_neg (Nat.not_lt.2 (h.usage_le he))]

end

omit [DecidableEq Hash] in
lemma trySubUsage_of_le {n : ℕ} (h : n ≤ c.cachedCoinsUsage) :
    c.trySubUsage n = { c with cachedCoinsUsage := c.cachedCoinsUsage - n } :=
  if_neg (Nat.not_lt.2 h)

omit [DecidableEq Hash] in
lemma Threads.null {links : Links (Option (COutPoint Hash))} {chosen : COutPoint Hash → Bool}
    (h : Threads links chosen) (ho : chosen o = false) :
    links.prev (some o) = none ∧ links.next (some o) = none := by
  obtain ⟨l, hring, hmem⟩ := h
  refine hring.null (some o) (some_notMem_map fun hin => ?_)
  rw [(hmem o).1 hin] at ho
  cases ho

lemma setDirty_setEntry
    (hnull : e.flagged = false → c.links.prev (some o) = none ∧ c.links.next (some o) = none) :
    (c.setEntry o e).setDirty o =
      ({ c with links := relink c.links o e.flagged true }).setEntry o ⟨e.coin, true, e.fresh⟩ := by
  cases hf : e.flagged with
  | true =>
    simp [setDirty, addFlags, hf, setEntry]
  | false =>
    have hlinks := hnull hf
    simp [setDirty, addFlags, hf, setEntry, assume, relink,
      hlinks.1, hlinks.2]

lemma addFlags_addUsage (n : ℕ) (dirty fresh : Bool) :
    (c.addUsage n).addFlags o dirty fresh = (c.addFlags o dirty fresh).addUsage n := by
  unfold addFlags addUsage
  dsimp only
  cases c.cacheCoins.lookup o with
  | none => rfl
  | some e =>
    dsimp only
    split <;> rfl

lemma setDirty_of_lookup (he : c.cacheCoins.lookup o = some e) :
    c.setDirty o = (c.setEntry o e).setDirty o := by
  simp [setDirty, addFlags, he, setEntry, assume]
  split <;> simp [AList.insert_insert]

lemma erase_insert_self (m : AList fun _ : COutPoint Hash => LinkedEntry) :
    (m.insert o e).erase o = m.erase o := by
  refine AList.ext ?_
  change List.kerase o (m.insert o e).entries = List.kerase o m.entries
  rw [AList.entries_insert]
  exact kerase_cons_eq rfl

lemma eraseEntry_eq (c : LinkedCache Hash) (o : COutPoint Hash) :
    c.eraseEntry o = { c with
      cacheCoins := c.cacheCoins.erase o
      links := relink c.links o (c.flaggedAt o) false } := by
  cases hl : c.cacheCoins.lookup o with
  | none => simp [eraseEntry, setClean, hl, flaggedAt]
  | some e =>
    cases hf : e.flagged with
    | false => simp [eraseEntry, setClean, hl, flaggedAt, hf]
    | true =>
      simp [eraseEntry, setClean, hl, flaggedAt, hf, setEntry, relink, erase_insert_self]

end Steps

/-! ## Operations at one outpoint -/

/-- How an operation may end: with the conditions, unless it ended the process. -/
def Keeps (r : EStateM.Result CacheFailure (LinkedCache Hash) PUnit) : Prop :=
  Ends r (fun _ c => c.SanityCheck) fun e c => (∀ a, e ≠ .aborted a) → c.SanityCheck

section Operations

variable {c : LinkedCache Hash} {o : COutPoint Hash}

lemma rewrite_of_none (ho : c.cacheCoins.lookup o = none) (e : Option LinkedEntry) :
    c.rewrite o e = ⟨put c.cacheCoins o e, relink c.links o false (e.any flagged),
      c.cachedCoinsUsage + (e.map usage).getD 0,
      c.m_dirty_count + (e.map flaggedCount).getD 0, c.assumed⟩ := by
  rw [rewrite, flaggedAt_of_none ho, contribution_of_none _ _ _ ho, contribution_of_none _ _ _ ho]
  rfl

variable {e : LinkedEntry}

lemma rewrite_of_lookup (ho : c.cacheCoins.lookup o = some e) (e' : Option LinkedEntry) :
    c.rewrite o e' = ⟨put c.cacheCoins o e',
      relink c.links o e.flagged (e'.any flagged),
      c.cachedCoinsUsage - e.coin.dynamicMemoryUsage + (e'.map usage).getD 0,
      c.m_dirty_count - e.flaggedCount + (e'.map flaggedCount).getD 0, c.assumed⟩ := by
  rw [rewrite, flaggedAt_of_lookup ho, contribution_of_lookup _ _ _ ho,
    contribution_of_lookup _ _ _ ho]
  rfl

lemma fetchCoin_of_none (ho : c.cacheCoins.lookup o = none) (base : BaseCoin) :
    fetchCoin o base c =
      match base with
      | .throws => .error .thrownBelow (c.setEntry o .clean)
      | .found coin =>
        if coin.isSpent then
          .error (.aborted "!ret->second.coin.IsSpent()") (c.rewrite o (some ⟨coin, false, false⟩))
        else .ok ⟨⟩ (c.rewrite o (some ⟨coin, false, false⟩))
      | .missing => .ok ⟨⟩ (c.rewrite o none) := by
  rw [fetchCoin, ho]
  cases base with
  | throws => rfl
  | missing =>
    have hclean : (c.setEntry o .clean).flaggedAt o = clean.flagged :=
      flaggedAt_of_lookup (AList.lookup_insert _)
    dsimp only
    rw [eraseEntry_eq, hclean, rewrite_of_none ho]
    simp [setEntry, erase_insert_self, put, clean, flagged]
  | found coin =>
    have hfound : ((c.setEntry o .clean).setEntry o ⟨coin, false, false⟩).addUsage
        coin.dynamicMemoryUsage = c.rewrite o (some ⟨coin, false, false⟩) := by
      rw [rewrite_of_none ho]
      simp [setEntry, addUsage, put]
    dsimp only
    rw [hfound]

lemma setFresh_rewrite (coin : HeldCoin) (fresh b : Bool) :
    (if b = true then (c.rewrite o (some ⟨coin, true, fresh⟩)).setFresh o
      else c.rewrite o (some ⟨coin, true, fresh⟩)) =
      c.rewrite o (some ⟨coin, true, fresh || b⟩) := by
  have hlookup : (c.rewrite o (some ⟨coin, true, fresh⟩)).cacheCoins.lookup o =
      some ⟨coin, true, fresh⟩ := lookup_put_self ..
  cases b with
  | false => rw [if_neg Bool.false_ne_true, Bool.or_false]
  | true =>
    rw [if_pos rfl, setFresh, addFlags, hlookup]
    simp [setEntry, rewrite, put]

lemma addUsage_setFresh (n : ℕ) (b : Bool) :
    (if b = true then c.setFresh o else c).addUsage n =
      if b = true then (c.addUsage n).setFresh o else c.addUsage n := by
  cases b with
  | false => rfl
  | true => exact (addFlags_addUsage n false true).symm

section

variable (h : c.SanityCheck)

include h

lemma keeps_fetchCoin (base : BaseCoin)
    (hbase : (c.cacheCoins.lookup o).isSome ∨ base ≠ .throws) : Keeps (fetchCoin o base c) := by
  cases ho : c.cacheCoins.lookup o with
  | some e =>
    rw [fetchCoin, ho]
    exact h
  | none =>
    rw [ho] at hbase
    rw [fetchCoin_of_none ho]
    cases base with
    | throws => simp at hbase
    | missing => exact h.rewrite nofun
    | found coin =>
      dsimp only
      split
      · intro hne
        exact absurd rfl (hne _)
      · next hspent =>
        refine h.rewrite fun e he => ?_
        rw [← Option.some.inj he]
        exact ⟨fun hs => absurd hs hspent, nofun⟩

lemma emplace_eq (ho : c.cacheCoins.lookup o = none) (coin : HeldCoin) :
    ((c.setEntry o ⟨coin, false, false⟩).setDirty o).countDirty.addUsage coin.dynamicMemoryUsage =
      c.rewrite o (some ⟨coin, true, false⟩) := by
  rw [setDirty_setEntry fun _ => h.linked.null (flaggedAt_of_none ho), rewrite_of_none ho]
  simp [setEntry, countDirty, addUsage, put]

lemma SanityCheck.setDirty_subtracted (ho : c.cacheCoins.lookup o = some e)
    {coin : HeldCoin} {count usage : ℕ} :
    (({ c with m_dirty_count := count, cachedCoinsUsage := usage }).setEntry o
      { e with coin }).setDirty o =
      ({ c with
        m_dirty_count := count
        cachedCoinsUsage := usage
        links := relink c.links o e.flagged true }).setEntry o ⟨coin, true, e.fresh⟩ := by
  have hnull : flagged { e with coin } = false →
      c.links.prev (some o) = none ∧ c.links.next (some o) = none := fun hf =>
    h.linked.null ((flaggedAt_of_lookup ho).trans hf)
  exact setDirty_setEntry hnull

lemma overwrite_eq (ho : c.cacheCoins.lookup o = some e) (coin : HeldCoin) :
    ((((c.trySubDirty e.dirty).trySubUsage e.coin.dynamicMemoryUsage).setEntry o
      { e with coin }).setDirty o).countDirty.addUsage coin.dynamicMemoryUsage =
      c.rewrite o (some ⟨coin, true, e.fresh⟩) := by
  rw [h.trySub ho, h.setDirty_subtracted ho, rewrite_of_lookup ho]
  simp [setEntry, countDirty, addUsage, put]

variable (coin : HeldCoin)

lemma keeps_addCoin (possible_overwrite : Bool) : Keeps (addCoin o coin possible_overwrite c) := by
  unfold addCoin
  split
  · intro hne
    exact absurd rfl (hne _)
  · next hspent =>
    have hvalid : ∀ fresh, LinkedEntry.Valid ⟨coin, true, fresh⟩ := fun fresh =>
      valid_of_dirty fun hs => absurd hs hspent
    have hwritten : ∀ fresh, (c.rewrite o (some ⟨coin, true, fresh⟩)).SanityCheck := fun fresh =>
      h.rewrite fun e he => Option.some.inj he ▸ hvalid fresh
    split
    · exact h
    · dsimp only
      cases ho : c.cacheCoins.lookup o with
      | none =>
        have hentry : (c.setEntry o .clean).setEntry o { clean with coin } =
            c.setEntry o ⟨coin, false, false⟩ := by
          simp [setEntry, clean]
        have hguard : ¬ (¬ possible_overwrite = true ∧
            ¬ clean.coin.isSpent = true) := fun hand => hand.2 rfl
        simp only [Option.isNone_none, Option.getD_none, if_true]
        rw [if_neg hguard, hentry, addUsage_setFresh, emplace_eq h ho, setFresh_rewrite]
        exact hwritten _
      | some it =>
        simp only [Option.isNone_some, Option.getD_some, false_eq_true, if_false]
        split
        · exact fun _ => h
        · rw [addUsage_setFresh, overwrite_eq h ho, setFresh_rewrite]
          exact hwritten _

lemma keeps_emplace : Keeps (emplaceCoinInternalDANGER o coin c) := by
  unfold emplaceCoinInternalDANGER
  cases ho : c.cacheCoins.lookup o with
  | some e => exact h
  | none =>
    dsimp only
    rw [emplace_eq h ho]
    exact h.rewrite fun e he => Option.some.inj he ▸ valid_of_dirty fun _ => rfl

lemma erase_eq (ho : c.cacheCoins.lookup o = some e) :
    ((c.trySubDirty e.dirty).trySubUsage e.coin.dynamicMemoryUsage).eraseEntry o =
      c.rewrite o none := by
  rw [h.trySub ho, eraseEntry_eq, rewrite]
  simp [flaggedAt, put, contribution_of_lookup _ _ _ ho, usage]

lemma keeps_spendFetched : Keeps (spendFetched o c) := by
  unfold spendFetched
  cases ho : c.cacheCoins.lookup o with
  | none => exact h
  | some it =>
    dsimp only
    split
    · rw [erase_eq h ho]
      exact h.rewrite nofun
    · next hfresh =>
      have hspend : ((((c.trySubDirty it.dirty).trySubUsage it.coin.dynamicMemoryUsage).setDirty
          o).countDirty).setCoin o .empty = c.rewrite o (some ⟨.empty, true, it.fresh⟩) := by
        have hdirty := setDirty_of_lookup (c := { c with
          m_dirty_count := c.m_dirty_count - it.flaggedCount
          cachedCoinsUsage := c.cachedCoinsUsage - it.coin.dynamicMemoryUsage }) ho
        rw [h.trySub ho, hdirty, h.setDirty_subtracted ho, rewrite_of_lookup ho]
        simp [setCoin, setEntry, countDirty, put]
      rw [hspend]
      refine h.rewrite fun e he => Option.some.inj he ▸ valid_of_dirty fun _ => ?_
      simpa using hfresh

lemma keeps_uncache : Keeps (uncache o c) := by
  unfold uncache
  cases ho : c.cacheCoins.lookup o with
  | none => exact h
  | some it =>
    dsimp only
    split
    · exact h
    · next hdirty =>
      -- A clean entry has nothing in the count.
      have hsame : c.trySubDirty it.dirty = c := by
        rw [eq_false_iff.2 hdirty]
        rfl
      have herase := erase_eq h ho
      rw [hsame] at herase
      rw [herase]
      exact h.rewrite nofun

lemma modify_eq (ho : c.cacheCoins.lookup o = some e) (coin : HeldCoin) :
    (if e.dirty = true then
      ((c.trySubUsage e.coin.dynamicMemoryUsage).setEntry o { e with coin }).addUsage
        coin.dynamicMemoryUsage
    else ((((c.trySubUsage e.coin.dynamicMemoryUsage).setEntry o { e with coin }).addUsage
      coin.dynamicMemoryUsage).setDirty o).countDirty) =
      c.rewrite o (some ⟨coin, true, e.fresh⟩) := by
  have hflagged := (h.valid o e ho).flagged_eq
  have hcount := h.count_le ho
  rw [trySubUsage_of_le (h.usage_le ho), rewrite_of_lookup ho]
  cases hd : e.dirty with
  | true =>
    rw [hd] at hflagged
    have hone : e.flaggedCount = 1 := by rw [flaggedCount, hflagged, toNat_true]
    rw [hone] at hcount
    simp [setEntry, addUsage, put, hflagged, hone, Nat.sub_add_cancel hcount]
  | false =>
    rw [hd] at hflagged
    have hzero : e.flaggedCount = 0 := by
      rw [flaggedCount, hflagged, toNat_false]
    have hdirty := @SanityCheck.setDirty_subtracted _ _ c o e h ho coin c.m_dirty_count
      (c.cachedCoinsUsage - e.coin.dynamicMemoryUsage)
    rw [hd] at hdirty
    rw [if_neg Bool.false_ne_true, setDirty, addFlags_addUsage]
    change ((setDirty _ o).addUsage _).countDirty = _
    rw [hdirty]
    simp [setEntry, addUsage, countDirty, put, hflagged, hzero]

lemma keeps_batchWriteEntry (will_erase : Bool) (p : COutPoint Hash × LinkedEntry) :
    Keeps (batchWriteEntry will_erase p c) := by
  obtain ⟨o, it⟩ := p
  unfold batchWriteEntry
  dsimp only
  split
  · exact h
  · cases ho : c.cacheCoins.lookup o with
    | none =>
      dsimp only
      split
      · have htried := fetchCoin_of_none ho .missing
        rw [fetchCoin, ho] at htried
        rw [(EStateM.Result.ok.inj htried).2]
        exact h.rewrite nofun
      · next hnot =>
        generalize hcoin : (if (will_erase || it.coin.isSpent) = true then it.coin
          else HeldCoin.empty.assign it.coin) = coin
        have hspent : coin.isSpent = it.coin.isSpent := by
          rw [← hcoin]
          split <;> rfl
        have hentry : (c.setEntry o .clean).setEntry o ⟨coin, false, false⟩ =
            c.setEntry o ⟨coin, false, false⟩ := by
          simp [setEntry]
        rw [hentry, emplace_eq h ho, setFresh_rewrite]
        refine h.rewrite fun e he => Option.some.inj he ▸ valid_of_dirty fun hs => ?_
        rw [Bool.false_or]
        exact eq_false_iff.2 fun hf => hnot ⟨hf, hspent ▸ hs⟩
    | some itUs =>
      dsimp only
      split
      · exact fun _ => h
      · split
        · rw [erase_eq h ho]
          exact h.rewrite nofun
        · next hnot =>
          generalize hcoin : (if (will_erase || it.coin.isSpent) = true then it.coin
            else itUs.coin.assign it.coin) = coin
          have hspent : coin.isSpent = it.coin.isSpent := by
            rw [← hcoin]
            split <;> rfl
          have hvalid : LinkedEntry.Valid ⟨coin, true, itUs.fresh⟩ :=
            valid_of_dirty fun hs =>
              eq_false_iff.2 fun hf => hnot ⟨hf, hspent ▸ hs⟩
          rw [modify_eq h ho]
          exact h.rewrite fun e he => Option.some.inj he ▸ hvalid

end

end Operations

end LinkedCache

end SlithyTove
