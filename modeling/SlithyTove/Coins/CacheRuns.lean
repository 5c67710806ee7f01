import SlithyTove.Coins.CacheSanity

/-!
# The bookkeeping of a coins cache over a run

The operations that `Coins/CacheSanity.lean` leaves walk the linked list.  `Sync` cleans or erases
one entry after the other, and an exception of the view below finds the conditions intact between
any two of them.  `Flush` counts the entries down but leaves list and map alone until the walk is
over: when an exception ends the walk early, the count no longer fits the list.  Two more steps can
break the conditions: a lookup in a view that throws, for which the entry is already there, and a
`Sync` that erases a spent coin whose script was moved out after its memory was counted.

Over any sequence of calls without these three the conditions hold.
-/

namespace SlithyTove

open Framework List AList

variable {Hash : Type} [DecidableEq Hash]

namespace LinkedCache

/-! ## Walks over the linked list -/

lemma sum_map_toNat {α : Type} (f : α → Bool) (l : List α) :
    (l.map fun a => (f a).toNat).sum = (l.filter f).length := by
  induction l with
  | nil => rfl
  | cons a l ih =>
    rw [map_cons, sum_cons, ih]
    cases hf : f a with
    | true => rw [filter_cons_of_pos hf, length_cons, Bool.toNat_true, add_comm]
    | false =>
      rw [filter_cons_of_neg (by simp [hf]), Bool.toNat_false, zero_add]

section Walks

variable {c : LinkedCache Hash} {l : List (COutPoint Hash)}

lemma length_eq_flagged (hnodup : l.Nodup) (hmem : ∀ o, o ∈ l ↔ c.flaggedAt o = true) :
    l.length = keyedTotal LinkedEntry.flaggedCount c.cacheCoins ∧
      l.length ≤ c.cacheCoins.entries.length := by
  have hkeys : ((c.cacheCoins.entries.filter fun p => p.2.flagged).map Sigma.fst).Nodup :=
    c.cacheCoins.keys_nodup.sublist (filter_sublist.map Sigma.fst)
  have hperm : l.Perm ((c.cacheCoins.entries.filter fun p => p.2.flagged).map Sigma.fst) := by
    refine (perm_ext_iff_of_nodup hnodup hkeys).2 fun o => ?_
    rw [hmem, flaggedAt, mem_map]
    constructor
    · cases he : c.cacheCoins.lookup o with
      | none => simp
      | some e =>
        intro hf
        exact ⟨⟨o, e⟩, mem_filter.2 ⟨mem_lookup_iff.1 he, hf⟩, rfl⟩
    · rintro ⟨⟨o', e⟩, hp, rfl⟩
      obtain ⟨hin, hf⟩ := mem_filter.1 hp
      rw [mem_lookup_iff.2 hin]
      exact hf
  have hlength := hperm.length_eq
  rw [length_map] at hlength
  refine ⟨?_, hlength.trans_le (length_filter_le ..)⟩
  rw [hlength, keyedTotal]
  exact (sum_map_toNat _ _).symm

/-- The first `n` entries that a cursor passes from a position on. -/
def cursorEntries (links : Links (Option (COutPoint Hash))) :
    (n : ℕ) → Option (Option (COutPoint Hash)) → List (COutPoint Hash)
  | n + 1, some (some o) => o :: cursorEntries links n (links.next (some o))
  | _, _ => []

omit [DecidableEq Hash] in
lemma cursorEntries_eq_take {links : Links (Option (COutPoint Hash))} (n : ℕ) :
    ∀ (passed : List (COutPoint Hash)) {l : List (COutPoint Hash)},
      Ring links none ((passed ++ l).map some) →
      cursorEntries links n (some ((l.map some).headD none)) = l.take n := by
  induction n with
  | zero =>
    intro passed l _
    rw [cursorEntries, take_zero]
    nofun
  | succ n ih =>
    intro passed l hring
    cases l with
    | nil => rfl
    | cons o l =>
      have hsplit : Ring links none (passed.map some ++ some o :: l.map some) := by
        simpa using hring
      have hnext : links.next (some o) = some ((l.map some).headD none) := by
        rw [hsplit.next_eq]
        cases l <;> rfl
      rw [map_cons, headD_cons, cursorEntries, hnext, take_succ_cons,
        ih (passed ++ [o]) (by simpa using hring)]

/-- No spent entry whose coin the view below takes out has any memory, among those that are passed
before an exception. -/
def TakesNoMemory (base : BaseWrite Hash) (c : LinkedCache Hash) : Prop :=
  ∀ o ∈ cursorEntries c.links (base.throwsAfter.getD c.cacheCoins.entries.length)
      (c.links.next none), ∀ e ∈ c.cacheCoins.lookup o, e.coin.isSpent = true →
    base.takes o = true → e.coin.dynamicMemoryUsage = 0

variable {base : BaseWrite Hash} {o : COutPoint Hash}

section Entry

variable {o : COutPoint Hash} {e : LinkedEntry} (h : c.SanityCheck)
  (ho : c.cacheCoins.lookup o = some e)

include h ho

lemma erase_counted (husage : e.coin.dynamicMemoryUsage = 0) :
    (c.trySubDirty e.dirty).eraseEntry o = c.rewrite o none := by
  have hsame : (c.trySubDirty e.dirty).trySubUsage e.coin.dynamicMemoryUsage =
      c.trySubDirty e.dirty := by
    rw [husage]
    rfl
  rw [← hsame]
  exact erase_eq h ho

lemma erase_taken (husage : e.coin.dynamicMemoryUsage = 0) (coin : HeldCoin) :
    ((c.setEntry o { e with coin }).trySubDirty e.dirty).eraseEntry o = c.rewrite o none := by
  have hcommute : (c.setEntry o { e with coin }).trySubDirty e.dirty =
      (c.trySubDirty e.dirty).setEntry o { e with coin } := by
    unfold trySubDirty
    change (if c.m_dirty_count < e.dirty.toNat then _ else _) = _
    split <;> rfl
  rw [hcommute, ← erase_counted h ho husage, h.trySubDirty ho, eraseEntry_eq, eraseEntry_eq]
  simp [setEntry, flaggedAt, ho, erase_insert_self, LinkedEntry.flagged]

lemma clean_counted (hf : e.flagged = true) :
    (c.trySubDirty e.dirty).setClean o = c.rewrite o (some ⟨e.coin, false, false⟩) := by
  have husage := h.usage_le ho
  rw [h.trySubDirty ho, rewrite_of_lookup ho]
  simp [setClean, ho, hf, setEntry, relink, put, Nat.sub_add_cancel husage]

omit h ho in
lemma takeCoin_links (takes : COutPoint Hash → Bool) (will_erase : Bool) :
    (takeCoin takes will_erase c o).links = c.links := by
  unfold takeCoin
  cases c.cacheCoins.lookup o with
  | none => rfl
  | some e =>
    dsimp only
    split <;> rfl

lemma sync_entry (hf : e.flagged = true) {base : BaseWrite Hash}
    (htakes : e.coin.isSpent = true → base.takes o = true → e.coin.dynamicMemoryUsage = 0) :
    Ends (nextAndMaybeErase false o (takeCoin base.takes false c o))
      (fun _ c' => ∃ e' : Option LinkedEntry, c' = c.rewrite o e' ∧
        ∀ e'' ∈ e', e''.coin.isSpent = false ∧ e''.flagged = false)
      (fun failure c' => (∀ a, failure ≠ .aborted a) → c'.SanityCheck) := by
  cases hs : e.coin.isSpent with
  | false =>
    have hkept : takeCoin base.takes false c o = c := by
      simp [takeCoin, ho, hs]
    rw [hkept, nextAndMaybeErase, ho]
    simp only [Bool.false_eq_true, if_false, hs]
    refine ⟨_, clean_counted h ho hf, fun e'' he'' => ?_⟩
    rw [← Option.some.inj he'']
    exact ⟨hs, rfl⟩
  | true =>
    cases ht : base.takes o with
    | false =>
      have hkept : takeCoin base.takes false c o = c := by
        simp [takeCoin, ho, ht]
      rw [hkept, nextAndMaybeErase, ho]
      simp only [Bool.false_eq_true, if_false, hs, if_true]
      split
      · exact fun hne => absurd rfl (hne _)
      · next husage => exact ⟨none, erase_counted h ho (not_not.1 husage), nofun⟩
    | true =>
      have husage := htakes hs ht
      have htaken : takeCoin base.takes false c o =
          c.setEntry o { e with coin := e.coin.movedFrom } := by
        simp [takeCoin, ho, hs, ht]
      have hlookup : (c.setEntry o { e with coin := e.coin.movedFrom }).cacheCoins.lookup o =
          some { e with coin := e.coin.movedFrom } := lookup_insert _
      rw [htaken, nextAndMaybeErase, hlookup]
      simp only [Bool.false_eq_true, if_false, HeldCoin.isSpent_movedFrom, hs, if_true,
        HeldCoin.dynamicMemoryUsage_movedFrom, ne_eq, not_true_eq_false]
      exact ⟨none, erase_taken h ho husage _, nofun⟩

end Entry

lemma writeBelow_end (base : BaseWrite Hash) (will_erase : Bool) (fuel passed : ℕ) :
    writeBelow base will_erase fuel passed (some none) c =
      if base.throwsAfter.isSome then .error .thrownBelow c else .ok ⟨⟩ c := by
  cases fuel <;> rfl

lemma writeBelow_entry (base : BaseWrite Hash) (will_erase : Bool) (fuel passed : ℕ)
    (o : COutPoint Hash) :
    writeBelow base will_erase (fuel + 1) passed (some (some o)) c =
      if base.throwsAfter = some passed then .error .thrownBelow c
      else (nextAndMaybeErase will_erase o >>= fun _ => writeBelow base will_erase fuel (passed + 1)
        (c.links.next (some o))) (takeCoin base.takes will_erase c o) := by
  rw [← takeCoin_links base.takes will_erase]
  rfl

lemma exists_of_flaggedAt (h : c.flaggedAt o = true) :
    ∃ e, c.cacheCoins.lookup o = some e ∧ e.flagged = true := by
  cases ho : c.cacheCoins.lookup o with
  | none =>
    rw [flaggedAt_of_none ho] at h
    cases h
  | some e => exact ⟨e, rfl, (flaggedAt_of_lookup ho).symm.trans h⟩

/-- **The walk of `Sync`.**  By induction on the rest of the list: each entry is unlinked, so what
the list holds is what is still to come; `k` of it are passed. -/
lemma sync_walk {fuel passed k : ℕ} (h : c.SanityCheck)
    (hk : base.throwsAfter = some (passed + k) ∨ base.throwsAfter = none ∧ l.length ≤ k)
    (htakes : ∀ o ∈ l.take k, ∀ e ∈ c.cacheCoins.lookup o, e.coin.isSpent = true →
      base.takes o = true → e.coin.dynamicMemoryUsage = 0) (hring : Ring c.links none (l.map some))
    (hmem : ∀ o, o ∈ l ↔ c.flaggedAt o = true) (hfuel : l.length < fuel) :
    Ends (writeBelow base false fuel passed (some ((l.map some).headD none)) c)
      (fun _ c' => c'.SanityCheck ∧ Ring c'.links none [] ∧ c'.m_dirty_count = 0)
      (fun failure c' => (∀ a, failure ≠ .aborted a) → c'.SanityCheck) := by
  induction l generalizing c fuel passed k with
  | nil =>
    have hcount := (length_eq_flagged nodup_nil hmem).1
    rw [map_nil, headD_nil, writeBelow_end]
    split
    · exact fun _ => h
    · exact ⟨h, hring, h.count.trans hcount.symm⟩
  | cons o l ih =>
    obtain ⟨fuel, rfl⟩ : ∃ n, fuel = n + 1 := ⟨fuel - 1, by omega⟩
    obtain ⟨e, ho, hflagged⟩ := exists_of_flaggedAt ((hmem o).1 mem_cons_self)
    have hnodup : (o :: l).Nodup := (nodup_cons.1 hring.nodup).2.of_map some
    have hhead : Ring c.links none ([] ++ some o :: l.map some) := hring
    have hnext : c.links.next (some o) = some ((l.map some).headD none) := by
      rw [hhead.next_eq]
      cases l <;> rfl
    rw [map_cons, headD_cons, writeBelow_entry, hnext]
    split
    · exact fun _ => h
    · next hthrows =>
      obtain ⟨k, rfl⟩ : ∃ n, k = n + 1 := by
        refine Nat.exists_eq_succ_of_ne_zero fun hzero => ?_
        rcases hk with hk | ⟨-, hk⟩
        · exact hthrows (by rw [hk, hzero, add_zero])
        · rw [length_cons] at hk
          omega
      refine Ends.bind (sync_entry h ho hflagged (htakes o (by simp) e ho)) ?_
      rintro _ c' ⟨e', rfl, he'⟩
      have hoff : e'.any LinkedEntry.flagged = false := by
        cases e' with
        | none => rfl
        | some e' => exact (he' e' rfl).2
      have hvalid : ∀ e'' ∈ e', e''.Valid := fun e'' hin =>
        LinkedEntry.valid_of_unflagged (he' e'' hin).1 (he' e'' hin).2
      have hnot := (nodup_cons.1 hnodup).1
      refine ih (k := k) (h.rewrite hvalid) ?_ (fun x hx e'' hin => ?_) ?_ (fun x => ?_) ?_
      · rcases hk with hk | ⟨hk, hlength⟩
        · exact .inl (by rw [hk, add_assoc, add_comm 1])
        · exact .inr ⟨hk, Nat.le_of_succ_le_succ hlength⟩
      · have hxo : x ≠ o := fun heq => hnot (heq ▸ mem_of_mem_take hx)
        have hsame : (put c.cacheCoins o e').lookup x = c.cacheCoins.lookup x :=
          lookup_put_of_ne _ _ _ hxo
        exact htakes x (by simp [hx]) e'' (hsame ▸ hin)
      · change Ring (relink c.links o (c.flaggedAt o) (e'.any LinkedEntry.flagged)) none _
        rw [flaggedAt_of_lookup ho, hflagged, hoff]
        exact hhead.unlink
      · rw [flaggedAt_put (c := c) rfl, hoff]
        by_cases hx : x = o
        · simpa [hx] using hnot
        · rw [Function.update_of_ne hx, ← hmem]
          simp [hx]
      · rw [length_cons] at hfuel
        omega

/-- What holds while `Flush` walks: list and map are as they were, and what is left of the count is
what is left of the list. -/
structure Flushing (c : LinkedCache Hash) (passed rest : List (COutPoint Hash)) : Prop where
  ring : Ring c.links none ((passed ++ rest).map some)
  flagged : ∀ o, o ∈ passed ++ rest ↔ c.flaggedAt o = true
  dirty : ∀ o ∈ rest, ∀ e, c.cacheCoins.lookup o = some e → e.dirty = true
  count : c.m_dirty_count = rest.length
  assumed : c.assumed = true

lemma Flushing.takeCoin {passed rest : List (COutPoint Hash)} (h : Flushing c passed rest)
    (takes : COutPoint Hash → Bool) (o : COutPoint Hash) :
    Flushing (takeCoin takes true c o) passed rest := by
  unfold LinkedCache.takeCoin
  cases ho : c.cacheCoins.lookup o with
  | none => exact h
  | some e =>
    dsimp only
    split
    · have hflagged : (c.setEntry o { e with coin := e.coin.movedFrom }).flaggedAt =
          c.flaggedAt := by
        rw [flaggedAt_put (c := c) (e := some { e with coin := e.coin.movedFrom }) rfl]
        refine (congrArg _ ?_).trans (Function.update_eq_self o c.flaggedAt)
        exact (flaggedAt_of_lookup ho).symm
      refine ⟨h.ring, fun x => ?_, fun x hx e' he' => ?_, h.count, h.assumed⟩
      · rw [hflagged]
        exact h.flagged x
      · by_cases hxo : x = o
        · rw [hxo] at he' hx
          have hsame : (c.setEntry o { e with coin := e.coin.movedFrom }).cacheCoins.lookup o =
              some { e with coin := e.coin.movedFrom } := lookup_insert _
          rw [hsame] at he'
          rw [← Option.some.inj he']
          exact h.dirty o hx e ho
        · exact h.dirty x hx e' ((lookup_insert_ne hxo).symm.trans he')
    · exact h

/-- **The walk of `Flush`**, where the view below throws nothing. -/
lemma flush_walk (hbase : base.throwsAfter = none)
    {done rest : List (COutPoint Hash)} {fuel passed : ℕ} (h : Flushing c done rest)
    (hfuel : rest.length < fuel) :
    Ends (writeBelow base true fuel passed (some ((rest.map some).headD none)) c)
      (fun _ c' => Threads c'.links c'.flaggedAt ∧ c'.m_dirty_count = 0 ∧ c'.assumed = true)
      (fun _ _ => False) := by
  induction rest generalizing c done fuel passed with
  | nil =>
    rw [map_nil, headD_nil, writeBelow_end, hbase]
    exact ⟨⟨_, h.ring, h.flagged⟩, h.count, h.assumed⟩
  | cons o rest ih =>
    obtain ⟨fuel, rfl⟩ : ∃ n, fuel = n + 1 := ⟨fuel - 1, by omega⟩
    have hin : o ∈ done ++ o :: rest := mem_append_right _ mem_cons_self
    have hnext : c.links.next (some o) = some ((rest.map some).headD none) := by
      have hring := h.ring
      rw [map_append, map_cons] at hring
      rw [hring.next_eq]
      cases rest <;> rfl
    have htaken := h.takeCoin base.takes o
    obtain ⟨e, he, -⟩ := exists_of_flaggedAt ((htaken.flagged o).1 hin)
    have hdirty := htaken.dirty o mem_cons_self e he
    rw [map_cons, headD_cons, writeBelow_entry, hnext, hbase, if_neg nofun]
    refine Ends.bind (P := fun _ c' => Flushing c' (done ++ [o]) rest) ?_ fun _ c' hc' =>
      ih hc' (by rw [length_cons] at hfuel; omega)
    have hcount := htaken.count
    rw [length_cons] at hcount
    rw [nextAndMaybeErase, he]
    simp only [if_true, hdirty]
    rw [LinkedCache.trySubDirty, if_neg (by rw [hcount, Bool.toNat_true]; omega)]
    have hlist : done ++ o :: rest = done ++ [o] ++ rest := by simp
    refine ⟨hlist ▸ htaken.ring, hlist ▸ htaken.flagged,
      fun x hx => htaken.dirty x (mem_cons_of_mem _ hx), ?_, htaken.assumed⟩
    change _ - 1 = _
    omega

lemma clear_spec {keys : List (COutPoint Hash)} (hkeys : c.cacheCoins.keys = keys)
    (h : Threads c.links c.flaggedAt) :
    (keys.foldl eraseEntry c).cacheCoins = ∅ ∧
      Threads (keys.foldl eraseEntry c).links (fun _ => false) ∧
      (keys.foldl eraseEntry c).m_dirty_count = c.m_dirty_count ∧
      (keys.foldl eraseEntry c).assumed = c.assumed := by
  induction keys generalizing c with
  | nil =>
    have hempty : c.cacheCoins = ∅ := AList.ext (map_eq_nil_iff.1 hkeys)
    have hnone : c.flaggedAt = fun _ => false := by
      funext o
      exact flaggedAt_of_none (by rw [hempty]; rfl)
    exact ⟨hempty, hnone ▸ h, rfl, rfl⟩
  | cons o keys ih =>
    have herase := eraseEntry_eq c o
    have hrest : (c.eraseEntry o).cacheCoins.keys = keys := by
      rw [herase]
      rw [keys_erase, hkeys, erase_cons_head]
    have hcoins : (c.eraseEntry o).cacheCoins = put c.cacheCoins o none := by
      rw [herase]
      rfl
    have hlinked : Threads (c.eraseEntry o).links (c.eraseEntry o).flaggedAt := by
      rw [flaggedAt_put hcoins, herase]
      exact h.relink o false
    obtain ⟨hempty, hlinks, hcount, hassumed⟩ := ih hrest hlinked
    refine ⟨hempty, hlinks, hcount.trans ?_, hassumed.trans ?_⟩
    · rw [herase]
    · rw [herase]

lemma sanityCheck_of_empty (hempty : c.cacheCoins = ∅) (hlinks : Threads c.links fun _ => false)
    (hcount : c.m_dirty_count = 0) (husage : c.cachedCoinsUsage = 0) (hassumed : c.assumed = true) :
    c.SanityCheck where
  valid o e he := by
    rw [hempty] at he
    cases he
  linked := by
    have hnone : c.flaggedAt = fun _ => false := by
      funext o
      exact flaggedAt_of_none (by rw [hempty]; rfl)
    rwa [hnone]
  count := by rw [hcount, hempty, keyedTotal_empty]
  usage := by rw [husage, hempty, keyedTotal_empty]
  assumed := hassumed

end Walks

/-! ## Operations on the whole list -/

section WholeList

variable {c : LinkedCache Hash}

section

variable (h : c.SanityCheck)

include h

/-- `BatchWrite` from a child, whatever it writes and wherever it stops. -/
lemma keeps_batchWrite (will_erase : Bool) (entries : List (COutPoint Hash × LinkedEntry)) :
    Keeps (batchWrite will_erase entries c) := by
  induction entries generalizing c with
  | nil => exact h
  | cons p entries ih =>
    exact Ends.bind (keeps_batchWriteEntry h will_erase p) fun _ c' hc' => ih hc'

lemma keeps_spendCoin {o : COutPoint Hash} {base : BaseCoin}
    (hbase : (c.cacheCoins.lookup o).isSome ∨ base ≠ .throws) : Keeps (spendCoin o base c) :=
  Ends.bind (keeps_fetchCoin h base hbase) fun _ _ hc' => keeps_spendFetched hc'

variable {base : BaseWrite Hash}

lemma keeps_sync (htakes : TakesNoMemory base c) : Keeps (sync base c) := by
  obtain ⟨l, hring, hmem⟩ := h.linked
  have hnodup : l.Nodup := (nodup_cons.1 hring.nodup).2.of_map some
  have hfuel := (length_eq_flagged hnodup hmem).2
  have hwalk : Ends (writeAllBelow base false c)
      (fun _ c' => c'.SanityCheck ∧ Ring c'.links none [] ∧ c'.m_dirty_count = 0)
      (fun failure c' => (∀ a, failure ≠ .aborted a) → c'.SanityCheck) := by
    rw [TakesNoMemory, hring.next_sentinel, cursorEntries_eq_take _ [] hring] at htakes
    rw [writeAllBelow, hring.next_sentinel]
    refine sync_walk h ?_ htakes hring hmem (by omega)
    cases base.throwsAfter with
    | none => exact .inr ⟨rfl, hfuel⟩
    | some n => exact .inl (by simp)
  refine Ends.bind hwalk ?_
  rintro _ c' ⟨hc', hempty, hcount⟩
  have hassume : c'.assume (decide (c'.m_dirty_count = 0)) = c' := by
    rw [hcount, assume]
    simp
  rw [checkCleared, hassume]
  simp only [hempty.next_sentinel, headD_nil, ne_eq, not_true_eq_false, if_false]
  exact hc'

/-- `Flush`, unless an exception of the view below ends it after an entry. -/
lemma keeps_flush
    (hbase : base.throwsAfter = none ∨ base.throwsAfter = some 0 ∨ c.m_dirty_count = 0) :
    Keeps (flush base c) := by
  obtain ⟨l, hring, hmem⟩ := h.linked
  have hnodup : l.Nodup := (nodup_cons.1 hring.nodup).2.of_map some
  obtain ⟨hlength, hfuel⟩ := length_eq_flagged hnodup hmem
  have hcount : c.m_dirty_count = l.length := h.count.trans hlength.symm
  have hdirty : ∀ o ∈ l, ∀ e, c.cacheCoins.lookup o = some e → e.dirty = true := by
    intro o ho e he
    rw [← (h.valid o e he).flagged_eq, ← flaggedAt_of_lookup he]
    exact (hmem o).1 ho
  have hwalk : Ends (writeAllBelow base true c)
      (fun _ c' => Threads c'.links c'.flaggedAt ∧ c'.m_dirty_count = 0 ∧ c'.assumed = true)
      (fun failure c' => (∀ a, failure ≠ .aborted a) → c'.SanityCheck) := by
    rw [writeAllBelow, hring.next_sentinel]
    cases hthrows : base.throwsAfter with
    | none =>
      have hflushing : Flushing c [] l := ⟨hring, hmem, hdirty, hcount, h.assumed⟩
      exact (flush_walk hthrows hflushing (by omega)).mono (fun _ _ => id) fun _ _ => False.elim
    | some n =>
      -- The exception comes before the first entry is passed.
      cases l with
      | nil =>
        rw [map_nil, headD_nil, writeBelow_end, hthrows]
        exact fun _ => h
      | cons o l =>
        rw [hthrows, hcount] at hbase
        have hn : n = 0 := by simpa using hbase
        rw [map_cons, headD_cons, writeBelow_entry, hthrows, hn, if_pos rfl]
        exact fun _ => h
  refine Ends.bind hwalk ?_
  rintro _ c' ⟨hlinked, hcount', hassumed⟩
  have hassume : c'.assume (decide (c'.m_dirty_count = 0)) = c' := by
    rw [hcount', assume]
    simp
  rw [wipe, hassume]
  obtain ⟨hempty, hlinks, hkept, hassumed'⟩ := clear_spec rfl hlinked
  exact sanityCheck_of_empty hempty hlinks (hkept.trans hcount') rfl (hassumed'.trans hassumed)

lemma keeps_reset : Keeps (reset c) := by
  obtain ⟨hempty, hlinks, -, hassumed⟩ := clear_spec rfl h.linked
  exact sanityCheck_of_empty hempty hlinks rfl rfl (hassumed.trans h.assumed)

end

end WholeList

end LinkedCache

/-! ## Runs -/

/-- What is asked of a call: a lookup that has to ask the view below is not left by an exception of
it; a `Flush` is not left by one after an entry was passed; and at a `Sync` no memory goes with a
spent coin that the view below takes before an exception leaves it. -/
def CacheOperation.Meets (c : LinkedCache Hash) : CacheOperation Hash → Prop
  | .spendCoin o base => (c.cacheCoins.lookup o).isSome ∨ base ≠ .throws
  | .lookup o base => (c.cacheCoins.lookup o).isSome ∨ base ≠ .throws
  | .sync base => LinkedCache.TakesNoMemory base c
  | .flush base => base.throwsAfter = none ∨ base.throwsAfter = some 0 ∨ c.m_dirty_count = 0
  | .addCoin .. => True
  | .emplaceCoinInternalDANGER .. => True
  | .uncache .. => True
  | .batchWrite .. => True
  | .reset => True

instance (c : LinkedCache Hash) : (op : CacheOperation Hash) → Decidable (op.Meets c)
  | .spendCoin o base =>
    inferInstanceAs (Decidable ((c.cacheCoins.lookup o).isSome ∨ base ≠ .throws))
  | .lookup o base =>
    inferInstanceAs (Decidable ((c.cacheCoins.lookup o).isSome ∨ base ≠ .throws))
  | .sync _ => inferInstanceAs
    (Decidable (∀ o ∈ LinkedCache.cursorEntries _ _ _, ∀ e ∈ _, _ → _ → _))
  | .flush base => inferInstanceAs
      (Decidable (base.throwsAfter = none ∨ base.throwsAfter = some 0 ∨ c.m_dirty_count = 0))
  | .addCoin .. => .isTrue trivial
  | .emplaceCoinInternalDANGER .. => .isTrue trivial
  | .uncache .. => .isTrue trivial
  | .batchWrite .. => .isTrue trivial
  | .reset => .isTrue trivial

/-- Every call of a sequence meets what is asked of it, in the cache it finds. -/
def AllMeet : LinkedCache Hash → List (CacheOperation Hash) → Prop
  | _, [] => True
  | c, op :: ops =>
    op.Meets c ∧
      match coinsCacheAfter (op.procedure c) with
      | some c => AllMeet c ops
      | none => True

instance decidableAllMeet : (ops : List (CacheOperation Hash)) → (c : LinkedCache Hash) →
    Decidable (AllMeet c ops)
  | [], _ => .isTrue trivial
  | op :: ops, c =>
    have : Decidable (match coinsCacheAfter (op.procedure c) with
        | some c => AllMeet c ops
        | none => True) :=
      match coinsCacheAfter (op.procedure c) with
      | some c => decidableAllMeet ops c
      | none => .isTrue trivial
    inferInstanceAs (Decidable (_ ∧ _))

variable {c : LinkedCache Hash}

lemma keeps_procedure (h : c.SanityCheck) {op : CacheOperation Hash}
    (hmeets : op.Meets c) : LinkedCache.Keeps (op.procedure c) := by
  cases op with
  | addCoin o coin overwrite => exact LinkedCache.keeps_addCoin h coin overwrite
  | emplaceCoinInternalDANGER o coin => exact LinkedCache.keeps_emplace h coin
  | spendCoin o base => exact LinkedCache.keeps_spendCoin h hmeets
  | lookup o base => exact LinkedCache.keeps_fetchCoin h base hmeets
  | uncache o => exact LinkedCache.keeps_uncache h
  | batchWrite will_erase entries => exact LinkedCache.keeps_batchWrite h will_erase entries
  | sync base => exact LinkedCache.keeps_sync h hmeets
  | flush base => exact LinkedCache.keeps_flush h hmeets
  | reset => exact LinkedCache.keeps_reset h

lemma sanityCheck_after
    {r : EStateM.Result CacheFailure (LinkedCache Hash) PUnit} (h : LinkedCache.Keeps r)
    (hc : coinsCacheAfter r = some c) : c.SanityCheck := by
  cases r with
  | ok u c' =>
    cases hc
    exact h
  | error failure c' =>
    cases failure with
    | aborted a => cases hc
    | logic_error what =>
      cases hc
      exact h nofun
    | thrownBelow =>
      cases hc
      exact h nofun

variable {calls : List (CacheOperation Hash)}

lemma sanityCheck_afterAll {c' : LinkedCache Hash}
    (h : c.SanityCheck) (hmeets : AllMeet c calls) (hc : coinsCacheAfterAll c calls = some c') :
    c'.SanityCheck := by
  induction calls generalizing c with
  | nil =>
    cases hc
    exact h
  | cons op calls ih =>
    obtain ⟨c₁, hstep, hrest⟩ := Option.bind_eq_some_iff.1 hc
    obtain ⟨hop, hrun⟩ := hmeets
    rw [hstep] at hrun
    exact ih (sanityCheck_after (keeps_procedure h hop) hstep) hrun hrest

/-- **After any sequence of calls that meet what is asked of them, the bookkeeping of a cache is
right**: the flags are valid, the list threads the flagged entries, and both running figures are the
sums they stand for. -/
theorem sanityCheck_of_calls (calls : List (CacheOperation Hash)) (hmeets : AllMeet .new calls)
    (c : LinkedCache Hash) (hc : coinsCacheAfterAll .new calls = some c) : c.SanityCheck :=
  sanityCheck_afterAll LinkedCache.sanityCheck_new hmeets hc

/-- A coin with a script of forty bytes, on the heap. -/
def longScriptCoin (nValue : ℤ) : HeldCoin := ⟨⟨⟨nValue, List.replicate 40 0x51⟩, 1, false⟩, 40⟩

/-- A run through all kinds of calls. -/
def mixedCalls : List (CacheOperation ℕ) :=
  [.addCoin ⟨1, 0⟩ (longScriptCoin 5) false, .lookup ⟨2, 0⟩ (.found (longScriptCoin 7)),
    .addCoin ⟨2, 0⟩ (longScriptCoin 5) false, .spendCoin ⟨2, 0⟩ .missing, .uncache ⟨1, 0⟩,
    .batchWrite true [(⟨3, 0⟩, ⟨longScriptCoin 9, true, true⟩), (⟨1, 0⟩, ⟨.empty, true, false⟩)],
    .sync ⟨fun _ => true, none⟩, .emplaceCoinInternalDANGER ⟨4, 0⟩ (longScriptCoin 3),
    .sync ⟨fun _ => false, some 1⟩, .flush ⟨fun _ => true, none⟩, .lookup ⟨1, 0⟩ .missing]

theorem sanityCheck_of_calls_mixedCalls :
    ∃ c, coinsCacheAfterAll .new mixedCalls = some c ∧ c.SanityCheck := by
  have hsome : (coinsCacheAfterAll .new mixedCalls).isSome = true := by decide +kernel
  obtain ⟨c, hc⟩ := Option.isSome_iff_exists.1 hsome
  exact ⟨c, hc, sanityCheck_of_calls mixedCalls (by decide +kernel) c hc⟩

/-- A coin is added, and the view below throws after it was passed to it. -/
def failedFlush : List (CacheOperation ℕ) :=
  [.addCoin ⟨1, 0⟩ (longScriptCoin 5) false, .flush ⟨fun _ => false, some 1⟩]

/-- The view below throws when it is asked for a coin. -/
def failedLookup : List (CacheOperation ℕ) := [.lookup ⟨1, 0⟩ .throws]

/-- A spent coin with a long script is emplaced, and a cache below takes it. -/
def takenScript : List (CacheOperation ℕ) :=
  [.emplaceCoinInternalDANGER ⟨1, 0⟩ (longScriptCoin (-1)), .sync ⟨fun _ => true, none⟩]

lemma exists_fails_of_any
    {p : LinkedCache Hash → Bool} (h : (coinsCacheAfterAll .new calls).any p = true)
    (hp : ∀ c, p c = true → ¬ c.SanityCheck) :
    ∃ c, coinsCacheAfterAll .new calls = some c ∧ ¬ c.SanityCheck := by
  cases hc : coinsCacheAfterAll .new calls with
  | none =>
    rw [hc] at h
    cases h
  | some c =>
    rw [hc] at h
    exact ⟨c, rfl, hp c h⟩

/-- The count is short after the first run, the second leaves a spent entry that is not DIRTY, and
the third leaves memory of an entry that is gone. -/
theorem sanityCheck_fails :
    (∃ c, coinsCacheAfterAll .new failedFlush = some c ∧ ¬ c.SanityCheck) ∧
      (∃ c, coinsCacheAfterAll .new failedLookup = some c ∧ ¬ c.SanityCheck) ∧
      ∃ c, coinsCacheAfterAll .new takenScript = some c ∧ ¬ c.SanityCheck := by
  refine ⟨?_, ?_, ?_⟩
  · have hcount : (coinsCacheAfterAll .new failedFlush).any (fun c => c.m_dirty_count ≠
        keyedTotal LinkedEntry.flaggedCount c.cacheCoins) = true := by decide +kernel
    exact exists_fails_of_any hcount fun c hc h => of_decide_eq_true hc h.count
  · have hclean : (coinsCacheAfterAll .new failedLookup).any (fun c =>
        c.cacheCoins.lookup ⟨1, 0⟩ = some .clean) = true := by decide +kernel
    refine exists_fails_of_any hclean fun c hc h => ?_
    have hdirty := ((h.valid _ _ (of_decide_eq_true hc)).spent rfl).1
    cases hdirty
  · have husage : (coinsCacheAfterAll .new takenScript).any (fun c => c.cachedCoinsUsage ≠
        keyedTotal LinkedEntry.usage c.cacheCoins) = true := by decide +kernel
    exact exists_fails_of_any husage fun c hc h => of_decide_eq_true hc h.usage

end SlithyTove
