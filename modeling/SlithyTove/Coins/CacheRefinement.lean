import SlithyTove.Coins.Cache

/-!
# The layered cache is a map

What a stack of caches stands for is a plain map from outpoints to coins (`layersView`): the
topmost entry decides, and a spent entry hides whatever is below.  `EntryInv` says what the flags
of an entry promise about the view below it; it is the invariant from which everything follows,
that no call fails, that lookups answer as the plain map does, and that writing the flagged
entries to the layer below makes that layer stand for the whole map.
-/

namespace SlithyTove

open Framework CCoinsViewCache List Function Option

variable {Hash : Type} [DecidableEq Hash]

/-! ## What layers stand for -/

/-- The coin an entry stands for. -/
def CCoinsCacheEntry.view (e : CCoinsCacheEntry) : Option Coin :=
  if e.coin.isSpent then none else some e.coin

/-- The map a cache stands for over the map below. -/
def CCoinsViewCache.view (c : CCoinsViewCache Hash) (below : COutPoint Hash → Option Coin)
    (o : COutPoint Hash) : Option Coin :=
  match c.cacheCoins o with
  | some e => e.view
  | none => below o

/-- The map a list of layers stands for. -/
def layersView (base : BaseView Hash) :
    List (CCoinsViewCache Hash) → COutPoint Hash → Option Coin
  | [] => base.coin
  | c :: below => c.view (layersView base below)

/-- What the flags of an entry promise, given the coin below. -/
structure EntryInv (below : Option Coin) (e : CCoinsCacheEntry) : Prop where
  spent : e.coin.isSpent = true → e.coin = .empty ∧ e.dirty = true ∧ e.fresh = false
  fresh : e.fresh = true → e.dirty = true ∧ below = none
  clean : e.dirty = false → below = some e.coin

/-- The invariant of one cache: every entry keeps its promise, and the linked list holds exactly
the dirty entries and is counted correctly. -/
structure LayerInv (below : COutPoint Hash → Option Coin) (c : CCoinsViewCache Hash) : Prop where
  entry : ∀ o e, c.cacheCoins o = some e → EntryInv (below o) e
  flagged_iff : ∀ o, o ∈ c.flagged ↔ ∃ e, c.cacheCoins o = some e ∧ e.dirty = true
  nodup : c.flagged.Nodup
  count : c.m_dirty_count = c.flagged.length

/-- The invariant of a list of layers. -/
def LayersInv (base : BaseView Hash) : List (CCoinsViewCache Hash) → Prop
  | [] => True
  | c :: below => LayerInv (layersView base below) c ∧ LayersInv base below

variable {c : CCoinsViewCache Hash} {below : COutPoint Hash → Option Coin} {o : COutPoint Hash}
  {e : CCoinsCacheEntry}

section

omit [DecidableEq Hash]

lemma CCoinsViewCache.view_of_some (h : c.cacheCoins o = some e) : c.view below o = e.view := by
  rw [view, h]

lemma CCoinsViewCache.view_of_none (h : c.cacheCoins o = none) : c.view below o = below o := by
  rw [view, h]

lemma layerInv_empty (below : COutPoint Hash → Option Coin) :
    LayerInv below (.empty : CCoinsViewCache Hash) :=
  ⟨by simp [empty], by simp [empty], nodup_nil, rfl⟩

end

variable {c' : CCoinsViewCache Hash}

lemma view_of_update (h : c'.cacheCoins = Function.update c.cacheCoins o (some e)) :
    c'.view below = Function.update (c.view below) o e.view := by
  funext x
  by_cases hx : x = o
  · rw [hx, update_self, view, h, update_self]
  · rw [update_of_ne hx, view, view, h,
      update_of_ne hx]

lemma view_setEntry (c : CCoinsViewCache Hash) (below : COutPoint Hash → Option Coin)
    (o : COutPoint Hash) (e : CCoinsCacheEntry) :
    (c.setEntry o e).view below = Function.update (c.view below) o e.view :=
  view_of_update (c.setEntry_cacheCoins o e)

lemma view_setDirtyEntry (c : CCoinsViewCache Hash) (below : COutPoint Hash → Option Coin)
    (o : COutPoint Hash) (coin : Coin) (fresh : Bool) :
    (c.setDirtyEntry o coin fresh).view below =
      Function.update (c.view below) o (CCoinsCacheEntry.view ⟨coin, true, fresh⟩) :=
  view_of_update (c.setDirtyEntry_cacheCoins o coin fresh)

lemma view_of_erase (h : c'.cacheCoins = Function.update c.cacheCoins o none) :
    c'.view below = Function.update (c.view below) o (below o) := by
  funext x
  by_cases hx : x = o
  · rw [hx, update_self, view, h, update_self]
  · rw [update_of_ne hx, view, view, h,
      update_of_ne hx]

/-! ## Writes keep the invariant -/

/-- Whether there is a dirty entry at an outpoint. -/
def CCoinsViewCache.isDirtyAt (c : CCoinsViewCache Hash) (o : COutPoint Hash) : Bool :=
  (c.cacheCoins o).any CCoinsCacheEntry.dirty

variable (f : COutPoint Hash → Option Coin)
variable {entries : List (COutPoint Hash × CCoinsCacheEntry)}

section

variable (h : LayerInv below c)

include h

omit [DecidableEq Hash] in
lemma LayerInv.mem_flagged (o : COutPoint Hash) : o ∈ c.flagged ↔ c.isDirtyAt o = true := by
  rw [h.flagged_iff, isDirtyAt]
  cases c.cacheCoins o <;> simp

lemma LayerInv.setDirty {coin : Coin} {fresh : Bool} (he : EntryInv (below o) ⟨coin, true, fresh⟩) :
    LayerInv below ((c.uncount (c.isDirtyAt o)).setDirtyEntry o coin fresh) := by
  have hmem := h.mem_flagged o
  refine ⟨fun x e hx => ?_, fun x => ?_, ?_, ?_⟩
  · rw [setDirtyEntry_cacheCoins, uncount_cacheCoins] at hx
    by_cases hxo : x = o
    · rw [hxo, update_self, Option.some.injEq] at hx
      rw [hxo, ← hx]
      exact he
    · rw [update_of_ne hxo] at hx
      exact h.entry x e hx
  · have hset : x ∈ (if o ∈ c.flagged then c.flagged else c.flagged ++ [o]) ↔
        x = o ∨ x ∈ c.flagged := by
      split
      · next hin => exact ⟨.inr, fun hor => hor.elim (fun heq => heq ▸ hin) id⟩
      · rw [mem_append, mem_singleton, or_comm]
    rw [setDirtyEntry_flagged, uncount_flagged, hset,
      setDirtyEntry_cacheCoins, uncount_cacheCoins]
    by_cases hxo : x = o
    · rw [hxo, update_self]
      simp
    · rw [update_of_ne hxo, ← h.flagged_iff]
      simp [hxo]
  · rw [setDirtyEntry_flagged, uncount_flagged]
    split
    · exact h.nodup
    · next hnot =>
      refine nodup_append.2 ⟨h.nodup, nodup_singleton o, fun a ha b hb heq => hnot ?_⟩
      rwa [← mem_singleton.1 hb, ← heq]
  · rw [setDirtyEntry_count, uncount_count,
      setDirtyEntry_flagged, uncount_flagged, h.count]
    by_cases hin : o ∈ c.flagged
    · have hpos := length_pos_of_mem hin
      rw [if_pos (hmem.1 hin), if_pos hin]
      omega
    · rw [if_neg fun hd => hin (hmem.2 hd), if_neg hin, length_append,
        length_singleton]
      omega

lemma LayerInv.erase (o : COutPoint Hash) :
    LayerInv below ((c.uncount (c.isDirtyAt o)).eraseEntry o) := by
  have hflagged : (c.flagged.filter fun x => x ≠ o) = c.flagged.erase o := by
    rw [h.nodup.erase_eq_filter]
    refine filter_congr fun x _ => ?_
    by_cases hxo : x = o <;> simp [hxo]
  have hmem := h.mem_flagged o
  refine ⟨fun x e hx => ?_, fun x => ?_, ?_, ?_⟩
  · rw [eraseEntry_cacheCoins, uncount_cacheCoins] at hx
    by_cases hxo : x = o
    · rw [hxo, update_self] at hx
      cases hx
    · rw [update_of_ne hxo] at hx
      exact h.entry x e hx
  · rw [eraseEntry_flagged, uncount_flagged, hflagged,
      h.nodup.mem_erase_iff, eraseEntry_cacheCoins,
      uncount_cacheCoins]
    by_cases hxo : x = o
    · rw [hxo, update_self]
      simp
    · rw [update_of_ne hxo, ← h.flagged_iff]
      simp [hxo]
  · rw [eraseEntry_flagged, uncount_flagged, hflagged]
    exact h.nodup.erase o
  · rw [eraseEntry_count, uncount_count,
      eraseEntry_flagged, uncount_flagged, hflagged,
      length_erase, h.count]
    by_cases hin : o ∈ c.flagged
    · rw [if_pos (hmem.1 hin), if_pos hin]
    · rw [if_neg fun hd => hin (hmem.2 hd), if_neg hin, Nat.sub_zero]

lemma LayerInv.set (he : EntryInv (below o) e)
    (hdirty : e.dirty = c.isDirtyAt o) : LayerInv below (c.setEntry o e) := by
  refine ⟨fun x e' hx => ?_, fun x => ?_, h.nodup, h.count⟩
  · rw [setEntry_cacheCoins] at hx
    by_cases hxo : x = o
    · rw [hxo, update_self, Option.some.injEq] at hx
      rw [hxo, ← hx]
      exact he
    · rw [update_of_ne hxo] at hx
      exact h.entry x e' hx
  · rw [setEntry_flagged, setEntry_cacheCoins]
    by_cases hxo : x = o
    · rw [hxo, update_self, h.mem_flagged, ← hdirty]
      simp
    · rw [update_of_ne hxo]
      exact h.flagged_iff x

/-! ## Writing to the layer below -/

/-- The map after the entries of a cursor have been written to it. -/
def applyEntries (entries : List (COutPoint Hash × CCoinsCacheEntry)) :
    COutPoint Hash → Option Coin :=
  entries.foldl (fun f p => Function.update f p.1 p.2.view) f

omit [DecidableEq Hash] h in
lemma uncount_isDirtyAt_of_none (h : c.cacheCoins o = none) : c.uncount (c.isDirtyAt o) = c := by
  rw [isDirtyAt, h]
  rfl

omit [DecidableEq Hash] h in
lemma isDirtyAt_of_some (h : c.cacheCoins o = some e) : c.isDirtyAt o = e.dirty := by
  rw [isDirtyAt, h]
  rfl

lemma batchWriteEntry_spec (hdirty : e.dirty = true) (he : EntryInv (c.view below o) e) :
    ∃ c', c.batchWriteEntry (o, e) = .ok c' ∧ LayerInv below c' ∧
      c'.view below = Function.update (c.view below) o e.view := by
  cases hus : c.cacheCoins o with
  | none =>
    rw [view_of_none hus] at he
    have hnot : ¬ (e.fresh = true ∧ e.coin.isSpent = true) := by
      rintro ⟨hf, hs⟩
      rw [(he.spent hs).2.2] at hf
      cases hf
    refine ⟨c.setDirtyEntry o e.coin e.fresh, ?_, ?_, ?_⟩
    · simp only [batchWriteEntry, hdirty, hus, not_true_eq_false, if_false,
        if_neg hnot]
    · have hset := @LayerInv.setDirty _ _ c below o h e.coin e.fresh (hdirty ▸ he)
      rwa [uncount_isDirtyAt_of_none hus] at hset
    · exact view_setDirtyEntry c below o e.coin e.fresh
  | some itUs =>
    have hent := h.entry o itUs hus
    rw [view_of_some hus] at he
    -- A FRESH entry was promised that the view has no coin here.
    have hfresh : ¬ (e.fresh = true ∧ ¬ itUs.coin.isSpent = true) := by
      rintro ⟨hf, hs⟩
      have hnone := (he.fresh hf).2
      rw [CCoinsCacheEntry.view, if_neg hs] at hnone
      cases hnone
    have hbatch : c.batchWriteEntry (o, e) =
        if itUs.fresh ∧ e.coin.isSpent then .ok ((c.uncount itUs.dirty).eraseEntry o)
        else if itUs.dirty then .ok (c.setEntry o { itUs with coin := e.coin })
        else .ok (c.setDirtyEntry o e.coin itUs.fresh) := by
      simp only [batchWriteEntry, hdirty, hus, not_true_eq_false, if_false,
        if_neg hfresh]
    rw [hbatch, ← isDirtyAt_of_some hus]
    by_cases herase : itUs.fresh = true ∧ e.coin.isSpent = true
    · rw [if_pos herase]
      refine ⟨_, rfl, h.erase o, ?_⟩
      rw [view_of_erase (c := c) rfl, (hent.fresh herase.1).2, CCoinsCacheEntry.view,
        if_pos herase.2]
    · rw [if_neg herase]
      have hkeep : EntryInv (below o) ⟨e.coin, true, itUs.fresh⟩ := by
        refine ⟨fun hs => ⟨(he.spent hs).1, rfl, ?_⟩, fun hf => ⟨rfl, (hent.fresh hf).2⟩,
          fun hd => by cases hd⟩
        exact Bool.eq_false_iff.2 fun hf => herase ⟨hf, hs⟩
      by_cases hd : c.isDirtyAt o = true
      · rw [if_pos hd]
        refine ⟨_, rfl, ?_, view_setEntry c below o _⟩
        rw [hd]
        exact h.set hkeep hd.symm
      · rw [if_neg hd]
        have hset := h.setDirty hkeep
        have hun : c.uncount (c.isDirtyAt o) = c := by
          rw [Bool.eq_false_iff.2 hd]
          rfl
        rw [hun] at hset
        exact ⟨_, rfl, hset, view_setDirtyEntry c below o e.coin itUs.fresh⟩

lemma batchWrite_spec (hnodup : (entries.map Prod.fst).Nodup)
    (hentries : ∀ p ∈ entries, p.2.dirty = true ∧ EntryInv (c.view below p.1) p.2) :
    ∃ c', entries.foldlM batchWriteEntry c = .ok c' ∧ LayerInv below c' ∧
      c'.view below = applyEntries (c.view below) entries := by
  induction entries generalizing c with
  | nil => exact ⟨c, rfl, h, rfl⟩
  | cons p entries ih =>
    rw [map_cons, nodup_cons] at hnodup
    obtain ⟨hdirty, he⟩ := hentries p mem_cons_self
    obtain ⟨c₁, hpass, h₁, hview⟩ := batchWriteEntry_spec h hdirty he
    have hrest : ∀ q ∈ entries, q.2.dirty = true ∧ EntryInv (c₁.view below q.1) q.2 := by
      intro q hq
      have hne : q.1 ≠ p.1 := fun heq => hnodup.1 (heq ▸ mem_map_of_mem hq)
      rw [hview, update_of_ne hne]
      exact hentries q (mem_cons_of_mem _ hq)
    obtain ⟨c', hrun, h', hview'⟩ := ih h₁ hnodup.2 hrest
    refine ⟨c', foldlM_cons_eq_ok.2 ⟨c₁, hpass, hrun⟩, h', ?_⟩
    rw [hview', hview]
    rfl

omit h in
lemma base_batchWrite (b : BaseView Hash) (hdirty : ∀ p ∈ entries, p.2.dirty = true) :
    (entries.foldl BaseView.batchWriteEntry b).coin = applyEntries b.coin entries := by
  induction entries generalizing b with
  | nil => rfl
  | cons p entries ih =>
    have hone : (b.batchWriteEntry p).coin = Function.update b.coin p.1 p.2.view := by
      rw [BaseView.batchWriteEntry, if_neg (not_not.2 (hdirty p mem_cons_self)),
        CCoinsCacheEntry.view]
      split <;> simp
    rw [foldl_cons, ih _ fun q hq => hdirty q (mem_cons_of_mem _ hq), hone]
    rfl

variable {f : COutPoint Hash → Option Coin}

omit h in
lemma applyEntries_of_notMem (h : o ∉ entries.map Prod.fst) : applyEntries f entries o = f o := by
  induction entries generalizing f with
  | nil => rfl
  | cons p entries ih =>
    rw [map_cons, mem_cons, not_or] at h
    exact (ih h.2).trans (update_of_ne h.1 ..)

variable {p : COutPoint Hash × CCoinsCacheEntry}

omit h in
lemma applyEntries_of_mem (hnodup : (entries.map Prod.fst).Nodup)
    (h : p ∈ entries) : applyEntries f entries p.1 = p.2.view := by
  induction entries generalizing f with
  | nil => cases h
  | cons q entries ih =>
    rw [map_cons, nodup_cons] at hnodup
    rcases mem_cons.1 h with rfl | h
    · exact (applyEntries_of_notMem hnodup.1).trans (update_self ..)
    · exact ih hnodup.2 h

omit [DecidableEq Hash] h in
lemma mem_flaggedEntries :
    p ∈ c.flaggedEntries ↔ p.1 ∈ c.flagged ∧ c.cacheCoins p.1 = some p.2 := by
  obtain ⟨o, e⟩ := p
  simp only [flaggedEntries, mem_filterMap, map_eq_some_iff,
    Prod.mk.injEq]
  constructor
  · rintro ⟨o', hmem, e', hc, rfl, rfl⟩
    exact ⟨hmem, hc⟩
  · rintro ⟨hmem, hc⟩
    exact ⟨o, hmem, e, hc, rfl, rfl⟩

omit [DecidableEq Hash] in
lemma LayerInv.flaggedEntries_fst : c.flaggedEntries.map Prod.fst = c.flagged := by
  have hall : ∀ l : List (COutPoint Hash), (∀ o ∈ l, ∃ e, c.cacheCoins o = some e) →
      (l.filterMap fun o => (c.cacheCoins o).map (o, ·)).map Prod.fst = l := by
    intro l hl
    induction l with
    | nil => rfl
    | cons o l ih =>
      obtain ⟨e, he⟩ := hl o mem_cons_self
      rw [filterMap_cons_some (by rw [he]; rfl), map_cons,
        ih fun x hx => hl x (mem_cons_of_mem _ hx)]
  exact hall c.flagged fun o ho => ((h.flagged_iff o).1 ho).imp fun _ he => he.1

/-- **The flagged entries carry the whole difference** between a cache and the view below. -/
lemma LayerInv.applyEntries_flagged : applyEntries below c.flaggedEntries = c.view below := by
  have hfst := h.flaggedEntries_fst
  funext o
  cases hc : c.cacheCoins o with
  | none =>
    rw [view_of_none hc, applyEntries_of_notMem]
    rw [hfst, h.flagged_iff]
    rintro ⟨e, he, -⟩
    rw [hc] at he
    cases he
  | some e =>
    rw [view_of_some hc]
    by_cases hd : e.dirty = true
    · have hmem : (o, e) ∈ c.flaggedEntries :=
        mem_flaggedEntries.2 ⟨(h.flagged_iff o).2 ⟨e, hc, hd⟩, hc⟩
      exact applyEntries_of_mem (hfst ▸ h.nodup) hmem
    · have hclean := (h.entry o e hc).clean (Bool.eq_false_iff.2 hd)
      have hspent : ¬ e.coin.isSpent = true :=
        fun hs => hd ((h.entry o e hc).spent hs).2.1
      rw [applyEntries_of_notMem, hclean, CCoinsCacheEntry.view, if_neg hspent]
      rw [hfst, h.flagged_iff]
      rintro ⟨e', he', hd'⟩
      rw [hc, Option.some.injEq] at he'
      exact hd (he' ▸ hd')

end

variable {base : BaseView Hash} {top : CCoinsViewCache Hash}

lemma writeBelow_spec {below : List (CCoinsViewCache Hash)} (h : LayersInv base (top :: below)) :
    ∃ below' base', writeBelow top.flaggedEntries below base = .ok (below', base') ∧
      LayersInv base' below' ∧
      layersView base' below' = layersView base (top :: below) := by
  obtain ⟨htop, hbelow⟩ := h
  have hentries : ∀ p ∈ top.flaggedEntries, p.2.dirty = true ∧
      EntryInv (layersView base below p.1) p.2 := by
    intro p hp
    obtain ⟨hmem, hc⟩ := mem_flaggedEntries.1 hp
    obtain ⟨e, he, hd⟩ := (htop.flagged_iff p.1).1 hmem
    rw [hc, Option.some.injEq] at he
    exact ⟨he ▸ hd, htop.entry p.1 p.2 hc⟩
  cases below with
  | nil =>
    refine ⟨[], _, rfl, trivial, ?_⟩
    exact (base_batchWrite base fun p hp => (hentries p hp).1).trans htop.applyEntries_flagged
  | cons c rest =>
    obtain ⟨c', hrun, hc', hview⟩ := batchWrite_spec hbelow.1
      (htop.flaggedEntries_fst ▸ htop.nodup) hentries
    refine ⟨c' :: rest, base, ?_, ⟨hc', hbelow.2⟩, ?_⟩
    · exact bind_eq_ok.2 ⟨c', hrun, rfl⟩
    · exact hview.trans htop.applyEntries_flagged

/-! ## Lookups -/

variable {layers : List (CCoinsViewCache Hash)}

omit [DecidableEq Hash] in
lemma layersView_unspent {coin : Coin}
    (h : layersView base layers o = some coin) : coin.isSpent = false := by
  induction layers with
  | nil => exact base.unspent o coin h
  | cons c below ih =>
    rw [layersView] at h
    cases hc : c.cacheCoins o with
    | none =>
      rw [view_of_none hc] at h
      exact ih h
    | some e =>
      rw [view_of_some hc, CCoinsCacheEntry.view] at h
      split at h
      · cases h
      · next hs => exact Option.some.inj h ▸ Bool.eq_false_iff.2 hs

/-- Looking a coin up answers with the map and changes no view, in any layer. -/
lemma getCoin_spec (h : LayersInv base layers) (o : COutPoint Hash) :
    (getCoin base layers o).1 = layersView base layers o ∧
      LayersInv base (getCoin base layers o).2 ∧
      layersView base (getCoin base layers o).2 = layersView base layers ∧
      (getCoin base layers o).2.length = layers.length := by
  induction layers with
  | nil => exact ⟨rfl, trivial, rfl, rfl⟩
  | cons c below ih =>
    obtain ⟨hfound, hinv, hview, hlen⟩ := ih h.2
    rw [getCoin]
    cases hc : c.cacheCoins o with
    | some e => exact ⟨(view_of_some hc).symm, h, rfl, rfl⟩
    | none =>
      have hbelow : layersView base (c :: below) o = layersView base below o :=
        view_of_none hc
      rw [hbelow]
      rcases hget : getCoin base below o with ⟨found, below'⟩
      rw [hget] at hfound hinv hview hlen
      have hlayer : LayerInv (layersView base below') c := hview.symm ▸ h.1
      cases found with
      | none =>
        refine ⟨hfound, ⟨hlayer, hinv⟩, ?_, by simp [hlen]⟩
        rw [layersView, hview, layersView]
      | some coin =>
        have hunspent := layersView_unspent hfound.symm
        have hentry : EntryInv (layersView base below' o) ⟨coin, false, false⟩ := by
          rw [hview, ← hfound]
          exact ⟨fun hs => (by rw [hunspent] at hs; cases hs),
            fun hf => (by cases hf), fun _ => rfl⟩
        have hnotDirty : false = c.isDirtyAt o := by
          rw [isDirtyAt, hc]
          rfl
        refine ⟨hfound, ⟨hlayer.set hentry hnotDirty, hinv⟩, ?_, by simp [hlen]⟩
        rw [layersView, view_setEntry, hview, layersView]
        have hval : CCoinsCacheEntry.view ⟨coin, false, false⟩ =
            c.view (layersView base below) o := by
          rw [view_of_none hc, ← hfound, CCoinsCacheEntry.view, hunspent]
          rfl
        rw [hval, update_eq_self]

/-- `FetchCoin` brings the entry into the top layer, if the map has the coin. -/
lemma fetchCoin_spec {below : List (CCoinsViewCache Hash)}
    (h : LayersInv base (top :: below)) (o : COutPoint Hash) :
    ∃ top' below', fetchCoin ⟨top :: below, base⟩ o =
        (top'.cacheCoins o, ⟨top' :: below', base⟩) ∧ LayersInv base (top' :: below') ∧
      layersView base (top' :: below') = layersView base (top :: below) ∧
      below'.length = below.length ∧
      layersView base (top :: below) o = (top'.cacheCoins o).bind CCoinsCacheEntry.view := by
  obtain ⟨hfound, hinv, hview, hlen⟩ := getCoin_spec h o
  have hnonempty : (getCoin base (top :: below) o).2 ≠ [] := by
    intro hnil
    rw [hnil] at hlen
    cases hlen
  obtain ⟨top', below', hlayers⟩ := exists_cons_of_ne_nil hnonempty
  have hentry : top'.cacheCoins o = none → (getCoin base (top :: below) o).1 = none := by
    intro hnone
    rw [getCoin] at hlayers ⊢
    split at hlayers
    · next e he =>
      cases hlayers
      rw [he] at hnone
      cases hnone
    · split at hlayers
      · cases hlayers
        rw [setEntry_cacheCoins, update_self] at hnone
        cases hnone
      · rfl
  rw [hlayers] at hinv hview hlen
  refine ⟨top', below', ?_, hinv, hview, by simpa using hlen, ?_⟩
  · simp only [fetchCoin, hlayers, List.head?_cons, bind_some]
  · cases hc : top'.cacheCoins o with
    | none => exact hfound.symm.trans (hentry hc)
    | some e => exact (congrFun hview o).symm.trans (view_of_some hc)

/-! ## The plain map -/

/-- A call on a plain map from outpoints to coins. -/
def plainCall : CacheCall Hash → (COutPoint Hash → Option Coin) × CacheAnswer
  | .addCoin o coin _ =>
    (if CScript.isUnspendable coin.out.scriptPubKey then f else Function.update f o (some coin),
      .none)
  | .spendCoin o => (Function.update f o none, .none)
  | .accessCoin o => (f, .coin ((f o).getD .empty))
  | .getCoin o => (f, .found (f o))
  | .haveCoin o => (f, .have (f o).isSome)
  | .uncache _ => (f, .none)
  | .sync => (f, .none)
  | .flush => (f, .none)

/-- What a caller has to observe: no spent coin is added, and without `possible_overwrite` only
where there is none. -/
def CacheCall.Valid : CacheCall Hash → Prop
  | .addCoin o coin overwrite => coin.isSpent = false ∧ (overwrite = false → f o = none)
  | _ => True

/-! ## Each call -/

lemma addCoin_spec (h : LayerInv below c) {coin : Coin} {overwrite : Bool}
    (hvalid : (CacheCall.addCoin o coin overwrite).Valid (c.view below)) :
    ∃ c', c.addCoin o coin overwrite = .ok c' ∧ LayerInv below c' ∧
      c'.view below = (plainCall (c.view below) (.addCoin o coin overwrite)).1 := by
  obtain ⟨hspent, habsent⟩ := hvalid
  cases hu : CScript.isUnspendable coin.out.scriptPubKey with
  | true => exact ⟨c, by simp [addCoin, hspent, hu], h, (if_pos hu).symm⟩
  | false =>
    -- Without `possible_overwrite` whatever entry is there is spent.
    have hok : overwrite = false →
        ((c.cacheCoins o).getD ⟨.empty, false, false⟩).coin.isSpent = true := by
      intro how
      cases hc : c.cacheCoins o with
      | none => rfl
      | some e =>
        have hnone := habsent how
        rw [view_of_some hc, CCoinsCacheEntry.view] at hnone
        by_contra hs
        rw [getD_some] at hs
        rw [if_neg hs] at hnone
        cases hnone
    have hentry : EntryInv (below o) ⟨coin, true,
        ((c.cacheCoins o).getD ⟨.empty, false, false⟩).fresh ||
          (!overwrite && !((c.cacheCoins o).getD ⟨.empty, false, false⟩).dirty)⟩ := by
      refine ⟨fun hs => (by rw [hspent] at hs; cases hs), fun hf => ⟨rfl, ?_⟩,
        fun hd => (by cases hd)⟩
      cases hc : c.cacheCoins o with
      | none =>
        simp only [hc, getD_none, Bool.false_or, Bool.not_false, Bool.and_true,
          Bool.not_eq_true'] at hf
        exact (view_of_none hc).symm.trans (habsent hf)
      | some e =>
        have hent := h.entry o e hc
        simp only [hc, getD_some, Bool.or_eq_true, Bool.and_eq_true,
          Bool.not_eq_true'] at hf
        rcases hf with hf | ⟨how, hd⟩
        · exact (hent.fresh hf).2
        · have hs := hok how
          rw [hc, getD_some] at hs
          rw [(hent.spent hs).2.1] at hd
          cases hd
    have hcount : (if (c.cacheCoins o).isSome then
          c.uncount ((c.cacheCoins o).getD ⟨.empty, false, false⟩).dirty else c) =
        c.uncount (c.isDirtyAt o) := by
      cases hc : c.cacheCoins o with
      | none => exact (uncount_isDirtyAt_of_none hc).symm
      | some e => rw [isDirtyAt_of_some hc]; rfl
    refine ⟨_, ?_, h.setDirty hentry, ?_⟩
    · have hno : ¬ (¬ overwrite = true ∧
          ¬ ((c.cacheCoins o).getD ⟨.empty, false, false⟩).coin.isSpent = true) :=
        fun hboth => hboth.2 (hok (Bool.eq_false_iff.2 hboth.1))
      simp only [addCoin, hspent, hu, Bool.false_eq_true, if_false, if_neg hno,
        hcount]
    · rw [view_setDirtyEntry, CCoinsCacheEntry.view, hspent]
      simp only [plainCall, hu]
      rfl

lemma spendEntry_spec (h : LayerInv below c) (he : c.cacheCoins o = some e) :
    LayerInv below (c.spendEntry o e) ∧
      (c.spendEntry o e).view below = Function.update (c.view below) o none := by
  have hent := h.entry o e he
  rw [spendEntry, ← isDirtyAt_of_some he]
  split
  · next hf =>
    refine ⟨h.erase o, ?_⟩
    rw [view_of_erase (c := c) rfl, (hent.fresh hf).2]
  · next hf =>
    rw [Bool.eq_false_iff.2 hf]
    refine ⟨h.setDirty ⟨fun _ => ⟨rfl, rfl, rfl⟩, fun hf' => (by cases hf'),
      fun hd => (by cases hd)⟩, ?_⟩
    exact view_setDirtyEntry _ below o .empty false

lemma uncache_spec (h : LayerInv below c) (o : COutPoint Hash) :
    LayerInv below (c.uncache o) ∧ (c.uncache o).view below = c.view below := by
  rw [uncache]
  split
  · next e he =>
    split
    · exact ⟨h, rfl⟩
    · next hd =>
      have hclean := (h.entry o e he).clean (Bool.eq_false_iff.2 hd)
      have hspent : ¬ e.coin.isSpent = true := fun hs => hd ((h.entry o e he).spent hs).2.1
      have hun : c.uncount (c.isDirtyAt o) = c := by
        rw [isDirtyAt_of_some he, Bool.eq_false_iff.2 hd]
        rfl
      have herase := h.erase o
      rw [hun] at herase
      refine ⟨herase, ?_⟩
      have hsame : below o = c.view below o := by
        rw [view_of_some he, CCoinsCacheEntry.view, if_neg hspent, hclean]
      rw [view_of_erase (c.eraseEntry_cacheCoins o), hsame, update_eq_self]
  · exact ⟨h, rfl⟩

lemma syncEntries_spec (hflagged : c.flagged = entries.map Prod.fst)
    (hnodup : (entries.map Prod.fst).Nodup) (hdirty : ∀ p ∈ entries, p.2.dirty = true)
    (hcount : c.m_dirty_count = entries.length) :
    (entries.foldl syncEntry c).flagged = [] ∧
      (entries.foldl syncEntry c).m_dirty_count = 0 ∧
      (∀ o, o ∉ entries.map Prod.fst →
        (entries.foldl syncEntry c).cacheCoins o = c.cacheCoins o) ∧
      ∀ p ∈ entries, (entries.foldl syncEntry c).cacheCoins p.1 =
        if p.2.coin.isSpent then none else some ⟨p.2.coin, false, false⟩ := by
  induction entries generalizing c with
  | nil => exact ⟨hflagged, hcount, fun _ _ => rfl, by simp⟩
  | cons p entries ih =>
    rw [map_cons, nodup_cons] at hnodup
    have hfilter : (c.flagged.filter fun x => x ≠ p.1) = entries.map Prod.fst := by
      rw [hflagged, map_cons, filter_cons_of_neg (by simp), filter_eq_self]
      intro x hx
      simpa using fun heq : x = p.1 => hnodup.1 (heq ▸ hx)
    have hstep : (c.syncEntry p).flagged = entries.map Prod.fst ∧
        (c.syncEntry p).m_dirty_count = entries.length ∧
        (c.syncEntry p).cacheCoins = Function.update c.cacheCoins p.1
          (if p.2.coin.isSpent then none else some ⟨p.2.coin, false, false⟩) := by
      have hminus : c.m_dirty_count - 1 = entries.length := by
        rw [hcount, length_cons, Nat.add_sub_cancel]
      rw [syncEntry, hdirty p mem_cons_self]
      split
      · exact ⟨hfilter, hminus, rfl⟩
      · exact ⟨hfilter, hminus, rfl⟩
    obtain ⟨hempty, hzero, hrest, hdone⟩ := ih hstep.1 hnodup.2
      (fun q hq => hdirty q (mem_cons_of_mem _ hq)) hstep.2.1
    rw [foldl_cons]
    refine ⟨hempty, hzero, fun o ho => ?_, fun q hq => ?_⟩
    · rw [map_cons, mem_cons, not_or] at ho
      rw [hrest o ho.2, hstep.2.2, update_of_ne ho.1]
    · rcases mem_cons.1 hq with rfl | hq
      · rw [hrest _ hnodup.1, hstep.2.2, update_self]
      · exact hdone q hq

/-- After `Sync` every entry is clean over the view that was written. -/
lemma sync_spec (h : LayerInv below c) :
    (c.flaggedEntries.foldl syncEntry c).flagged = [] ∧
      LayerInv (c.view below) (c.flaggedEntries.foldl syncEntry c) ∧
      (c.flaggedEntries.foldl syncEntry c).view (c.view below) =
        c.view below := by
  have hfst := h.flaggedEntries_fst
  have hdirty : ∀ p ∈ c.flaggedEntries, p.2.dirty = true := by
    intro p hp
    obtain ⟨hmem, hc⟩ := mem_flaggedEntries.1 hp
    obtain ⟨e, he, hd⟩ := (h.flagged_iff p.1).1 hmem
    rw [hc, Option.some.injEq] at he
    exact he ▸ hd
  have hlen : c.m_dirty_count = c.flaggedEntries.length := by
    rw [h.count, ← hfst, length_map]
  obtain ⟨hempty, hzero, hrest, hdone⟩ :=
    syncEntries_spec hfst.symm (hfst ▸ h.nodup) hdirty hlen
  -- Every entry left is a clean copy of what the map has.
  have hclean : ∀ o e, (c.flaggedEntries.foldl syncEntry c).cacheCoins o = some e →
      e.dirty = false ∧ e.fresh = false ∧ e.coin.isSpent = false ∧
        c.view below o = some e.coin := by
    intro o e he
    by_cases hmem : o ∈ c.flagged
    · obtain ⟨e', he', -⟩ := (h.flagged_iff o).1 hmem
      have hp := hdone (o, e') (mem_flaggedEntries.2 ⟨hmem, he'⟩)
      rw [he] at hp
      split at hp
      · cases hp
      · next hs =>
        rw [Option.some.inj hp]
        refine ⟨rfl, rfl, Bool.eq_false_iff.2 hs, ?_⟩
        rw [view_of_some he', CCoinsCacheEntry.view, if_neg hs]
    · rw [hrest o (hfst ▸ hmem)] at he
      have hd : e.dirty = false :=
        Bool.eq_false_iff.2 fun hd => hmem ((h.flagged_iff o).2 ⟨e, he, hd⟩)
      have hent := h.entry o e he
      have hs : ¬ e.coin.isSpent = true := fun hs => by
        rw [(hent.spent hs).2.1] at hd
        cases hd
      refine ⟨hd, Bool.eq_false_iff.2 fun hf => ?_, Bool.eq_false_iff.2 hs, ?_⟩
      · rw [(hent.fresh hf).1] at hd
        cases hd
      · rw [view_of_some he, CCoinsCacheEntry.view, if_neg hs]
  refine ⟨hempty, ⟨fun o e he => ?_, fun o => ?_, ?_, ?_⟩, ?_⟩
  · obtain ⟨hd, hf, hs, hview⟩ := hclean o e he
    exact ⟨fun hs' => (by rw [hs] at hs'; cases hs'), fun hf' => (by rw [hf] at hf'; cases hf'),
      fun _ => hview⟩
  · rw [hempty]
    refine ⟨fun hmem => absurd hmem not_mem_nil, ?_⟩
    rintro ⟨e, he, hd⟩
    rw [(hclean o e he).1] at hd
    cases hd
  · rw [hempty]
    exact nodup_nil
  · rw [hempty, hzero]
    rfl
  · funext o
    cases he : (c.flaggedEntries.foldl syncEntry c).cacheCoins o with
    | none => exact view_of_none he
    | some e =>
      obtain ⟨-, -, hs, hview⟩ := hclean o e he
      rw [view_of_some he, hview, CCoinsCacheEntry.view, hs]
      rfl

/-! ## Sequences of calls -/

/-- The map a stack stands for. -/
def CacheStack.view (s : CacheStack Hash) : COutPoint Hash → Option Coin :=
  layersView s.base s.layers

/-- The map the layers below the top stand for. -/
def CacheStack.viewBelow (s : CacheStack Hash) : COutPoint Hash → Option Coin :=
  layersView s.base s.layers.tail

/-- A stack with a top cache in which every layer keeps its invariant. -/
structure StackInv (s : CacheStack Hash) : Prop where
  layers_ne : s.layers ≠ []
  inv : LayersInv s.base s.layers

/-- **One call** on a stack does what it does on the map the stack stands for. -/
lemma runCall_spec {s : CacheStack Hash} (h : StackInv s) {call : CacheCall Hash}
    (hvalid : call.Valid s.view) :
    ∃ s', runCall s call = .ok (s', (plainCall s.view call).2) ∧ StackInv s' ∧
      s'.view = (plainCall s.view call).1 ∧
      ((call = .sync ∨ call = .flush) → s'.viewBelow = s.view) := by
  obtain ⟨hne, hinv⟩ := h
  obtain ⟨layers, base⟩ := s
  obtain ⟨top, below, rfl⟩ := exists_cons_of_ne_nil hne
  have hlookup := fetchCoin_spec hinv
  cases call with
  | addCoin o coin overwrite =>
    obtain ⟨c', hrun, hc', hview⟩ := addCoin_spec hinv.1 hvalid
    refine ⟨⟨c' :: below, base⟩, ?_, ⟨by simp, hc', hinv.2⟩, hview, by simp⟩
    exact bind_eq_ok.2 ⟨c', hrun, rfl⟩
  | spendCoin o =>
    obtain ⟨top', below', hfetch, hinv', hview, -, hval⟩ := hlookup o
    cases he : top'.cacheCoins o with
    | none =>
      rw [he] at hfetch hval
      refine ⟨⟨top' :: below', base⟩, ?_, ⟨by simp, hinv'⟩, ?_, by simp⟩
      · simp only [runCall, hfetch, plainCall]
      · refine hview.trans ?_
        exact (update_eq_self_iff.2 hval.symm).symm
    | some e =>
      rw [he] at hfetch
      obtain ⟨hspend, hspendView⟩ := spendEntry_spec hinv'.1 he
      refine ⟨⟨top'.spendEntry o e :: below', base⟩, ?_, ⟨by simp, hspend, hinv'.2⟩, ?_,
        by simp⟩
      · simp only [runCall, hfetch, plainCall]
        rfl
      · have hviews : top'.view (layersView base below') = layersView base (top :: below) :=
          hview
        rw [hviews] at hspendView
        exact hspendView
  | accessCoin o =>
    obtain ⟨top', below', hfetch, hinv', hview, -, hval⟩ := hlookup o
    refine ⟨⟨top' :: below', base⟩, ?_, ⟨by simp, hinv'⟩, hview, by simp⟩
    have hanswer : ((top'.cacheCoins o).map CCoinsCacheEntry.coin).getD .empty =
        (layersView base (top :: below) o).getD .empty := by
      rw [hval]
      cases he : top'.cacheCoins o with
      | none => rfl
      | some e =>
        rw [bind_some, CCoinsCacheEntry.view]
        split
        · next hs => exact ((hinv'.1.entry o e he).spent hs).1
        · rfl
    simp only [runCall, hfetch, hanswer]
    rfl
  | getCoin o =>
    obtain ⟨top', below', hfetch, hinv', hview, -, hval⟩ := hlookup o
    refine ⟨⟨top' :: below', base⟩, ?_, ⟨by simp, hinv'⟩, hview, by simp⟩
    have hanswer : ((top'.cacheCoins o).map CCoinsCacheEntry.coin).filter
        (fun c => ¬ c.isSpent) = layersView base (top :: below) o := by
      rw [hval]
      cases top'.cacheCoins o with
      | none => rfl
      | some e =>
        rw [bind_some, CCoinsCacheEntry.view, map_some]
        by_cases hs : e.coin.isSpent <;> simp [hs]
    simp only [runCall, hfetch, hanswer]
    rfl
  | haveCoin o =>
    obtain ⟨top', below', hfetch, hinv', hview, -, hval⟩ := hlookup o
    refine ⟨⟨top' :: below', base⟩, ?_, ⟨by simp, hinv'⟩, hview, by simp⟩
    have hanswer : ((top'.cacheCoins o).any fun e => ¬ e.coin.isSpent) =
        (layersView base (top :: below) o).isSome := by
      rw [hval]
      cases top'.cacheCoins o with
      | none => rfl
      | some e =>
        rw [bind_some, CCoinsCacheEntry.view]
        by_cases hs : e.coin.isSpent <;> simp [hs]
    simp only [runCall, hfetch, hanswer]
    rfl
  | uncache o =>
    obtain ⟨hc', hview⟩ := uncache_spec hinv.1 o
    exact ⟨⟨top.uncache o :: below, base⟩, rfl, ⟨by simp, hc', hinv.2⟩, hview, by simp⟩
  | sync =>
    obtain ⟨below', base', hwrite, hinv', hview⟩ := writeBelow_spec hinv
    obtain ⟨hempty, hlayer, hsame⟩ := sync_spec hinv.1
    refine ⟨⟨top.flaggedEntries.foldl syncEntry top :: below', base'⟩, ?_,
      ⟨by simp, ?_, hinv'⟩, ?_, fun _ => hview⟩
    · simp only [runCall, hwrite, ok_bind, ensure, if_pos hempty]
      rfl
    · rw [hview]
      exact hlayer
    · refine (congrArg _ hview).trans hsame
  | flush =>
    obtain ⟨below', base', hwrite, hinv', hview⟩ := writeBelow_spec hinv
    refine ⟨⟨.empty :: below', base'⟩, ?_, ⟨by simp, layerInv_empty _, hinv'⟩, hview,
      fun _ => hview⟩
    simp only [runCall, hwrite, ok_bind]
    rfl

/-- A sequence of calls on a stack, with the answers. -/
def runCalls (s : CacheStack Hash) :
    List (CacheCall Hash) → Except String (CacheStack Hash × List CacheAnswer)
  | [] => .ok (s, [])
  | call :: calls => do
    let (s, answer) ← runCall s call
    let (s, answers) ← runCalls s calls
    return (s, answer :: answers)

/-- The same calls on a plain map. -/
def plainCalls (f : COutPoint Hash → Option Coin) :
    List (CacheCall Hash) → (COutPoint Hash → Option Coin) × List CacheAnswer
  | [] => (f, [])
  | call :: calls =>
    let (f, answer) := plainCall f call
    let (f, answers) := plainCalls f calls
    (f, answer :: answers)

/-- Every call observes its condition on the map it meets. -/
def ValidCalls (f : COutPoint Hash → Option Coin) : List (CacheCall Hash) → Prop
  | [] => True
  | call :: calls => call.Valid f ∧ ValidCalls (plainCall f call).1 calls

/-- The stacks that arise: a base, new caches put on top and dropped again, and calls on the top
layer. -/
inductive StackReachable : CacheStack Hash → Prop
  | base (b : BaseView Hash) : StackReachable ⟨[], b⟩
  | push {s} : StackReachable s → StackReachable ⟨.empty :: s.layers, s.base⟩
  | pop {s} : StackReachable s → StackReachable ⟨s.layers.tail, s.base⟩
  | call {s call s' answer} : StackReachable s → call.Valid s.view →
      runCall s call = .ok (s', answer) → StackReachable s'

lemma StackReachable.inv {s : CacheStack Hash} (h : StackReachable s) :
    LayersInv s.base s.layers := by
  induction h with
  | base b => trivial
  | push _ ih => exact ⟨layerInv_empty _, ih⟩
  | @pop s _ ih =>
    cases hl : s.layers with
    | nil => trivial
    | cons c below =>
      rw [hl] at ih
      exact ih.2
  | @call s call s' answer _ hvalid hrun ih =>
    have hne : s.layers ≠ [] := by
      intro hnil
      rw [runCall, hnil] at hrun
      cases hrun
    obtain ⟨s'', hrun', hinv, -⟩ := runCall_spec ⟨hne, ih⟩ hvalid
    rw [hrun] at hrun'
    cases hrun'
    exact hinv.inv

lemma runCalls_spec {s : CacheStack Hash} (h : StackInv s) {calls : List (CacheCall Hash)}
    (hvalid : ValidCalls s.view calls) :
    ∃ s', runCalls s calls = .ok (s', (plainCalls s.view calls).2) ∧ StackInv s' ∧
      s'.view = (plainCalls s.view calls).1 := by
  induction calls generalizing s with
  | nil => exact ⟨s, rfl, h, rfl⟩
  | cons call calls ih =>
    obtain ⟨s₁, hrun, hinv, hview, -⟩ := runCall_spec h hvalid.1
    obtain ⟨s', hruns, hinv', hview'⟩ := ih hinv (hview ▸ hvalid.2)
    rw [hview] at hruns hview'
    refine ⟨s', ?_, hinv', hview'⟩
    exact bind_eq_ok.2 ⟨_, hrun, bind_eq_ok.2 ⟨_, hruns, rfl⟩⟩

/-- **The layered cache behaves as a plain map.**  On every stack that can arise, every sequence of
calls on the top layer that adds without `possible_overwrite` only where there is no coin runs
without an error, answers every lookup as the plain map does and ends in a stack that stands for
that map; and a `Sync` or `Flush` after it makes the layers below stand for exactly that map. -/
theorem runCalls_eq_plainCalls (s : CacheStack Hash) (calls : List (CacheCall Hash))
    (hreach : StackReachable s) (hne : s.layers ≠ []) (hvalid : ValidCalls s.view calls) :
    ∃ s', runCalls s calls = .ok (s', (plainCalls s.view calls).2) ∧
      s'.view = (plainCalls s.view calls).1 ∧
      ∀ write, write = .sync ∨ write = .flush →
        ∃ s'', runCall s' write = .ok (s'', .none) ∧
          s''.viewBelow = (plainCalls s.view calls).1 ∧
          s''.view = (plainCalls s.view calls).1 := by
  obtain ⟨s', hrun, hinv, hview⟩ := runCalls_spec ⟨hne, hreach.inv⟩ hvalid
  refine ⟨s', hrun, hview, fun write hwrite => ?_⟩
  have hplain : plainCall s'.view write = (s'.view, .none) := by
    rcases hwrite with rfl | rfl <;> rfl
  have hwriteValid : write.Valid s'.view := by
    rcases hwrite with rfl | rfl <;> trivial
  obtain ⟨s'', hrun', -, hview', hbelow⟩ := runCall_spec hinv hwriteValid
  rw [hplain] at hrun' hview'
  exact ⟨s'', hrun', (hbelow hwrite).trans hview, hview'.trans hview⟩

/-- Two empty caches over an empty base. -/
def emptyStack : CacheStack ℕ := ⟨[.empty, .empty], ⟨fun _ => none, by simp⟩⟩

theorem runCalls_emptyStack :
    ∃ s', runCalls emptyStack [.addCoin ⟨1, 0⟩ ⟨⟨5, [0x51]⟩, 1, false⟩ false, .sync,
        .spendCoin ⟨1, 0⟩, .haveCoin ⟨1, 0⟩] =
      .ok (s', [.none, .none, .none, .have false]) := by
  have hreach : StackReachable emptyStack := .push (.push (.base ⟨fun _ => none, by simp⟩))
  obtain ⟨s', hrun, -⟩ := runCalls_eq_plainCalls emptyStack
    [.addCoin ⟨1, 0⟩ ⟨⟨5, [0x51]⟩, 1, false⟩ false, .sync, .spendCoin ⟨1, 0⟩, .haveCoin ⟨1, 0⟩]
    hreach (by simp [emptyStack]) ⟨⟨by decide, fun _ => rfl⟩, trivial, trivial, trivial, trivial⟩
  exact ⟨s', hrun⟩

end SlithyTove
