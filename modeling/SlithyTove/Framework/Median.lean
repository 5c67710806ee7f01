import Mathlib.Data.List.Sort

/-!
# The median of a sliding window

The upper median of a list is the entry in the middle of the sorted list.  It lies above a bound
exactly if at most half of the list does not (`lt_upperMedian_iff`).

A sequence in which every new value is above the median of the `span` values before it (`Climbs`)
cannot stay under a bound for long.  The median never goes down, and once more than half of a window
consists of values above it, it has gone up; `Climbs.length_le` counts how many values that leaves.
The longest one takes the least value each time (`climbLength`), and where no value of a full window
is above the median (`Settled`) it is as long as that count.  Values are listed with the newest
first.
-/

namespace SlithyTove.Framework

open List

section Median

variable {α : Type*} [LinearOrder α]

/-- The entry at position `n / 2` of the sorted list; the default is for the empty list. -/
def upperMedian (default : α) (l : List α) : α :=
  let sorted := l.mergeSort
  sorted[sorted.length / 2]?.getD default

lemma lt_getElem_iff_countP_le : ∀ {l : List α}, l.Pairwise (· ≤ ·) → ∀ {k : ℕ} (hk : k < l.length)
    (t : α), t < l[k] ↔ l.countP (· ≤ t) ≤ k
  | a :: l, hsorted, k, hk, t => by
    obtain ⟨hfirst, hrest⟩ := pairwise_cons.1 hsorted
    by_cases hat : a ≤ t
    · cases k with
      | zero => simp [hat]
      | succ k =>
        have hk' : k < l.length := by simpa using hk
        rw [getElem_cons_succ, lt_getElem_iff_countP_le hrest hk' t,
          countP_cons_of_pos (by simpa using hat)]
        exact Nat.succ_le_succ_iff.symm
    · -- Every entry is above the bound.
      have habove : ∀ x ∈ a :: l, t < x := forall_mem_cons.2
        ⟨not_le.1 hat, fun x hx => (not_le.1 hat).trans_le (hfirst x hx)⟩
      have hnone : (a :: l).countP (· ≤ t) = 0 := by
        rw [countP_eq_zero]
        intro x hx
        simpa using habove x hx
      rw [hnone]
      exact iff_of_true (habove _ (getElem_mem hk)) (Nat.zero_le k)

lemma lt_upperMedian_iff {default : α} {l : List α} (hne : l ≠ []) (t : α) :
    t < upperMedian default l ↔ l.countP (· ≤ t) ≤ l.length / 2 := by
  have hperm := mergeSort_perm l (· ≤ ·)
  have hlen : l.length / 2 < (l.mergeSort (· ≤ ·)).length := by
    have := length_pos_iff.2 hne
    rw [hperm.length_eq]
    omega
  rw [upperMedian, hperm.length_eq, List.getElem?_eq_getElem hlen, Option.getD_some,
    lt_getElem_iff_countP_le (pairwise_mergeSort' (· ≤ ·) l) hlen, hperm.countP_eq]

end Median

/-! ## A window that slides -/

section Window

variable {span : ℕ}

/-- The median of the newest `span` values. -/
def windowMedian (span : ℕ) (values : List ℤ) : ℤ := upperMedian 0 (values.take span)

/-- Values that come after `past`, each above the median before it and none above `limit`. -/
def Climbs (span : ℕ) (limit : ℤ) : (past : List ℤ) → (values : List ℤ) → Prop
  | _, [] => True
  | past, x :: values =>
    windowMedian span past < x ∧ x ≤ limit ∧ Climbs span limit (x :: past) values

variable {past : List ℤ}

lemma lt_windowMedian_iff (hspan : 0 < span) (hne : past ≠ []) (t : ℤ) :
    t < windowMedian span past ↔
      (past.take span).countP (· ≤ t) ≤ min span past.length / 2 := by
  have hwindow : past.take span ≠ [] := by
    rw [Ne, take_eq_nil_iff]
    exact not_or_intro hspan.ne' hne
  rw [windowMedian, lt_upperMedian_iff hwindow, length_take]

lemma windowMedian_le_cons (hspan : 0 < span) (hne : past ≠ []) {x : ℤ}
    (hx : windowMedian span past < x) : windowMedian span past ≤ windowMedian span (x :: past) := by
  have hbefore := (lt_windowMedian_iff hspan hne (windowMedian span past - 1)).1 (by omega)
  suffices habove : windowMedian span past - 1 < windowMedian span (x :: past) by omega
  refine (lt_windowMedian_iff hspan (cons_ne_nil _ _) _).2 ?_
  obtain ⟨n, rfl⟩ := Nat.exists_eq_add_one_of_ne_zero hspan.ne'
  have hfewer : (past.take n).countP (· ≤ windowMedian (n + 1) past - 1) ≤
      (past.take (n + 1)).countP (· ≤ windowMedian (n + 1) past - 1) :=
    (take_sublist_take_left (Nat.le_succ n)).countP_le
  rw [take_succ_cons, countP_cons_of_neg (by simp; omega), length_cons]
  omega

variable {limit : ℤ}

lemma climbs_append {front : List ℤ} : ∀ {past back : List ℤ},
    Climbs span limit past (front ++ back) ↔
      Climbs span limit past front ∧ Climbs span limit (front.reverse ++ past) back := by
  induction front with
  | nil => simp [Climbs]
  | cons x front ih =>
    intro past back
    rw [cons_append, Climbs, Climbs, ih, reverse_cons, append_assoc,
      singleton_append]
    tauto

lemma Climbs.min {values : List ℤ} {limit' : ℤ} : ∀ {past : List ℤ}, (∀ x ∈ values, x ≤ limit') →
    (Climbs span (min limit limit') past values ↔ Climbs span limit past values) := by
  induction values with
  | nil => exact fun _ => Iff.rfl
  | cons x values ih =>
    intro past hle
    obtain ⟨hx, hrest⟩ := forall_mem_cons.1 hle
    rw [Climbs, Climbs, ih hrest, Int.le_min, and_iff_left hx]

lemma Climbs.above {values : List ℤ} (hspan : 0 < span) : ∀ {past : List ℤ}, past ≠ [] →
    Climbs span limit past values → (∀ x ∈ values, windowMedian span past < x) ∧
      windowMedian span past ≤ windowMedian span (values.reverse ++ past) := by
  induction values with
  | nil => exact fun _ _ => ⟨nofun, le_rfl⟩
  | cons x values ih =>
    rintro past hne ⟨hx, -, hrest⟩
    have hgrow := windowMedian_le_cons hspan hne hx
    obtain ⟨hall, hlast⟩ := ih (cons_ne_nil x past) hrest
    refine ⟨forall_mem_cons.2 ⟨hx, fun y hy => hgrow.trans_lt (hall y hy)⟩, ?_⟩
    rw [reverse_cons, append_assoc, singleton_append]
    exact hgrow.trans hlast

lemma Climbs.le_limit {values : List ℤ} : ∀ {past : List ℤ}, Climbs span limit past values →
    ∀ x ∈ values, x ≤ limit := by
  induction values with
  | nil => exact fun _ _ h => absurd h not_mem_nil
  | cons x values ih => exact fun ⟨_, hx, hrest⟩ => forall_mem_cons.2 ⟨hx, ih hrest⟩

lemma Climbs.median_lt {values : List ℤ} (hspan : 0 < span) (hne : past ≠ [])
    (h : Climbs span limit past values) (hlen : values.length = span - span / 2) :
    windowMedian span past < windowMedian span (values.reverse ++ past) := by
  have hnew : (values.reverse.take span).countP (· ≤ windowMedian span past) = 0 := by
    rw [countP_eq_zero]
    intro x hx
    have hmem := mem_reverse.1 (mem_of_mem_take hx)
    simpa using (h.above hspan hne).1 x hmem
  refine (lt_windowMedian_iff hspan (by simp [hne]) _).2 ?_
  rw [take_append, countP_append, hnew, Nat.zero_add, length_reverse, hlen]
  refine (countP_le_length).trans ?_
  rw [length_take, length_append, length_reverse, hlen]
  omega

/-- **How long a climb can be**: half a window for each step of the median up to the limit. -/
lemma Climbs.length_le (hspan : 0 < span) (n : ℕ) : ∀ {past values : List ℤ},
    values.length = n → past ≠ [] → values ≠ [] → Climbs span limit past values →
    (values.length : ℤ) ≤ (span - span / 2 : ℕ) * (limit - windowMedian span past) := by
  -- Strong induction on the length: half a window at a time.
  induction n using Nat.strong_induction_on with
  | _ n ih =>
    intro past values hn hne hvalues h
    have hroom : windowMedian span past < limit := by
      cases values with
      | nil => exact absurd rfl hvalues
      | cons x values => exact h.1.trans_le h.2.1
    set half := span - span / 2 with hhalf
    by_cases hshort : values.length ≤ half
    · have hone : (half : ℤ) * 1 ≤ half * (limit - windowMedian span past) :=
        Int.mul_le_mul_of_nonneg_left (by omega) (by omega)
      omega
    · have hsplit : Climbs span limit past (values.take half ++ values.drop half) := by
        rwa [take_append_drop]
      obtain ⟨hfront, hback⟩ := climbs_append.1 hsplit
      have hlen : (values.take half).length = half := by
        rw [length_take]
        omega
      have hrise := hfront.median_lt hspan hne hlen
      have hrest : (values.drop half).length = n - half := by rw [length_drop, hn]
      have hle := ih (n - half) (by omega) hrest (by simp [hne])
        (fun hnil => by rw [hnil, length_nil] at hrest; omega) hback
      calc (values.length : ℤ) = half + (values.drop half).length := by omega
        _ ≤ half + half * (limit - windowMedian span ((values.take half).reverse ++ past)) :=
            Int.add_le_add_left hle _
        _ ≤ half + half * (limit - windowMedian span past - 1) :=
            Int.add_le_add_left (Int.mul_le_mul_of_nonneg_left (by omega) (by omega)) _
        _ = half * (limit - windowMedian span past) := by
            rw [Int.mul_sub _ _ 1, Int.mul_one]
            omega

/-! ## The longest climb -/

/-- How far one gets by taking the least value above the median each time, in at most `fuel`
steps. -/
def climbLength (span : ℕ) (limit : ℤ) : (fuel : ℕ) → List ℤ → ℕ
  | 0, _ => 0
  | fuel + 1, past =>
    if windowMedian span past < limit then
      climbLength span limit fuel ((windowMedian span past + 1) :: past) + 1
    else 0

lemma climbLength_le (span : ℕ) (limit : ℤ) : ∀ (fuel : ℕ) (past : List ℤ),
    climbLength span limit fuel past ≤ fuel
  | 0, _ => le_rfl
  | fuel + 1, past => by
    rw [climbLength]
    split
    · exact Nat.succ_le_succ (climbLength_le span limit fuel _)
    · exact Nat.zero_le _

lemma exists_climbs (span : ℕ) (limit : ℤ) : ∀ (fuel : ℕ) (past : List ℤ),
    ∃ values, values.length = climbLength span limit fuel past ∧ Climbs span limit past values
  | 0, _ => ⟨[], rfl, trivial⟩
  | fuel + 1, past => by
    rw [climbLength]
    split
    next hlt =>
      obtain ⟨values, hlen, hclimbs⟩ := exists_climbs span limit fuel (_ :: past)
      exact ⟨(windowMedian span past + 1) :: values, congrArg (· + 1) hlen,
        Int.lt_succ _, hlt, hclimbs⟩
    next => exact ⟨[], rfl, trivial⟩

lemma windowMedian_mono (hspan : 0 < span) {past past' : List ℤ} (h : Forall₂ (· ≤ ·) past past')
    (hne : past ≠ []) : windowMedian span past ≤ windowMedian span past' := by
  have hcount : ∀ {l l' : List ℤ} (t : ℤ), Forall₂ (· ≤ ·) l l' →
      l'.countP (· ≤ t) ≤ l.countP (· ≤ t) := by
    intro l l' t hl
    induction hl with
    | nil => exact le_rfl
    | @cons a b l l' hab _ ih =>
      rw [countP_cons, countP_cons]
      split_ifs with hb ha
      · omega
      · exact absurd (hab.trans (by simpa using hb)) (by simpa using ha)
      · omega
      · omega
  have hne' : past' ≠ [] := by
    rintro rfl
    exact hne (forall₂_nil_right_iff.mp h)
  suffices hlt : windowMedian span past - 1 < windowMedian span past' by omega
  have hbefore := (lt_windowMedian_iff hspan hne (windowMedian span past - 1)).1 (by omega)
  refine (lt_windowMedian_iff hspan hne' _).2 ?_
  rw [← h.length_eq]
  exact (hcount _ (forall₂_take span h)).trans hbefore

/-- **No climb is longer** than the one that takes the least values. -/
lemma Climbs.length_le_climbLength (hspan : 0 < span) {values : List ℤ} :
    ∀ {fuel : ℕ} {past past' : List ℤ}, Forall₂ (· ≤ ·) past' past → past' ≠ [] →
    Climbs span limit past values → values.length ≤ fuel →
    values.length ≤ climbLength span limit fuel past' := by
  induction values with
  | nil => exact fun _ _ _ _ => Nat.zero_le _
  | cons x values ih =>
    intro fuel past past' hle hne ⟨hx, hlimit, hrest⟩ hfuel
    obtain ⟨fuel, rfl⟩ := Nat.exists_eq_add_one_of_ne_zero (Nat.ne_zero_of_lt hfuel)
    have hmedian := windowMedian_mono hspan hle hne
    rw [climbLength, if_pos (by omega)]
    exact Nat.succ_le_succ (ih (.cons (by omega) hle) (cons_ne_nil _ _) hrest
      (Nat.le_of_succ_le_succ hfuel))

/-- A full window, none of whose values is above the median. -/
def Settled (span : ℕ) (past : List ℤ) : Prop :=
  span ≤ past.length ∧ ∀ t ∈ past.take span, t ≤ windowMedian span past

lemma countP_window {j : ℕ} {m t : ℤ} (h : Settled span past) (hm : windowMedian span past = m)
    (hj : j ≤ span) (hmt : m ≤ t) :
    ((replicate j (m + 1) ++ past).take span).countP (· ≤ t) =
      (if m < t then j else 0) + (span - j) := by
  have hold : (past.take (span - j)).countP (· ≤ t) = span - j := by
    rw [countP_eq_length.2 fun x hx => ?_, length_take]
    · have := h.1
      omega
    · have := h.2 x ((take_subset_take_left past (Nat.sub_le span j)) hx)
      simpa using this.trans (hm.trans_le hmt)
  rw [take_append, length_replicate, take_of_length_le (by rwa [length_replicate]), countP_append,
    hold, countP_replicate]
  congr 1
  exact if_congr (decide_eq_true_iff.trans Int.add_one_le_iff) rfl rfl

/-- **Half a window of equal values** settles again, one higher. -/
lemma Settled.climb (hspan : 0 < span) (h : Settled span past) {limit : ℤ}
    (hlimit : windowMedian span past < limit) :
    ∃ values, values.length = span - span / 2 ∧ Climbs span limit past values ∧
      Settled span (values.reverse ++ past) ∧
      windowMedian span (values.reverse ++ past) = windowMedian span past + 1 := by
  obtain ⟨m, hm⟩ : ∃ m, windowMedian span past = m := ⟨_, rfl⟩
  have hne : ∀ j, replicate j (m + 1) ++ past ≠ [] := fun j hnil => by
    have := h.1
    rw [(append_eq_nil_iff.mp hnil).2, length_nil] at this
    omega
  have hlen : ∀ j, min span (replicate j (m + 1) ++ past).length = span := fun j => by
    have := h.1
    rw [length_append]
    omega
  -- up to there the median stays
  have hclimbs : ∀ i j, i + j ≤ span - span / 2 →
      Climbs span limit (replicate j (m + 1) ++ past) (replicate i (m + 1)) := by
    intro i
    induction i with
    | zero => exact fun _ _ => trivial
    | succ i ih =>
      intro j hj
      have hmedian : ¬ m < windowMedian span (replicate j (m + 1) ++ past) := by
        rw [lt_windowMedian_iff hspan (hne j), countP_window h hm (by omega) le_rfl, hlen,
          if_neg (lt_irrefl m)]
        omega
      exact ⟨by omega, by omega, ih (j + 1) (by omega)⟩
  have hnew : windowMedian span (replicate (span - span / 2) (m + 1) ++ past) = m + 1 := by
    have hlow := lt_windowMedian_iff hspan (hne (span - span / 2)) m
    have hhigh := lt_windowMedian_iff hspan (hne (span - span / 2)) (m + 1)
    rw [countP_window h hm (by omega) (by omega), hlen] at hlow hhigh
    rw [if_neg (lt_irrefl m)] at hlow
    rw [if_pos (by omega)] at hhigh
    have := hlow.2 (by omega)
    have := mt hhigh.1 (by omega)
    omega
  rw [hm]
  refine ⟨replicate (span - span / 2) (m + 1), length_replicate, hclimbs _ 0 (by omega), ?_, ?_⟩
  · rw [reverse_replicate]
    refine ⟨by have := hlen (span - span / 2); omega, fun t ht => ?_⟩
    rw [hnew]
    rw [take_append] at ht
    rcases mem_append.1 ht with ht | ht
    · exact (mem_replicate.1 (mem_of_mem_take ht)).2.le
    · have := h.2 t (take_subset_take_left past (Nat.sub_le _ _) ht)
      omega
  · rw [reverse_replicate, hnew]

lemma Settled.exists_climbs (hspan : 0 < span) : ∀ (n : ℕ) {past : List ℤ}, Settled span past →
    windowMedian span past + n ≤ limit →
    ∃ values, values.length = (span - span / 2) * n ∧ Climbs span limit past values
  | 0, _, _, _ => ⟨[], rfl, trivial⟩
  | n + 1, past, h, hlimit => by
    push_cast at hlimit
    have hlt : windowMedian span past < limit := by omega
    obtain ⟨front, hfront, hclimbs, hsettled, hmedian⟩ := h.climb hspan hlt
    obtain ⟨back, hback, hrest⟩ := exists_climbs hspan n hsettled (by omega)
    refine ⟨front ++ back, ?_, climbs_append.2 ⟨hclimbs, hrest⟩⟩
    rw [length_append, hfront, hback, Nat.mul_succ, Nat.add_comm]

end Window

end SlithyTove.Framework
