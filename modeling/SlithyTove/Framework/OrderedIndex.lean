import Mathlib.Data.List.MinMax
import Mathlib.Data.List.Sort

/-!
# Ordered indexes

A container with several ordered indexes is one list of elements and, for each index, a key into a
linear order: an iterator of the index is an element, and moving it goes to the element with the
next larger key.  `lowerBound`, `upperBound` and `lastBelow` are the searches, and `indexFrom` is
the list of elements that an iterator visits from a lower bound on.  Keys are meant to be unique;
the lemmas say what holds of every search result.

An index that allows equal keys goes through the elements in some order that the keys do not
determine. An `Enumeration` is one such order for every content of the container, and results for an
arbitrary enumeration do not depend on how ties are broken.
-/

namespace SlithyTove.Framework

open List

variable {α κ : Type*} {l : List α}

/-- One element more, which is not related to the others: still only equal elements are related. -/
lemma eq_of_related_cons {R : α → α → Prop} {x : α} (hsymm : ∀ a b, R a b → R b a)
    (hold : ∀ a ∈ l, ∀ b ∈ l, R a b → a = b) (hnew : ∀ a ∈ l, ¬ R a x) :
    ∀ a ∈ x :: l, ∀ b ∈ x :: l, R a b → a = b := by
  intro a ha b hb hab
  rcases mem_cons.1 ha with rfl | ha' <;> rcases mem_cons.1 hb with rfl | hb'
  · rfl
  · exact absurd (hsymm _ _ hab) (hnew b hb')
  · exact absurd hab (hnew a ha')
  · exact hold a ha' b hb' hab

variable [LinearOrder κ] (key : α → κ)

/-- The first element whose key is not below `k`. -/
def lowerBound (l : List α) (k : κ) : Option α := (l.filter fun a => k ≤ key a).argmin key

/-- The first element whose key is above `k`. -/
def upperBound (l : List α) (k : κ) : Option α := (l.filter fun a => k < key a).argmin key

/-- The last element whose key is below `k`. -/
def lastBelow (l : List α) (k : κ) : Option α := (l.filter fun a => key a < k).argmax key

/-- The elements from the lower bound of `k` on, in the order of the index. -/
def indexFrom (l : List α) (k : κ) : List α :=
  (l.filter fun a => k ≤ key a).insertionSort fun a b => key a ≤ key b

variable {key} {l : List α} {k : κ} {a : α}

lemma mem_of_lowerBound (h : lowerBound key l k = some a) : a ∈ l ∧ k ≤ key a := by
  have hmem := argmin_mem (Option.mem_def.2 h)
  simpa using hmem

variable {b : α}

lemma le_of_lowerBound (h : lowerBound key l k = some a) (hb : b ∈ l) (hk : k ≤ key b) :
    key a ≤ key b :=
  le_of_mem_argmin (f := key) (mem_filter.2 ⟨hb, by simpa using hk⟩) (Option.mem_def.2 h)

lemma lowerBound_eq_none : lowerBound key l k = none ↔ ∀ b ∈ l, key b < k := by
  simp [lowerBound, argmin_eq_none, filter_eq_nil_iff]

lemma mem_of_upperBound (h : upperBound key l k = some a) : a ∈ l ∧ k < key a := by
  have hmem := argmin_mem (Option.mem_def.2 h)
  simpa using hmem

lemma le_of_upperBound (h : upperBound key l k = some a) (hb : b ∈ l) (hk : k < key b) :
    key a ≤ key b :=
  le_of_mem_argmin (f := key) (mem_filter.2 ⟨hb, by simpa using hk⟩) (Option.mem_def.2 h)

lemma upperBound_eq_none : upperBound key l k = none ↔ ∀ b ∈ l, key b ≤ k := by
  simp [upperBound, argmin_eq_none, filter_eq_nil_iff]

lemma mem_of_lastBelow (h : lastBelow key l k = some a) : a ∈ l ∧ key a < k := by
  have hmem := argmax_mem (Option.mem_def.2 h)
  simpa using hmem

lemma le_of_lastBelow (h : lastBelow key l k = some a) (hb : b ∈ l) (hk : key b < k) :
    key b ≤ key a :=
  le_of_mem_argmax (f := key) (mem_filter.2 ⟨hb, by simpa using hk⟩) (Option.mem_def.2 h)

lemma lastBelow_eq_none : lastBelow key l k = none ↔ ∀ b ∈ l, k ≤ key b := by
  simp [lastBelow, argmax_eq_none, filter_eq_nil_iff]

lemma mem_indexFrom : a ∈ indexFrom key l k ↔ a ∈ l ∧ k ≤ key a := by
  simp [indexFrom]

lemma nodup_indexFrom (h : l.Nodup) : (indexFrom key l k).Nodup :=
  (perm_insertionSort _ _).nodup_iff.2 (h.filter _)

lemma pairwise_indexFrom : (indexFrom key l k).Pairwise fun a b => key a ≤ key b := by
  have : Std.Total fun a b : α => key a ≤ key b := ⟨fun a b => le_total (key a) (key b)⟩
  have : IsTrans α fun a b => key a ≤ key b := ⟨fun _ _ _ => le_trans⟩
  exact pairwise_insertionSort _ _

variable {p : α → Bool}

/-- A loop that runs as long as a test holds visits all elements that pass the test, if the elements
that pass come first. -/
lemma takeWhile_eq_filter
    (h : l.Pairwise fun a b => p b = true → p a = true) : l.takeWhile p = l.filter p := by
  induction l with
  | nil => rfl
  | cons a l ih =>
    obtain ⟨hfirst, hrest⟩ := pairwise_cons.1 h
    by_cases ha : p a = true
    · rw [takeWhile_cons_of_pos ha, filter_cons_of_pos ha, ih hrest]
    · rw [takeWhile_cons_of_neg ha, filter_cons_of_neg ha, eq_comm,
        filter_eq_nil_iff]
      exact fun b hb hpb => ha (hfirst b hb hpb)

lemma dropWhile_eq_filter (h : l.Pairwise fun a b => p b = true → p a = true) :
    l.dropWhile p = l.filter fun a => !p a := by
  induction l with
  | nil => rfl
  | cons a l ih =>
    obtain ⟨hfirst, hrest⟩ := pairwise_cons.1 h
    by_cases ha : p a = true
    · rw [dropWhile_cons_of_pos ha, filter_cons_of_neg (by simp [ha]), ih hrest]
    · rw [dropWhile_cons_of_neg ha, eq_comm, filter_eq_self]
      intro b hb
      rw [Bool.not_eq_true', ← Bool.not_eq_true]
      rcases mem_cons.1 hb with rfl | hb
      · exact ha
      · exact fun hpb => ha (hfirst b hb hpb)

/-! ## Indexes with equal keys -/

variable (key) in
/-- The order of an index that allows equal keys. -/
structure Enumeration where
  list : List α → List α
  perm : ∀ l, (list l).Perm l
  sorted : ∀ l, (list l).Pairwise fun a b => key a ≤ key b

variable (key) in
/-- Equal keys in the order of the container. -/
def stableOrder : Enumeration key where
  list l := l.insertionSort fun a b => key a ≤ key b
  perm l := perm_insertionSort _ l
  sorted l :=
    have : Std.Total fun a b : α => key a ≤ key b := ⟨fun a b => le_total (key a) (key b)⟩
    have : IsTrans α fun a b => key a ≤ key b := ⟨fun _ _ _ => le_trans⟩
    pairwise_insertionSort _ l

namespace Enumeration

variable (e : Enumeration key)

/-- The first element of the index. -/
def first (l : List α) : Option α := (e.list l).head?

/-- The last element of the index. -/
def last (l : List α) : Option α := (e.list l).getLast?

/-- The elements from the first one on whose key is not below `k`. -/
def onward (l : List α) (k : κ) : List α := (e.list l).dropWhile fun a => key a < k

section Neighbours

variable [DecidableEq α]

/-- The elements before `a`. -/
def before (l : List α) (a : α) : List α := (e.list l).takeWhile (· ≠ a)

/-- The elements after `a`. -/
def after (l : List α) (a : α) : List α := ((e.list l).dropWhile (· ≠ a)).tail

/-- The element before `a`. -/
def prev (l : List α) (a : α) : Option α := (e.before l a).getLast?

/-- The element after `a`. -/
def next (l : List α) (a : α) : Option α := (e.after l a).head?

variable {e}

section

variable (ha : a ∈ l)

include ha

lemma list_eq : e.list l = e.before l a ++ a :: e.after l a ∧ a ∉ e.before l a := by
  obtain ⟨before, after, hlist, hnotMem⟩ :=
    eq_append_cons_of_mem ((e.perm l).mem_iff.2 ha)
  have hne : ∀ b ∈ before, decide (b ≠ a) = true :=
    fun b hb => decide_eq_true fun heq => hnotMem (heq ▸ hb)
  have hbefore : e.before l a = before := by
    rw [Enumeration.before, hlist, takeWhile_append_of_pos hne]
    simp
  have hafter : e.after l a = after := by
    rw [Enumeration.after, hlist, dropWhile_append_of_pos hne]
    simp
  rw [hbefore, hafter]
  exact ⟨hlist, hnotMem⟩

lemma mem_of_prev {p : α} (h : e.prev l a = some p) : p ∈ l ∧ p ≠ a ∧ key p ≤ key a := by
  obtain ⟨hlist, hnotMem⟩ := e.list_eq ha
  have hp : p ∈ e.before l a := mem_of_getLast? h
  have hsorted := e.sorted l
  rw [hlist] at hsorted
  refine ⟨(e.perm l).mem_iff.1 ?_, fun heq => hnotMem (heq ▸ hp), ?_⟩
  · rw [hlist]
    exact mem_append_left _ hp
  · exact (pairwise_append.1 hsorted).2.2 p hp a mem_cons_self

lemma mem_of_next {n : α} (hnodup : l.Nodup) (h : e.next l a = some n) :
    n ∈ l ∧ n ≠ a ∧ key a ≤ key n := by
  obtain ⟨hlist, -⟩ := e.list_eq ha
  have hn : n ∈ e.after l a := mem_of_mem_head? h
  have hsorted := e.sorted l
  have hnodup' := (e.perm l).nodup_iff.2 hnodup
  rw [hlist] at hsorted hnodup'
  have hcons := (pairwise_append.1 hsorted).2.1
  refine ⟨(e.perm l).mem_iff.1 ?_, ?_, (pairwise_cons.1 hcons).1 n hn⟩
  · rw [hlist]
    exact mem_append_right _ (mem_cons_of_mem _ hn)
  · rintro rfl
    exact (nodup_cons.1 (nodup_append.1 hnodup').2.1).1 hn

lemma beyond_neighbour {c : α} (hc : c ∈ l) (hne : c ≠ a) :
    (∃ p, e.prev l a = some p ∧ key c ≤ key p) ∨ (∃ n, e.next l a = some n ∧ key n ≤ key c) := by
  have hsorted := e.sorted l
  have hmem : c ∈ e.list l := (e.perm l).mem_iff.2 hc
  rw [(e.list_eq ha).1] at hsorted hmem
  obtain ⟨hbefore, hcons, -⟩ := pairwise_append.1 hsorted
  rcases mem_append.1 hmem with hin | hin
  · left
    unfold prev
    rcases eq_nil_or_concat' (e.before l a) with hnil | ⟨init, p, hlast⟩
    · rw [hnil] at hin
      cases hin
    · rw [hlast] at hin hbefore ⊢
      refine ⟨p, List.getLast?_concat, ?_⟩
      rcases mem_append.1 hin with hin | hin
      · exact (pairwise_append.1 hbefore).2.2 c hin p (mem_singleton_self p)
      · rw [mem_singleton.1 hin]
  · right
    rcases mem_cons.1 hin with heq | hin
    · exact absurd heq hne
    have hafter := (pairwise_cons.1 hcons).2
    unfold next
    cases hlist : e.after l a with
    | nil =>
      rw [hlist] at hin
      cases hin
    | cons n rest =>
      rw [hlist] at hin hafter
      refine ⟨n, rfl, ?_⟩
      rcases mem_cons.1 hin with rfl | hin
      · exact le_rfl
      · exact (pairwise_cons.1 hafter).1 c hin

lemma cons_after_sublist : (a :: e.after l a).Sublist (e.list l) := by
  rw [(e.list_eq ha).1]
  exact sublist_append_right _ _

lemma mem_after {c : α} (hc : c ∈ l) (hlt : key a < key c) : c ∈ e.after l a := by
  have hsorted := e.sorted l
  have hmem : c ∈ e.list l := (e.perm l).mem_iff.2 hc
  rw [(e.list_eq ha).1] at hsorted hmem
  rcases mem_append.1 hmem with hin | hin
  · have hle := (pairwise_append.1 hsorted).2.2 c hin a mem_cons_self
    exact absurd hlt (not_lt.2 hle)
  · rcases mem_cons.1 hin with rfl | hin
    · exact absurd hlt (lt_irrefl _)
    · exact hin

end

end Neighbours

variable {e}

lemma mem_of_first (h : e.first l = some a) : a ∈ l ∧ ∀ b ∈ l, key a ≤ key b := by
  have hsorted := e.sorted l
  cases hlist : e.list l with
  | nil =>
    rw [first, hlist] at h
    cases h
  | cons c rest =>
    rw [first, hlist] at h
    cases h
    rw [hlist] at hsorted
    refine ⟨(e.perm l).mem_iff.1 (hlist ▸ mem_cons_self), fun b hb => ?_⟩
    have hmem := (e.perm l).mem_iff.2 hb
    rw [hlist] at hmem
    rcases mem_cons.1 hmem with rfl | hmem
    · exact le_rfl
    · exact (pairwise_cons.1 hsorted).1 b hmem

lemma mem_of_last (h : e.last l = some a) : a ∈ l ∧ ∀ b ∈ l, key b ≤ key a := by
  obtain ⟨init, hlist⟩ := List.getLast?_eq_some_iff.1 h
  have hsorted := e.sorted l
  rw [hlist] at hsorted
  refine ⟨(e.perm l).mem_iff.1 (by simp [hlist]), fun b hb => ?_⟩
  have hmem := (e.perm l).mem_iff.2 hb
  rw [hlist] at hmem
  rcases mem_append.1 hmem with hmem | hmem
  · exact (pairwise_append.1 hsorted).2.2 b hmem a (mem_singleton_self a)
  · rw [mem_singleton.1 hmem]

lemma eq_nil_of_first (h : e.first l = none) : l = [] := by
  have hnil := List.head?_eq_none_iff.1 h
  exact eq_nil_of_length_eq_zero (by rw [← (e.perm l).length_eq, hnil, length_nil])

lemma eq_nil_of_last (h : e.last l = none) : l = [] := by
  have hnil := List.getLast?_eq_none_iff.1 h
  exact eq_nil_of_length_eq_zero (by rw [← (e.perm l).length_eq, hnil, length_nil])

lemma mem_onward : a ∈ e.onward l k ↔ a ∈ l ∧ k ≤ key a := by
  have hfirst : (e.list l).Pairwise fun a b => decide (key b < k) = true →
    decide (key a < k) = true :=
    (e.sorted l).imp fun hab hb => decide_eq_true (hab.trans_lt (of_decide_eq_true hb))
  rw [onward, dropWhile_eq_filter hfirst, mem_filter, (e.perm l).mem_iff]
  simp

lemma pairwise_onward : (e.onward l k).Pairwise fun a b => key a ≤ key b :=
  (e.sorted l).sublist (dropWhile_sublist _)

lemma nodup_onward (h : l.Nodup) : (e.onward l k).Nodup :=
  ((e.perm l).nodup_iff.2 h).sublist (dropWhile_sublist _)

end Enumeration

end SlithyTove.Framework
