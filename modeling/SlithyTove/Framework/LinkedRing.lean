import Mathlib.Data.List.Chain
import Mathlib.Data.List.Nodup

/-!
# Circular doubly linked lists

Nodes with a nullable pointer each way, closed into a ring through a sentinel.  `Ring links s l`
says that the pointers thread the nodes `l` in this order, starting and ending at the sentinel `s`,
and that every other node has no pointers.  Linking a node in before the sentinel appends it, and
unlinking a node takes it out; both need only the pointers of the node and of its neighbours.

Neighbours are unique in a ring, which is what the proofs rest on: a pair of neighbours that does
not contain the changed node keeps its pointers.
-/

namespace SlithyTove.Framework

open List Function

/-- The pointers of all nodes; `none` is the null pointer. -/
structure Links (Node : Type) where
  prev : Node → Option Node
  next : Node → Option Node

namespace Links

variable {Node : Type} [DecidableEq Node]

/-- A sentinel alone: its pointers lead to itself. -/
def selfRef (s : Node) : Links Node where
  prev := Function.update (fun _ => none) s (some s)
  next := Function.update (fun _ => none) s (some s)

variable (links : Links Node)

/-- One pointer to the previous node is written. -/
def setPrev (x : Node) (p : Option Node) : Links Node :=
  { links with prev := Function.update links.prev x p }

/-- One pointer to the next node is written. -/
def setNext (x : Node) (p : Option Node) : Links Node :=
  { links with next := Function.update links.next x p }

/-- `x` goes between the last node and the sentinel `s`. -/
def linkBefore (s x : Node) : Links Node :=
  let links := links.setPrev x (links.prev s)
  let links := links.setNext x (some s)
  let links := links.setPrev s (some x)
  match links.prev x with
  | some p => links.setNext p (some x)
  | none => links

/-- The neighbours of `x` are joined, and `x` loses its pointers. -/
def unlink (x : Node) : Links Node :=
  let links := match links.next x with
    | some n => links.setPrev n (links.prev x)
    | none => links
  let links := match links.prev x with
    | some p => links.setNext p (links.next x)
    | none => links
  (links.setPrev x none).setNext x none

/-- `v` comes right after `u`, by both pointers. -/
def Joins (u v : Node) : Prop :=
  links.next u = some v ∧ links.prev v = some u

end Links

variable {Node : Type}

/-- The pointers thread the nodes `l` between the sentinel and itself, and no other node. -/
structure Ring (links : Links Node) (s : Node) (l : List Node) : Prop where
  chain : (s :: (l ++ [s])).IsChain links.Joins
  nodup : (s :: l).Nodup
  null : ∀ x, x ∉ s :: l → links.prev x = none ∧ links.next x = none

namespace Ring

variable {links : Links Node} {s x : Node} {l l₁ l₂ : List Node}

lemma next_eq (h : Ring links s (l₁ ++ x :: l₂)) :
    links.next x = some ((l₂ ++ [s]).headD s) := by
  have hchain := h.chain
  rw [append_assoc, cons_append, ← cons_append, isChain_split] at hchain
  cases l₂ with
  | nil => exact hchain.2.rel.1
  | cons y l₂ => exact hchain.2.rel.1

lemma next_sentinel (h : Ring links s l) : links.next s = some (l.headD s) := by
  cases l with
  | nil => exact h.chain.rel.1
  | cons y l => exact h.chain.rel.1

variable [DecidableEq Node]

lemma selfRef (s : Node) : Ring (Links.selfRef s) s [] where
  chain := by simp [Links.selfRef, Links.Joins]
  nodup := nodup_singleton s
  null x hx := by
    rw [mem_singleton] at hx
    simp [Links.selfRef, hx]

/-- **Linking in before the sentinel appends.** -/
lemma linkBefore (h : Ring links s l) (hx : x ∉ s :: l) :
    Ring (links.linkBefore s x) s (l ++ [x]) := by
  have hne : x ≠ s := fun heq => hx (heq ▸ mem_cons_self)
  -- The last node of the ring, possibly the sentinel itself.
  obtain ⟨p, hlast⟩ : ∃ p, (s :: l).getLast? = some p :=
    ⟨_, List.getLast?_eq_some_getLast (cons_ne_nil s l)⟩
  have hp : p ∈ s :: l := mem_of_getLast? hlast
  have hchain := h.chain
  rw [← cons_append, isChain_append] at hchain
  have hclose : links.Joins p s := hchain.2.2 p hlast s rfl
  have hpx : p ≠ x := fun heq => hx (heq ▸ hp)
  have hlinks : links.linkBefore s x =
      ⟨Function.update (Function.update links.prev x (some p)) s (some x),
        Function.update (Function.update links.next x (some s)) p (some x)⟩ := by
    have hprev : (Function.update (Function.update links.prev x (some p)) s (some x)) x =
        some p := by
      rw [update_of_ne hne, update_self]
    simp only [Links.linkBefore, Links.setPrev, Links.setNext, hclose.2, hprev]
  rw [hlinks]
  refine ⟨?_, ?_, fun y hy => ?_⟩
  · rw [append_assoc, ← cons_append, isChain_append]
    refine ⟨hchain.1.imp_of_mem_tail_imp fun u v hu hv huv => ?_, ?_, fun q hq y hy => ?_⟩
    · -- A pair inside the old ring has other targets than the closing one.
      have hvs : v ≠ s := fun heq => (nodup_cons.1 h.nodup).1 (heq ▸ hv)
      have hvx : v ≠ x := fun heq => hx (heq ▸ mem_cons_of_mem _ hv)
      have hux : u ≠ x := fun heq => hx (heq ▸ hu)
      have hup : u ≠ p := by
        intro heq
        have htarget := huv.1
        rw [heq, hclose.1, Option.some.injEq] at htarget
        exact hvs htarget.symm
      simp only [Links.Joins, update_of_ne hup, update_of_ne hux,
        update_of_ne hvs, update_of_ne hvx]
      exact huv
    · have hxs : x ≠ p := hpx.symm
      simp [Links.Joins, update_of_ne hxs]
    · rw [hlast, Option.mem_some_iff] at hq
      rw [singleton_append, List.head?_cons, Option.mem_some_iff] at hy
      rw [← hq, ← hy]
      simp [Links.Joins, update_of_ne hne]
  · rw [← cons_append]
    refine nodup_append.2 ⟨h.nodup, nodup_singleton x, fun a ha b hb heq => hx ?_⟩
    rwa [← mem_singleton.1 hb, ← heq]
  · rw [← cons_append, mem_append, mem_singleton, not_or] at hy
    have hys : y ≠ s := fun heq => hy.1 (heq ▸ mem_cons_self)
    have hyp : y ≠ p := fun heq => hy.1 (heq ▸ hp)
    simp only [update_of_ne hys, update_of_ne hyp, update_of_ne hy.2]
    exact h.null y hy.1

/-- **Unlinking takes a node out.** -/
lemma unlink (h : Ring links s (l₁ ++ x :: l₂)) : Ring (links.unlink x) s (l₁ ++ l₂) := by
  have hnodup := h.nodup
  rw [nodup_cons, nodup_middle, nodup_cons] at hnodup
  have hx₁ : x ∉ l₁ := fun hmem => hnodup.2.1 (mem_append_left _ hmem)
  have hx₂ : x ∉ l₂ := fun hmem => hnodup.2.1 (mem_append_right _ hmem)
  have hxs : x ≠ s := fun heq => hnodup.1 (heq ▸ mem_append_right _ mem_cons_self)
  -- The neighbours: the last node before `x` and the first after it.
  obtain ⟨p, hp⟩ : ∃ p, (s :: l₁).getLast? = some p :=
    ⟨_, List.getLast?_eq_some_getLast (cons_ne_nil s l₁)⟩
  obtain ⟨n, hn⟩ : ∃ n, (l₂ ++ [s]).head? = some n := by
    cases l₂ with
    | nil => exact ⟨s, rfl⟩
    | cons y l₂ => exact ⟨y, rfl⟩
  have hchain := h.chain
  rw [append_assoc, cons_append, ← cons_append, isChain_append] at hchain
  obtain ⟨hleft, hfrom, hbefore⟩ := hchain
  obtain ⟨hafter, hright⟩ := isChain_cons.1 hfrom
  have hpx : links.Joins p x := hbefore p hp x rfl
  have hxn : links.Joins x n := hafter n hn
  have hnotLeft : x ∉ s :: l₁ := by simp [hxs, hx₁]
  have hnotRight : x ∉ l₂ ++ [s] := by simp [hxs, hx₂]
  have hp_ne : p ≠ x := fun heq => hnotLeft (heq ▸ mem_of_getLast? hp)
  have hn_ne : n ≠ x := fun heq => hnotRight (heq ▸ mem_of_mem_head? hn)
  have hlinks : links.unlink x =
      ⟨Function.update (Function.update links.prev n (some p)) x none,
        Function.update (Function.update links.next p (some n)) x none⟩ := by
    have hprev : (Function.update links.prev n (some p)) x = some p := by
      rw [update_of_ne hn_ne.symm, hpx.2]
    simp only [Links.unlink, Links.setPrev, Links.setNext, hxn.1, hpx.2, hprev]
  -- Pairs without `x` are not the two that change.
  have hkeep : ∀ m : List Node, x ∉ m → m.IsChain links.Joins →
      m.IsChain (links.unlink x).Joins := by
    intro m hm hmchain
    refine hmchain.imp_of_mem_imp fun u v hu hv huv => ?_
    have hux : u ≠ x := fun heq => hm (heq ▸ hu)
    have hvx : v ≠ x := fun heq => hm (heq ▸ hv)
    have hup : u ≠ p := by
      intro heq
      have htarget := huv.1
      rw [heq, hpx.1, Option.some.injEq] at htarget
      exact hvx htarget.symm
    have hvn : v ≠ n := by
      intro heq
      have hsource := huv.2
      rw [heq, hxn.2, Option.some.injEq] at hsource
      exact hux hsource.symm
    rw [hlinks]
    simp only [Links.Joins, update_of_ne hux, update_of_ne hvx,
      update_of_ne hup, update_of_ne hvn]
    exact huv
  refine ⟨?_, ?_, fun y hy => ?_⟩
  · rw [append_assoc, ← cons_append, isChain_append]
    refine ⟨hkeep _ hnotLeft hleft, hkeep _ hnotRight hright, fun a ha b hb => ?_⟩
    rw [hp, Option.mem_some_iff] at ha
    rw [hn, Option.mem_some_iff] at hb
    rw [← ha, ← hb, hlinks]
    simp [Links.Joins, update_of_ne hp_ne, update_of_ne hn_ne]
  · refine nodup_cons.2 ⟨fun hmem => hnodup.1 ?_, hnodup.2.2⟩
    rcases mem_append.1 hmem with hmem | hmem
    · exact mem_append_left _ hmem
    · exact mem_append_right _ (mem_cons_of_mem _ hmem)
  · rw [hlinks]
    by_cases hyx : y = x
    · rw [hyx]
      exact ⟨update_self .., update_self ..⟩
    · have hnot : y ∉ s :: (l₁ ++ x :: l₂) := by
        simp only [mem_cons, mem_append, not_or] at hy ⊢
        exact ⟨hy.1, hy.2.1, hyx, hy.2.2⟩
      have hyp : y ≠ p := by
        rintro rfl
        rcases mem_cons.1 (mem_of_getLast? hp) with hs | hmem
        · exact hnot (hs ▸ mem_cons_self)
        · exact hnot (mem_cons_of_mem _ (mem_append_left _ hmem))
      have hyn : y ≠ n := by
        rintro rfl
        rcases mem_append.1 (mem_of_mem_head? hn) with hmem | hs
        · exact hnot (mem_cons_of_mem _
            (mem_append_right _ (mem_cons_of_mem _ hmem)))
        · exact hnot (mem_singleton.1 hs ▸ mem_cons_self)
      simp only [update_of_ne hyx, update_of_ne hyp, update_of_ne hyn]
      exact h.null y hnot

end Ring

end SlithyTove.Framework
