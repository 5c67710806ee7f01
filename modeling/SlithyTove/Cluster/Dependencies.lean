import Mathlib.Data.Finset.Sort
import Mathlib.Data.Finset.Union
import Mathlib.Data.Set.Function
import Mathlib.Logic.Relation
import SlithyTove.Cluster.DepGraph
import SlithyTove.Framework.Checked

/-!
# How a dependency graph is built

`AddTransaction`, `AddDependencies` and `RemoveTransactions` (`cluster_linearize.h`) keep the sets
of all ancestors and descendants up to date and forget the dependencies themselves.  What the sets
should be is said by a history: every transaction gets a new number, removing takes numbers away,
and every dependency added so far stays, also when its transactions are gone.  The used positions
are those of the remaining transactions, and a transaction is an ancestor of another if dependencies
lead from the one to the other (`Traces`).

`GetReducedParents` recovers parents from the sets.  It drops the ancestors of every parent it meets
and is left with the maximal ones.
-/

namespace SlithyTove

open Finset Framework Function Relation

/-- The entries of a `DepGraph`.  Those of unused positions are left over from before. -/
structure DepEntries where
  m_used : Finset ℕ
  feeRate : ℕ → FeeFrac
  ancestors : ℕ → Finset ℕ
  descendants : ℕ → Finset ℕ

namespace DepEntries

variable (g : DepEntries)

/-- `AddTransaction`, with room for `Size` transactions. -/
def addTransaction (Size : ℕ) (feefrac : FeeFrac) : Except String (ℕ × DepEntries) :=
  match (List.range Size).find? fun i => i ∉ g.m_used with
  | none => .error "available.Any()"
  | some new_idx => .ok (new_idx,
    ⟨insert new_idx g.m_used, update g.feeRate new_idx feefrac,
      update g.ancestors new_idx {new_idx}, update g.descendants new_idx {new_idx}⟩)

/-- `RemoveTransactions`. -/
def removeTransactions (del : Finset ℕ) : DepEntries where
  m_used := g.m_used \ del
  feeRate := g.feeRate
  ancestors i := g.ancestors i ∩ (g.m_used \ del)
  descendants i := g.descendants i ∩ (g.m_used \ del)

/-- `par_anc`: the ancestors of parents that are not already ancestors of `child`. -/
def parAnc (parents : Finset ℕ) (child : ℕ) : Finset ℕ :=
  (parents \ g.ancestors child).biUnion g.ancestors \ g.ancestors child

/-- `AddDependencies`.  No pass of the two loops changes a set that another pass reads. -/
def addDependencies (parents : Finset ℕ) (child : ℕ) : Except String DepEntries := do
  ensure (child ∈ g.m_used) "m_used[child]"
  ensure (parents ⊆ g.m_used) "parents.IsSubsetOf(m_used)"
  let par_anc := g.parAnc parents child
  if par_anc = ∅ then return g
  else return { g with
    descendants i :=
      if i ∈ par_anc then g.descendants i ∪ g.descendants child else g.descendants i
    ancestors i := if i ∈ g.descendants child then g.ancestors i ∪ par_anc else g.ancestors i }

/-- The body of the loop of `GetReducedParents`. -/
def reduceBy (parents : Finset ℕ) (parent : ℕ) : Finset ℕ :=
  if parent ∈ parents then insert parent (parents \ g.ancestors parent) else parents

/-- `GetReducedParents`. -/
def getReducedParents (i : ℕ) : Finset ℕ :=
  (((g.ancestors i).erase i).sort (· ≤ ·)).foldl g.reduceBy ((g.ancestors i).erase i)

end DepEntries

/-! ## Histories -/

/-- A graph with its history.  Transactions are numbered from one. -/
structure DepHistory extends DepEntries where
  /-- The last transaction put at a position; zero if there was none. -/
  tx : ℕ → ℕ
  /-- The number of the next transaction. -/
  next : ℕ
  /-- The transactions that were added and not removed. -/
  remaining : Set ℕ
  /-- From a parent to a child. -/
  dependency : ℕ → ℕ → Prop

/-- The operations on a graph. -/
inductive DepOperation
  | addTransaction (feefrac : FeeFrac)
  | addDependencies (parents : Finset ℕ) (child : ℕ)
  | removeTransactions (del : Finset ℕ)

namespace DepHistory

/-- No transaction was added yet. -/
def empty : DepHistory := ⟨⟨∅, 0, fun _ => ∅, fun _ => ∅⟩, 0, 1, ∅, fun _ _ => False⟩

variable (h : DepHistory)

/-- A new transaction at a position. -/
def withTx (new_idx : ℕ) (graph : DepEntries) : DepHistory :=
  ⟨graph, update h.tx new_idx h.next, h.next + 1, insert h.next h.remaining, h.dependency⟩

/-- New dependencies. -/
def withDeps (parents : Finset ℕ) (child : ℕ) (graph : DepEntries) : DepHistory :=
  { h with
    toDepEntries := graph
    dependency := fun a b => h.dependency a b ∨ a ∈ h.tx '' parents ∧ b = h.tx child }

/-- Without the transactions at some positions. -/
def withoutTxs (del : Finset ℕ) (graph : DepEntries) : DepHistory :=
  { h with toDepEntries := graph, remaining := h.remaining \ h.tx '' del }

/-- One operation. -/
def perform (Size : ℕ) (h : DepHistory) : DepOperation → Except String DepHistory
  | .addTransaction feefrac => do
    let (new_idx, graph) ← h.addTransaction Size feefrac
    return h.withTx new_idx graph
  | .addDependencies parents child => do
    let graph ← h.addDependencies parents child
    return h.withDeps parents child graph
  | .removeTransactions del => return h.withoutTxs del (h.removeTransactions del)

/-- `a` is `b`, or dependencies lead from `a` to `b`. -/
def Ancestor : ℕ → ℕ → Prop := ReflTransGen h.dependency

/-- No dependencies lead from a transaction to another and back. -/
def Acyclic : Prop := ∀ a b, h.Ancestor a b → h.Ancestor b a → a = b

/-- `sets` has for each used position the used positions that `r` relates it to. -/
def Shows (used : Finset ℕ) (tx : ℕ → ℕ) (r : ℕ → ℕ → Prop) (sets : ℕ → Finset ℕ) : Prop :=
  ∀ i ∈ used, ∀ j, j ∈ sets i ↔ j ∈ used ∧ r (tx i) (tx j)

/-- The sets are those of the history. -/
structure Traces : Prop where
  tx_lt : ∀ i, h.tx i < h.next
  /-- A used position shares its transaction with no other position. -/
  tx_inj : ∀ i ∈ h.m_used, ∀ j, h.tx j = h.tx i → j = i
  remaining : h.remaining = h.tx '' h.m_used
  dependency_lt : ∀ a b, h.dependency a b → a < h.next ∧ b < h.next
  ancestors : Shows h.m_used h.tx (swap h.Ancestor) h.ancestors
  descendants : Shows h.m_used h.tx h.Ancestor h.descendants

/-! ## Relations and sets -/

section Sets

variable {used : Finset ℕ} {tx : ℕ → ℕ} {r : ℕ → ℕ → Prop} {sets : ℕ → Finset ℕ}

lemma Shows.insert (hs : Shows used tx r sets) {i₀ n : ℕ} (hfree : i₀ ∉ used) (hrefl : r n n)
    (hold : ∀ i ∈ used, ¬ r (tx i) n ∧ ¬ r n (tx i)) :
    Shows (insert i₀ used) (update tx i₀ n) r (update sets i₀ {i₀}) := by
  intro i hi j
  have hi' := hs i
  grind [update_apply]

lemma Shows.inter (hs : Shows used tx r sets) (del : Finset ℕ) :
    Shows (used \ del) tx r fun i => sets i ∩ (used \ del) := by
  intro i hi j
  have hmem := hs i (mem_sdiff.mp hi).1 j
  grind

lemma reflTransGen_addEdges {S : Set ℕ} {a b c : ℕ} :
    ReflTransGen (fun x y => r x y ∨ x ∈ S ∧ y = c) a b ↔
      ReflTransGen r a b ∨ ∃ p ∈ S, ReflTransGen r a p ∧ ReflTransGen r c b := by
  have hmono := ReflTransGen.mono fun x y (hxy : r x y) => Or.inl (b := x ∈ S ∧ y = c) hxy
  constructor
  · intro hpath
    induction hpath with
    | refl => exact .inl .refl
    | tail _ hedge ih =>
      rcases hedge with hold | ⟨hnew, rfl⟩ <;> rcases ih with hap | ⟨p, hp, hap, hcb⟩
      · exact .inl (hap.tail hold)
      · exact .inr ⟨p, hp, hap, hcb.tail hold⟩
      · exact .inr ⟨_, hnew, hap, .refl⟩
      · exact .inr ⟨p, hp, hap, .refl⟩
  · rintro (hab | ⟨p, hp, hap, hcb⟩)
    · exact hmono _ _ hab
    · exact ((hmono _ _ hap).tail (.inr ⟨hp, rfl⟩)).trans (hmono _ _ hcb)

end Sets

/-! ## The operations -/

variable {h} {h' : DepHistory}

lemma Traces.empty : Traces .empty where
  tx_lt _ := one_pos
  tx_inj := nofun
  remaining := by simp [DepHistory.empty]
  dependency_lt := nofun
  ancestors := nofun
  descendants := nofun

section Step

variable (ht : Traces h)

include ht

lemma Traces.not_ancestor {a : ℕ} (ha : a < h.next) :
    ¬ h.Ancestor a h.next ∧ ¬ h.Ancestor h.next a := by
  constructor
  · intro hanc
    rcases hanc.cases_tail with heq | ⟨c, -, hc⟩
    · exact ha.ne heq.symm
    · exact lt_irrefl _ (ht.dependency_lt _ _ hc).2
  · intro hanc
    rcases hanc.cases_head with heq | ⟨c, hc, -⟩
    · exact ha.ne heq.symm
    · exact lt_irrefl _ (ht.dependency_lt _ _ hc).1

lemma Traces.addTransaction {Size new_idx : ℕ} {feefrac : FeeFrac} {graph : DepEntries}
    (hadd : h.addTransaction Size feefrac = .ok (new_idx, graph)) :
    Traces (h.withTx new_idx graph) := by
  rw [DepEntries.addTransaction] at hadd
  split at hadd
  · cases hadd
  next _ hfind =>
  cases hadd
  have hfree : new_idx ∉ h.m_used := by simpa using List.find?_some hfind
  have hold (i : ℕ) (_ : i ∈ h.m_used) := ht.not_ancestor (ht.tx_lt i)
  have htx {i : ℕ} (hi : i ∈ h.m_used) : update h.tx new_idx h.next i = h.tx i :=
    update_of_ne (ne_of_mem_of_not_mem hi hfree) ..
  rw [withTx]
  refine ⟨fun i => ?_, fun i hi j heq => ?_, ?_, fun a b hab => ?_,
    ht.ancestors.insert hfree .refl fun i hi => (hold i hi).symm,
    ht.descendants.insert hfree .refl hold⟩
  · have hlt := ht.tx_lt i
    grind [update_apply]
  · have hlt := ht.tx_lt
    have hinj := ht.tx_inj i
    grind [update_apply]
  · dsimp only
    rw [coe_insert, Set.image_insert_eq, update_self, ht.remaining]
    exact congrArg _ (Set.image_congr fun i hi => (htx hi).symm)
  · have hlt := ht.dependency_lt a b hab
    exact ⟨hlt.1.trans (Nat.lt_succ_self _), hlt.2.trans (Nat.lt_succ_self _)⟩

variable {parents : Finset ℕ} {child : ℕ} {graph : DepEntries}

/-- What the new dependencies relate: the ancestors found by the code and the descendants of the
child. -/
lemma Traces.ancestor_withDeps (hchild : child ∈ h.m_used) (hparents : parents ⊆ h.m_used)
    {i j : ℕ} (hi : i ∈ h.m_used) (hj : j ∈ h.m_used) :
    (h.withDeps parents child graph).Ancestor (h.tx j) (h.tx i) ↔
      h.Ancestor (h.tx j) (h.tx i) ∨ i ∈ h.descendants child ∧ j ∈ h.parAnc parents child := by
  have hanc (p : ℕ) (hp : p ∈ h.m_used) (k : ℕ) : k ∈ h.ancestors p ↔
      k ∈ h.m_used ∧ h.Ancestor (h.tx k) (h.tx p) := ht.ancestors p hp k
  rw [Ancestor, withDeps, reflTransGen_addEdges, ht.descendants child hchild i,
    DepEntries.parAnc, mem_sdiff, mem_biUnion, hanc child hchild]
  constructor
  · rintro (hji | ⟨_, ⟨p, hp, rfl⟩, hjp, hci⟩)
    · exact .inl hji
    by_cases hjc : h.Ancestor (h.tx j) (h.tx child)
    · exact .inl (hjc.trans hci)
    · refine .inr ⟨⟨hi, hci⟩, ⟨p, mem_sdiff.mpr ⟨hp, ?_⟩, ?_⟩, fun hmem => hjc hmem.2⟩
      · rw [hanc child hchild]
        exact fun hmem => hjc (hjp.trans hmem.2)
      · exact (hanc p (hparents hp) j).mpr ⟨hj, hjp⟩
  · rintro (hji | ⟨⟨-, hci⟩, ⟨p, hp, hjp⟩, -⟩)
    · exact .inl hji
    · have hp := (mem_sdiff.mp hp).1
      exact .inr ⟨_, ⟨p, hp, rfl⟩, ((hanc p (hparents hp) j).mp hjp).2, hci⟩

lemma Traces.addDependencies (hadd : h.addDependencies parents child = .ok graph) :
    Traces (h.withDeps parents child graph) := by
  simp only [DepEntries.addDependencies, bind_eq_ok, ensure_eq_ok] at hadd
  obtain ⟨_, hchild, _, hparents, hadd⟩ := hadd
  have hrel {i j : ℕ} := @Traces.ancestor_withDeps _ ht _ _ graph hchild hparents i j
  obtain ⟨hused, hanc, hdesc⟩ : graph.m_used = h.m_used ∧
      (∀ i j, j ∈ graph.ancestors i ↔ j ∈ h.ancestors i ∨
        i ∈ h.descendants child ∧ j ∈ h.parAnc parents child) ∧
      ∀ i j, j ∈ graph.descendants i ↔ j ∈ h.descendants i ∨
        j ∈ h.descendants child ∧ i ∈ h.parAnc parents child := by
    split at hadd
    · next hnone =>
      cases hadd
      simp [hnone]
    · cases hadd
      refine ⟨rfl, fun i j => ?_, fun i j => ?_⟩ <;> dsimp only <;> split <;> simp_all
  have hpar {k : ℕ} (hk : k ∈ h.parAnc parents child) : k ∈ h.m_used := by
    obtain ⟨p, hp, hkp⟩ := mem_biUnion.mp (mem_sdiff.mp hk).1
    exact ((ht.ancestors p (hparents (mem_sdiff.mp hp).1) k).mp hkp).1
  have hdes {k : ℕ} (hk : k ∈ h.descendants child) : k ∈ h.m_used :=
    ((ht.descendants child hchild k).mp hk).1
  have hiff {A L N X : Prop} (hN : N → A) (hX : A → (X ↔ L ∨ N)) : A ∧ L ∨ N ↔ A ∧ X := by tauto
  have hsame : (h.withDeps parents child graph).m_used = h.m_used := hused
  refine ⟨ht.tx_lt, hsame ▸ ht.tx_inj, hsame ▸ ht.remaining, ?_, fun i hi j => ?_, fun i hi j => ?_⟩
  · rintro a b (hab | ⟨⟨p, hp, rfl⟩, rfl⟩)
    · exact ht.dependency_lt a b hab
    · exact ⟨ht.tx_lt p, ht.tx_lt child⟩
  · rw [hsame] at hi
    change j ∈ graph.ancestors i ↔ j ∈ graph.m_used ∧ Ancestor _ (h.tx j) (h.tx i)
    rw [hanc, hused, ht.ancestors i hi j]
    exact hiff (fun hn => hpar hn.2) (hrel hi)
  · rw [hsame] at hi
    change j ∈ graph.descendants i ↔ j ∈ graph.m_used ∧ Ancestor _ (h.tx i) (h.tx j)
    rw [hdesc, hused, ht.descendants i hi j]
    exact hiff (fun hn => hdes hn.1) fun hj => hrel hj hi

lemma Traces.removeTransactions (del : Finset ℕ) :
    Traces (h.withoutTxs del (h.removeTransactions del)) where
  tx_lt := ht.tx_lt
  tx_inj i hi := ht.tx_inj i (mem_sdiff.mp hi).1
  remaining := by
    have hinj : ∀ i ∈ h.m_used, h.tx i ∈ h.tx '' del → i ∈ del := by
      rintro i hi ⟨j, hj, heq⟩
      exact ht.tx_inj i hi j heq ▸ hj
    rw [withoutTxs, ht.remaining]
    ext t
    grind [DepEntries.removeTransactions]
  dependency_lt := ht.dependency_lt
  ancestors := ht.ancestors.inter del
  descendants := ht.descendants.inter del

lemma Traces.perform {Size : ℕ} {op : DepOperation} (hop : h.perform Size op = .ok h') :
    Traces h' := by
  cases op with
  | addTransaction feefrac =>
    simp only [DepHistory.perform, bind_eq_ok, pure_eq_ok] at hop
    obtain ⟨⟨new_idx, graph⟩, hadd, rfl⟩ := hop
    exact ht.addTransaction hadd
  | addDependencies parents child =>
    simp only [DepHistory.perform, bind_eq_ok, pure_eq_ok] at hop
    obtain ⟨graph, hadd, rfl⟩ := hop
    exact ht.addDependencies hadd
  | removeTransactions del =>
    simp only [DepHistory.perform, pure_eq_ok] at hop
    exact hop ▸ ht.removeTransactions del

lemma Traces.ancestors_subset {p q : ℕ} (hq : q ∈ h.m_used) (hp : p ∈ h.ancestors q) :
    h.ancestors p ⊆ h.ancestors q := by
  obtain ⟨hp, hpq⟩ := (ht.ancestors q hq p).mp hp
  intro k hk
  obtain ⟨hk, hkp⟩ := (ht.ancestors p hp k).mp hk
  exact (ht.ancestors q hq k).mpr ⟨hk, hkp.trans hpq⟩

end Step

/-! ## Reduced parents -/

/-- **The loop of `GetReducedParents`**: of what it has visited only maximal ancestors are left, and
what it has dropped is below one of them. -/
lemma reduceBy_spec {g : DepEntries} {S : Finset ℕ}
    (htrans : ∀ q ∈ S, ∀ p ∈ g.ancestors q, g.ancestors p ⊆ g.ancestors q)
    (hantisymm : ∀ q ∈ S, ∀ p ∈ g.ancestors q, q ∈ g.ancestors p → p = q) {l : List ℕ}
    (hl : ∀ q ∈ l, q ∈ S) : l.foldl g.reduceBy S ⊆ S ∧
    (∀ q ∈ l, ∀ p ∈ l.foldl g.reduceBy S, p ∈ g.ancestors q → p = q) ∧
    ∀ p ∈ S, p ∈ l.foldl g.reduceBy S ∨
      ∃ q ∈ l, q ∈ l.foldl g.reduceBy S ∧ p ∈ g.ancestors q := by
  induction l using List.reverseRecOn with
  | nil => exact ⟨subset_rfl, nofun, fun p => .inl⟩
  | append_singleton l q ih =>
    obtain ⟨hsub, hmax, hbelow⟩ := ih fun p hp => hl p (List.mem_append_left _ hp)
    have hq := hl q (by simp)
    rw [List.foldl_concat, DepEntries.reduceBy]
    generalize l.foldl g.reduceBy S = parents at *
    split
    · next hin =>
      refine ⟨by grind, by grind, fun p hp => ?_⟩
      rcases hbelow p hp with hp' | ⟨r, hr, hr', hpr⟩
      · by_cases hpq : p ∈ g.ancestors q
        · exact .inr ⟨q, by simp, by simp, hpq⟩
        · exact .inl (by grind)
      · by_cases hrq : r ∈ g.ancestors q
        · exact .inr ⟨q, by simp, by simp, htrans q hq r hrq hpr⟩
        · exact .inr ⟨r, by simp [hr], by grind, hpr⟩
    · next hout =>
      refine ⟨hsub, fun r hr p hp hpr => ?_, fun p hp => ?_⟩
      · rcases List.mem_append.mp hr with hr | hr
        · exact hmax r hr p hp hpr
        obtain rfl := List.mem_singleton.mp hr
        -- what stands above `r` is visited, so `p` is that
        obtain ⟨t, ht, -, hrt⟩ := (hbelow r hq).resolve_left hout
        obtain rfl := hmax t ht p hp (htrans t (hl t (by simp [ht])) r hrt hpr)
        exact hantisymm r hq p hpr hrt
      · grind

/-- **A dependency graph over any sequence of operations.**  The used positions are those of the
transactions that are left.  Ancestors and descendants are what the dependencies added so far lead
to, through removed transactions as well.  Without cycles `GetReducedParents` is the least set of
parents with the same ancestors. -/
theorem depGraph_traces (Size : ℕ) (ops : List DepOperation) (h : DepHistory)
    (hrun : ops.foldlM (perform Size) .empty = .ok h) :
    Set.BijOn h.tx h.m_used h.remaining ∧
    (∀ i ∈ h.m_used, ∀ j, j ∈ h.ancestors i ↔
      j ∈ h.m_used ∧ h.Ancestor (h.tx j) (h.tx i)) ∧
    (∀ i ∈ h.m_used, ∀ j, j ∈ h.descendants i ↔
      j ∈ h.m_used ∧ h.Ancestor (h.tx i) (h.tx j)) ∧
    (h.Acyclic → ∀ i ∈ h.m_used, IsLeast
      {parents | parents ⊆ (h.ancestors i).erase i ∧
        insert i (parents.biUnion h.ancestors) = h.ancestors i}
      (h.getReducedParents i)) := by
  have ht : Traces h := foldlM_invariant (fun _ => Traces) hrun .empty
    fun _ _ _ _ _ ht hop => ht.perform hop
  have hbij : Set.BijOn h.tx h.m_used h.remaining := by
    rw [ht.remaining]
    exact Set.InjOn.bijOn_image fun i _ j hj => ht.tx_inj j hj i
  refine ⟨hbij, ht.ancestors, ht.descendants, fun hacyclic i hi => ?_⟩
  have hused {q : ℕ} (hq : q ∈ (h.ancestors i).erase i) : q ∈ h.m_used :=
    ((ht.ancestors i hi q).mp (mem_of_mem_erase hq)).1
  have hself {q : ℕ} (hq : q ∈ h.m_used) : q ∈ h.ancestors q :=
    (ht.ancestors q hq q).mpr ⟨hq, .refl⟩
  have hantisymm (q : ℕ) (hq : q ∈ (h.ancestors i).erase i) (p : ℕ)
      (hpq : p ∈ h.ancestors q) (hqp : q ∈ h.ancestors p) : p = q := by
    obtain ⟨hp, hpq⟩ := (ht.ancestors q (hused hq) p).mp hpq
    exact hbij.injOn hp (hused hq) (hacyclic _ _ hpq ((ht.ancestors p hp q).mp hqp).2)
  obtain ⟨hsub, hmax, hbelow⟩ := reduceBy_spec (g := h.toDepEntries)
    (fun q hq p => ht.ancestors_subset (hused hq)) hantisymm fun q => (mem_sort (· ≤ ·)).mp
  refine ⟨⟨hsub, subset_antisymm ?_ fun p hp => ?_⟩, fun parents hparents p hp => ?_⟩
  · refine insert_subset (hself hi) (biUnion_subset.mpr fun p hp => ?_)
    exact ht.ancestors_subset hi (mem_of_mem_erase (hsub hp))
  · rw [mem_insert, mem_biUnion, or_iff_not_imp_left]
    intro hne
    rcases hbelow p (mem_erase.mpr ⟨hne, hp⟩) with hp | ⟨q, -, hq, hpq⟩
    · exact ⟨p, hp, hself (hused (hsub hp))⟩
    · exact ⟨q, hq, hpq⟩
  · obtain ⟨hne, hpi⟩ := mem_erase.mp (hsub hp)
    rw [← hparents.2, mem_insert, mem_biUnion] at hpi
    obtain ⟨q, hq, hpq⟩ := hpi.resolve_left hne
    rwa [hmax q ((mem_sort _).mpr (hparents.1 hq)) p hp hpq]

/-- The middle one of three transactions is removed. -/
def removedMiddle : List DepOperation :=
  [.addTransaction ⟨1, 1⟩, .addTransaction ⟨1, 1⟩, .addTransaction ⟨1, 1⟩,
    .addDependencies {0} 1, .addDependencies {1} 2, .removeTransactions {1}]

/-- The first transaction is still an ancestor of the last one, and the middle one is gone. -/
theorem depGraph_traces_removedMiddle : ∃ h, removedMiddle.foldlM (perform 3) .empty = .ok h ∧
    h.remaining = {1, 3} ∧ 0 ∈ h.ancestors 2 ∧ 1 ∉ h.ancestors 2 ∧
    h.Ancestor (h.tx 0) (h.tx 2) := by
  obtain ⟨h, hrun, hused, h0, h2, hin, hout⟩ : ∃ h,
      removedMiddle.foldlM (perform 3) .empty = .ok h ∧ h.m_used = {0, 2} ∧ h.tx 0 = 1 ∧
        h.tx 2 = 3 ∧ 0 ∈ h.ancestors 2 ∧ 1 ∉ h.ancestors 2 :=
    ⟨_, rfl, by decide, rfl, rfl, by decide, by decide⟩
  obtain ⟨hbij, hancestors, -⟩ := depGraph_traces 3 removedMiddle h hrun
  refine ⟨h, hrun, ?_, hin, hout, ((hancestors 2 (by simp [hused]) 0).mp hin).2⟩
  rw [← hbij.image_eq, hused, coe_pair, Set.image_pair, h0, h2]

end DepHistory

end SlithyTove
