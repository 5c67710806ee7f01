import SlithyTove.Framework.Checked
import Mathlib.Data.Set.Basic

/-!
# Operations that settle some keys

An operation on a store *settles* a set of keys to given values when, whatever the store held
before, it succeeds, leaves those values under those keys and touches no other key.  Such an
operation can be repeated and can be run on a store that only went part of the way.

Two of them in sequence settle both sets, to the values of the second, as long as the two agree on
the keys only the first one settles.  A loop whose passes settle their keys to the same values
settles all of them.

A `Redoable` change comes with an operation that takes it back and one that makes it again, both
settling the keys it touches.  Such changes compose, and two of them that start from the same
values can be told apart no longer by a store that holds, key by key, the values after the one or
after the other: taking the first back and making the second again gives the values after the
second (`Redoable.replay`).
-/

namespace SlithyTove.Framework

variable {ε α Store StoreB Key Value : Type} {get : Store → Key → Value}

/-- The operation gives the keys in `T` the values `v`, from any store, and keeps the others. -/
def Settles (get : Store → Key → Value) (op : Store → Except ε Store) (T : Set Key)
    (v : Key → Value) : Prop :=
  ∀ s, ∃ s', op s = .ok s' ∧ (∀ k ∈ T, get s' k = v k) ∧ ∀ k ∉ T, get s' k = get s k

lemma settles_pure (v : Key → Value) :
    Settles get (fun s => (.ok s : Except ε Store)) ∅ v :=
  fun s => ⟨s, rfl, fun _ hk => hk.elim, fun _ _ => rfl⟩

/-- **Sequencing.** -/
lemma Settles.comp {op₁ op₂ : Store → Except ε Store} {T₁ T₂ : Set Key} {v₁ v₂ : Key → Value}
    (h₁ : Settles get op₁ T₁ v₁) (h₂ : Settles get op₂ T₂ v₂)
    (hagree : ∀ k ∈ T₁, k ∉ T₂ → v₁ k = v₂ k) :
    Settles get (fun s => op₁ s >>= op₂) (T₁ ∪ T₂) v₂ := by
  intro s
  obtain ⟨t, hrun₁, hin₁, hout₁⟩ := h₁ s
  obtain ⟨s', hrun₂, hin₂, hout₂⟩ := h₂ t
  refine ⟨s', bind_eq_ok.2 ⟨t, hrun₁, hrun₂⟩, fun k hk => ?_, fun k hk => ?_⟩
  · by_cases hk₂ : k ∈ T₂
    · exact hin₂ k hk₂
    · have hk₁ : k ∈ T₁ := hk.resolve_right hk₂
      rw [hout₂ k hk₂, hin₁ k hk₁, hagree k hk₁ hk₂]
  · rw [Set.mem_union, not_or] at hk
    rw [hout₂ k hk.2, hout₁ k hk.1]

variable {v : Key → Value} {T : Set Key}

lemma Settles.congr {op op' : Store → Except ε Store}
    (h : Settles get op T v) (heq : ∀ s, op' s = op s) : Settles get op' T v := by
  intro s
  rw [heq]
  exact h s

lemma Settles.congr_values {op : Store → Except ε Store} {w : Key → Value}
    (h : Settles get op T v) (heq : ∀ k ∈ T, v k = w k) : Settles get op T w := by
  intro s
  obtain ⟨s', hrun, hin, hout⟩ := h s
  exact ⟨s', hrun, fun k hk => (hin k hk).trans (heq k hk), hout⟩

/-- **Loops.**  If every pass settles its keys to the same values, the loop settles them all. -/
lemma Settles.foldlM {f : Store → α → Except ε Store} {l : List α} {T : α → Set Key}
    (h : ∀ a ∈ l, Settles get (fun s => f s a) (T a) v) :
    Settles get (fun s => l.foldlM f s) {k | ∃ a ∈ l, k ∈ T a} v := by
  induction l with
  | nil =>
    have hempty : {k | ∃ a ∈ ([] : List α), k ∈ T a} = ∅ := by simp
    rw [hempty]
    exact settles_pure v
  | cons a l ih =>
    have hunion : {k | ∃ b ∈ a :: l, k ∈ T b} = T a ∪ {k | ∃ b ∈ l, k ∈ T b} := by
      ext k
      simp
    rw [hunion]
    have hrest := ih fun b hb => h b (List.mem_cons_of_mem _ hb)
    exact ((h a List.mem_cons_self).comp hrest fun _ _ _ => rfl).congr
      fun s => List.foldlM_cons

lemma Settles.foldl {f : Store → α → Store} {l : List α} {T : α → Set Key}
    (h : ∀ a ∈ l, Settles get (fun s => (.ok (f s a) : Except ε Store)) (T a) v) :
    Settles get (fun s => (.ok (l.foldl f s) : Except ε Store)) {k | ∃ a ∈ l, k ∈ T a} v :=
  (Settles.foldlM h).congr fun _ => (List.foldlM_pure (m := Except ε)).symm

/-! ## Changes that can be taken back and made again -/

/-- A change of values from `v` to `v'` that touches only keys in `T`: `back` takes it back and
`forward` makes it again, from any store. -/
structure Redoable (getB : StoreB → Key → Value) (back : StoreB → Except ε StoreB)
    (get : Store → Key → Value) (forward : Store → Except ε Store) (T : Set Key)
    (v v' : Key → Value) : Prop where
  back : Settles getB back T v
  forward : Settles get forward T v'
  same : ∀ k ∉ T, v' k = v k

variable {getB : StoreB → Key → Value}

lemma Redoable.refl (v : Key → Value) :
    Redoable getB (fun s => (.ok s : Except ε StoreB)) get (fun s => .ok s) ∅ v v :=
  ⟨settles_pure v, settles_pure v, fun _ _ => rfl⟩

lemma Redoable.comp {back₁ back₂ : StoreB → Except ε StoreB}
    {forward₁ forward₂ : Store → Except ε Store}
    {T₁ T₂ : Set Key} {u w : Key → Value} (h₁ : Redoable getB back₁ get forward₁ T₁ u v)
    (h₂ : Redoable getB back₂ get forward₂ T₂ v w) :
    Redoable getB (fun s => back₂ s >>= back₁) get (fun s => forward₁ s >>= forward₂) (T₂ ∪ T₁)
      u w := by
  refine ⟨h₂.back.comp h₁.back fun k _ hk => h₁.same k hk, ?_, fun k hk => ?_⟩
  · rw [Set.union_comm]
    exact h₁.forward.comp h₂.forward fun k _ hk => (h₂.same k hk).symm
  · rw [Set.mem_union, not_or] at hk
    rw [h₂.same k hk.1, h₁.same k hk.2]

lemma Redoable.congr {back back' : StoreB → Except ε StoreB}
    {forward forward' : Store → Except ε Store} {v' : Key → Value}
    (h : Redoable getB back get forward T v v')
    (hback : ∀ s, back' s = back s) (hforward : ∀ s, forward' s = forward s) :
    Redoable getB back' get forward' T v v' :=
  ⟨h.back.congr hback, h.forward.congr hforward, h.same⟩

/-- **Replay.**  A store that holds the values after one or after another change from the same
start is brought to those after the second. -/
lemma Redoable.replay {StoreA : Type} {getA : StoreA → Key → Value}
    {back₁ forward₂ : Store → Except ε Store} {forward₁ : StoreA → Except ε StoreA}
    {back₂ : StoreB → Except ε StoreB} {T₁ T₂ : Set Key} {u w : Key → Value}
    (h₁ : Redoable get back₁ getA forward₁ T₁ u v) (h₂ : Redoable getB back₂ get forward₂ T₂ u w)
    {s : Store} (hmix : ∀ k, get s k = v k ∨ get s k = w k) :
    ∃ t s', back₁ s = .ok t ∧ forward₂ t = .ok s' ∧ ∀ k, get s' k = w k := by
  obtain ⟨t, hback, hin, hout⟩ := h₁.back s
  obtain ⟨s', hforward, hin', hout'⟩ := h₂.forward t
  refine ⟨t, s', hback, hforward, fun k => ?_⟩
  by_cases hk₂ : k ∈ T₂
  · exact hin' k hk₂
  rw [hout' k hk₂, h₂.same k hk₂]
  by_cases hk₁ : k ∈ T₁
  · exact hin k hk₁
  · rw [hout k hk₁]
    rcases hmix k with hold | hnew
    · rw [hold, h₁.same k hk₁]
    · rw [hnew, h₂.same k hk₂]

end SlithyTove.Framework
