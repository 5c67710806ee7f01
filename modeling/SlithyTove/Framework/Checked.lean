import Mathlib.Tactic.Common

/-!
# Checked computations

Validation code is a sequence of checks and steps in which the first failure is the result.
Here it is a computation in `Except ε`; `ensure p e` is one check and `whenever b c` a check made
only under a flag.  The lemmas invert a
successful run: `bind_eq_ok` takes one step off it, `ensure_eq_ok` reads a check, and
`foldlM_invariant` is the loop rule, an invariant of the elements already processed that every
successful pass extends.

Where the failures matter as well, `Outcome x P E` says what holds of the result and of the error;
its rules go along the structure of the computation.
-/

namespace SlithyTove.Framework

open List

variable {ε α β σ : Type}

/-- One check: go on if `p` holds, fail with `e` otherwise. -/
def ensure (p : Prop) [Decidable p] (e : ε) : Except ε Unit :=
  if p then .ok () else .error e

@[simp] lemma ensure_eq_ok {p : Prop} [Decidable p] {e : ε} {u : Unit} :
    ensure p e = .ok u ↔ p := by
  rw [ensure]
  split <;> simp_all

lemma ensure_bind {p : Prop} [Decidable p] {e : ε} (hp : p) (f : Unit → Except ε β) :
    (ensure p e >>= f) = f () := by
  rw [ensure, if_pos hp]
  rfl

/-- A check that is only made under a condition. -/
def whenever (b : Bool) (check : Except ε Unit) : Except ε Unit :=
  if b then check else .ok ()

@[simp] lemma whenever_eq_ok {b : Bool} {check : Except ε Unit} {u : Unit} :
    whenever b check = .ok u ↔ (b = true → check = .ok ()) := by
  cases b <;> simp [whenever]

variable {x : Except ε α}

lemma exists_of_isOk (h : x.isOk = true) : ∃ a, x = .ok a := by
  cases x with
  | error e => cases h
  | ok a => exact ⟨a, rfl⟩

lemma bind_eq_ok {f : α → Except ε β} {b : β} :
    (x >>= f) = .ok b ↔ ∃ a, x = .ok a ∧ f a = .ok b := by
  cases x with
  | error e => simp [bind, Except.bind]
  | ok a => simp [bind, Except.bind]

lemma ok_bind (a : α) (f : α → Except ε β) : (Except.ok a >>= f) = f a := rfl

lemma pure_eq (a : α) : (pure a : Except ε α) = .ok a := rfl

@[simp] lemma pure_eq_ok {a b : α} : (pure a : Except ε α) = .ok b ↔ a = b := by
  simp [pure, Except.pure]

variable {f : σ → α → Except ε σ} {l : List α}

/-- A successful loop over a nonempty list is a successful first pass and a successful rest. -/
lemma foldlM_cons_eq_ok {a : α} {s s' : σ} :
    (a :: l).foldlM f s = .ok s' ↔ ∃ t, f s a = .ok t ∧ l.foldlM f t = .ok s' := by
  rw [foldlM_cons, bind_eq_ok]

lemma foldlM_append_eq_ok {l₁ l₂ : List α} {s s' : σ} :
    (l₁ ++ l₂).foldlM f s = .ok s' ↔
      ∃ t, l₁.foldlM f s = .ok t ∧ l₂.foldlM f t = .ok s' := by
  rw [foldlM_append, bind_eq_ok]

lemma foldlM_congr {g : σ → α → Except ε σ} (h : ∀ a ∈ l, ∀ s, f s a = g s a) (s : σ) :
    l.foldlM f s = l.foldlM g s := by
  induction l generalizing s with
  | nil => rfl
  | cons a l ih =>
    rw [foldlM_cons, foldlM_cons, h a mem_cons_self]
    congr 1
    funext t
    exact ih (fun b hb => h b (mem_cons_of_mem _ hb)) t

/-- **The invariant rule of a checked loop.**  `P pre t` is what holds once the elements of
`pre` have been processed. -/
lemma foldlM_invariant (P : List α → σ → Prop) {s s' : σ} (hrun : l.foldlM f s = .ok s')
    (hstart : P [] s) (hstep : ∀ pre a t t', a ∈ l → P pre t → f t a = .ok t' → P (pre ++ [a]) t') :
    P l s' := by
  suffices h : ∀ (rest pre : List α) (t : σ), (∀ a ∈ rest, a ∈ l) → P pre t →
      rest.foldlM f t = .ok s' → P (pre ++ rest) s' from
    h l [] s (fun _ h => h) hstart hrun
  intro rest
  induction rest with
  | nil =>
    intro pre t _ hP hrest
    rw [foldlM_nil, pure_eq_ok] at hrest
    rwa [append_nil, ← hrest]
  | cons a rest ih =>
    intro pre t hmem hP hrest
    obtain ⟨t', hpass, hrest⟩ := foldlM_cons_eq_ok.1 hrest
    have := ih (pre ++ [a]) t' (fun b hb => hmem b (mem_cons_of_mem _ hb))
      (hstep pre a t t' (hmem a mem_cons_self) hP hpass) hrest
    rwa [append_assoc] at this

lemma forM_eq_ok {f : α → Except ε Unit} (h : l.forM f = .ok ()) : ∀ a ∈ l, f a = .ok () := by
  induction l with
  | nil => exact fun a ha => absurd ha not_mem_nil
  | cons a l ih =>
    obtain ⟨_, ha, hl⟩ := bind_eq_ok.1 h
    exact forall_mem_cons.2 ⟨ha, ih hl⟩

lemma mapM_eq_ok {f : α → Except ε β} {bs : List β} (h : l.mapM f = .ok bs) :
    List.Forall₂ (fun a b => f a = .ok b) l bs := by
  induction l generalizing bs with
  | nil =>
    rw [mapM_nil, pure_eq_ok] at h
    rw [← h]
    exact .nil
  | cons a l ih =>
    simp only [mapM_cons, bind_eq_ok, pure_eq_ok] at h
    obtain ⟨b, hb, bs', hbs', rfl⟩ := h
    exact .cons hb (ih hbs')

/-! ## Outcomes -/

/-- A computation whose result satisfies `P`, and whose error, if it fails, satisfies `E`. -/
def Outcome (x : Except ε α) (P : α → Prop) (E : ε → Prop) : Prop :=
  match x with
  | .ok a => P a
  | .error e => E e

variable {x : Except ε α} {P P' : α → Prop} {E : ε → Prop}

lemma Outcome.mono (h : Outcome x P E) (hP : ∀ a, P a → P' a) : Outcome x P' E := by
  cases x with
  | error e => exact h
  | ok a => exact hP a h

/-- **Sequencing.** -/
lemma Outcome.bind {f : α → Except ε β} {Q : β → Prop} (h : Outcome x P E)
    (hf : ∀ a, P a → Outcome (f a) Q E) : Outcome (x >>= f) Q E := by
  cases x with
  | error e => exact h
  | ok a => exact hf a h

/-- **Loops.**  An invariant that every pass keeps. -/
lemma Outcome.foldlM {I : σ → Prop} {s : σ} (hs : I s) (hstep : ∀ t a, I t → Outcome (f t a) I E) :
    Outcome (l.foldlM f s) I E := by
  induction l generalizing s with
  | nil => exact hs
  | cons a l ih =>
    rw [foldlM_cons]
    exact (hstep s a hs).bind fun t ht => ih ht

end SlithyTove.Framework
