import Mathlib.Tactic.Common

/-!
# Interleavings and recursive mutexes

Threads that share a state are one machine: an event names the thread that moves, and a partial
function `step` performs the move or says that the thread cannot move now, because it waits for a
mutex or for another thread.  A sequence of events is an interleaving, and what every state of
every interleaving satisfies follows from what one event preserves (`Reachable.invariant`).

A recursive mutex is the thread that owns it and the number of further times that thread has
locked it; nobody else can lock or unlock it meanwhile.  `depth a` is the number of locks `a` has.
Locking and unlocking change the depth of the thread that moves by one and no other thread's, and
two threads never have a positive depth together.
-/

namespace SlithyTove.Framework

/-! ## Runs of a partial step function -/

section Runs

variable {σ ε : Type*}

/-- The state after a sequence of events, if every one of them can happen when its turn comes. -/
def runFrom (step : σ → ε → Option σ) (s : σ) : List ε → Option σ
  | [] => some s
  | e :: events => (step s e).bind fun t => runFrom step t events

/-- `s` is the state after some sequence of events from `init`. -/
def Reachable (step : σ → ε → Option σ) (init s : σ) : Prop :=
  ∃ events, runFrom step init events = some s

variable {step : σ → ε → Option σ} {P : σ → Prop}

lemma runFrom_invariant (hstep : ∀ s e t, P s → step s e = some t → P t) :
    ∀ (events : List ε) (s t : σ), P s → runFrom step s events = some t → P t
  | [], s, t, hs, h => by
    cases h
    exact hs
  | e :: events, s, t, hs, h => by
    obtain ⟨u, hu, ht⟩ := Option.bind_eq_some_iff.1 h
    exact runFrom_invariant hstep events u t (hstep s e u hs hu) ht

/-- **The invariant rule.** -/
lemma Reachable.invariant {init s : σ} (h : Reachable step init s) (hinit : P init)
    (hstep : ∀ s e t, P s → step s e = some t → P t) : P s := by
  obtain ⟨events, hrun⟩ := h
  exact runFrom_invariant hstep events init s hinit hrun

lemma exists_reachable (step : σ → ε → Option σ) (init : σ) (events : List ε) (test : σ → Bool)
    (h : (runFrom step init events).any test = true) :
    ∃ s, Reachable step init s ∧ test s = true := by
  obtain ⟨s, hrun, htest⟩ := (Option.any_eq_true ..).1 h
  exact ⟨s, ⟨events, hrun⟩, htest⟩

end Runs

/-! ## Recursive mutexes -/

/-- A recursive mutex: free, or its owner and how often the owner has locked it again. -/
structure RecursiveMutex (α : Type*) where
  held : Option (α × ℕ) := none
  deriving DecidableEq, Repr

namespace RecursiveMutex

variable {α : Type*} [DecidableEq α]

/-- `lock` by thread `a`; `none` while another thread owns the mutex. -/
def lock (m : RecursiveMutex α) (a : α) : Option (RecursiveMutex α) :=
  match m.held with
  | none => some ⟨some (a, 0)⟩
  | some (b, k) => if a = b then some ⟨some (b, k + 1)⟩ else none

/-- `unlock` by thread `a`, which has to own the mutex. -/
def unlock (m : RecursiveMutex α) (a : α) : Option (RecursiveMutex α) :=
  match m.held with
  | none => none
  | some (b, 0) => if a = b then some ⟨none⟩ else none
  | some (b, k + 1) => if a = b then some ⟨some (b, k)⟩ else none

/-- How many locks `a` has. -/
def depth (m : RecursiveMutex α) (a : α) : ℕ :=
  match m.held with
  | none => 0
  | some (b, k) => if a = b then k + 1 else 0

variable {m : RecursiveMutex α}

lemma depth_of_free (h : m.held = none) (a : α) : m.depth a = 0 := by
  simp [depth, h]

variable {a : α}

lemma depth_pos_iff : 0 < m.depth a ↔ ∃ k, m.held = some (a, k) := by
  unfold depth
  split
  · next hfree => simp [hfree]
  · next b k hheld =>
    by_cases hab : a = b
    · simp [hheld, hab]
    · simp [hheld, hab, Ne.symm hab]

/-- **Mutual exclusion.** -/
lemma eq_of_depth_pos {b : α} (ha : 0 < m.depth a) (hb : 0 < m.depth b) : a = b := by
  obtain ⟨k, hk⟩ := depth_pos_iff.1 ha
  obtain ⟨l, hl⟩ := depth_pos_iff.1 hb
  rw [hk] at hl
  injection hl with hl
  exact congrArg Prod.fst hl

lemma depth_of_lock {m' : RecursiveMutex α} (h : m.lock a = some m') :
    (m.held = none ∨ 0 < m.depth a) ∧ m'.depth a = m.depth a + 1 ∧
      ∀ b, b ≠ a → m'.depth b = m.depth b := by
  unfold lock at h
  split at h
  · next hfree =>
    cases h
    refine ⟨Or.inl hfree, ?_, ?_⟩
    · simp [depth, hfree]
    · intro b hb
      simp [depth, hfree, hb]
  · next b k hheld =>
    split at h
    · next hab =>
      cases h
      subst hab
      refine ⟨Or.inr (depth_pos_iff.2 ⟨k, hheld⟩), ?_, ?_⟩
      · simp [depth, hheld]
      · intro b hb
        simp [depth, hheld, hb]
    · cases h

lemma depth_of_unlock {m' : RecursiveMutex α} (h : m.unlock a = some m') :
    m'.depth a + 1 = m.depth a ∧ ∀ b, b ≠ a → m'.depth b = m.depth b := by
  unfold unlock at h
  split at h
  · cases h
  · next b hheld =>
    split at h
    · next hab =>
      cases h
      subst hab
      refine ⟨by simp [depth, hheld], ?_⟩
      intro b hb
      simp [depth, hheld, hb]
    · cases h
  · next b k hheld =>
    split at h
    · next hab =>
      cases h
      subst hab
      refine ⟨by simp [depth, hheld], ?_⟩
      intro b hb
      simp [depth, hheld, hb]
    · cases h

end RecursiveMutex

end SlithyTove.Framework
