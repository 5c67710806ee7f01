import SlithyTove.Relay.TxRequestInvariant
import Mathlib.Data.List.Perm.Subperm

/-!
# The changes of state of the tracker

`PromoteCandidateReady`, `ChangeAndReselect` and `MakeCompleted` look at the neighbours of an
announcement in the index by txhash.  The state comes after the txhash in the key, and the priority
of ready announcements after the state, so a selected announcement, the best of the ready ones and
the last one that is not completed are all next to where they are looked for.  What the functions do
to the list of announcements is said by `Promoted` and `Reselected`, and all that is needed of them
follows from that.
-/

namespace SlithyTove.TxRequest

open Framework List

variable {Hash NodeId : Type} [LinearOrder Hash] [LinearOrder NodeId]
  {computer : Hash → NodeId → Bool → ℕ}

/-! ## The order of the index by txhash -/

section Order

variable {a b c : Announcement Hash NodeId}

section

omit [LinearOrder NodeId]

lemma byTxHash_le_iff : byTxHash computer a ≤ byTxHash computer b ↔
    a.txhash < b.txhash ∨ a.txhash = b.txhash ∧
      (a.m_state.value < b.m_state.value ∨ a.m_state.value = b.m_state.value ∧
        (if a.m_state = .CANDIDATE_READY then priority computer a else 0) ≤
          if b.m_state = .CANDIDATE_READY then priority computer b else 0) := by
  rw [byTxHash, byTxHash, Prod.Lex.toLex_le_toLex, Prod.Lex.toLex_le_toLex]

section

variable (h : byTxHash computer a ≤ byTxHash computer b)

include h

lemma value_le_of_le (htx : a.txhash = b.txhash) : a.m_state.value ≤ b.m_state.value := by
  rcases byTxHash_le_iff.1 h with hlt | ⟨-, hlt | ⟨heq, -⟩⟩
  · exact absurd htx hlt.ne
  · exact hlt.le
  · exact heq.le

lemma priority_le_of_le (htx : a.txhash = b.txhash) (ha : a.m_state = .CANDIDATE_READY)
    (hb : b.m_state = .CANDIDATE_READY) : priority computer a ≤ priority computer b := by
  rcases byTxHash_le_iff.1 h with hlt | ⟨-, hlt | ⟨-, hle⟩⟩
  · exact absurd htx hlt.ne
  · rw [ha, hb] at hlt
    exact absurd hlt (lt_irrefl _)
  · rwa [if_pos ha, if_pos hb] at hle

lemma txhash_le_of_le : a.txhash ≤ b.txhash := by
  rcases byTxHash_le_iff.1 h with hlt | ⟨heq, -⟩
  · exact hlt.le
  · exact heq.le

end

lemma byTxHash_lt_of_value_lt (htx : a.txhash = b.txhash) (h : a.m_state.value < b.m_state.value) :
    byTxHash computer a < byTxHash computer b := by
  refine lt_of_not_ge fun hle => ?_
  exact absurd (value_le_of_le hle htx.symm) (not_le.2 h)

lemma txhash_eq_of_between (hab : byTxHash computer a ≤ byTxHash computer b)
    (hbc : byTxHash computer b ≤ byTxHash computer c) (hac : a.txhash = c.txhash) :
    b.txhash = a.txhash :=
  le_antisymm ((txhash_le_of_le hbc).trans hac.ge) (txhash_le_of_le hab)

end

end Order

variable {a : Announcement Hash NodeId}

omit [LinearOrder Hash] [LinearOrder NodeId] in
lemma completed_of_value_le {b : Announcement Hash NodeId} (ha : a.m_state = .COMPLETED)
    (h : a.m_state.value ≤ b.m_state.value) : b.m_state = .COMPLETED := by
  cases hb : b.m_state <;> simp_all [State.value]

/-! ## The results of the changes -/

variable {s : Tracker Hash NodeId} {it : Announcement Hash NodeId}
  {index index' : List (Announcement Hash NodeId)}

variable (computer) in
/-- What holds between calls. -/
structure Invariant (s : Tracker Hash NodeId) : Prop where
  tracked : Tracked s
  settled : ∀ txhash, Settled computer s.m_index txhash

variable (computer) in
/-- What `PromoteCandidateReady` does to the announcements. -/
inductive Promoted (index : List (Announcement Hash NodeId)) (it : Announcement Hash NodeId) :
    List (Announcement Hash NodeId) → Prop
  | ready {p : Announcement Hash NodeId} (hp : p ∈ index) (hpx : p.txhash = it.txhash)
      (hselected : p.isSelected = true)
      (hbest : p.m_state = .CANDIDATE_BEST → priority computer it ≤ priority computer p) :
      Promoted index it (it.setState .CANDIDATE_READY :: index.erase it)
  | best (hnone : ∀ a ∈ index, a.txhash = it.txhash → a.isSelected = false) :
      Promoted index it (it.setState .CANDIDATE_BEST :: index.erase it)
  | swap {p : Announcement Hash NodeId} (hp : p ∈ index) (hpx : p.txhash = it.txhash)
      (hpbest : p.m_state = .CANDIDATE_BEST) (hlt : priority computer p < priority computer it) :
      Promoted index it (it.setState .CANDIDATE_BEST ::
        (p.setState .CANDIDATE_READY :: (index.erase it).erase p))

variable (computer) in
/-- What `ChangeAndReselect` does to the announcements. -/
inductive Reselected (index : List (Announcement Hash NodeId)) (it : Announcement Hash NodeId)
    (new_state : State) : List (Announcement Hash NodeId) → Prop
  | alone (hnone : it.isSelected = true →
        ∀ a ∈ index, a.txhash = it.txhash → a.m_state ≠ .CANDIDATE_READY) :
      Reselected index it new_state (it.setState new_state :: index.erase it)
  | successor {p : Announcement Hash NodeId} (hp : p ∈ index) (hne : p ≠ it)
      (hpx : p.txhash = it.txhash) (hready : p.m_state = .CANDIDATE_READY)
      (hselected : it.isSelected = true)
      (hbest : ∀ a ∈ index, a.txhash = it.txhash → a.m_state = .CANDIDATE_READY →
        priority computer a ≤ priority computer p) :
      Reselected index it new_state
        (it.setState new_state :: (p.setState .CANDIDATE_BEST :: (index.erase it).erase p))

omit [LinearOrder Hash] [LinearOrder NodeId] in
lemma setState_ne (state : State) (h : it.m_state ≠ state) : it.setState state ≠ it :=
  fun heq => h (congrArg Announcement.m_state heq).symm

omit [LinearOrder Hash] in
lemma Tracked.setState_notMem (h : Tracked s) (hit : it ∈ s.m_index) {state : State}
    (hstate : it.m_state ≠ state) : it.setState state ∉ s.m_index :=
  fun hmem => setState_ne state hstate (h.sequence_inj _ hmem it hit rfl)

lemma Tracked.modify_two {p : Announcement Hash NodeId} (h : Tracked s) (hp : p ∈ s.m_index)
    (hit : it ∈ s.m_index) (hne : p ≠ it) (state state' : State) :
    ∃ s', (s.modify p (p.setState state) >>= fun s => s.modify it (it.setState state')) = .ok s' ∧
      Tracked s' ∧ s'.m_index =
        it.setState state' :: (p.setState state :: (s.m_index.erase it).erase p) := by
  obtain ⟨s₁, hrun₁, h₁, hindex₁⟩ := h.modify hp (kept_setState state)
  have hit₁ : it ∈ s₁.m_index := by
    rw [hindex₁]
    exact mem_cons_of_mem _ (h.mem_erase_iff.2 ⟨hit, hne.symm⟩)
  obtain ⟨s₂, hrun₂, h₂, hindex₂⟩ := h₁.modify hit₁ (kept_setState state')
  rw [hrun₁]
  refine ⟨s₂, hrun₂, h₂, ?_⟩
  have hdiff : p.setState state ≠ it := by
    intro heq
    have hsequence := congrArg Announcement.m_sequence heq
    exact hne (h.sequence_inj p hp it hit hsequence)
  rw [hindex₂, hindex₁, erase_cons_tail (by simpa using hdiff), erase_comm]

variable (views : Views computer)

/-- **`PromoteCandidateReady`** finds the selected announcement of the txhash. -/
lemma Tracked.promoteCandidateReady (h : Tracked s)
    (hsettled : Settled computer s.m_index it.txhash) (hit : it ∈ s.m_index)
    (hstate : it.m_state = .CANDIDATE_DELAYED) :
    ∃ s', s.promoteCandidateReady views it = .ok s' ∧ Tracked s' ∧
      Promoted computer s.m_index it s'.m_index := by
  have hfresh : it.setState .CANDIDATE_READY ∉ s.m_index :=
    h.setState_notMem hit (by simp [hstate])
  obtain ⟨s₁, hrun, h₁, hindex⟩ := h.modify hit (kept_setState .CANDIDATE_READY)
  have hready : it.setState .CANDIDATE_READY ∈ s₁.m_index := hindex ▸ mem_cons_self
  have herase : s₁.m_index.erase (it.setState .CANDIDATE_READY) = s.m_index.erase it := by
    rw [hindex, erase_cons_head]
  have hmem₁ : ∀ a ∈ s.m_index, a.isSelected = true → a ∈ s₁.m_index ∧
      a ≠ it.setState .CANDIDATE_READY := by
    intro a ha hselected
    have hne : a ≠ it := by
      rintro rfl
      simp [isSelected_iff, hstate] at hselected
    rw [hindex]
    exact ⟨mem_cons_of_mem _ (h.mem_erase_iff.2 ⟨ha, hne⟩), fun heq => hfresh (heq ▸ ha)⟩
  -- A selected announcement of the txhash is at or after the next one.
  have hnext : ∀ a ∈ s.m_index, a.txhash = it.txhash → a.isSelected = true →
      ∃ n, views.byTxHash.next s₁.m_index (it.setState .CANDIDATE_READY) = some n ∧
        byTxHash computer n ≤ byTxHash computer a := by
    intro a ha hax hselected
    obtain ⟨ha₁, hne⟩ := hmem₁ a ha hselected
    have hlt : byTxHash computer (it.setState .CANDIDATE_READY) < byTxHash computer a := by
      refine byTxHash_lt_of_value_lt hax.symm ?_
      rcases isSelected_iff.1 hselected with heq | heq <;> simp [heq, State.value]
    rcases views.byTxHash.beyond_neighbour hready ha₁ hne with ⟨p, hp, hle⟩ | hfound
    · have hprev := (views.byTxHash.mem_of_prev hready hp).2.2
      exact absurd (hle.trans hprev) (not_le.2 hlt)
    · exact hfound
  unfold Tracker.promoteCandidateReady
  rw [ensure_bind hstate]
  dsimp only
  rw [hrun, ok_bind]
  have hbest : (∀ a ∈ s.m_index, a.txhash = it.txhash → a.isSelected = false) →
      ∃ s', s₁.modify (it.setState .CANDIDATE_READY)
          ((it.setState .CANDIDATE_READY).setState .CANDIDATE_BEST) = .ok s' ∧ Tracked s' ∧
        Promoted computer s.m_index it s'.m_index := by
    intro hnone
    obtain ⟨s₂, hrun₂, h₂, hindex₂⟩ := h₁.modify hready (kept_setState .CANDIDATE_BEST)
    refine ⟨s₂, hrun₂, h₂, ?_⟩
    rw [hindex₂, herase]
    exact .best hnone
  cases hfind : views.byTxHash.next s₁.m_index (it.setState .CANDIDATE_READY) with
  | none =>
    refine hbest fun a ha hax => Bool.eq_false_iff.2 fun hselected => ?_
    obtain ⟨n, hn, -⟩ := hnext a ha hax hselected
    rw [hfind] at hn
    cases hn
  | some n =>
    obtain ⟨hn₁, hnne, hle⟩ := views.byTxHash.mem_of_next hready h₁.nodup hfind
    have hn : n ∈ s.m_index := by
      rw [hindex] at hn₁
      rcases mem_cons.1 hn₁ with heq | hn₁
      · exact absurd heq hnne
      · exact mem_of_mem_erase hn₁
    dsimp only
    split
    next hother =>
      refine hbest fun a ha hax => Bool.eq_false_iff.2 fun hselected => ?_
      obtain ⟨n', hn', hle'⟩ := hnext a ha hax hselected
      rw [hfind] at hn'
      cases hn'
      have hreadyx : (it.setState .CANDIDATE_READY).txhash = a.txhash := hax.symm
      have hnx : n.txhash = it.txhash := (txhash_eq_of_between hle hle' hreadyx).trans rfl
      rcases hother with hother | hother
      · exact hother hnx
      · have hvalue := value_le_of_le hle' (hnx.trans hax.symm)
        exact not_completed_of_isSelected hselected (completed_of_value_le hother hvalue)
    next hother =>
      rw [not_or, not_not] at hother
      obtain ⟨hnx, hncompleted⟩ := hother
      split
      next hbetter =>
        obtain ⟨hnbest, hlt⟩ := hbetter
        obtain ⟨s₂, hrun₂, h₂, hindex₂⟩ :=
          h₁.modify_two hn₁ hready hnne .CANDIDATE_READY .CANDIDATE_BEST
        refine ⟨s₂, hrun₂, h₂, ?_⟩
        rw [hindex₂, herase]
        exact .swap hn hnx hnbest hlt
      next hworse =>
        refine ⟨s₁, rfl, h₁, ?_⟩
        rw [hindex]
        rw [not_and, not_lt] at hworse
        cases hnstate : n.m_state with
        | CANDIDATE_DELAYED =>
          have hvalue := value_le_of_le hle hnx.symm
          rw [hnstate] at hvalue
          exact absurd hvalue (by simp [State.value])
        | CANDIDATE_READY =>
          obtain ⟨b, hb, hbx, hselected⟩ := hsettled.selected n hn hnx hnstate
          refine .ready hb hbx hselected fun hbbest => ?_
          have hpriority := priority_le_of_le hle (hnx.symm.trans rfl) rfl hnstate
          exact hpriority.trans (hsettled.best n hn b hb hnx hbx hnstate hbbest)
        | CANDIDATE_BEST =>
          exact .ready hn hnx (isSelected_iff.2 (.inl hnstate)) fun _ => hworse hnstate
        | REQUESTED =>
          refine .ready hn hnx (isSelected_iff.2 (.inr hnstate)) fun hbbest => ?_
          rw [hnstate] at hbbest
          cases hbbest
        | COMPLETED => exact absurd hnstate hncompleted

variable {new_state : State}

/-- **`ChangeAndReselect`** finds the best of the ready announcements. -/
lemma Tracked.changeAndReselect (h : Tracked s)
    (hsettled : Settled computer s.m_index it.txhash) (hit : it ∈ s.m_index)
    (hnew : new_state = .COMPLETED ∨ new_state = .CANDIDATE_DELAYED) :
    ∃ s', s.changeAndReselect views it new_state = .ok s' ∧ Tracked s' ∧
      Reselected computer s.m_index it new_state s'.m_index := by
  unfold Tracker.changeAndReselect
  rw [ensure_bind hnew]
  have halone : (it.isSelected = true →
      ∀ a ∈ s.m_index, a.txhash = it.txhash → a.m_state ≠ .CANDIDATE_READY) →
      ∃ s', s.modify it (it.setState new_state) = .ok s' ∧ Tracked s' ∧
        Reselected computer s.m_index it new_state s'.m_index := by
    intro hnone
    obtain ⟨s', hrun, h', hindex⟩ := h.modify hit (kept_setState new_state)
    exact ⟨s', hrun, h', hindex ▸ .alone hnone⟩
  unfold Tracker.reselect
  split
  next hselected =>
    -- A ready announcement of the txhash is at or before the previous one.
    have hprev : ∀ a ∈ s.m_index, a.txhash = it.txhash → a.m_state = .CANDIDATE_READY →
        ∃ p, views.byTxHash.prev s.m_index it = some p ∧
          byTxHash computer a ≤ byTxHash computer p := by
      intro a ha hax haready
      have hvalue : a.m_state.value < it.m_state.value := by
        rcases isSelected_iff.1 hselected with heq | heq <;> simp [heq, haready, State.value]
      have hlt : byTxHash computer a < byTxHash computer it := byTxHash_lt_of_value_lt hax hvalue
      rcases views.byTxHash.beyond_neighbour hit ha (fun heq => by simp [heq] at hlt) with
        hfound | ⟨n, hn, hle⟩
      · exact hfound
      · have hnext := (views.byTxHash.mem_of_next hit h.nodup hn).2.2
        exact absurd (hnext.trans hle) (not_le.2 hlt)
    cases hfind : views.byTxHash.prev s.m_index it with
    | none =>
      refine halone fun _ a ha hax haready => ?_
      obtain ⟨p, hp, -⟩ := hprev a ha hax haready
      rw [hfind] at hp
      cases hp
    | some p =>
      obtain ⟨hp, hne, hle⟩ := views.byTxHash.mem_of_prev hit hfind
      dsimp only
      split
      next hpready =>
        obtain ⟨hpx, hpready⟩ := hpready
        obtain ⟨s', hrun, h', hindex⟩ := h.modify_two hp hit hne .CANDIDATE_BEST new_state
        refine ⟨s', hrun, h', ?_⟩
        rw [hindex]
        refine .successor hp hne hpx hpready hselected fun a ha hax haready => ?_
        obtain ⟨p', hp', hle'⟩ := hprev a ha hax haready
        rw [hfind] at hp'
        cases hp'
        exact priority_le_of_le hle' (hax.trans hpx.symm) haready hpready
      next hpready =>
        refine halone fun _ a ha hax haready => hpready ?_
        obtain ⟨p', hp', hle'⟩ := hprev a ha hax haready
        rw [hfind] at hp'
        cases hp'
        have hpx : p.txhash = it.txhash := (txhash_eq_of_between hle' hle hax).trans hax
        refine ⟨hpx, ?_⟩
        -- It is not before a ready one, and it is not selected itself.
        have hvalue := value_le_of_le hle' (hax.trans hpx.symm)
        rw [haready] at hvalue
        have hpnot : p.isSelected = false :=
          Bool.eq_false_iff.2 fun hpsel => hne (hsettled.unique p hp it hit hpx rfl hpsel hselected)
        have hvalue' := value_le_of_le hle hpx
        cases hpstate : p.m_state with
        | CANDIDATE_DELAYED => simp [hpstate, State.value] at hvalue
        | CANDIDATE_READY => rfl
        | CANDIDATE_BEST => simp [Announcement.isSelected, hpstate] at hpnot
        | REQUESTED => simp [Announcement.isSelected, hpstate] at hpnot
        | COMPLETED =>
          exact absurd (completed_of_value_le hpstate hvalue')
            (not_completed_of_isSelected hselected)
  next hselected => exact halone fun hsel => absurd hsel hselected

/-! ## What follows for the other announcements -/

section

variable (hnodup : index.Nodup)

include hnodup

lemma mem_one {x a : Announcement Hash NodeId} :
    a ∈ x :: index.erase it ↔ a = x ∨ a ∈ index ∧ a ≠ it := by
  rw [mem_cons, hnodup.mem_erase_iff, and_comm]

lemma mem_two {p x y a : Announcement Hash NodeId} :
    a ∈ x :: (y :: (index.erase it).erase p) ↔ a = x ∨ a = y ∨ a ∈ index ∧ a ≠ it ∧ a ≠ p := by
  rw [mem_cons, mem_cons, (hnodup.erase it).mem_erase_iff, hnodup.mem_erase_iff]
  tauto

omit [LinearOrder Hash] [LinearOrder NodeId] hnodup in
lemma ne_setState {a b : Announcement Hash NodeId} (h : a.txhash ≠ b.txhash) (state : State) :
    a ≠ b.setState state := by
  rintro rfl
  exact h rfl

section OtherTxHash

variable {p a : Announcement Hash NodeId}

lemma mem_one_of_ne (ha : a.txhash ≠ it.txhash) (state : State) :
    a ∈ it.setState state :: index.erase it ↔ a ∈ index := by
  rw [mem_one hnodup, or_iff_right (ne_setState ha state),
    and_iff_left fun heq => ha (congrArg _ heq)]

lemma mem_two_of_ne (ha : a.txhash ≠ it.txhash) (hpx : p.txhash = it.txhash)
    (state state' : State) :
    a ∈ it.setState state :: (p.setState state' :: (index.erase it).erase p) ↔ a ∈ index := by
  have hap : a.txhash ≠ p.txhash := hpx ▸ ha
  rw [mem_two hnodup, or_iff_right (ne_setState ha state), or_iff_right (ne_setState hap state'),
    and_iff_left ⟨fun heq => ha (congrArg _ heq), fun heq => hap (congrArg _ heq)⟩]

lemma Promoted.mem_iff (h : Promoted computer index it index')
    (ha : a.txhash ≠ it.txhash) : a ∈ index' ↔ a ∈ index := by
  cases h with
  | ready => exact mem_one_of_ne hnodup ha _
  | best => exact mem_one_of_ne hnodup ha _
  | swap hp hpx _ _ => exact mem_two_of_ne hnodup ha hpx _ _

lemma Reselected.mem_iff {new_state : State} (h : Reselected computer index it new_state index')
    (ha : a.txhash ≠ it.txhash) : a ∈ index' ↔ a ∈ index := by
  cases h with
  | alone => exact mem_one_of_ne hnodup ha _
  | successor hp hpne hpx _ _ _ => exact mem_two_of_ne hnodup ha hpx _ _

end OtherTxHash

lemma Promoted.settled (h : Promoted computer index it index')
    (hsettled : ∀ txhash, Settled computer index txhash) (hstate : it.m_state = .CANDIDATE_DELAYED)
    (txhash : Hash) : Settled computer index' txhash := by
  by_cases htx : txhash = it.txhash
  · subst htx
    cases h with
    | ready hp hpx hselected hbest =>
      exact (hsettled _).ready hstate hp hpx hselected hbest fun _ => mem_one hnodup
    | best hnone => exact (hsettled _).becomesBest hnone fun _ => mem_one hnodup
    | swap hp hpx hpbest hlt => exact (hsettled _).swap hp hpx hpbest hlt fun _ => mem_two hnodup
  · exact (hsettled txhash).congr fun a ha => h.mem_iff hnodup (ha ▸ htx)

lemma Reselected.settled {new_state : State} (h : Reselected computer index it new_state index')
    (hit : it ∈ index) (hsettled : ∀ txhash, Settled computer index txhash)
    (hnew : new_state = .COMPLETED ∨ new_state = .CANDIDATE_DELAYED)
    (hactive : new_state = .COMPLETED →
      ∃ a ∈ index, a ≠ it ∧ a.txhash = it.txhash ∧ a.m_state ≠ .COMPLETED)
    (txhash : Hash) : Settled computer index' txhash := by
  by_cases htx : txhash = it.txhash
  · subst htx
    cases h with
    | alone hnone => exact (hsettled _).change hnew hnone hactive fun _ => mem_one hnodup
    | successor hp hne hpx hready hselected hbest =>
      exact (hsettled _).succeed hnew hit hselected hpx hbest fun _ => mem_two hnodup
  · exact (hsettled txhash).congr fun a ha => h.mem_iff hnodup (ha ▸ htx)

end

/-! ## `MakeCompleted` -/

/-- **`IsOnlyNonCompleted`** says what its name says. -/
lemma Tracked.isOnlyNonCompleted (h : Tracked s) (hit : it ∈ s.m_index)
    (hstate : it.m_state ≠ .COMPLETED) :
    ∃ only, s.isOnlyNonCompleted views it = .ok only ∧
      (only = true ↔ ∀ a ∈ s.m_index, a ≠ it → a.txhash = it.txhash → a.m_state = .COMPLETED) := by
  unfold Tracker.isOnlyNonCompleted
  rw [ensure_bind hstate]
  refine ⟨_, rfl, ?_⟩
  simp only [Bool.and_eq_true, Bool.not_eq_true', Option.any_eq_false, decide_eq_false_iff_not,
    not_and, not_not]
  constructor
  · rintro ⟨hprev, hnext⟩ a ha hne hax
    rcases views.byTxHash.beyond_neighbour hit ha hne with ⟨p, hp, hle⟩ | ⟨n, hn, hle⟩
    · have hle' := (views.byTxHash.mem_of_prev hit hp).2.2
      exact absurd ((txhash_eq_of_between hle hle' hax).trans hax) (hprev p hp)
    · have hle' := (views.byTxHash.mem_of_next hit h.nodup hn).2.2
      have hnx : n.txhash = it.txhash := txhash_eq_of_between hle' hle hax.symm
      exact completed_of_value_le (hnext n hn hnx) (value_le_of_le hle (hnx.trans hax.symm))
  · intro hothers
    refine ⟨fun p hp hpx => ?_, fun n hn hnx => ?_⟩
    · obtain ⟨hmem, hne, hle⟩ := views.byTxHash.mem_of_prev hit hp
      exact hstate (completed_of_value_le (hothers p hmem hne hpx) (value_le_of_le hle hpx))
    · obtain ⟨hmem, hne, -⟩ := views.byTxHash.mem_of_next hit h.nodup hn
      exact hothers n hmem hne hnx

variable (computer) in
/-- What `MakeCompleted` does to the announcements, and whether the announcement still exists. -/
inductive Completes (index : List (Announcement Hash NodeId)) (it : Announcement Hash NodeId) :
    Bool → List (Announcement Hash NodeId) → Prop
  | already (hstate : it.m_state = .COMPLETED) : Completes index it true index
  | last {index' : List (Announcement Hash NodeId)} (hstate : it.m_state ≠ .COMPLETED)
      (hothers : ∀ a ∈ index, a ≠ it → a.txhash = it.txhash → a.m_state = .COMPLETED)
      (hiff : ∀ a, a ∈ index' ↔ a ∈ index ∧ a.txhash ≠ it.txhash) : Completes index it false index'
  | reselected {index' : List (Announcement Hash NodeId)} (hstate : it.m_state ≠ .COMPLETED)
      (hactive : ∃ a ∈ index, a ≠ it ∧ a.txhash = it.txhash ∧ a.m_state ≠ .COMPLETED)
      (h : Reselected computer index it .COMPLETED index') : Completes index it true index'

/-- The loop of `MakeCompleted` visits all announcements of the txhash. -/
lemma mem_erased (hit : it ∈ s.m_index) (hstate : it.m_state ≠ .COMPLETED)
    (hothers : ∀ a ∈ s.m_index, a ≠ it → a.txhash = it.txhash → a.m_state = .COMPLETED) :
    a ∈ it :: (views.byTxHash.after s.m_index it).takeWhile (fun ann => ann.txhash = it.txhash) ↔
      a ∈ s.m_index ∧ a.txhash = it.txhash := by
  have hsublist := views.byTxHash.cons_after_sublist hit
  have hsorted := (views.byTxHash.sorted s.m_index).sublist hsublist
  obtain ⟨hfirst, hrest⟩ := pairwise_cons.1 hsorted
  have hfilter : (views.byTxHash.after s.m_index it).Pairwise fun a b =>
      decide (b.txhash = it.txhash) = true → decide (a.txhash = it.txhash) = true := by
    refine hrest.imp_of_mem fun ha _ hab hb => decide_eq_true ?_
    exact txhash_eq_of_between (hfirst _ ha) hab (of_decide_eq_true hb).symm
  rw [takeWhile_eq_filter hfilter, mem_cons, mem_filter, decide_eq_true_eq]
  constructor
  · rintro (rfl | ⟨ha, hax⟩)
    · exact ⟨hit, rfl⟩
    · have hmem := hsublist.subset (mem_cons_of_mem _ ha)
      exact ⟨(views.byTxHash.perm s.m_index).mem_iff.1 hmem, hax⟩
  · rintro ⟨ha, hax⟩
    by_cases heq : a = it
    · exact .inl heq
    refine .inr ⟨views.byTxHash.mem_after hit ha (byTxHash_lt_of_value_lt hax.symm ?_), hax⟩
    cases hvalue : it.m_state <;> simp_all [State.value]

/-- **`MakeCompleted`.** -/
lemma Tracked.makeCompleted (h : Tracked s)
    (hsettled : Settled computer s.m_index it.txhash) (hit : it ∈ s.m_index) :
    ∃ still s', s.makeCompleted views it = .ok (still, s') ∧ Tracked s' ∧
      Completes computer s.m_index it still s'.m_index := by
  unfold Tracker.makeCompleted
  by_cases hstate : it.m_state = .COMPLETED
  · rw [if_pos hstate]
    exact ⟨true, s, rfl, h, .already hstate⟩
  rw [if_neg hstate]
  obtain ⟨only, honly, hiff⟩ := h.isOnlyNonCompleted views hit hstate
  rw [honly, ok_bind]
  cases only with
  | true =>
    have hothers := hiff.1 rfl
    have hnodup : (it :: (views.byTxHash.after s.m_index it).takeWhile fun ann =>
        decide (ann.txhash = it.txhash)).Nodup := by
      refine ((views.byTxHash.perm s.m_index).nodup_iff.2 h.nodup).sublist ?_
      exact ((takeWhile_sublist _).cons_cons it).trans (views.byTxHash.cons_after_sublist hit)
    obtain ⟨s', hrun, h', hmem⟩ := h.foldlM_erase hnodup
      fun a ha => ((mem_erased views hit hstate hothers).1 ha).1
    rw [if_pos rfl]
    dsimp only
    rw [hrun]
    refine ⟨false, s', rfl, h', .last hstate hothers fun a => ?_⟩
    rw [hmem, mem_erased views hit hstate hothers, not_and]
    exact ⟨fun ha => ⟨ha.1, ha.2 ha.1⟩, fun ha => ⟨ha.1, fun _ => ha.2⟩⟩
  | false =>
    obtain ⟨s', hrun, h', hreselected⟩ := h.changeAndReselect views hsettled hit (.inl rfl)
    rw [if_neg nofun, hrun]
    refine ⟨true, s', rfl, h', .reselected hstate ?_ hreselected⟩
    by_contra hnone
    refine absurd (hiff.2 fun a ha hne hax => ?_) nofun
    by_contra hactive
    exact hnone ⟨a, ha, hne, hax, hactive⟩

variable {still : Bool}

lemma Completes.mem_iff (h : Completes computer index it still index') (hnodup : index.Nodup)
    (ha : a.txhash ≠ it.txhash) : a ∈ index' ↔ a ∈ index := by
  cases h with
  | already => rfl
  | last _ _ hiff => rw [hiff, and_iff_left ha]
  | reselected _ _ h => exact h.mem_iff hnodup ha

lemma Completes.settled (h : Completes computer index it still index') (hnodup : index.Nodup)
    (hit : it ∈ index) (hsettled : ∀ txhash, Settled computer index txhash) (txhash : Hash) :
    Settled computer index' txhash := by
  cases h with
  | already => exact hsettled txhash
  | last _ _ hiff => exact settled_of_removed hsettled hiff txhash
  | reselected _ hactive h =>
    exact h.settled hnodup hit hsettled (.inl rfl) (fun _ => hactive) txhash

lemma Completes.mem_completed (h : Completes computer index it true index') (hit : it ∈ index) :
    it.setState .COMPLETED ∈ index' := by
  cases h with
  | already hstate =>
    have heq : it.setState .COMPLETED = it := by
      rw [Announcement.setState, ← hstate]
    rwa [heq]
  | reselected _ _ h =>
    cases h with
    | alone => exact mem_cons_self
    | successor => exact mem_cons_self

lemma Completes.txhash_ne (h : Completes computer index it false index') (ha : a ∈ index') :
    a.txhash ≠ it.txhash := by
  cases h with
  | last _ _ hiff => exact ((hiff a).1 ha).2

lemma Reselected.length_eq (h : Reselected computer index it new_state index')
    (hit : it ∈ index) : index'.length = index.length := by
  have hpos : 0 < index.length := length_pos_of_mem hit
  have herase : (index.erase it).length = index.length - 1 := length_erase_of_mem hit
  cases h with
  | alone =>
    rw [length_cons, herase]
    omega
  | @successor p hp hne _ _ _ _ =>
    have hp' : p ∈ index.erase it := (mem_erase_of_ne hne).2 hp
    have hpos' := length_pos_of_mem hp'
    rw [length_cons, length_cons, length_erase_of_mem hp']
    omega

/-- No announcement is added, and one goes if it does not exist any more. -/
lemma Completes.length_le (h : Completes computer index it still index') (hit : it ∈ index)
    (hnodup : index.Nodup) (hnodup' : index'.Nodup) :
    index'.length + (!still).toNat ≤ index.length := by
  cases h with
  | already => exact le_rfl
  | last _ _ hiff =>
    have hsub : index' ⊆ index.erase it := by
      intro a ha
      obtain ⟨hmem, hne⟩ := (hiff a).1 ha
      exact hnodup.mem_erase_iff.2 ⟨fun heq => hne (congrArg _ heq), hmem⟩
    have hle := (hnodup'.subperm hsub).length_le
    have hpos : 0 < index.length := length_pos_of_mem hit
    rw [length_erase_of_mem hit] at hle
    simp only [Bool.not_false, Bool.toNat_true]
    omega
  | reselected _ _ h => exact (h.length_eq hit).le

end SlithyTove.TxRequest
