import SlithyTove.Relay.TxRequestChanges

/-!
# Moving the time of the tracker

`SetTimePoint` makes the states agree with a point in time: afterwards waiting announcements have
their time ahead and selectable ones have it behind.  It does not change which announcements are
candidates, nor the requests that have not expired (`Advanced`).
-/

namespace SlithyTove.TxRequest

open Framework List TxRequest.Announcement

variable {Hash NodeId : Type} [LinearOrder Hash] [LinearOrder NodeId]
  {computer : Hash → NodeId → Bool → ℕ} {s : Tracker Hash NodeId} {it : Announcement Hash NodeId}
  {index index' index'' : List (Announcement Hash NodeId)} {now : ℤ}

/-! ## Candidates and requests -/

/-- An announcement that is not yet requested or completed. -/
def Announcement.isCandidate (ann : Announcement Hash NodeId) : Bool :=
  ann.m_state ≠ .REQUESTED ∧ ann.m_state ≠ .COMPLETED

/-- The announcement as it was made, if it is a candidate. -/
def Announcement.plain (ann : Announcement Hash NodeId) : Announcement Hash NodeId :=
  ann.setState .CANDIDATE_DELAYED

omit [LinearOrder Hash] [LinearOrder NodeId] in
lemma isCandidate_iff {a : Announcement Hash NodeId} :
    a.isCandidate = true ↔ a.m_state ≠ .REQUESTED ∧ a.m_state ≠ .COMPLETED := by
  simp [isCandidate]

/-- The candidates are the same, and so are the requests that have not expired. -/
structure Advanced (now : ℤ) (index index' : List (Announcement Hash NodeId)) : Prop where
  candidate : ∀ a ∈ index, a.isCandidate = true → ∃ b ∈ index', b.isCandidate = true ∧
    b.plain = a.plain
  candidate_of : ∀ b ∈ index', b.isCandidate = true →
    ∃ a ∈ index, a.isCandidate = true ∧ a.plain = b.plain
  requested : ∀ a ∈ index, a.m_state = .REQUESTED → now < a.m_time → a ∈ index'
  requested_of : ∀ a ∈ index', a.m_state = .REQUESTED → a ∈ index

namespace Advanced

omit [LinearOrder Hash] [LinearOrder NodeId] in
lemma refl (now : ℤ) (index : List (Announcement Hash NodeId)) : Advanced now index index where
  candidate := fun a ha hcandidate => ⟨a, ha, hcandidate, rfl⟩
  candidate_of := fun b hb hcandidate => ⟨b, hb, hcandidate, rfl⟩
  requested := fun _ ha _ _ => ha
  requested_of := fun _ ha _ => ha

omit [LinearOrder Hash] [LinearOrder NodeId] in
lemma trans (h : Advanced now index index') (h' : Advanced now index' index'') :
    Advanced now index index'' where
  candidate := by
    intro a ha hcandidate
    obtain ⟨b, hb, hcandidate, heq⟩ := h.candidate a ha hcandidate
    obtain ⟨c, hc, hcandidate, heq'⟩ := h'.candidate b hb hcandidate
    exact ⟨c, hc, hcandidate, heq'.trans heq⟩
  candidate_of := by
    intro c hc hcandidate
    obtain ⟨b, hb, hcandidate, heq⟩ := h'.candidate_of c hc hcandidate
    obtain ⟨a, ha, hcandidate, heq'⟩ := h.candidate_of b hb hcandidate
    exact ⟨a, ha, hcandidate, heq'.trans heq⟩
  requested := fun a ha hstate htime => h'.requested a (h.requested a ha hstate htime) hstate htime
  requested_of := fun a ha hstate => h.requested_of a (h'.requested_of a ha hstate) hstate

lemma one (hnodup : index.Nodup) (hit : it ∈ index) (hcandidate : it.isCandidate = true)
    {state : State}
    (hstate : (it.setState state).isCandidate = true) :
    Advanced now index (it.setState state :: index.erase it) where
  candidate := by
    intro a ha hacandidate
    by_cases heq : a = it
    · exact ⟨_, mem_cons_self, hstate, by rw [heq]; rfl⟩
    · exact ⟨a, (mem_one hnodup).2 (.inr ⟨ha, heq⟩), hacandidate, rfl⟩
  candidate_of := by
    intro b hb hbcandidate
    rcases (mem_one hnodup).1 hb with rfl | ⟨hb, -⟩
    · exact ⟨it, hit, hcandidate, rfl⟩
    · exact ⟨b, hb, hbcandidate, rfl⟩
  requested := by
    intro a ha hrequested _
    refine (mem_one hnodup).2 (.inr ⟨ha, ?_⟩)
    rintro rfl
    exact (isCandidate_iff.1 hcandidate).1 hrequested
  requested_of := by
    intro a ha hrequested
    rcases (mem_one hnodup).1 ha with rfl | ⟨ha, -⟩
    · exact absurd hrequested (isCandidate_iff.1 hstate).1
    · exact ha

lemma expired (hnodup : index.Nodup) (hrequested : it.m_state = .REQUESTED)
    (htime : it.m_time ≤ now) :
    Advanced now index (it.setState .COMPLETED :: index.erase it) where
  candidate := by
    intro a ha hacandidate
    refine ⟨a, (mem_one hnodup).2 (.inr ⟨ha, ?_⟩), hacandidate, rfl⟩
    rintro rfl
    exact (isCandidate_iff.1 hacandidate).1 hrequested
  candidate_of := by
    intro b hb hbcandidate
    rcases (mem_one hnodup).1 hb with rfl | ⟨hb, -⟩
    · exact absurd rfl (isCandidate_iff.1 hbcandidate).2
    · exact ⟨b, hb, hbcandidate, rfl⟩
  requested := by
    intro a ha _ hafter
    refine (mem_one hnodup).2 (.inr ⟨ha, ?_⟩)
    rintro rfl
    omega
  requested_of := by
    intro a ha harequested
    rcases (mem_one hnodup).1 ha with rfl | ⟨ha, -⟩
    · cases harequested
    · exact ha

omit [LinearOrder Hash] [LinearOrder NodeId] in
lemma forgotten {txhash : Hash}
    (hdone : ∀ a ∈ index, a.txhash = txhash →
      a.m_state = .COMPLETED ∨ a.m_state = .REQUESTED ∧ a.m_time ≤ now)
    (hiff : ∀ a, a ∈ index' ↔ a ∈ index ∧ a.txhash ≠ txhash) : Advanced now index index' where
  candidate := by
    intro a ha hcandidate
    refine ⟨a, (hiff a).2 ⟨ha, fun hax => ?_⟩, hcandidate, rfl⟩
    rcases hdone a ha hax with hstate | ⟨hstate, -⟩
    · exact (isCandidate_iff.1 hcandidate).2 hstate
    · exact (isCandidate_iff.1 hcandidate).1 hstate
  candidate_of := fun b hb hcandidate => ⟨b, ((hiff b).1 hb).1, hcandidate, rfl⟩
  requested := by
    intro a ha hrequested htime
    refine (hiff a).2 ⟨ha, fun hax => ?_⟩
    rcases hdone a ha hax with hstate | ⟨-, hle⟩
    · rw [hrequested] at hstate
      cases hstate
    · omega
  requested_of := fun a ha _ => ((hiff a).1 ha).1

end Advanced

/-! ## The measures of the loops -/

lemma countP_one (hit : it ∈ index) (x : Announcement Hash NodeId)
    (p : Announcement Hash NodeId → Bool) :
    (x :: index.erase it).countP p + (p it).toNat = index.countP p + (p x).toNat := by
  rw [(perm_cons_erase hit).countP_eq p, countP_cons, countP_cons]
  cases p it <;> cases p x <;> simp

lemma countP_lt (hit : it ∈ index) {x : Announcement Hash NodeId}
    {p : Announcement Hash NodeId → Bool}
    (hold : p it = true) (hnew : p x = false) :
    (x :: index.erase it).countP p < index.countP p := by
  have hcount := countP_one hit x p
  rw [hold, hnew] at hcount
  simp only [Bool.toNat_true, Bool.toNat_false] at hcount
  omega

lemma two_eq {p : Announcement Hash NodeId} (hne : it.m_sequence ≠ p.m_sequence)
    (state state' : State) :
    it.setState state :: (p.setState state' :: (index.erase it).erase p) =
      it.setState state :: (p.setState state' :: index.erase p).erase it := by
  rw [erase_cons_tail, erase_comm]
  rw [beq_iff_eq]
  intro heq
  exact hne (congrArg m_sequence heq).symm

omit [LinearOrder Hash] [LinearOrder NodeId] in
lemma isCandidate_setState {state : State} (h : state ≠ .REQUESTED) (h' : state ≠ .COMPLETED) :
    (it.setState state).isCandidate = true :=
  isCandidate_iff.2 ⟨h, h'⟩

section Results

variable {new_state : State} {p : Announcement Hash NodeId}

section

variable (h : Tracked s) (hit : it ∈ s.m_index)

include h hit

lemma Tracked.nodup_one (hp : p ∈ s.m_index) (hne : p ≠ it)
    {state : State} (hstate : p.m_state ≠ state) :
    (p.setState state :: s.m_index.erase p).Nodup ∧ it ∈ p.setState state :: s.m_index.erase p := by
  refine ⟨nodup_cons.2 ⟨fun hmem => ?_, h.nodup.erase p⟩, ?_⟩
  · exact h.setState_notMem hp hstate (mem_of_mem_erase hmem)
  · exact (mem_one h.nodup).2 (.inr ⟨hit, hne.symm⟩)

omit [LinearOrder Hash] in
lemma Tracked.sequence_ne (hp : p ∈ s.m_index) (hne : p ≠ it) : it.m_sequence ≠ p.m_sequence :=
  fun heq => hne (h.sequence_inj p hp it hit heq.symm)

lemma Promoted.advanced (hresult : Promoted computer s.m_index it index')
    (hstate : it.m_state = .CANDIDATE_DELAYED) :
    Advanced now s.m_index index' := by
  have hcandidate : it.isCandidate = true := by simp [isCandidate_iff, hstate]
  cases hresult with
  | ready => exact .one h.nodup hit hcandidate (isCandidate_setState nofun nofun)
  | best => exact .one h.nodup hit hcandidate (isCandidate_setState nofun nofun)
  | @swap p hp hpx hpbest hlt =>
    have hne : p ≠ it := by
      rintro rfl
      rw [hstate] at hpbest
      cases hpbest
    have hstate' : p.m_state ≠ .CANDIDATE_READY := by simp [hpbest]
    obtain ⟨hnodup, hmem⟩ := h.nodup_one hit hp hne hstate'
    rw [two_eq (h.sequence_ne hit hp hne)]
    have hother : Advanced now s.m_index (p.setState .CANDIDATE_READY :: s.m_index.erase p) :=
      .one h.nodup hp (by simp [isCandidate_iff, hpbest]) (isCandidate_setState nofun nofun)
    exact hother.trans (.one hnodup hmem hcandidate (isCandidate_setState nofun nofun))

lemma Promoted.countP_lt (hresult : Promoted computer s.m_index it index')
    (hstate : it.m_state = .CANDIDATE_DELAYED) :
    index'.countP isWaiting < s.m_index.countP isWaiting := by
  have hwaiting : it.isWaiting = true := isWaiting_iff.2 (.inr hstate)
  cases hresult with
  | ready => exact TxRequest.countP_lt hit hwaiting rfl
  | best => exact TxRequest.countP_lt hit hwaiting rfl
  | @swap p hp hpx hpbest hlt =>
    have hne : p ≠ it := by
      rintro rfl
      rw [hstate] at hpbest
      cases hpbest
    have hstate' : p.m_state ≠ .CANDIDATE_READY := by simp [hpbest]
    obtain ⟨-, hmem⟩ := h.nodup_one hit hp hne hstate'
    have hother : p.isWaiting = false := by simp [isWaiting, hpbest]
    have hcount := countP_one hp (p.setState .CANDIDATE_READY) isWaiting
    rw [hother, show (p.setState .CANDIDATE_READY).isWaiting = false from rfl] at hcount
    rw [two_eq (h.sequence_ne hit hp hne)]
    have hlt := TxRequest.countP_lt hmem hwaiting
      (show (it.setState .CANDIDATE_BEST).isWaiting = false from rfl)
    omega

lemma Reselected.advanced (hresult : Reselected computer s.m_index it new_state index')
    (hstep : ∀ {index : List (Announcement Hash NodeId)}, index.Nodup → it ∈ index →
      Advanced now index (it.setState new_state :: index.erase it)) :
    Advanced now s.m_index index' := by
  cases hresult with
  | alone => exact hstep h.nodup hit
  | @successor p hp hne hpx hready _ _ =>
    have hstate : p.m_state ≠ .CANDIDATE_BEST := by simp [hready]
    obtain ⟨hnodup, hmem⟩ := h.nodup_one hit hp hne hstate
    rw [two_eq (h.sequence_ne hit hp hne)]
    have hother : Advanced now s.m_index (p.setState .CANDIDATE_BEST :: s.m_index.erase p) :=
      .one h.nodup hp (by simp [isCandidate_iff, hready]) (isCandidate_setState nofun nofun)
    exact hother.trans (hstep hnodup hmem)

lemma Reselected.countP_lt (hresult : Reselected computer s.m_index it new_state index')
    {count : Announcement Hash NodeId → Bool}
    (hold : count it = true) (hnew : count (it.setState new_state) = false)
    (hsame : ∀ a, a.m_state = .CANDIDATE_READY → count (a.setState .CANDIDATE_BEST) = count a) :
    index'.countP count < s.m_index.countP count := by
  cases hresult with
  | alone => exact TxRequest.countP_lt hit hold hnew
  | @successor p hp hne hpx hready _ _ =>
    have hstate : p.m_state ≠ .CANDIDATE_BEST := by simp [hready]
    obtain ⟨-, hmem⟩ := h.nodup_one hit hp hne hstate
    have hcount := countP_one hp (p.setState .CANDIDATE_BEST) count
    rw [hsame p hready] at hcount
    rw [two_eq (h.sequence_ne hit hp hne)]
    have hlt := TxRequest.countP_lt hmem hold hnew
    omega

end

lemma Reselected.mem_cases (hresult : Reselected computer index it new_state index')
    (hnodup : index.Nodup) {a : Announcement Hash NodeId} (ha : a ∈ index') :
    a = it.setState new_state ∨ a.m_state = .CANDIDATE_BEST ∨ a ∈ index := by
  cases hresult with
  | alone =>
    rcases (mem_one hnodup).1 ha with heq | ⟨hmem, -⟩
    · exact .inl heq
    · exact .inr (.inr hmem)
  | successor =>
    rcases (mem_two hnodup).1 ha with heq | rfl | ⟨hmem, -, -⟩
    · exact .inl heq
    · exact .inr (.inl rfl)
    · exact .inr (.inr hmem)

end Results

/-! ## The loops -/

variable (views : Views computer)

section

variable (h : Invariant computer s) (hit : it ∈ s.m_index)

include h hit

lemma Invariant.makeCompleted_expired (hrequested : it.m_state = .REQUESTED)
    (htime : it.m_time ≤ now) :
    ∃ still s', s.makeCompleted views it = .ok (still, s') ∧ Invariant computer s' ∧
      Advanced now s.m_index s'.m_index ∧
      s'.m_index.countP isWaiting < s.m_index.countP isWaiting := by
  obtain ⟨still, s', hrun, htracked, hresult⟩ :=
    h.tracked.makeCompleted views (h.settled _) hit
  refine ⟨still, s', hrun, ⟨htracked, hresult.settled h.tracked.nodup hit h.settled⟩, ?_⟩
  have hwaiting : it.isWaiting = true := isWaiting_iff.2 (.inl hrequested)
  have hnodup := htracked.nodup
  generalize s'.m_index = index' at hresult hnodup ⊢
  cases hresult with
  | already hstate =>
    rw [hrequested] at hstate
    cases hstate
  | last _ hothers hiff =>
    refine ⟨.forgotten (fun a ha hax => ?_) hiff, ?_⟩
    · by_cases heq : a = it
      · exact .inr (heq ▸ ⟨hrequested, htime⟩)
      · exact .inl (hothers a ha heq hax)
    · have hsub : index' ⊆ s.m_index.erase it := by
        intro a ha
        obtain ⟨hmem, hne⟩ := (hiff a).1 ha
        exact h.tracked.mem_erase_iff.2 ⟨hmem, fun heq => hne (congrArg _ heq)⟩
      have hle := (hnodup.subperm hsub).countP_le isWaiting
      have hperm := (perm_cons_erase hit).countP_eq isWaiting
      rw [countP_cons_of_pos hwaiting] at hperm
      omega
  | reselected _ _ hresult =>
    refine ⟨hresult.advanced h.tracked hit fun hnodup _ => .expired hnodup hrequested htime, ?_⟩
    refine hresult.countP_lt h.tracked hit hwaiting rfl fun a ha => ?_
    simp [isWaiting, ha]

lemma Invariant.promoteCandidateReady (hstate : it.m_state = .CANDIDATE_DELAYED) :
    ∃ s', s.promoteCandidateReady views it = .ok s' ∧ Invariant computer s' ∧
      Advanced now s.m_index s'.m_index ∧
      s'.m_index.countP isWaiting < s.m_index.countP isWaiting := by
  obtain ⟨s', hrun, htracked, hresult⟩ :=
    h.tracked.promoteCandidateReady views (h.settled _) hit hstate
  exact ⟨s', hrun, ⟨htracked, hresult.settled h.tracked.nodup h.settled hstate⟩,
    hresult.advanced h.tracked hit hstate, hresult.countP_lt h.tracked hit hstate⟩

lemma Invariant.changeAndReselect_delayed (hselectable : it.isSelectable = true) :
    ∃ s', s.changeAndReselect views it .CANDIDATE_DELAYED = .ok s' ∧ Invariant computer s' ∧
      Advanced now s.m_index s'.m_index ∧
      s'.m_index.countP isSelectable < s.m_index.countP isSelectable ∧
      ∀ a ∈ s'.m_index, a = it.setState .CANDIDATE_DELAYED ∨ a.m_state = .CANDIDATE_BEST ∨
        a ∈ s.m_index := by
  obtain ⟨s', hrun, htracked, hresult⟩ :=
    h.tracked.changeAndReselect views (h.settled _) hit (.inr rfl)
  have hcandidate : it.isCandidate = true := by
    rcases isSelectable_iff.1 hselectable with heq | heq <;> simp [isCandidate_iff, heq]
  refine ⟨s', hrun, ⟨htracked, hresult.settled h.tracked.nodup hit h.settled (.inr rfl) nofun⟩,
    hresult.advanced h.tracked hit fun hnodup hmem =>
      .one hnodup hmem hcandidate (isCandidate_setState nofun nofun),
    hresult.countP_lt h.tracked hit hselectable rfl fun a ha => ?_,
    fun a => hresult.mem_cases h.tracked.nodup⟩
  simp [isSelectable, ha]

end

omit [LinearOrder Hash] [LinearOrder NodeId] in
lemma byTime_le_iff {a b : Announcement Hash NodeId} : byTime a ≤ byTime b ↔
    a.getWaitState < b.getWaitState ∨ a.getWaitState = b.getWaitState ∧ a.m_time ≤ b.m_time := by
  rw [byTime, byTime, Prod.Lex.toLex_le_toLex]

/-- The announcements that wait for a time have it ahead. -/
def WaitingAhead (index : List (Announcement Hash NodeId)) (now : ℤ) : Prop :=
  ∀ a ∈ index, a.isWaiting = true → now < a.m_time

/-- **The first loop of `SetTimePoint`** handles all waiting announcements whose time has come. -/
lemma Invariant.forwardLoop :
    ∀ {fuel : ℕ} {s : Tracker Hash NodeId} (expired : List (NodeId × GenTxid Hash)),
      Invariant computer s → s.m_index.countP isWaiting < fuel →
      ∃ expired' s', s.forwardLoop views now fuel expired = .ok (expired', s') ∧
        Invariant computer s' ∧ Advanced now s.m_index s'.m_index ∧ WaitingAhead s'.m_index now
  | 0, s, _, _, hfuel => absurd hfuel (Nat.not_lt_zero _)
  | fuel + 1, s, expired, h, hfuel => by
    unfold Tracker.forwardLoop
    cases hfirst : views.byTime.first s.m_index with
    | none =>
      refine ⟨expired, s, rfl, h, .refl now _, ?_⟩
      rw [views.byTime.eq_nil_of_first hfirst]
      exact nofun
    | some it =>
      obtain ⟨hit, hmin⟩ := views.byTime.mem_of_first hfirst
      dsimp only
      split
      next hdelayed =>
        obtain ⟨s₁, hrun, h₁, hadvanced, hlt⟩ := h.promoteCandidateReady views hit hdelayed.1
        obtain ⟨expired', s', hrest, h', hadvanced', hahead⟩ :=
          Invariant.forwardLoop expired h₁ (show _ < fuel by omega)
        exact ⟨expired', s', bind_eq_ok.2 ⟨s₁, hrun, hrest⟩, h', hadvanced.trans hadvanced', hahead⟩
      next hdelayed =>
        split
        next hrequested =>
          obtain ⟨still, s₁, hrun, h₁, hadvanced, hlt⟩ :=
            h.makeCompleted_expired views hit hrequested.1 hrequested.2
          obtain ⟨expired', s', hrest, h', hadvanced', hahead⟩ :=
            Invariant.forwardLoop (expired ++ [(it.m_peer, it.m_gtxid)]) h₁
              (show _ < fuel by omega)
          exact ⟨expired', s', bind_eq_ok.2 ⟨(still, s₁), hrun, hrest⟩, h',
            hadvanced.trans hadvanced', hahead⟩
        next hrequested =>
          refine ⟨expired, s, rfl, h, .refl now _, fun a ha hwaiting => ?_⟩
          have hle := byTime_le_iff.1 (hmin a ha)
          have hzero : a.getWaitState = 0 := by simp [getWaitState, hwaiting]
          rw [hzero] at hle
          rcases hle with hlt | ⟨heq, htime⟩
          · exact absurd hlt (Nat.not_lt_zero _)
          · have hfirstwaits : it.isWaiting = true := by
              by_contra hnot
              unfold getWaitState at heq
              rw [if_neg hnot] at heq
              split at heq <;> cases heq
            rcases isWaiting_iff.1 hfirstwaits with hstate | hstate
            · exact (lt_of_not_ge fun hpast => hrequested ⟨hstate, hpast⟩).trans_le htime
            · exact (lt_of_not_ge fun hpast => hdelayed ⟨hstate, hpast⟩).trans_le htime

/-- **The second loop of `SetTimePoint`** handles all selectable announcements whose time is
ahead. -/
lemma Invariant.backwardLoop :
    ∀ {fuel : ℕ} {s : Tracker Hash NodeId}, Invariant computer s → WaitingAhead s.m_index now →
      s.m_index.countP isSelectable < fuel →
      ∃ s', s.backwardLoop views now fuel = .ok s' ∧ Invariant computer s' ∧
        Advanced now s.m_index s'.m_index ∧ WaitingAhead s'.m_index now ∧
        ∀ a ∈ s'.m_index, a.isSelectable = true → a.m_time ≤ now
  | 0, s, _, _, hfuel => absurd hfuel (Nat.not_lt_zero _)
  | fuel + 1, s, h, hahead, hfuel => by
    unfold Tracker.backwardLoop
    cases hlast : views.byTime.last s.m_index with
    | none =>
      refine ⟨s, rfl, h, .refl now _, hahead, ?_⟩
      rw [views.byTime.eq_nil_of_last hlast]
      exact nofun
    | some it =>
      obtain ⟨hit, hmax⟩ := views.byTime.mem_of_last hlast
      dsimp only
      split
      next hselectable =>
        obtain ⟨s₁, hrun, h₁, hadvanced, hlt, hcases⟩ :=
          h.changeAndReselect_delayed views hit hselectable.1
        have hahead₁ : WaitingAhead s₁.m_index now := by
          intro a ha hwaiting
          rcases hcases a ha with rfl | hbest | hmem
          · exact hselectable.2
          · simp [isWaiting, hbest] at hwaiting
          · exact hahead a hmem hwaiting
        obtain ⟨s', hrest, h', hadvanced', hahead', hbehind⟩ :=
          Invariant.backwardLoop h₁ hahead₁ (show _ < fuel by omega)
        exact ⟨s', bind_eq_ok.2 ⟨s₁, hrun, hrest⟩, h', hadvanced.trans hadvanced', hahead', hbehind⟩
      next hselectable =>
        refine ⟨s, rfl, h, .refl now _, hahead, fun a ha hsel => ?_⟩
        have hle := byTime_le_iff.1 (hmax a ha)
        have htwo : a.getWaitState = 2 := by
          rcases isSelectable_iff.1 hsel with heq | heq <;>
            simp [getWaitState, isWaiting, isSelectable, heq]
        have hbound : it.getWaitState ≤ 2 := by
          unfold getWaitState
          split_ifs <;> omega
        rcases hle with hlt | ⟨heq, htime⟩
        · omega
        · have hlastsel : it.isSelectable = true := by
            by_contra hnot
            rw [htwo] at heq
            unfold getWaitState at heq
            rw [if_neg hnot] at heq
            split at heq <;> cases heq
          exact htime.trans (le_of_not_gt fun hafter => hselectable ⟨hlastsel, hafter⟩)

/-- **`SetTimePoint`** makes the states agree with the time and keeps candidates and open
requests. -/
lemma Invariant.setTimePoint (h : Invariant computer s) (now : ℤ) :
    ∃ expired s', s.setTimePoint views now = .ok (expired, s') ∧ Invariant computer s' ∧
      Advanced now s.m_index s'.m_index ∧ PostGetRequestableSanityCheck s' now := by
  obtain ⟨expired, s₁, hforward, h₁, hadvanced, hahead⟩ :=
    Invariant.forwardLoop views [] h (Nat.lt_succ_of_le (countP_le_length))
  obtain ⟨s', hbackward, h', hadvanced', hahead', hbehind⟩ :=
    Invariant.backwardLoop views h₁ hahead (Nat.lt_succ_of_le (countP_le_length))
  refine ⟨expired, s', ?_, h', hadvanced.trans hadvanced', fun a ha => ?_⟩
  · unfold Tracker.setTimePoint
    rw [hforward, ok_bind]
    dsimp only
    rw [hbackward]
    rfl
  · split
    next hwaiting => exact hahead' a ha hwaiting
    next => exact hbehind a ha

end SlithyTove.TxRequest
