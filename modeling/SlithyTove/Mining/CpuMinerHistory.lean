import SlithyTove.Mining.CpuMinerInvariant

/-!
# What the calls to the CPU miner leave behind

`MinerHistory` relates the workers to the record of the calls that took the transition mutex.  Once
a stop has left its critical section, no worker is left until a start enters; once a start has left
with its workers, they are in the vector until some call enters.
-/

namespace SlithyTove.CpuMiner

open Framework List

variable {node : MinerNode} {s t : MinerState} {a b : Actor} {fails : Bool} {e : Effect} {p q : Pc}

/-! ## Leaving the critical section -/

lemma Pc.reply_of_holds {starts : Bool} (h : 0 < p.holds starts) : p.reply = none := by
  cases p <;> first | rfl | cases h

section

variable (h : node.instruction s a fails p = some (e, q))

include h

lemma instruction_reply (hpassed : p.passed (node.starts a)) (hout : p.holds (node.starts a) = 0)
    (hstarts : node.starts a) : q.reply = p.reply := by
  revert h
  fun_cases MinerNode.instruction node s a fails p
  all_goals
    rintro ⟨⟩ <;> simp_all [Pc.passed, Pc.holds, Pc.reply]

/-- What is there when a call leaves: nothing after a stop, and what its reply says after a
start. -/
lemma instruction_leaves (hstart : p.ofStart → node.starts a) (hin : 0 < p.holds (node.starts a))
    (hout : q.holds (node.starts a) = 0) (howners : Owners node s.pool a p) :
    e.onPool a s.pool = s.pool ∧ (node.starts a = false → s.pool.Empty) ∧
      (node.starts a → ∀ reply, q.reply = some reply → Leaves s.pool reply) := by
  cases p with
  | stopAcquire =>
    cases h
    simp only [Pc.holds] at hout
    split at hout <;> cases hout
  | stopJoin threads =>
    cases threads with
    | nil =>
      simp only [MinerNode.instruction] at h
      split at h
      case isTrue hyes =>
        cases h
        simp [Pc.holds] at hout
      case isFalse hno =>
        cases a <;> cases h <;> exact ⟨rfl, fun _ => howners, fun hyes => absurd hyes hno⟩
    | cons w threads =>
      obtain ⟨-, heq⟩ := Option.ite_none_right_eq_some.1 h
      cases heq
      simp only [Pc.holds] at hout
      split at hout <;> cases hout
  | release reply =>
    cases h
    refine ⟨rfl, fun hno => ?_, fun _ r hr => ?_⟩
    · rw [hstart rfl] at hno
      cases hno
    · cases hr
      exact howners
  | joinCreated threads =>
    cases threads with
    | nil =>
      cases h
      cases hout
    | cons w threads =>
      obtain ⟨-, heq⟩ := Option.ite_none_right_eq_some.1 h
      cases heq
      cases hout
  | _ =>
    -- Everywhere else the call was outside already, or is still inside.
    simp only [MinerNode.instruction] at h
    repeat' split at h
    all_goals
      cases h <;> simp_all [Pc.holds]

lemma instruction_logs (hstart : p.ofStart → node.starts a) (hno : node.starts a = false)
    (hbefore : p.passed false = false) (hafter : q.passed false) :
    e = .lockTransition ∧ p.holds (node.starts a) = 0 := by
  revert h
  fun_cases MinerNode.instruction node s a fails p
  all_goals
    rintro ⟨⟩ <;> simp_all [Pc.passed, Pc.holds, Pc.ofStart]

end

/-! ## The history -/

lemma WorkerPool.Empty.onPool {pool : WorkerPool} (h : pool.Empty) (hne : e ≠ .emplaceBack) :
    (e.onPool a pool).Empty := by
  cases e
  case emplaceBack => exact absurd rfl hne
  case swapThreads => exact ⟨rfl, h.2⟩
  case clearThreads => exact ⟨rfl, h.2⟩
  all_goals
    exact h

/-- How the workers relate to the calls that took the transition mutex, the latest first. -/
structure MinerHistory (node : MinerNode) (s : MinerState) : Prop where
  /-- The call that holds the mutex took it last. -/
  head : ∀ a, 0 < s.transition.depth a → ∃ l, s.entered = a :: l
  passed : ∀ a ∈ s.entered, (s.pc a).passed (node.starts a)
  logged : ∀ a, node.starts a = false → (s.pc a).passed false → a ∈ s.entered
  /-- After a stop, or after a start that failed, nothing is left until the next start enters. -/
  settled : ∀ l₁ a l₂, s.entered = l₁ ++ a :: l₂ → (∀ b ∈ l₁, node.starts b = false) →
    s.transition.depth a = 0 →
    (node.starts a → ∃ reply, (s.pc a).reply = some reply ∧ ∀ n, reply ≠ .active n) →
    s.pool.Empty
  /-- After a start that succeeded, its workers are in the vector until the next call enters. -/
  filled : ∀ a l n, s.entered = a :: l → node.starts a → (s.pc a).reply = some (.active n) →
    (s.pool.minerThreads.length : ℤ) = n ∧ 0 < n

section Step

variable (hinv : MinerInv node s) (hist : MinerHistory node s)
  (hinstr : node.instruction s a fails (s.pc a) = some (e, q)) (hperforms : Performs s t a e)
  (hself : t.pc a = q) (hother : ∀ b, b ≠ a → t.pc b = s.pc b)

include hinv hist hinstr hperforms hself hother

omit hself hother hinstr hinv in
lemma MinerHistory.head_next (h : 0 < t.transition.depth b) : ∃ l, t.entered = b :: l := by
  rcases hperforms.entered with ⟨hsame, hheld⟩ | ⟨hcons, -, hfree⟩
  · rw [hsame]
    refine hist.head b ?_
    by_cases hb : b = a
    · subst hb
      exact hheld h
    · rwa [← hperforms.others b hb]
  · by_cases hb : b = a
    · exact ⟨s.entered, hb ▸ hcons⟩
    · rw [hperforms.others b hb, RecursiveMutex.depth_of_free hfree] at h
      cases h

lemma MinerHistory.passed_next (h : b ∈ t.entered) : (t.pc b).passed (node.starts b) := by
  have hold : b ∈ s.entered → (t.pc b).passed (node.starts b) := by
    intro hmem
    have hpassed := hist.passed b hmem
    by_cases hb : b = a
    · subst hb
      rw [hself]
      exact instruction_passed hinstr hpassed
    · rwa [hother b hb]
  rcases hperforms.entered with ⟨hsame, -⟩ | ⟨hcons, hlock, -⟩
  · exact hold (hsame ▸ h)
  · rw [hcons] at h
    rcases mem_cons.1 h with rfl | hmem
    · subst hlock
      rw [hself]
      exact (instruction_fits hinstr (hinv.start b)).1.2.2
    · exact hold hmem

lemma MinerHistory.logged_next (hno : node.starts b = false) (h : (t.pc b).passed false) :
    b ∈ t.entered := by
  have hmono : ∀ c, c ∈ s.entered → c ∈ t.entered := by
    intro c hc
    rcases hperforms.entered with ⟨hsame, -⟩ | ⟨hcons, -⟩
    · rwa [hsame]
    · rw [hcons]
      exact mem_cons_of_mem _ hc
  by_cases hb : b = a
  · subst hb
    rw [hself] at h
    by_cases hbefore : (s.pc b).passed false
    · exact hmono b (hist.logged b hno hbefore)
    · obtain ⟨hlock, hout⟩ := instruction_logs hinstr (hinv.start b) hno
        (Bool.eq_false_iff.2 hbefore) h
      rcases hperforms.entered with ⟨-, hheld⟩ | ⟨hcons, -⟩
      · have hdepth := hperforms.lock hlock
        have hpos := hheld (by omega)
        rw [hinv.depth, hout] at hpos
        cases hpos
      · rw [hcons]
        exact mem_cons_self
  · rw [hother b hb] at h
    exact hmono b (hist.logged b hno h)

/-- The call that moved is outside now: it was before, or it has just left. -/
lemma MinerHistory.mover_settled {l₁ l₂ : List Actor} (hent : s.entered = l₁ ++ a :: l₂)
    (hl₁ : ∀ b ∈ l₁, node.starts b = false) (hzero : t.transition.depth a = 0)
    (hreply : node.starts a → ∃ reply, q.reply = some reply ∧ ∀ n, reply ≠ .active n) :
    t.pool.Empty := by
  have hfits := (instruction_fits hinstr (hinv.start a)).1
  have hq : q.holds (node.starts a) = 0 := by
    rw [← hself, ← hinv.depth_next hfits hperforms hself hother, hzero]
  rcases Nat.eq_zero_or_pos (s.transition.depth a) with hout | hin
  · rw [hinv.pool_eq hinstr hperforms hout]
    refine hist.settled l₁ a l₂ hent hl₁ hout fun hstarts => ?_
    obtain ⟨reply, hq, hne⟩ := hreply hstarts
    have hpassed := hist.passed a (by rw [hent]; exact mem_append_right _ mem_cons_self)
    rw [hinv.depth] at hout
    exact ⟨reply, (instruction_reply hinstr hpassed hout hstarts).symm.trans hq, hne⟩
  · have howners := hinv.owners a (.inr hin)
    rw [hinv.depth] at hin
    obtain ⟨hpool, hstop, hstart⟩ := instruction_leaves hinstr (hinv.start a) hin hq howners
    rw [hperforms.pool, hpool]
    cases hstarts : node.starts a with
    | false => exact hstop hstarts
    | true =>
      obtain ⟨reply, hr, hne⟩ := hreply hstarts
      have hleaves := hstart hstarts reply hr
      cases reply with
      | active n => exact absurd rfl (hne n)
      | inactive => exact hleaves
      | thrown error => exact hleaves

lemma MinerHistory.settled_next {l₁ l₂ : List Actor} (hent : t.entered = l₁ ++ b :: l₂)
    (hl₁ : ∀ c ∈ l₁, node.starts c = false) (hzero : t.transition.depth b = 0)
    (hreply : node.starts b → ∃ reply, (t.pc b).reply = some reply ∧ ∀ n, reply ≠ .active n) :
    t.pool.Empty := by
  rcases hperforms.entered with ⟨hsame, -⟩ | ⟨hcons, hlock, -⟩
  · rw [hsame] at hent
    by_cases hb : b = a
    · subst hb
      rw [hself] at hreply
      exact hist.mover_settled hinv hinstr hperforms hself hother hent hl₁ hzero hreply
    · rw [hother b hb] at hreply
      rw [hperforms.others b hb] at hzero
      rw [hperforms.pool]
      refine (hist.settled l₁ b l₂ hent hl₁ hzero hreply).onPool ?_
      -- A start that creates a worker holds the mutex, so it entered after `b`.
      rintro rfl
      obtain ⟨hofStart, hholds, -⟩ := instruction_emplaceBack hinstr
      obtain ⟨l, hl⟩ := hist.head a (by rw [hinv.depth]; omega)
      rw [hl] at hent
      cases l₁ with
      | nil =>
        injection hent with heq
        exact hb heq.symm
      | cons c l₁ =>
        injection hent with heq
        have hstop := hl₁ c mem_cons_self
        rw [← heq, hinv.start a hofStart] at hstop
        cases hstop
  · have hdepth := hperforms.lock hlock
    have hb : b ≠ a := by
      rintro rfl
      omega
    rw [hcons] at hent
    cases l₁ with
    | nil =>
      injection hent with heq
      exact absurd heq.symm hb
    | cons c l₁ =>
      injection hent with heq hrest
      rw [hother b hb] at hreply
      rw [hperforms.others b hb] at hzero
      rw [hperforms.pool, hlock]
      exact hist.settled l₁ b l₂ hrest (fun c hc => hl₁ c (mem_cons_of_mem _ hc)) hzero
        hreply

lemma MinerHistory.filled_next {l : List Actor} {n : ℤ} (hent : t.entered = b :: l)
    (hstarts : node.starts b) (hreply : (t.pc b).reply = some (.active n)) :
    (t.pool.minerThreads.length : ℤ) = n ∧ 0 < n := by
  have hfits := (instruction_fits hinstr (hinv.start a)).1
  have hdepth := hinv.depth_next hfits hperforms hself hother
  have hzero : t.transition.depth b = 0 := by
    by_contra hne
    have hpos : 0 < (t.pc b).holds (node.starts b) := by
      rw [← hdepth]
      omega
    rw [Pc.reply_of_holds hpos] at hreply
    cases hreply
  rcases hperforms.entered with ⟨hsame, -⟩ | ⟨hcons, hlock, -⟩
  · rw [hsame] at hent
    rcases Nat.eq_zero_or_pos (s.transition.depth a) with hout | hin
    · rw [hinv.pool_eq hinstr hperforms hout]
      refine hist.filled b l n hent hstarts ?_
      by_cases hb : b = a
      · subst hb
        have hpassed := hist.passed b (by rw [hent]; exact mem_cons_self)
        rw [hinv.depth] at hout
        rw [← instruction_reply hinstr hpassed hout hstarts, ← hself]
        exact hreply
      · rwa [← hother b hb]
    · obtain ⟨l', hl'⟩ := hist.head a hin
      rw [hl'] at hent
      injection hent with heq
      subst heq
      have howners := hinv.owners a (.inr hin)
      rw [hinv.depth] at hin
      rw [hdepth, hself] at hzero
      rw [hself] at hreply
      obtain ⟨hpool, -, hstart⟩ := instruction_leaves hinstr (hinv.start a) hin hzero howners
      rw [hperforms.pool, hpool]
      exact (hstart hstarts _ hreply).2
  · rw [hcons] at hent
    injection hent with heq
    subst heq
    have := hperforms.lock hlock
    omega

end Step

lemma MinerHistory.act (hinv : MinerInv node s) (hist : MinerHistory node s)
    (h : node.act s a fails = some t) : MinerHistory node t := by
  obtain ⟨e, q, hinstr, hperforms, hself, hother⟩ := act_spec h
  exact ⟨fun b => hist.head_next hperforms,
    fun b => hist.passed_next hinv hinstr hperforms hself hother,
    fun b => hist.logged_next hinv hinstr hperforms hself hother,
    fun l₁ b l₂ => hist.settled_next hinv hinstr hperforms hself hother,
    fun b l n => hist.filled_next hinv hinstr hperforms hself hother⟩

lemma MinerHistory.finish (hist : MinerHistory node s) (w : ℕ) :
    MinerHistory node { s with pool := s.pool.finish w } where
  head := hist.head
  passed := hist.passed
  logged := hist.logged
  settled l₁ a l₂ hent hl₁ hzero hreply := by
    have hempty := hist.settled l₁ a l₂ hent hl₁ hzero hreply
    exact ⟨hempty.1, hempty.2.finish w⟩
  filled := hist.filled

/-! ## Every interleaving -/

lemma MinerInv.init (node : MinerNode) : MinerInv node {} where
  depth _ := rfl
  start _ h := by cases h
  sound := ⟨fun _ _ => rfl, fun _ _ h => absurd h.1 (Nat.not_lt_zero _)⟩
  owners _ _ := fun _ h => absurd h.1 (Nat.not_lt_zero _)
  counts _ _ := rfl

lemma MinerHistory.init (node : MinerNode) : MinerHistory node {} where
  head _ h := by cases h
  passed _ h := by cases h
  logged _ _ h := by cases h
  settled l₁ a l₂ h := by
    have := congrArg List.length h
    simp at this
  filled _ _ _ h := by cases h

/-- **Every state of every interleaving satisfies both.** -/
lemma MinerNode.Reaches.inv (h : node.Reaches s) : MinerInv node s ∧ MinerHistory node s := by
  refine Reachable.invariant (P := fun s => MinerInv node s ∧ MinerHistory node s) h
    ⟨MinerInv.init node, MinerHistory.init node⟩ ?_
  rintro s event t ⟨hinv, hist⟩ hstep
  cases event with
  | act a fails => exact ⟨hinv.act hstep, hist.act hinv hstep⟩
  | iterate w =>
    obtain ⟨hw, hstep⟩ := Option.ite_none_right_eq_some.1 hstep
    split at hstep
    · cases hstep
      exact ⟨hinv.finish hw, hist.finish w⟩
    · cases hstep
      exact ⟨hinv, hist⟩
  | throws w =>
    obtain ⟨hw, hstep⟩ := Option.ite_none_right_eq_some.1 hstep
    cases hstep
    exact ⟨hinv.finish hw, hist.finish w⟩
  | interruptNode =>
    cases hstep
    exact ⟨⟨hinv.depth, hinv.start, hinv.sound, hinv.owners, hinv.counts⟩,
      ⟨hist.head, hist.passed, hist.logged, hist.settled, hist.filled⟩⟩

/-- Some call may touch the workers: the one that holds the mutex, or any while it is free. -/
lemma MinerState.exists_clear (s : MinerState) : ∃ a, s.Clear a := by
  cases hheld : s.transition.held with
  | none => exact ⟨.shutdown, .inl hheld⟩
  | some owner => exact ⟨owner.1, .inr (RecursiveMutex.depth_pos_iff.2 ⟨owner.2, hheld⟩)⟩

lemma MinerInv.depth_of_creating (hinv : MinerInv node s) (h : (s.pc a).creating = true) :
    0 < s.transition.depth a := by
  rw [hinv.depth]
  by_contra hzero
  rw [Pc.creating_of_outside (Nat.eq_zero_of_not_pos hzero)] at h
  cases h

lemma MinerInv.liveWorkers_eq (hinv : MinerInv node s) :
    s.pool.liveWorkers = s.pool.unfinished.card + {a | (s.pc a).creating = true}.ncard ∧
      {a | (s.pc a).creating = true}.ncard ≤ 1 := by
  by_cases hsome : ∃ a, (s.pc a).creating = true
  · obtain ⟨a, ha⟩ := hsome
    have hpos := hinv.depth_of_creating ha
    have hset : {a | (s.pc a).creating = true} = {a} := by
      ext b
      constructor
      · intro hb
        exact RecursiveMutex.eq_of_depth_pos (hinv.depth_of_creating hb) hpos
      · rintro rfl
        exact ha
    have hcounts := hinv.counts a (.inr hpos)
    rw [hset, Set.ncard_singleton, hcounts, ha]
    exact ⟨rfl, le_rfl⟩
  · have hset : {a | (s.pc a).creating = true} = ∅ :=
      Set.eq_empty_of_forall_notMem fun a ha => hsome ⟨a, ha⟩
    obtain ⟨a, ha⟩ := s.exists_clear
    have hcounts := hinv.counts a ha
    unfold Counts at hcounts
    rw [if_neg fun hcreating => hsome ⟨a, hcreating⟩] at hcounts
    rw [hset, Set.ncard_empty]
    exact ⟨hcounts, Nat.zero_le 1⟩

lemma MinerInv.owner (hinv : MinerInv node s) {w : ℕ} (hw : s.pool.Unfinished w) :
    w ∈ s.pool.minerThreads ∨
      ∃ a threads, (s.pc a = .stopUnlock threads ∨ s.pc a = .stopJoin threads) ∧ w ∈ threads := by
  obtain ⟨a, ha⟩ := s.exists_clear
  have howners := hinv.owners a ha
  cases hpc : s.pc a <;> rw [hpc] at howners
  case stopUnlock threads => exact .inr ⟨a, threads, .inl hpc, howners.2 w hw⟩
  case stopJoin threads => exact .inr ⟨a, threads, .inr hpc, howners.2 w hw⟩
  case lock => exact .inl (howners.ownedBy _ w hw)
  case clearFlag => exact .inl (howners.ownedBy _ w hw)
  case count => exact .inl (howners.1 w hw)
  case create => exact .inl (howners.1 w hw)
  case joinCreated => exact .inl (howners.2 (howners.1 w hw))
  case unlock => exact .inl (Leaves.ownedBy howners w hw)
  case release => exact .inl (Leaves.ownedBy howners w hw)
  all_goals
    exact .inl (howners w hw)

/-- **The workers are accounted for in every interleaving.**  The counter shows the unfinished
workers and the at most one being created; the vector or a stop that joins owns each of them; they
come from one start; and once a `stopcpumining` has returned, none is left unless a start has taken
the transition mutex after it. -/
theorem workers_accounted (node : MinerNode) (s : MinerState) (h : node.Reaches s) :
    (s.pool.liveWorkers = s.pool.unfinished.card + {a | (s.pc a).creating = true}.ncard ∧
      {a | (s.pc a).creating = true}.ncard ≤ 1) ∧
    (∀ w, s.pool.Unfinished w → w ∈ s.pool.minerThreads ∨
      ∃ a threads, (s.pc a = .stopUnlock threads ∨ s.pc a = .stopJoin threads) ∧ w ∈ threads) ∧
    (∀ v w, s.pool.Unfinished v → s.pool.Unfinished w →
      s.pool.startedBy v = s.pool.startedBy w) ∧
    ∀ c reply, node.request c = .stop → s.pc (.rpc c) = .returned reply →
      ∃ later earlier, s.entered = later ++ .rpc c :: earlier ∧
        ((∀ a ∈ later, node.starts a = false) → ∀ w, ¬ s.pool.Unfinished w) := by
  obtain ⟨hinv, hist⟩ := h.inv
  refine ⟨hinv.liveWorkers_eq, fun w => hinv.owner, hinv.sound.sameStart, ?_⟩
  intro c reply hrequest hpc
  have hno : node.starts (.rpc c) = false := by simp [MinerNode.starts, hrequest]
  have hmem := hist.logged (.rpc c) hno (by rw [hpc]; rfl)
  obtain ⟨later, earlier, hent⟩ := append_of_mem hmem
  refine ⟨later, earlier, hent, fun hlater w hw => ?_⟩
  have hdepth : s.transition.depth (.rpc c) = 0 := by
    rw [hinv.depth, hpc]
    rfl
  have hempty := hist.settled later (.rpc c) earlier hent hlater hdepth fun hyes => by
    rw [hno] at hyes
    cases hyes
  exact absurd (hempty.2 w hw) not_mem_nil

/-- A node with one processor; call `1` starts mining, all others stop it. -/
def oneStart : MinerNode where
  params := mainParams
  available := 1
  request c := if c = 1 then .start (some [0x51]) none else .stop

/-- Call `c` performs its next `n` actions, and none of them fails. -/
def acts (c n : ℕ) : List MinerEvent :=
  List.replicate n (.act (.rpc c) false)

/-- Call `1` starts a worker, and call `0` stops it and has to wait for it. -/
theorem workers_accounted_start_stop :
    ∃ s, oneStart.Reaches s ∧ s.pc (.rpc 0) = .returned .inactive ∧ s.pool.workers = 1 ∧
      ∀ w, ¬ s.pool.Unfinished w := by
  obtain ⟨s, hreach, htest⟩ := exists_reachable oneStart.step {}
    (acts 1 15 ++ acts 0 6 ++ [.iterate 0] ++ acts 0 3)
    (fun s => s.pc (.rpc 0) = .returned .inactive ∧ s.pool.workers = 1 ∧
      s.entered = [.rpc 0, .rpc 1]) (by decide +kernel)
  obtain ⟨hpc, hworkers, hentered⟩ := of_decide_eq_true htest
  refine ⟨s, hreach, hpc, hworkers, ?_⟩
  obtain ⟨later, earlier, hent, hnone⟩ :=
    (workers_accounted oneStart s hreach).2.2.2 0 .inactive rfl hpc
  refine hnone fun a ha => ?_
  rw [hentered] at hent
  cases later with
  | nil => cases ha
  | cons first later =>
    injection hent with _ hrest
    cases later with
    | nil => cases hrest
    | cons second later => simp at hrest

/-- Call `0` has stopped the miner and released the mutex when call `1` starts it and returns.  Then
call `0` returns, no start is in progress, and a worker is running. -/
theorem stop_returns_after_start :
    ∃ s t, oneStart.Reaches s ∧ oneStart.step s (.act (.rpc 0) false) = some t ∧
      oneStart.request 0 = .stop ∧ t.pc (.rpc 0) = .returned .inactive ∧
      (∀ a, oneStart.starts a → t.pc a = .idle ∨ ∃ reply, t.pc a = .returned reply) ∧
      t.pool.Unfinished 0 := by
  obtain ⟨s, hreach, htest⟩ := exists_reachable oneStart.step {} (acts 0 5 ++ acts 1 15)
    (fun s => (oneStart.step s (.act (.rpc 0) false)).any fun t =>
      t.pc (.rpc 0) = .returned .inactive ∧ t.pc (.rpc 1) = .returned (.active 1) ∧
        t.pool.Unfinished 0) (by decide +kernel)
  obtain ⟨t, hstep, htest⟩ := (Option.any_eq_true ..).1 htest
  obtain ⟨hstop, hstart, hworker⟩ := of_decide_eq_true htest
  refine ⟨s, t, hreach, hstep, rfl, hstop, fun a ha => ?_, hworker⟩
  obtain rfl : a = .rpc 1 := by
    cases a with
    | shutdown => cases ha
    | rpc c =>
      by_contra hne
      have hc : c ≠ 1 := fun heq => hne (congrArg Actor.rpc heq)
      simp [oneStart, MinerNode.starts, hc] at ha
  exact .inr ⟨_, hstart⟩

end SlithyTove.CpuMiner
