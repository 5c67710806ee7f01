import SlithyTove.Mining.CpuMiner
import Mathlib.Data.Set.Card

/-!
# What the CPU miner's mutex protects

Everything that happens to the workers, their own ends apart, happens while the transition mutex is
held.  So the invariant speaks of the one call that holds it: `Phase` says, for each place such a
call can be, who owns the unfinished workers and what the counter shows.  A call that leaves its
critical section, or enters it, finds that the vector owns them all, and the calls outside cannot
change that.

`MinerInv` also says what the calls outside have left behind.  Once a stop has left the critical
section and as long as no start has entered it since, no worker is left; once a start has left it
with its workers, they are in the vector until the next call enters.
-/

namespace SlithyTove.CpuMiner

open Framework Function

/-! ## Program counters -/

/-- How often a call at `p` has locked the transition mutex. -/
def Pc.holds (starts : Bool) : Pc → ℕ
  | .stopAcquire => if starts then 1 else 0
  | .stopLock | .stopTest | .stopSwap | .stopUnlock _ | .stopJoin _ => if starts then 2 else 1
  | .lock | .clearFlag | .count _ | .create _ | .uncount | .raiseFlag | .joinCreated _ | .unlock _
  | .release _ => 1
  | _ => 0

/-- A worker has been counted, and its thread does not exist. -/
def Pc.creating : Pc → Bool
  | .create _ | .uncount => true
  | _ => false

/-- Only `startcpumining` comes here. -/
def Pc.ofStart : Pc → Bool
  | .checks | .acquire | .lock | .clearFlag | .count _ | .create _ | .uncount | .raiseFlag
  | .joinCreated _ | .unlock _ | .release _ => true
  | _ => false

/-- The reply of a call that has left its critical section. -/
def Pc.reply : Pc → Option Reply
  | .returning reply | .returned reply => some reply
  | _ => none

/-- The call has taken the transition mutex, unless it failed before. -/
def Pc.passed (starts : Bool) : Pc → Bool
  | .idle | .checks | .acquire => false
  | .stopAcquire => starts
  | _ => true

/-- How an effect goes with the program counters before and after it. -/
def Effect.Fits (starts : Bool) (p q : Pc) : Effect → Prop
  | .lockTransition =>
    q.holds starts = p.holds starts + 1 ∧ p.creating = q.creating ∧ q.passed starts
  | .unlockTransition => p.holds starts = q.holds starts + 1 ∧ p.creating = q.creating
  | .fetchAdd => p.holds starts = q.holds starts ∧ p.creating = false ∧ q.creating = true
  | .emplaceBack | .fetchSub =>
    p.holds starts = q.holds starts ∧ p.creating = true ∧ q.creating = false
  | _ => p.holds starts = q.holds starts ∧ p.creating = q.creating

variable {node : MinerNode} {s t : MinerState} {a b : Actor} {fails : Bool} {e : Effect} {p q : Pc}

lemma instruction_fits (h : node.instruction s a fails p = some (e, q))
    (hstart : p.ofStart → node.starts a) :
    e.Fits (node.starts a) p q ∧ (q.ofStart → node.starts a) := by
  revert h
  fun_cases MinerNode.instruction node s a fails p
  all_goals
    rintro ⟨⟩ <;> simp_all [Effect.Fits, Pc.holds, Pc.creating, Pc.ofStart, Pc.passed]
  split <;> rfl

lemma instruction_passed (h : node.instruction s a fails p = some (e, q)) :
    (p.passed (node.starts a) → q.passed (node.starts a)) := by
  revert h
  fun_cases MinerNode.instruction node s a fails p
  all_goals
    rintro ⟨⟩ <;> simp_all [Pc.passed]

/-! ## Who owns the workers -/

namespace WorkerPool

/-- Every unfinished worker is in the list. -/
def OwnedBy (pool : WorkerPool) (l : List ℕ) : Prop :=
  ∀ w, pool.Unfinished w → w ∈ l

/-- No thread is in the vector, and no worker is unfinished. -/
def Empty (pool : WorkerPool) : Prop :=
  pool.minerThreads = [] ∧ pool.OwnedBy []

variable {pool : WorkerPool}

lemma Empty.ownedBy (h : pool.Empty) (l : List ℕ) : pool.OwnedBy l :=
  fun w hw => absurd (h.2 w hw) List.not_mem_nil

variable {w : ℕ}

lemma OwnedBy.join {l : List ℕ} (h : pool.OwnedBy (w :: l))
    (hfinished : pool.finished w = true) : pool.OwnedBy l := by
  intro v hv
  rcases List.mem_cons.1 (h v hv) with rfl | hmem
  · exact absurd hfinished (by rw [hv.2]; decide)
  · exact hmem

lemma unfinished_emplaceBack (h : (pool.emplaceBack a).Unfinished w) :
    pool.Unfinished w ∨ w = pool.workers := by
  have hlt : w < pool.workers + 1 := h.1
  rcases Nat.lt_succ_iff_lt_or_eq.1 hlt with hold | hnew
  · exact .inl ⟨hold, h.2⟩
  · exact .inr hnew

lemma unfinished_finish {v : ℕ} (h : (pool.finish w).Unfinished v) : pool.Unfinished v := by
  refine ⟨h.1, ?_⟩
  have hv : Function.update pool.finished w true v = false := h.2
  by_cases hvw : v = w
  · rw [hvw, update_self] at hv
    cases hv
  · rwa [update_of_ne hvw] at hv

/-- A worker that does not exist yet has not finished, and all unfinished workers come from one
call. -/
structure Sound (pool : WorkerPool) : Prop where
  fresh : ∀ w, pool.workers ≤ w → pool.finished w = false
  sameStart : ∀ v w, pool.Unfinished v → pool.Unfinished w → pool.startedBy v = pool.startedBy w

lemma card_emplaceBack (h : pool.Sound) :
    (pool.emplaceBack a).unfinished.card = pool.unfinished.card + 1 := by
  have hnew : pool.finished pool.workers = false := h.fresh _ le_rfl
  have hins : (pool.emplaceBack a).unfinished = insert pool.workers pool.unfinished := by
    simp only [unfinished, emplaceBack, Finset.range_add_one, Finset.filter_insert, hnew, if_true]
  rw [hins, Finset.card_insert_of_notMem]
  simp [unfinished]

lemma card_finish (h : pool.Unfinished w) :
    (pool.finish w).unfinished.card + 1 = pool.unfinished.card := by
  have herase : (pool.finish w).unfinished = pool.unfinished.erase w := by
    ext v
    rw [Finset.mem_erase, mem_unfinished, mem_unfinished]
    constructor
    · intro hv
      refine ⟨?_, unfinished_finish hv⟩
      rintro rfl
      have hself : Function.update pool.finished v true v = false := hv.2
      rw [update_self] at hself
      cases hself
    · rintro ⟨hne, hv⟩
      refine ⟨hv.1, ?_⟩
      change Function.update pool.finished w true v = false
      rw [update_of_ne hne]
      exact hv.2
  rw [herase]
  exact Finset.card_erase_add_one (mem_unfinished.2 h)

end WorkerPool

/-- What a start that replies has left in the vector. -/
def Leaves (pool : WorkerPool) : Reply → Prop
  | .active threads =>
    pool.OwnedBy pool.minerThreads ∧ (pool.minerThreads.length : ℤ) = threads ∧ 0 < threads
  | _ => pool.Empty

/-- Who owns the unfinished workers while the call `a` holds the transition mutex. -/
def Owners (node : MinerNode) (pool : WorkerPool) (a : Actor) : Pc → Prop
  | .stopUnlock l | .stopJoin l => pool.minerThreads = [] ∧ pool.OwnedBy l
  | .lock | .clearFlag => pool.Empty
  | .count created =>
    pool.OwnedBy pool.minerThreads ∧ (∀ w ∈ pool.minerThreads, pool.startedBy w = a) ∧
      pool.minerThreads.length = created ∧ (created : ℤ) ≤ node.threads a
  | .create created =>
    pool.OwnedBy pool.minerThreads ∧ (∀ w ∈ pool.minerThreads, pool.startedBy w = a) ∧
      pool.minerThreads.length = created ∧ (created : ℤ) < node.threads a
  | .joinCreated l => pool.OwnedBy l ∧ l ⊆ pool.minerThreads
  | .unlock reply | .release reply => Leaves pool reply
  | _ => pool.OwnedBy pool.minerThreads

variable {pool : WorkerPool}

lemma Owners.of_outside (h : p.holds (node.starts a) = 0) :
    Owners node pool a p ↔ pool.OwnedBy pool.minerThreads := by
  cases p <;> simp_all [Owners, Pc.holds] <;> split at h <;> simp_all

lemma threads_pos (h : node.starts a) : 0 < node.threads a := by
  cases a with
  | shutdown => cases h
  | rpc c =>
    cases hrequest : node.request c with
    | stop => simp [MinerNode.starts, hrequest] at h
    | start destination threads =>
      simp only [MinerNode.threads, hrequest, slithyCpuMiningThreads]
      omega

lemma Leaves.ownedBy {reply : Reply} (h : Leaves pool reply) : pool.OwnedBy pool.minerThreads := by
  cases reply with
  | active threads => exact h.1
  | inactive => exact WorkerPool.Empty.ownedBy h _
  | thrown error => exact WorkerPool.Empty.ownedBy h _

/-- **One action of the call that holds the mutex.** -/
lemma Owners.next (h : node.instruction s a fails p = some (e, q))
    (hstart : p.ofStart → node.starts a) (howners : Owners node s.pool a p) :
    Owners node (e.onPool a s.pool) a q := by
  cases p with
  | stopTest =>
    simp only [MinerNode.instruction] at h
    split at h
    case isTrue hempty =>
      cases h
      exact ⟨hempty, hempty ▸ howners⟩
    case isFalse =>
      cases h
      exact howners
  | stopSwap =>
    cases h
    exact ⟨rfl, howners⟩
  | stopJoin threads =>
    cases threads with
    | nil =>
      simp only [MinerNode.instruction] at h
      split at h
      case isTrue =>
        cases h
        exact howners
      case isFalse =>
        cases a <;> cases h <;> exact WorkerPool.Empty.ownedBy howners _
    | cons w threads =>
      obtain ⟨hfinished, heq⟩ := Option.ite_none_right_eq_some.1 h
      cases heq
      exact ⟨howners.1, howners.2.join hfinished⟩
  | clearFlag =>
    simp only [MinerNode.instruction] at h
    split at h
    case isTrue =>
      cases h
      exact howners
    case isFalse =>
      cases h
      refine ⟨howners.ownedBy _, ?_, ?_, (threads_pos (hstart rfl)).le⟩
      · intro w hw
        change w ∈ s.pool.minerThreads at hw
        rw [howners.1] at hw
        cases hw
      · exact congrArg List.length howners.1
  | count created =>
    obtain ⟨howned, hmine, hlength, hle⟩ := howners
    simp only [MinerNode.instruction] at h
    split at h
    case isTrue hlt =>
      cases h
      exact ⟨howned, hmine, hlength, hlt⟩
    case isFalse hnot =>
      cases h
      refine ⟨howned, ?_, threads_pos (hstart rfl)⟩
      change (s.pool.minerThreads.length : ℤ) = _
      omega
  | create created =>
    obtain ⟨howned, hmine, hlength, hlt⟩ := howners
    simp only [MinerNode.instruction] at h
    split at h
    case isTrue =>
      cases h
      exact howned
    case isFalse =>
      cases h
      refine ⟨?_, ?_, ?_, ?_⟩
      · intro w hw
        rcases WorkerPool.unfinished_emplaceBack hw with hold | rfl
        · exact List.mem_append_left _ (howned w hold)
        · exact List.mem_append_right _ List.mem_cons_self
      · intro w hw
        change Function.update s.pool.startedBy s.pool.workers a w = a
        by_cases hnew : w = s.pool.workers
        · rw [hnew, update_self]
        · rw [update_of_ne hnew]
          rcases List.mem_append.1 hw with hold | hlast
          · exact hmine w hold
          · exact absurd (List.mem_singleton.1 hlast) hnew
      · change (s.pool.minerThreads ++ [s.pool.workers]).length = _
        rw [List.length_append, hlength]
        rfl
      · push_cast
        omega
  | raiseFlag =>
    cases h
    exact ⟨howners, List.Subset.refl _⟩
  | joinCreated threads =>
    cases threads with
    | nil =>
      cases h
      exact ⟨rfl, howners.1⟩
    | cons w threads =>
      obtain ⟨hfinished, heq⟩ := Option.ite_none_right_eq_some.1 h
      cases heq
      exact ⟨howners.1.join hfinished, fun v hv => howners.2 (List.mem_cons_of_mem _ hv)⟩
  | release reply =>
    cases h
    exact Leaves.ownedBy howners
  | _ =>
    -- The other actions leave the workers alone, and the next place asks for the same.
    simp only [MinerNode.instruction] at h
    repeat' split at h
    all_goals
      cases h
      try exact howners

lemma instruction_outside (h : node.instruction s a fails p = some (e, q))
    (hout : p.holds (node.starts a) = 0) (pool : WorkerPool) : e.onPool a pool = pool := by
  revert h
  fun_cases MinerNode.instruction node s a fails p
  all_goals
    rintro ⟨⟩
  all_goals
    first
    | rfl
    | exact absurd hout (by simp only [Pc.holds]; split <;> decide)
    | exact absurd hout Nat.one_ne_zero

lemma instruction_emplaceBack (h : node.instruction s a fails p = some (.emplaceBack, q)) :
    p.ofStart = true ∧ p.holds (node.starts a) = 1 ∧ ∃ created, p = .create created := by
  by_cases hcreate : ∃ created, p = .create created
  · obtain ⟨created, rfl⟩ := hcreate
    exact ⟨rfl, rfl, created, rfl⟩
  · revert h
    fun_cases MinerNode.instruction node s a fails p
    all_goals
      first
      | exact absurd ⟨_, rfl⟩ hcreate
      | nofun

/-! ## The counter -/

/-- The counter counts the unfinished workers and the one being created. -/
def Counts (pool : WorkerPool) (p : Pc) : Prop :=
  pool.liveWorkers = pool.unfinished.card + if p.creating then 1 else 0

lemma Counts.next (h : e.Fits (node.starts a) p q) (hsound : pool.Sound) (hcounts : Counts pool p) :
    Counts (e.onPool a pool) q := by
  unfold Counts at hcounts ⊢
  cases e
  case fetchAdd =>
    obtain ⟨-, hp, hq⟩ := h
    change pool.liveWorkers + 1 = pool.unfinished.card + _
    simp_all
  case emplaceBack =>
    obtain ⟨-, hp, hq⟩ := h
    rw [hp] at hcounts
    rw [hq, Effect.onPool, WorkerPool.card_emplaceBack hsound]
    simpa [WorkerPool.emplaceBack] using hcounts
  case fetchSub =>
    obtain ⟨-, hp, hq⟩ := h
    change pool.liveWorkers - 1 = pool.unfinished.card + _
    simp_all
  case lockTransition =>
    rw [← h.2.1]
    exact hcounts
  all_goals
    rw [← h.2]
    exact hcounts

/-! ## The mutex -/

/-- The transition mutex is free, or the call holds it. -/
def MinerState.Clear (s : MinerState) (a : Actor) : Prop :=
  s.transition.held = none ∨ 0 < s.transition.depth a

/-- The handlers the HTTP server has to wait for, after an effect. -/
def Effect.onBegun (begun : List ℕ) : Effect → List ℕ
  | .begin c => c :: begun
  | _ => begun

/-- Whether the HTTP server has stopped, after an effect. -/
def Effect.onHttp (stopped : Bool) : Effect → Bool
  | .stopHttp => true
  | _ => stopped

/-- What an effect does to the mutex, to the record of the calls that took it, and to the rest. -/
structure Performs (s t : MinerState) (a : Actor) (e : Effect) : Prop where
  others : ∀ b, b ≠ a → t.transition.depth b = s.transition.depth b
  clear : t.Clear a → s.Clear a
  lock : e = .lockTransition → t.transition.depth a = s.transition.depth a + 1
  unlock : e = .unlockTransition → t.transition.depth a + 1 = s.transition.depth a
  keep : e ≠ .lockTransition → e ≠ .unlockTransition →
    t.transition.depth a = s.transition.depth a
  entered : t.entered = s.entered ∧ (0 < t.transition.depth a → 0 < s.transition.depth a) ∨
    t.entered = a :: s.entered ∧ e = .lockTransition ∧ s.transition.held = none
  pool : t.pool = e.onPool a s.pool
  begun : t.begun = e.onBegun s.begun
  httpStopped : t.httpStopped = e.onHttp s.httpStopped

lemma Performs.of_eq (hlock : e ≠ .lockTransition) (hunlock : e ≠ .unlockTransition)
    (htransition : t.transition = s.transition) (hentered : t.entered = s.entered)
    (hpool : t.pool = e.onPool a s.pool) (hbegun : t.begun = e.onBegun s.begun)
    (hstopped : t.httpStopped = e.onHttp s.httpStopped) : Performs s t a e where
  others b _ := by rw [htransition]
  clear h := by
    unfold MinerState.Clear at h ⊢
    rwa [htransition] at h
  lock h := absurd h hlock
  unlock h := absurd h hunlock
  keep _ _ := by rw [htransition]
  entered := .inl ⟨hentered, htransition ▸ id⟩
  pool := hpool
  begun := hbegun
  httpStopped := hstopped

lemma performs_of_perform (h : perform s a e = some t) : Performs s t a e ∧ t.pc = s.pc := by
  cases e
  case lockTransition =>
    obtain ⟨m, hm, rfl⟩ := Option.map_eq_some_iff.1 h
    obtain ⟨hclear, hself, hothers⟩ := RecursiveMutex.depth_of_lock hm
    refine ⟨⟨hothers, fun _ => hclear, fun _ => hself, nofun, fun hne => absurd rfl hne, ?_, rfl,
      rfl, rfl⟩, rfl⟩
    by_cases hfree : s.transition.held = none
    · exact .inr ⟨if_pos hfree, rfl, hfree⟩
    · exact .inl ⟨if_neg hfree, fun _ => hclear.resolve_left hfree⟩
  case unlockTransition =>
    obtain ⟨m, hm, rfl⟩ := Option.map_eq_some_iff.1 h
    obtain ⟨hself, hothers⟩ := RecursiveMutex.depth_of_unlock hm
    exact ⟨⟨hothers, fun _ => .inr (by omega), nofun, fun _ => hself,
      fun _ hne => absurd rfl hne, .inl ⟨rfl, fun _ => by omega⟩, rfl, rfl, rfl⟩, rfl⟩
  case lockMiner =>
    obtain ⟨-, h⟩ := Option.ite_none_right_eq_some.1 h
    cases h
    exact ⟨.of_eq nofun nofun rfl rfl rfl rfl rfl, rfl⟩
  all_goals
    cases h
    exact ⟨.of_eq nofun nofun rfl rfl rfl rfl rfl, rfl⟩

/-- One action: the text says what is done and where the call goes, and it can be done now. -/
lemma act_spec (h : node.act s a fails = some t) :
    ∃ e q, node.instruction s a fails (s.pc a) = some (e, q) ∧ Performs s t a e ∧
      t.pc a = q ∧ ∀ b, b ≠ a → t.pc b = s.pc b := by
  obtain ⟨⟨e, q⟩, hinstr, h⟩ := Option.bind_eq_some_iff.1 h
  obtain ⟨u, hu, h⟩ := Option.bind_eq_some_iff.1 h
  cases h
  obtain ⟨hperforms, hpc⟩ := performs_of_perform hu
  refine ⟨e, q, hinstr, ⟨hperforms.others, hperforms.clear, hperforms.lock, hperforms.unlock,
    hperforms.keep, hperforms.entered, hperforms.pool, hperforms.begun, hperforms.httpStopped⟩,
    update_self .., fun b hb => ?_⟩
  exact (update_of_ne hb ..).trans (congrFun hpc b)

lemma Effect.Fits.holds_eq {starts : Bool} (h : e.Fits starts p q) (hlock : e ≠ .lockTransition)
    (hunlock : e ≠ .unlockTransition) : p.holds starts = q.holds starts := by
  cases e
  case lockTransition => exact absurd rfl hlock
  case unlockTransition => exact absurd rfl hunlock
  all_goals
    exact h.1

/-! ## The invariant -/

/-- What holds of the mutex and of the workers at every moment. -/
structure MinerInv (node : MinerNode) (s : MinerState) : Prop where
  depth : ∀ b, s.transition.depth b = (s.pc b).holds (node.starts b)
  start : ∀ b, (s.pc b).ofStart → node.starts b
  sound : s.pool.Sound
  owners : ∀ b, s.Clear b → Owners node s.pool b (s.pc b)
  counts : ∀ b, s.Clear b → Counts s.pool (s.pc b)

lemma MinerInv.clear_of_holds (hinv : MinerInv node s)
    (h : 0 < (s.pc a).holds (node.starts a)) : s.Clear a :=
  .inr (by rw [hinv.depth]; exact h)

lemma Pc.creating_of_outside {starts : Bool} (h : p.holds starts = 0) : p.creating = false := by
  cases p <;> first | rfl | cases h

section

variable (hinv : MinerInv node s)

include hinv

/-- The workers stay sound: a worker is created while all others come from the same call. -/
lemma Sound.next (h : node.instruction s a fails (s.pc a) = some (e, q)) :
    (e.onPool a s.pool).Sound := by
  cases e
  case emplaceBack =>
    obtain ⟨-, hholds, created, hpc⟩ := instruction_emplaceBack h
    have howners := hinv.owners a (hinv.clear_of_holds (by omega))
    rw [hpc] at howners
    obtain ⟨howned, hmine, -⟩ := howners
    have hstarted : ∀ w, (s.pool.emplaceBack a).Unfinished w →
        (s.pool.emplaceBack a).startedBy w = a := by
      intro w hw
      change Function.update s.pool.startedBy s.pool.workers a w = a
      rcases WorkerPool.unfinished_emplaceBack hw with hold | rfl
      · rw [update_of_ne hold.1.ne]
        exact hmine w (howned w hold)
      · rw [update_self]
    refine ⟨fun w hw => hinv.sound.fresh w (Nat.le_of_succ_le hw), fun v w hv hw => ?_⟩
    exact (hstarted v hv).trans (hstarted w hw).symm
  all_goals
    exact ⟨hinv.sound.fresh, hinv.sound.sameStart⟩

lemma MinerInv.depth_next (hfits : e.Fits (node.starts a) (s.pc a) q)
    (hperforms : Performs s t a e) (hself : t.pc a = q) (hother : ∀ b, b ≠ a → t.pc b = s.pc b)
    (b : Actor) : t.transition.depth b = (t.pc b).holds (node.starts b) := by
  by_cases hb : b = a
  · subst hb
    rw [hself]
    have hbefore := hinv.depth b
    by_cases hlock : e = .lockTransition
    · subst hlock
      have := hperforms.lock rfl
      have := hfits.1
      omega
    by_cases hunlock : e = .unlockTransition
    · subst hunlock
      have := hperforms.unlock rfl
      have := hfits.1
      omega
    rw [hperforms.keep hlock hunlock, hbefore, hfits.holds_eq hlock hunlock]
  · rw [hother b hb, hperforms.others b hb, hinv.depth]

lemma MinerInv.pool_eq (hinstr : node.instruction s a fails (s.pc a) = some (e, q))
    (hperforms : Performs s t a e) (hout : s.transition.depth a = 0) : t.pool = s.pool := by
  rw [hinv.depth] at hout
  exact hperforms.pool.trans (instruction_outside hinstr hout _)

/-- **One action keeps the invariant.** -/
lemma MinerInv.act (h : node.act s a fails = some t) : MinerInv node t := by
  obtain ⟨e, q, hinstr, hperforms, hself, hother⟩ := act_spec h
  obtain ⟨hfits, hstart⟩ := instruction_fits hinstr (hinv.start a)
  have hdepth := hinv.depth_next hfits hperforms hself hother
  -- The call that moves keeps its part, if the mutex is free or its own.
  have hmover : t.Clear a → Owners node t.pool a q ∧ Counts t.pool q := by
    intro hclear
    have hbefore := hperforms.clear hclear
    rw [hperforms.pool]
    exact ⟨(hinv.owners a hbefore).next hinstr (hinv.start a),
      (hinv.counts a hbefore).next hfits hinv.sound⟩
  have hboth : ∀ b, t.Clear b → Owners node t.pool b (t.pc b) ∧ Counts t.pool (t.pc b) := by
    intro b hclear
    by_cases hb : b = a
    · subst hb
      rw [hself]
      exact hmover hclear
    · rcases hclear with hfree | hpos
      · -- Nobody holds it now, so every call is outside.
        obtain ⟨howners, hcounts⟩ := hmover (.inl hfree)
        have hzero : ∀ c, (t.pc c).holds (node.starts c) = 0 := fun c => by
          rw [← hdepth, RecursiveMutex.depth_of_free hfree]
        have hq : q.holds (node.starts a) = 0 := hself ▸ hzero a
        refine ⟨(Owners.of_outside (hzero b)).2 ((Owners.of_outside hq).1 howners), ?_⟩
        unfold Counts at hcounts ⊢
        rw [Pc.creating_of_outside (hzero b)]
        rwa [Pc.creating_of_outside hq] at hcounts
      · rw [hperforms.others b hb] at hpos
        have hout : s.transition.depth a = 0 := by
          by_contra hne
          exact hb (RecursiveMutex.eq_of_depth_pos hpos (by omega))
        rw [hother b hb, hinv.pool_eq hinstr hperforms hout]
        exact ⟨hinv.owners b (.inr hpos), hinv.counts b (.inr hpos)⟩
  refine ⟨hdepth, ?_, ?_, fun b hb => (hboth b hb).1, fun b hb => (hboth b hb).2⟩
  · intro b
    by_cases hb : b = a
    · subst hb
      rw [hself]
      exact hstart
    · rw [hother b hb]
      exact hinv.start b
  · rw [hperforms.pool]
    exact Sound.next hinv hinstr

end

/-! ## The workers' own steps -/

lemma WorkerPool.OwnedBy.finish {l : List ℕ} (h : pool.OwnedBy l) (w : ℕ) :
    (pool.finish w).OwnedBy l :=
  fun v hv => h v (unfinished_finish hv)

lemma Leaves.finish {reply : Reply} (h : Leaves pool reply) (w : ℕ) :
    Leaves (pool.finish w) reply := by
  cases reply with
  | active threads => exact ⟨h.1.finish w, h.2⟩
  | inactive => exact ⟨h.1, h.2.finish w⟩
  | thrown error => exact ⟨h.1, h.2.finish w⟩

lemma Owners.finish (h : Owners node pool a p) (w : ℕ) : Owners node (pool.finish w) a p := by
  cases p
  case stopUnlock => exact ⟨h.1, h.2.finish w⟩
  case stopJoin => exact ⟨h.1, h.2.finish w⟩
  case lock => exact ⟨h.1, h.2.finish w⟩
  case clearFlag => exact ⟨h.1, h.2.finish w⟩
  case count => exact ⟨h.1.finish w, h.2⟩
  case create => exact ⟨h.1.finish w, h.2⟩
  case joinCreated => exact ⟨h.1.finish w, h.2⟩
  case unlock => exact Leaves.finish h w
  case release => exact Leaves.finish h w
  all_goals
    exact WorkerPool.OwnedBy.finish h w

lemma MinerInv.finish (hinv : MinerInv node s) {w : ℕ} (hw : s.pool.Unfinished w) :
    MinerInv node { s with pool := s.pool.finish w } where
  depth := hinv.depth
  start := hinv.start
  sound := by
    refine ⟨fun v hv => ?_, fun v u hv hu =>
      hinv.sound.sameStart v u (WorkerPool.unfinished_finish hv) (WorkerPool.unfinished_finish hu)⟩
    have hlt : w < v := hw.1.trans_le hv
    change Function.update s.pool.finished w true v = false
    rw [update_of_ne hlt.ne']
    exact hinv.sound.fresh v hv
  owners b hb := (hinv.owners b hb).finish w
  counts b hb := by
    have hcounts := hinv.counts b hb
    have hcard := WorkerPool.card_finish hw
    unfold Counts at hcounts ⊢
    change s.pool.liveWorkers - 1 =
      (s.pool.finish w).unfinished.card + if (s.pc b).creating then 1 else 0
    omega

end SlithyTove.CpuMiner
