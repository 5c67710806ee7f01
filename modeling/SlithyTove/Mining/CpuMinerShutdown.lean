import SlithyTove.Mining.CpuMinerHistory

/-!
# Shutting the node down while calls to the CPU miner are in flight

`Shutdown` stops the miner and then waits, in `StopHTTPServer`, for the threads that run the RPC
handlers.  After that nobody joins a worker.  `startcpumining` looks at the interrupt before it
takes the transition mutex and not again, so a start that looked in time can take the mutex after
`Shutdown` has released it.  The workers it creates are then in the vector for good.

`shutdown_joins_workers_iff` says when that is so, and when nothing is left.
-/

namespace SlithyTove.CpuMiner

open Framework List

variable {node : MinerNode} {s t : MinerState} {a : Actor} {fails : Bool}

/-- What `StopHTTPServer` waits for. -/
structure HttpInv (s : MinerState) : Prop where
  begun : ∀ c, s.pc (.rpc c) ≠ .idle → c ∈ s.begun
  stopped : s.httpStopped = true → (∃ reply, s.pc .shutdown = .returned reply) ∧
    ∀ c, s.pc (.rpc c) = .idle ∨ ∃ reply, s.pc (.rpc c) = .returned reply

lemma instruction_begin {c : ℕ} {e : Effect} {q : Pc}
    (h : node.instruction s (.rpc c) fails .idle = some (e, q)) : e = .begin c := by
  obtain ⟨hne, h⟩ := Option.ite_none_left_eq_some.1 h
  split at h <;> cases h <;> rfl

lemma instruction_stopHttp {p q : Pc}
    (h : node.instruction s a fails p = some (.stopHttp, q)) :
    a = .shutdown ∧ (∃ reply, q = .returned reply) ∧ s.begun.all s.rpcDone = true := by
  by_cases hjoin : p = .httpJoin
  · subst hjoin
    cases a with
    | shutdown =>
      obtain ⟨hall, heq⟩ := Option.ite_none_right_eq_some.1 h
      cases heq
      exact ⟨rfl, ⟨_, rfl⟩, hall⟩
    | rpc c => cases h
  · revert h
    fun_cases MinerNode.instruction node s a fails p
    all_goals
      first
      | exact absurd rfl hjoin
      | rintro ⟨⟩

lemma HttpInv.act_eq_none (hinv : HttpInv s) (hstopped : s.httpStopped = true) :
    node.act s a fails = none := by
  obtain ⟨⟨reply, hshutdown⟩, hrpc⟩ := hinv.stopped hstopped
  unfold MinerNode.act
  cases a with
  | shutdown =>
    rw [hshutdown]
    rfl
  | rpc c =>
    rcases hrpc c with hidle | ⟨reply, hreturned⟩
    · rw [hidle]
      simp [MinerNode.instruction, hstopped]
    · rw [hreturned]
      rfl

lemma HttpInv.act (hinv : HttpInv s) (h : node.act s a fails = some t) : HttpInv t := by
  have hrunning : s.httpStopped = false := by
    by_contra hne
    rw [hinv.act_eq_none (Bool.eq_true_of_not_eq_false hne)] at h
    cases h
  obtain ⟨e, q, hinstr, hperforms, hself, hother⟩ := act_spec h
  constructor
  · intro c hc
    have hmono : c ∈ s.begun → c ∈ t.begun := by
      intro hmem
      rw [hperforms.begun]
      unfold Effect.onBegun
      split
      · exact mem_cons_of_mem _ hmem
      · exact hmem
    by_cases ha : a = .rpc c
    · subst ha
      by_cases hidle : s.pc (.rpc c) = .idle
      · rw [hidle] at hinstr
        rw [hperforms.begun, instruction_begin hinstr]
        exact mem_cons_self
      · exact hmono (hinv.begun c hidle)
    · rw [hother _ (Ne.symm ha)] at hc
      exact hmono (hinv.begun c hc)
  · intro hstopped
    rw [hperforms.httpStopped] at hstopped
    unfold Effect.onHttp at hstopped
    split at hstopped
    · obtain ⟨rfl, ⟨reply, rfl⟩, hall⟩ := instruction_stopHttp hinstr
      refine ⟨⟨reply, hself⟩, fun c => ?_⟩
      rw [hother (.rpc c) Actor.noConfusion]
      by_cases hidle : s.pc (.rpc c) = .idle
      · exact .inl hidle
      · have hdone := all_eq_true.1 hall c (hinv.begun c hidle)
        unfold MinerState.rpcDone at hdone
        split at hdone
        · next reply hreply => exact .inr ⟨reply, hreply⟩
        · cases hdone
    · rw [hrunning] at hstopped
      cases hstopped

lemma MinerNode.Reaches.httpInv (h : node.Reaches s) : HttpInv s := by
  refine Reachable.invariant (P := HttpInv) h ⟨fun _ h => absurd rfl h, nofun⟩ ?_
  intro s event t hinv hstep
  cases event with
  | act a fails => exact hinv.act hstep
  | iterate w =>
    obtain ⟨-, hstep⟩ := Option.ite_none_right_eq_some.1 hstep
    split at hstep <;> cases hstep <;> exact ⟨hinv.begun, hinv.stopped⟩
  | throws w =>
    obtain ⟨-, hstep⟩ := Option.ite_none_right_eq_some.1 hstep
    cases hstep
    exact ⟨hinv.begun, hinv.stopped⟩
  | interruptNode =>
    cases hstep
    exact ⟨hinv.begun, hinv.stopped⟩

/-- **What is left after the shutdown.**  When `StopHTTPServer` has returned, no worker is running
and none is in the vector, unless a start has taken the transition mutex after `Shutdown` had
released it, has succeeded, and no call took the mutex after it. -/
theorem shutdown_joins_workers_iff (node : MinerNode) (s : MinerState) (h : node.Reaches s)
    (hstopped : s.httpStopped = true) :
    (s.pool.minerThreads = [] ∧ ∀ w, ¬ s.pool.Unfinished w) ↔
      ¬ ∃ c threads later earlier, node.starts (.rpc c) ∧
        s.entered = .rpc c :: (later ++ .shutdown :: earlier) ∧
        s.pc (.rpc c) = .returned (.active threads) := by
  obtain ⟨hinv, hist⟩ := h.inv
  obtain ⟨⟨reply, hshutdown⟩, hrpc⟩ := h.httpInv.stopped hstopped
  constructor
  · rintro ⟨hnil, -⟩ ⟨c, threads, later, earlier, hstarts, hent, hpc⟩
    obtain ⟨hlength, hpos⟩ := hist.filled _ _ threads hent hstarts (by rw [hpc]; rfl)
    rw [hnil] at hlength
    simp only [length_nil, Nat.cast_zero] at hlength
    omega
  · intro hnone
    have hmem : Actor.shutdown ∈ s.entered := hist.logged _ rfl (by rw [hshutdown]; rfl)
    have hempty : s.pool.Empty := by
      obtain ⟨last, rest, hent⟩ := exists_cons_of_ne_nil (ne_nil_of_mem hmem)
      cases last with
      | shutdown =>
        refine hist.settled [] .shutdown rest hent nofun ?_ nofun
        rw [hinv.depth, hshutdown]
        rfl
      | rpc c =>
        have hpassed := hist.passed (.rpc c) (by rw [hent]; exact mem_cons_self)
        obtain ⟨reply, hpc⟩ := (hrpc c).resolve_left fun hidle => by
          rw [hidle] at hpassed
          cases hpassed
        refine hist.settled [] (.rpc c) rest hent nofun (by rw [hinv.depth, hpc]; rfl) ?_
        intro hstarts
        refine ⟨reply, by rw [hpc]; rfl, ?_⟩
        rintro threads rfl
        rw [hent] at hmem
        obtain ⟨later, earlier, hrest⟩ := append_of_mem
          ((mem_cons.1 hmem).resolve_left nofun)
        exact hnone ⟨c, threads, later, earlier, hstarts, hrest ▸ hent, hpc⟩
    exact ⟨hempty.1, fun w hw => absurd (hempty.2 w hw) not_mem_nil⟩

/-- `Shutdown` performs its next `n` actions. -/
def shutdownActs (n : ℕ) : List MinerEvent :=
  List.replicate n (.act .shutdown false)

/-- Call `1` has started a worker before the interrupt, and `Shutdown` joins it. -/
theorem shutdown_joins_worker_of_earlier_start :
    ∃ s, oneStart.Reaches s ∧ s.httpStopped = true ∧ s.pool.workers = 1 ∧
      s.pool.minerThreads = [] ∧ ∀ w, ¬ s.pool.Unfinished w := by
  obtain ⟨s, hreach, htest⟩ := exists_reachable oneStart.step {}
    (acts 1 15 ++ [.interruptNode, .iterate 0] ++ shutdownActs 9)
    (fun s => s.httpStopped = true ∧ s.pool.workers = 1 ∧ s.entered = [.shutdown, .rpc 1])
    (by decide +kernel)
  obtain ⟨hstopped, hworkers, hentered⟩ := of_decide_eq_true htest
  refine ⟨s, hreach, hstopped, hworkers,
    (shutdown_joins_workers_iff oneStart s hreach hstopped).2 ?_⟩
  rintro ⟨c, threads, later, earlier, -, hent, -⟩
  rw [hentered] at hent
  cases hent

/-- Call `1` has looked at the interrupt, `Shutdown` stops the miner, and then call `1` starts a
worker.  `StopHTTPServer` returns, and the worker is running and unjoined. -/
theorem shutdown_leaves_worker :
    ∃ s, oneStart.Reaches s ∧ s.httpStopped = true ∧ s.pool.minerThreads = [0] ∧
      s.pool.Unfinished 0 := by
  obtain ⟨s, hreach, htest⟩ := exists_reachable oneStart.step {}
    (acts 1 2 ++ [.interruptNode] ++ shutdownActs 5 ++ acts 1 13 ++ shutdownActs 1)
    (fun s => s.httpStopped = true ∧ s.pool.minerThreads = [0] ∧ s.pool.Unfinished 0)
    (by decide +kernel)
  exact ⟨s, hreach, of_decide_eq_true htest⟩

end SlithyTove.CpuMiner
