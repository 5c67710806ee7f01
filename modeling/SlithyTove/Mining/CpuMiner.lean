import SlithyTove.Consensus.Params
import SlithyTove.Framework.Interleaving

/-!
# The CPU miner's threads

The node mines on threads of its own.  `startcpumining` and `stopcpumining` run on the RPC threads,
any number of them at once, `Shutdown` runs on the main thread, and the workers run beside them.
What they share is `MinerState`: the two mutexes, the stop flag, the counter of live workers, the
vector of worker threads, and the node's interrupt flag.

A call is an `Actor`.  Its program counter `Pc` stands before its next action on the shared state
and carries the local variables the rest of the call uses.  `instruction` is the text of the
procedures: for each program counter the `Effect` on the shared state and where the call goes next,
or `none` while the call has to wait in a `join`.  `perform` is what an effect does; it is `none`
while a mutex is taken.  `step` lets one call or one worker move, so a sequence of events is one
interleaving of all of them.

Two variables of the model are not in the source.  `entered` records the calls that have taken the
transition mutex, the latest first, and `begun` the RPC handlers the HTTP server has to wait for.
-/

namespace SlithyTove.CpuMiner

open Framework

/-! ## Requests -/

/-- `SlithyCpuMiningThreads`: the requested number of threads, clamped. -/
def slithyCpuMiningThreads (requested available : ℤ) : ℤ :=
  max 1 (min requested (max 1 available))

/-- What `startcpumining` can throw. -/
inductive MinerError
  | invalidAddress
  | shuttingDown
  | treasuryAddress
  | threadCreation
  deriving DecidableEq, Repr

/-- The text of the error; what `std::thread` throws is passed on as it is. -/
def MinerError.text (creation : String) : MinerError → String
  | .invalidAddress => "Error: Invalid address"
  | .shuttingDown => "The node is shutting down."
  | .treasuryAddress => "Choose a mining address other than the literacy treasury."
  | .threadCreation => creation

/-- A call on an RPC thread.  A start names the script its address decodes to, if it decodes, and
the number of threads, if it is given. -/
inductive Request
  | start (destination : Option CScript) (threads : Option ℤ)
  | stop
  deriving DecidableEq, Repr

/-- What a call answers. -/
inductive Reply
  | active (threads : ℤ)
  | inactive
  | thrown (error : MinerError)
  deriving DecidableEq, Repr

/-- The calls: `Shutdown` on the main thread, and the RPC handlers. -/
inductive Actor
  | shutdown
  | rpc (call : ℕ)
  deriving DecidableEq, Repr

/-- What the calls of a run are, and what of the node they read. -/
structure MinerNode where
  params : Params
  /-- `SlithyCpuThreadsAvailable()`. -/
  available : ℤ
  request : ℕ → Request

variable (node : MinerNode)

/-- The call is a `startcpumining`. -/
def MinerNode.starts : Actor → Bool
  | .shutdown => false
  | .rpc c =>
    match node.request c with
    | .start _ _ => true
    | .stop => false

@[simp] lemma MinerNode.starts_shutdown : node.starts .shutdown = false := rfl

/-- How many workers a start creates. -/
def MinerNode.threads (node : MinerNode) : Actor → ℤ
  | .shutdown => 0
  | .rpc c =>
    match node.request c with
    | .start _ threads => slithyCpuMiningThreads (threads.getD 1) node.available
    | .stop => 0

/-- The checks `startcpumining` makes before it takes the transition mutex. -/
def MinerNode.startError (interrupt : Bool) : Actor → Option MinerError
  | .shutdown => none
  | .rpc c =>
    match node.request c with
    | .stop => none
    | .start none _ => some .invalidAddress
    | .start (some script) _ =>
      if interrupt then some .shuttingDown
      else if node.params.treasury_script_pub_key ≠ [] ∧
          script = node.params.treasury_script_pub_key then some .treasuryAddress
      else none

/-! ## State -/

/-- Where a call stands.  Workers are named by the order of their creation. -/
inductive Pc
  | idle
  /-- `startcpumining` before its checks. -/
  | checks
  /-- `startcpumining` before `lock_guard transition`. -/
  | acquire
  /-- `StopSlithyCpuMinerInternal` before `lock_guard transition`. -/
  | stopAcquire
  /-- before `lock_guard lock` -/
  | stopLock
  /-- before `if (g_slithy_cpu_miner_threads.empty()) return`, and the store after it -/
  | stopTest
  /-- before `threads.swap(g_slithy_cpu_miner_threads)` -/
  | stopSwap
  /-- before the miner mutex is unlocked; `threads` has been swapped out -/
  | stopUnlock (threads : List ℕ)
  /-- in the loop that joins; `threads` are still to be joined -/
  | stopJoin (threads : List ℕ)
  /-- `startcpumining` before `lock_guard lock` -/
  | lock
  /-- before the stop flag is cleared and the vector reserved -/
  | clearFlag
  /-- at the head of the loop, `created` workers later -/
  | count (created : ℕ)
  /-- before `emplace_back` -/
  | create (created : ℕ)
  /-- in the handler of a failed `emplace_back` -/
  | uncount
  | raiseFlag
  /-- in the handler's loop that joins -/
  | joinCreated (threads : List ℕ)
  /-- before the miner mutex is unlocked -/
  | unlock (reply : Reply)
  /-- before the transition mutex is unlocked -/
  | release (reply : Reply)
  /-- `Shutdown` before `StopHTTPServer` -/
  | httpJoin
  /-- all locks are released, and the reply is on its way -/
  | returning (reply : Reply)
  | returned (reply : Reply)
  deriving DecidableEq, Repr

/-- The workers: the vector that owns their threads, the counter, and the history of each. -/
structure WorkerPool where
  /-- `g_slithy_cpu_miner_threads` -/
  minerThreads : List ℕ := []
  /-- `g_slithy_live_workers` -/
  liveWorkers : ℤ := 0
  /-- How many workers have been created. -/
  workers : ℕ := 0
  startedBy : ℕ → Actor := fun _ => .shutdown
  finished : ℕ → Bool := fun _ => false

namespace WorkerPool

/-- The worker has been created and its lifetime has not ended. -/
def Unfinished (pool : WorkerPool) (w : ℕ) : Prop :=
  w < pool.workers ∧ pool.finished w = false

instance (pool : WorkerPool) (w : ℕ) : Decidable (pool.Unfinished w) :=
  inferInstanceAs (Decidable (_ ∧ _))

/-- The created workers that have not finished. -/
def unfinished (pool : WorkerPool) : Finset ℕ :=
  {w ∈ Finset.range pool.workers | pool.finished w = false}

lemma mem_unfinished {pool : WorkerPool} {w : ℕ} : w ∈ pool.unfinished ↔ pool.Unfinished w := by
  simp [unfinished, Unfinished]

/-- `emplace_back` of a thread that runs `SlithyCpuMinerThread`. -/
def emplaceBack (pool : WorkerPool) (a : Actor) : WorkerPool :=
  { pool with
    minerThreads := pool.minerThreads ++ [pool.workers]
    workers := pool.workers + 1
    startedBy := Function.update pool.startedBy pool.workers a }

/-- The end of a worker: `~WorkerLifetime`. -/
def finish (pool : WorkerPool) (w : ℕ) : WorkerPool :=
  { pool with
    finished := Function.update pool.finished w true
    liveWorkers := pool.liveWorkers - 1 }

end WorkerPool

structure MinerState where
  /-- `g_slithy_cpu_transition_mutex` -/
  transition : RecursiveMutex Actor := {}
  /-- `g_slithy_cpu_miner_mutex` -/
  minerMutex : Option Actor := none
  /-- `g_slithy_cpu_miner_stop` -/
  minerStop : Bool := false
  pool : WorkerPool := {}
  /-- `chainman.m_interrupt` -/
  interrupt : Bool := false
  begun : List ℕ := []
  httpStopped : Bool := false
  entered : List Actor := []
  pc : Actor → Pc := fun _ => .idle

namespace MinerState

def goto (s : MinerState) (a : Actor) (p : Pc) : MinerState :=
  { s with pc := Function.update s.pc a p }

/-- The RPC handler has returned. -/
def rpcDone (s : MinerState) (c : ℕ) : Bool :=
  match s.pc (.rpc c) with
  | .returned _ => true
  | _ => false

end MinerState

/-! ## The procedures -/

/-- What one action does to the shared state. -/
inductive Effect
  | pass
  | begin (call : ℕ)
  | lockTransition
  | unlockTransition
  | lockMiner
  | unlockMiner
  | storeStop (value : Bool)
  | swapThreads
  | fetchAdd
  | emplaceBack
  | fetchSub
  | clearThreads
  | stopHttp
  deriving DecidableEq, Repr

/-- The procedures' text: what a call at the given program counter does, and where it goes.  `fails`
says whether an allocation or a thread creation fails here. -/
def MinerNode.instruction (s : MinerState) (a : Actor) (fails : Bool) :
    Pc → Option (Effect × Pc)
  | .idle =>
    match a with
    | .shutdown => if s.interrupt then some (.pass, .stopAcquire) else none
    | .rpc c =>
      if s.httpStopped then none
      else if node.starts (.rpc c) then some (.begin c, .checks)
      else some (.begin c, .stopAcquire)
  | .checks =>
    match node.startError s.interrupt a with
    | some error => some (.pass, .returning (.thrown error))
    | none => some (.pass, .acquire)
  | .acquire => some (.lockTransition, .stopAcquire)
  -- StopSlithyCpuMinerInternal
  | .stopAcquire => some (.lockTransition, .stopLock)
  | .stopLock => some (.lockMiner, .stopTest)
  | .stopTest =>
    if s.pool.minerThreads = [] then some (.unlockMiner, .stopJoin [])
    else some (.storeStop true, .stopSwap)
  | .stopSwap => some (.swapThreads, .stopUnlock s.pool.minerThreads)
  | .stopUnlock threads => some (.unlockMiner, .stopJoin threads)
  | .stopJoin [] =>
    if node.starts a then some (.unlockTransition, .lock)
    else match a with
      | .shutdown => some (.unlockTransition, .httpJoin)
      | .rpc _ => some (.unlockTransition, .returning .inactive)
  | .stopJoin (w :: threads) => if s.pool.finished w then some (.pass, .stopJoin threads) else none
  -- startcpumining, once the earlier workers are joined
  | .lock => some (.lockMiner, .clearFlag)
  | .clearFlag =>
    if fails then some (.storeStop false, .unlock (.thrown .threadCreation))
    else some (.storeStop false, .count 0)
  | .count created =>
    if (created : ℤ) < node.threads a then some (.fetchAdd, .create created)
    else some (.pass, .unlock (.active (node.threads a)))
  | .create created =>
    if fails then some (.pass, .uncount) else some (.emplaceBack, .count (created + 1))
  | .uncount => some (.fetchSub, .raiseFlag)
  | .raiseFlag => some (.storeStop true, .joinCreated s.pool.minerThreads)
  | .joinCreated [] => some (.clearThreads, .unlock (.thrown .threadCreation))
  | .joinCreated (w :: threads) =>
    if s.pool.finished w then some (.pass, .joinCreated threads) else none
  | .unlock reply => some (.unlockMiner, .release reply)
  | .release reply => some (.unlockTransition, .returning reply)
  -- StopHTTPServer joins the threads that run the RPC handlers
  | .httpJoin =>
    match a with
    | .shutdown =>
      if s.begun.all s.rpcDone then some (.stopHttp, .returned .inactive) else none
    | .rpc _ => none
  | .returning reply => some (.pass, .returned reply)
  | .returned _ => none

/-- What an effect does to the workers. -/
def Effect.onPool (a : Actor) (pool : WorkerPool) : Effect → WorkerPool
  | .swapThreads | .clearThreads => { pool with minerThreads := [] }
  | .fetchAdd => { pool with liveWorkers := pool.liveWorkers + 1 }
  | .fetchSub => { pool with liveWorkers := pool.liveWorkers - 1 }
  | .emplaceBack => pool.emplaceBack a
  | _ => pool

/-- An effect on the shared state; `none` while a mutex is taken. -/
def perform (s : MinerState) (a : Actor) : Effect → Option MinerState
  | .begin c => some { s with begun := c :: s.begun }
  | .lockTransition =>
    (s.transition.lock a).map fun m =>
      { s with
        transition := m
        entered := if s.transition.held = none then a :: s.entered else s.entered }
  | .unlockTransition => (s.transition.unlock a).map fun m => { s with transition := m }
  | .lockMiner => if s.minerMutex = none then some { s with minerMutex := some a } else none
  | .unlockMiner => some { s with minerMutex := none }
  | .storeStop value => some { s with minerStop := value }
  | .stopHttp => some { s with httpStopped := true }
  | e => some { s with pool := e.onPool a s.pool }

/-- One action of a call. -/
def MinerNode.act (s : MinerState) (a : Actor) (fails : Bool) :
    Option MinerState := do
  let (e, p) ← node.instruction s a fails (s.pc a)
  let t ← perform s a e
  return t.goto a p

/-! ## The workers -/

/-- What can happen next: a call moves, a worker tests its loop condition or throws, or the node is
interrupted. -/
inductive MinerEvent
  | act (a : Actor) (fails : Bool)
  | iterate (w : ℕ)
  | throws (w : ℕ)
  | interruptNode
  deriving DecidableEq, Repr

/-- One move.  A worker leaves its loop once the stop flag or the interrupt is set, and an
exception ends it at any point. -/
def MinerNode.step (s : MinerState) : MinerEvent → Option MinerState
  | .act a fails => node.act s a fails
  | .iterate w =>
    if s.pool.Unfinished w then
      if s.minerStop || s.interrupt then some { s with pool := s.pool.finish w } else some s
    else none
  | .throws w =>
    if s.pool.Unfinished w then some { s with pool := s.pool.finish w } else none
  | .interruptNode => some { s with interrupt := true }

/-- The states of the node from its start on. -/
def MinerNode.Reaches (s : MinerState) : Prop :=
  Reachable node.step {} s

end SlithyTove.CpuMiner
