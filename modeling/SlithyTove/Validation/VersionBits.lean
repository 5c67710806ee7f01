import SlithyTove.Chain.ActiveChain
import SlithyTove.Sync.MaxCommitments

/-!
# Deployments by version bits

`GetStateFor` and `GetStateSinceHeightFor` of `versionbits.cpp`.  The state of a deployment changes
at most once per period, at the end of it.  `periodState` is that recursion from the genesis block
on; the code walks back from the last block of a period until the cache knows a state or the
deployment cannot have started, and then forward again.

It may stop where the median time past is before the start: that time does not fall along a chain
whose blocks are each later than the median time past of their parent (`getMedianTimePast_mono`).
-/

namespace SlithyTove

open Framework Function Forest Nat

/-- `ThresholdState`. -/
inductive ThresholdState
  | DEFINED | STARTED | LOCKED_IN | ACTIVE | FAILED
  deriving DecidableEq

/-- `BIP9Deployment::ALWAYS_ACTIVE`. -/
def ALWAYS_ACTIVE : ℤ := -1

/-- `BIP9Deployment::NEVER_ACTIVE`. -/
def NEVER_ACTIVE : ℤ := -2

/-- What an `AbstractThresholdConditionChecker` says of its deployment. -/
structure ThresholdChecker (Node : Type) where
  BeginTime : ℤ
  EndTime : ℤ
  Period : ℕ
  Threshold : ℤ
  MinActivationHeight : ℤ
  Condition : Node → Bool
  period_pos : 0 < Period

/-- `ThresholdConditionCache`; `none` is `nullptr`. -/
abbrev ThresholdConditionCache (Node : Type) := Option Node → Option ThresholdState

namespace ThresholdChecker

variable {Node : Type} (c : ThresholdChecker Node) (H : HeaderTree Node)

/-- The `switch` at the end of a period, in which `count` blocks signalled. -/
def transition (state : ThresholdState) (pindexPrev : Node) (count : ℤ) : ThresholdState :=
  match state with
  | .DEFINED => if getMedianTimePast H pindexPrev ≥ c.BeginTime then .STARTED else .DEFINED
  | .STARTED =>
    if count ≥ c.Threshold then .LOCKED_IN
    else if getMedianTimePast H pindexPrev ≥ c.EndTime then .FAILED
    else .STARTED
  | .LOCKED_IN =>
    if (H.depth pindexPrev : ℤ) + 1 ≥ c.MinActivationHeight then .ACTIVE else .LOCKED_IN
  | .FAILED => .FAILED
  | .ACTIVE => .ACTIVE

/-! ## The recursion by periods -/

/-- The blocks of the period that ends with `x` and signal. -/
def signals (x : Node) : ℕ := (List.range c.Period).countP fun i => (H.up i x).any c.Condition

/-- The last block of the first `n` periods on the way to `x`. -/
def periodEnd (x : Node) (n : ℕ) : Option Node :=
  if n = 0 then none else H.atDepth x (n * c.Period - 1)

/-- The state after the first `n` periods on the way to `x`. -/
def periodState (x : Node) : ℕ → ThresholdState
  | 0 => .DEFINED
  | n + 1 =>
    match c.periodEnd H x (n + 1) with
    | some p => c.transition H (periodState x n) p (c.signals H p)
    | none => periodState x n

/-- The periods that are complete with `x`. -/
def periods (x : Node) : ℕ := (H.depth x + 1) / c.Period

/-- The state of the block after `pindexPrev`. -/
def bip9State : Option Node → ThresholdState
  | none => .DEFINED
  | some x => c.periodState H x (c.periods H x)

/-- The state of the block after `pindexPrev` is that of all periods from period `m` on, and not of
the one before. -/
def RunStart : Option Node → ℕ → Prop
  | none, m => m = 0
  | some x, m => m ≤ c.periods H x ∧
    (∀ k, m ≤ k → k ≤ c.periods H x → c.periodState H x k = c.bip9State H (some x)) ∧
    (m ≠ 0 → c.periodState H x (m - 1) ≠ c.bip9State H (some x))

/-! ## The code -/

/-- The loop that counts. -/
def countSignals : ℕ → Option Node → Except String ℕ
  | 0, _ => .ok 0
  | _ + 1, none => .error "pindexCount"
  | i + 1, some pindexCount => do
    let count ← countSignals i (H.parent pindexCount)
    return count + if c.Condition pindexCount then 1 else 0

/-- `stateNext`. -/
def stateNext (state : ThresholdState) (pindexPrev : Node) : Except String ThresholdState := do
  let count ← if state = .STARTED then c.countSignals H c.Period (some pindexPrev) else pure 0
  return c.transition H state pindexPrev count

/-- The last block of the last complete period. -/
def lastPeriodEnd : Option Node → Except String (Option Node)
  | none => .ok none
  | some p => H.getAncestor p (H.depth p - ((H.depth p + 1) % c.Period : ℕ))

variable [DecidableEq Node]

/-- The loop backwards; `vToCompute` has its last element in front. -/
def walkBack : (fuel : ℕ) → ThresholdConditionCache Node → Option Node → List Node →
    Except String (ThresholdConditionCache Node × Option Node × List Node)
  | 0, _, _, _ => .error "out of fuel"
  | fuel + 1, cache, pindexPrev, vToCompute =>
    if (cache pindexPrev).isSome then .ok (cache, pindexPrev, vToCompute)
    else
      match pindexPrev with
      | none => .ok (update cache none (some .DEFINED), none, vToCompute)
      | some p =>
        if getMedianTimePast H p < c.BeginTime then
          .ok (update cache (some p) (some .DEFINED), some p, vToCompute)
        else do
          let before ← H.getAncestor p (H.depth p - c.Period)
          walkBack fuel cache before (p :: vToCompute)

/-- The loop forward. -/
def walkForward (cache : ThresholdConditionCache Node) (state : ThresholdState) :
    List Node → Except String (ThresholdConditionCache Node × ThresholdState)
  | [] => .ok (cache, state)
  | p :: vToCompute => do
    let next ← c.stateNext H state p
    walkForward (update cache (some p) (some next)) next vToCompute

/-- `GetStateFor`. -/
def getStateFor (pindexPrev : Option Node) (cache : ThresholdConditionCache Node) :
    Except String (ThresholdConditionCache Node × ThresholdState) :=
  if c.BeginTime = ALWAYS_ACTIVE then .ok (cache, .ACTIVE)
  else if c.BeginTime = NEVER_ACTIVE then .ok (cache, .FAILED)
  else do
    let last ← c.lastPeriodEnd H pindexPrev
    let (cache, known, vToCompute) ← c.walkBack H (last.elim 0 H.depth + 2) cache last []
    match cache known with
    | some state => c.walkForward H cache state vToCompute
    | none => .error "cache.contains(pindexPrev)"

/-- The loop of `GetStateSinceHeightFor`. -/
def sinceLoop (initialState : ThresholdState) : (fuel : ℕ) → ThresholdConditionCache Node → Node →
    Except String ℕ
  | 0, _, _ => .error "out of fuel"
  | fuel + 1, cache, pindexPrev => do
    match ← H.getAncestor pindexPrev (H.depth pindexPrev - c.Period) with
    | none => return H.depth pindexPrev + 1
    | some previousPeriodParent =>
      let (cache, state) ← c.getStateFor H (some previousPeriodParent) cache
      if state = initialState then sinceLoop initialState fuel cache previousPeriodParent
      else return H.depth pindexPrev + 1

/-- `GetStateSinceHeightFor`. -/
def getStateSinceHeightFor (pindexPrev : Option Node) (cache : ThresholdConditionCache Node) :
    Except String ℕ :=
  if c.BeginTime = ALWAYS_ACTIVE ∨ c.BeginTime = NEVER_ACTIVE then .ok 0
  else do
    let (cache, initialState) ← c.getStateFor H pindexPrev cache
    if initialState = .DEFINED then return 0
    else
      match ← c.lastPeriodEnd H pindexPrev with
      | none => throw "Assert"
      | some p => c.sinceLoop H initialState (H.depth p + 1) cache p

/-- The caches that calls of `GetStateFor` leave. -/
inductive CacheReachable : ThresholdConditionCache Node → Prop
  | empty : CacheReachable fun _ => none
  | call {cache cache' pindexPrev state} : CacheReachable cache →
    c.getStateFor H pindexPrev cache = .ok (cache', state) → CacheReachable cache'

/-! ## Median times -/

variable {c H}

omit [DecidableEq Node] in
lemma take_pastTimes (n : ℕ) : ∀ x : Node, (pastTimes H (n + 1) x).take n = pastTimes H n x := by
  induction n with
  | zero => exact fun _ => rfl
  | succ n ih =>
    intro x
    rw [pastTimes, List.take_succ_cons, pastTimes]
    cases H.parent x with
    | none => rw [List.take_nil]
    | some p => exact congrArg _ (ih p)

/-- Every block is later than the median time past of its parent. -/
def TimesRise (H : HeaderTree Node) : Prop :=
  ∀ x p, H.parent x = some p → getMedianTimePast H p < (H.nTime x).toNat

omit [DecidableEq Node] in
lemma getMedianTimePast_mono (hrise : TimesRise H) {a : Node} : ∀ {k : ℕ} {x : Node},
    H.up k x = some a → getMedianTimePast H a ≤ getMedianTimePast H x
  | 0, x, h => (congrArg _ (Option.some.inj h)).ge
  | k + 1, x, h => by
    obtain ⟨p, hp, ha⟩ := Option.bind_eq_some_iff.mp h
    have hlt := hrise x p hp
    rw [← windowMedian_pastTimes] at hlt
    have hle := windowMedian_le_cons (by decide) (pastTimes_ne_nil H p) hlt
    have hpast : pastTimes H nMedianTimeSpan x = ((H.nTime x).toNat : ℤ) :: pastTimes H 10 p := by
      rw [nMedianTimeSpan, pastTimes, hp]
    have hx : windowMedian nMedianTimeSpan ((H.nTime x).toNat :: pastTimes H nMedianTimeSpan p) =
        getMedianTimePast H x := by
      rw [windowMedian, nMedianTimeSpan, List.take_succ_cons, take_pastTimes, ← hpast]
      rfl
    rw [hx, windowMedian_pastTimes] at hle
    exact (getMedianTimePast_mono hrise ha).trans hle

/-! ## Periods -/

section Periods

omit [DecidableEq Node]

variable {x a p : Node} {n : ℕ}

lemma mul_period_le (h : n ≤ c.periods H x) : n * c.Period ≤ H.depth x + 1 :=
  (le_div_iff_mul_le c.period_pos).mp h

lemma periodEnd_succ (h : n + 1 ≤ c.periods H x) :
    ∃ p, c.periodEnd H x (n + 1) = some p ∧ H.IsAncestor p x ∧
      H.depth p + 1 = (n + 1) * c.Period ∧
      H.getAncestor p (H.depth p - c.Period) = .ok (c.periodEnd H x n) := by
  have hle := mul_period_le h
  have hpos := c.period_pos
  have hmul : (n + 1) * c.Period = n * c.Period + c.Period := succ_mul ..
  obtain ⟨p, hp⟩ : ∃ p, H.atDepth x ((n + 1) * c.Period - 1) = some p := by
    rw [atDepth, if_pos (by omega)]
    exact H.exists_up (sub_le _ _)
  obtain ⟨hanc, hdepth⟩ := atDepth_eq_some_iff.mp hp
  refine ⟨p, hp, hanc, by omega, ?_⟩
  rw [BlockTree.getAncestor_eq_atDepth, periodEnd]
  by_cases hn : n = 0
  · subst hn
    rw [if_pos (by omega), if_pos rfl]
  · have hn' : c.Period ≤ n * c.Period := Nat.le_mul_of_pos_left _ (Nat.pos_of_ne_zero hn)
    rw [if_neg (by omega), if_neg hn, atDepth_of_isAncestor hanc (by omega),
      show ((H.depth p : ℤ) - c.Period).toNat = n * c.Period - 1 by omega]

lemma lastPeriodEnd_some (x : Node) :
    c.lastPeriodEnd H (some x) = .ok (c.periodEnd H x (c.periods H x)) := by
  have hdiv := div_add_mod' (H.depth x + 1) c.Period
  have hmod := mod_lt (H.depth x + 1) c.period_pos
  rw [lastPeriodEnd, BlockTree.getAncestor_eq_atDepth, periodEnd, periods]
  by_cases hn : (H.depth x + 1) / c.Period = 0
  · rw [hn, zero_mul] at hdiv
    rw [if_pos (by omega), if_pos hn]
  · have hle : c.Period ≤ (H.depth x + 1) / c.Period * c.Period :=
      Nat.le_mul_of_pos_left _ (Nat.pos_of_ne_zero hn)
    rw [if_neg (by omega), if_neg hn]
    congr 2
    omega

lemma periods_lt (x : Node) :
    c.periods H x < (c.periodEnd H x (c.periods H x)).elim 0 H.depth + 2 := by
  cases hn : c.periods H x with
  | zero => exact succ_pos _
  | succ n =>
    obtain ⟨p, hp, -, hdepth, -⟩ := periodEnd_succ hn.ge
    have hle : n + 1 ≤ (n + 1) * c.Period := Nat.le_mul_of_pos_right _ c.period_pos
    rw [hp, Option.elim_some]
    omega

lemma periodState_congr (h : H.IsAncestor a x) (hn : n ≤ c.periods H a) :
    c.periodState H a n = c.periodState H x n := by
  induction n with
  | zero => rfl
  | succ n ih =>
    have hle := mul_period_le hn
    rw [periodState, periodState, ih (by omega), periodEnd, periodEnd,
      atDepth_of_isAncestor h (by omega)]

lemma bip9State_periodEnd (hn : n ≤ c.periods H x) :
    c.bip9State H (c.periodEnd H x n) = c.periodState H x n := by
  cases n with
  | zero => rfl
  | succ n =>
    obtain ⟨p, hp, hanc, hdepth, -⟩ := periodEnd_succ hn
    have hperiods : c.periods H p = n + 1 := by
      rw [periods, hdepth, Nat.mul_div_cancel _ c.period_pos]
    rw [hp, bip9State, hperiods, periodState_congr hanc hperiods.ge]

lemma countSignals_eq : ∀ {i : ℕ} {x : Node}, i ≤ H.depth x + 1 → c.countSignals H i (some x) =
    .ok ((List.range i).countP fun j => (H.up j x).any c.Condition)
  | 0, _, _ => rfl
  | i + 1, x, h => by
    rw [countSignals, List.range_succ_eq_map, List.countP_cons, List.countP_map]
    cases hp : H.parent x with
    | none =>
      obtain rfl : i = 0 := by
        have := H.depth_root x hp
        omega
      rfl
    | some p =>
      have hdepth := H.depth_child x p hp
      have hup : (fun j => (H.up j x).any c.Condition) ∘ Nat.succ =
          fun j => (H.up j p).any c.Condition := by
        funext j
        exact congrArg (Option.any _) (H.up_succ_of_parent hp j)
      rw [countSignals_eq (by omega), hup]
      rfl

lemma stateNext_eq (h : n + 1 ≤ c.periods H x) (hp : c.periodEnd H x (n + 1) = some p) :
    c.stateNext H (c.periodState H x n) p = .ok (c.periodState H x (n + 1)) := by
  obtain ⟨q, hq, -, hdepth, -⟩ := periodEnd_succ h
  obtain rfl := Option.some.inj (hq.symm.trans hp)
  have hle : c.Period ≤ H.depth q + 1 := hdepth ▸ Nat.le_mul_of_pos_left _ (Nat.succ_pos n)
  rw [stateNext, periodState, hp]
  cases c.periodState H x n with
  | STARTED =>
    rw [if_pos rfl, countSignals_eq hle]
    rfl
  | _ => rfl

lemma periodState_of_early (hrise : TimesRise H) (hn : n ≤ c.periods H x)
    (hp : c.periodEnd H x n = some p) (hearly : getMedianTimePast H p < c.BeginTime) :
    ∀ {k : ℕ}, k ≤ n → c.periodState H x k = .DEFINED
  | 0, _ => rfl
  | k + 1, hk => by
    obtain ⟨q, hq, hqx, -, -⟩ := periodEnd_succ (hk.trans hn)
    rw [periodEnd, if_neg (by omega)] at hp hq
    have hle : (k + 1) * c.Period ≤ n * c.Period := mul_le_mul_right _ hk
    obtain ⟨hpx, hdepth⟩ := atDepth_eq_some_iff.mp hp
    obtain ⟨i, hi⟩ := hqx.of_depth_le hpx (by
      rw [hdepth, (atDepth_eq_some_iff.mp hq).2]
      omega)
    have htime := getMedianTimePast_mono hrise hi
    rw [periodState, periodState_of_early hrise hn (by rw [periodEnd, if_neg (by omega), hp]) hearly
      (by omega), periodEnd, if_neg (by omega), hq]
    exact if_neg (by omega)

lemma periodState_defined (h : c.periodState H x (n + 1) = .DEFINED) :
    c.periodState H x n = .DEFINED := by
  rw [periodState] at h
  split at h
  · cases hstate : c.periodState H x n with
    | DEFINED => rfl
    | STARTED | LOCKED_IN =>
      rw [hstate, transition] at h
      split_ifs at h
    | _ =>
      rw [hstate] at h
      cases h
  · exact h

lemma periodState_persists {k : ℕ} (hk : k ≤ n)
    (h : c.periodState H x k = .ACTIVE ∨ c.periodState H x k = .FAILED) :
    c.periodState H x n = c.periodState H x k := by
  induction n, hk using le_induction with
  | base => rfl
  | succ n _ ih =>
    rw [periodState, ih]
    split
    · rcases h with h | h <;> rw [h] <;> rfl
    · rfl

end Periods

/-! ## The cache -/

variable {cache : ThresholdConditionCache Node} {x : Node}

/-- What is in the cache is right. -/
def CacheSound (c : ThresholdChecker Node) (H : HeaderTree Node)
    (cache : ThresholdConditionCache Node) : Prop :=
  ∀ q state, cache q = some state → state = c.bip9State H q

lemma CacheSound.update (h : CacheSound c H cache) {q : Option Node} {state : ThresholdState}
    (hstate : state = c.bip9State H q) :
    CacheSound c H (update cache q (some state)) := by
  intro r state' hr
  by_cases heq : r = q
  · subst heq
    rw [update_self] at hr
    rw [← Option.some.inj hr, hstate]
  · rw [update_of_ne heq] at hr
    exact h r state' hr

lemma walkBack_none (h : CacheSound c H cache) (fuel : ℕ) (v : List Node) :
    ∃ cache', c.walkBack H (fuel + 1) cache none v = .ok (cache', none, v) ∧
      CacheSound c H cache' ∧ cache' none = some .DEFINED := by
  rw [walkBack]
  cases hcached : cache none with
  | some state => exact ⟨cache, rfl, h, by rw [hcached, h none state hcached]; rfl⟩
  | none => exact ⟨_, rfl, h.update rfl, update_self ..⟩

/-- **The two loops.**  The blocks put aside on the way back lead forward to the state. -/
lemma walkBack_spec (hrise : TimesRise H) {n : ℕ} (hn : n ≤ c.periods H x)
    (h : CacheSound c H cache) : ∀ {fuel : ℕ}, n < fuel → ∀ v, ∃ cache' m front,
      c.walkBack H fuel cache (c.periodEnd H x n) v = .ok (cache', c.periodEnd H x m, front ++ v) ∧
      CacheSound c H cache' ∧ cache' (c.periodEnd H x m) = some (c.periodState H x m) ∧
      ∀ {cache}, CacheSound c H cache → ∀ rest, ∃ cache', CacheSound c H cache' ∧
        c.walkForward H cache (c.periodState H x m) (front ++ rest) =
          c.walkForward H cache' (c.periodState H x n) rest := by
  induction n with
  | zero =>
    rintro (_ | fuel) hfuel v
    · cases hfuel
    obtain ⟨cache', hrun, hsound, hnone⟩ := walkBack_none h fuel v
    exact ⟨cache', 0, [], hrun, hsound, hnone, fun hs _ => ⟨_, hs, rfl⟩⟩
  | succ n ih =>
    rintro (_ | fuel) hfuel v
    · cases hfuel
    obtain ⟨p, hp, -, -, hbefore⟩ := periodEnd_succ hn
    have hstate : c.bip9State H (some p) = c.periodState H x (n + 1) := hp ▸ bip9State_periodEnd hn
    rw [hp, walkBack]
    split
    · next hcached =>
      obtain ⟨state, hget⟩ := Option.isSome_iff_exists.mp hcached
      refine ⟨cache, n + 1, [], by rw [hp]; rfl, h, ?_, fun hs _ => ⟨_, hs, rfl⟩⟩
      rw [hp, hget, h _ state hget, hstate]
    split
    · next hearly =>
      have hdefined := periodState_of_early hrise hn hp hearly le_rfl
      refine ⟨_, n + 1, [], by rw [hp]; rfl, h.update (hstate.trans hdefined).symm, ?_,
        fun hs _ => ⟨_, hs, rfl⟩⟩
      rw [hp, update_self, hdefined]
    · rw [hbefore]
      obtain ⟨cache', m, front, hrun, hsound, hget, hforward⟩ :=
        ih (by omega) (lt_of_succ_lt_succ hfuel) (p :: v)
      refine ⟨cache', m, front ++ [p], by rw [List.append_assoc]; exact hrun, hsound, hget, ?_⟩
      intro cache hs rest
      obtain ⟨cache₁, hs₁, hrun₁⟩ := hforward hs (p :: rest)
      refine ⟨_, hs₁.update hstate.symm, ?_⟩
      rw [List.append_assoc, List.singleton_append, hrun₁, walkForward, stateNext_eq hn hp]
      rfl

section Calls

variable (hrise : TimesRise H) (halways : c.BeginTime ≠ ALWAYS_ACTIVE)
  (hnever : c.BeginTime ≠ NEVER_ACTIVE)

include hrise halways hnever

variable (pindexPrev : Option Node)

/-- **`GetStateFor` computes the recursion**, whatever is in the cache. -/
lemma getStateFor_spec (h : CacheSound c H cache) :
    ∃ cache', c.getStateFor H pindexPrev cache = .ok (cache', c.bip9State H pindexPrev) ∧
      CacheSound c H cache' := by
  rw [getStateFor, if_neg halways, if_neg hnever]
  cases pindexPrev with
  | none =>
    obtain ⟨cache', hrun, hsound, hnone⟩ := walkBack_none h 1 []
    refine ⟨cache', ?_, hsound⟩
    change (c.walkBack H 2 cache none [] >>= _) = _
    rw [hrun]
    change (match cache' none with | some state => _ | none => _) = _
    rw [hnone]
    rfl
  | some x =>
    have hfuel := periods_lt (c := c) (H := H) x
    obtain ⟨cache', m, front, hrun, hsound, hget, hforward⟩ := walkBack_spec hrise le_rfl h hfuel []
    obtain ⟨cache₁, hs₁, hrun₁⟩ := hforward hsound []
    refine ⟨cache₁, ?_, hs₁⟩
    rw [lastPeriodEnd_some]
    change (c.walkBack H _ cache _ [] >>= _) = _
    rw [hrun]
    change (match cache' (c.periodEnd H x m) with | some state => _ | none => _) = _
    rw [hget]
    exact hrun₁

lemma sinceLoop_spec (hstate : c.bip9State H (some x) ≠ .DEFINED) : ∀ {n fuel : ℕ} {p : Node}
    {cache : ThresholdConditionCache Node}, n < fuel → CacheSound c H cache →
    n + 1 ≤ c.periods H x → c.periodEnd H x (n + 1) = some p →
    (∀ k, n + 1 ≤ k → k ≤ c.periods H x → c.periodState H x k = c.bip9State H (some x)) →
    ∃ m, c.sinceLoop H (c.bip9State H (some x)) fuel cache p = .ok (m * c.Period) ∧
      c.RunStart H (some x) m
  | _, 0, _, _, hfuel, _, _, _, _ => absurd hfuel (not_lt_zero _)
  | n, fuel + 1, p, cache, hfuel, hsound, hn, hp, hrun => by
    obtain ⟨q, hq, -, hdepth, hbefore⟩ := periodEnd_succ hn
    obtain rfl := Option.some.inj (hq.symm.trans hp)
    rw [sinceLoop, hbefore]
    cases n with
    | zero => exact ⟨1, congrArg Except.ok hdepth, hn, hrun, fun _ => hstate.symm⟩
    | succ n =>
      obtain ⟨r, hr, -⟩ := periodEnd_succ (le_of_succ_le hn)
      obtain ⟨cache', hget, hsound'⟩ := getStateFor_spec hrise halways hnever (some r) hsound
      have hbip9 := bip9State_periodEnd (le_of_succ_le hn)
      rw [hr] at hbip9 ⊢
      change ∃ m, (c.getStateFor H (some r) cache >>= _) = _ ∧ _
      rw [hget]
      change ∃ m, (if c.bip9State H (some r) = _ then _ else _) = _ ∧ _
      rw [hbip9]
      split
      · next hsame =>
        refine sinceLoop_spec hstate (by omega) hsound' (by omega) hr fun k hk hk' => ?_
        obtain rfl | hlt := hk.eq_or_lt
        · exact hsame
        · exact hrun k hlt hk'
      · next hother => exact ⟨n + 2, congrArg Except.ok hdepth, hn, hrun, fun _ => hother⟩

lemma getStateSinceHeightFor_spec (h : CacheSound c H cache) :
    ∃ m, c.getStateSinceHeightFor H pindexPrev cache = .ok (m * c.Period) ∧
      c.RunStart H pindexPrev m := by
  obtain ⟨cache', hget, hsound⟩ := getStateFor_spec hrise halways hnever pindexPrev h
  rw [getStateSinceHeightFor, if_neg (not_or_intro halways hnever), hget]
  cases pindexPrev with
  | none => exact ⟨0, by rw [zero_mul]; rfl, rfl⟩
  | some x =>
    change ∃ m, (if c.bip9State H (some x) = .DEFINED then _ else _) = _ ∧ _
    split
    · next hdefined =>
      refine ⟨0, by rw [zero_mul]; rfl, zero_le _, fun k _ hk => ?_, fun hne => absurd rfl hne⟩
      rw [hdefined]
      induction hk using Nat.decreasingInduction with
      | self => exact hdefined
      | of_succ k _ ih => exact periodState_defined (ih (zero_le _))
    · next hstate =>
      rw [lastPeriodEnd_some]
      cases hn : c.periods H x with
      | zero => exact absurd (by rw [bip9State, hn]; rfl) hstate
      | succ n =>
        obtain ⟨p, hp, -, hdepth, -⟩ := periodEnd_succ hn.ge
        have hle : n + 1 ≤ (n + 1) * c.Period := Nat.le_mul_of_pos_right _ c.period_pos
        rw [hp]
        refine sinceLoop_spec hrise halways hnever hstate (by omega) hsound hn.ge hp ?_
        intro k hk hk'
        rw [bip9State, hn, le_antisymm (hk'.trans hn.le) hk]

lemma CacheReachable.sound (h : c.CacheReachable H cache) : CacheSound c H cache := by
  induction h with
  | empty => exact nofun
  | @call cache cache' pindexPrev state _ hrun ih =>
    obtain ⟨cache₁, hrun₁, hsound⟩ := getStateFor_spec hrise halways hnever pindexPrev ih
    rw [hrun] at hrun₁
    cases hrun₁
    exact hsound

end Calls

/-- **Version bits.**  Whatever calls have filled the cache, `GetStateFor` returns the state of the
recursion by periods and `GetStateSinceHeightFor` the first height of the run of periods with that
state, and `ACTIVE` and `FAILED` are the state of all descendants. -/
theorem getStateFor_by_periods (c : ThresholdChecker Node) (H : HeaderTree Node)
    (hrise : TimesRise H) (halways : c.BeginTime ≠ ALWAYS_ACTIVE)
    (hnever : c.BeginTime ≠ NEVER_ACTIVE) (cache : ThresholdConditionCache Node)
    (hcache : c.CacheReachable H cache) (pindexPrev : Option Node) :
    (∃ cache', c.getStateFor H pindexPrev cache = .ok (cache', c.bip9State H pindexPrev)) ∧
    (∃ m, c.getStateSinceHeightFor H pindexPrev cache = .ok (m * c.Period) ∧
      c.RunStart H pindexPrev m) ∧
    ∀ a x, pindexPrev = some a → H.IsAncestor a x →
      c.bip9State H pindexPrev = .ACTIVE ∨ c.bip9State H pindexPrev = .FAILED →
      c.bip9State H (some x) = c.bip9State H pindexPrev := by
  have hsound := hcache.sound hrise halways hnever
  obtain ⟨cache', hget, -⟩ := getStateFor_spec hrise halways hnever pindexPrev hsound
  refine ⟨⟨cache', hget⟩, getStateSinceHeightFor_spec hrise halways hnever pindexPrev hsound, ?_⟩
  rintro a x rfl hax hstate
  have hperiods : c.periods H a ≤ c.periods H x :=
    Nat.div_le_div_right (Nat.succ_le_succ hax.depth_le)
  have hcongr := periodState_congr hax (le_refl (c.periods H a))
  rw [bip9State, hcongr] at hstate
  exact (periodState_persists hperiods hstate).trans hcongr.symm

/-- One block is a period, every block signals, and the deployment starts with second one. -/
def everyBlock : ThresholdChecker (Fin 3) where
  BeginTime := 1
  EndTime := 2000000000
  Period := 1
  Threshold := 1
  MinActivationHeight := 0
  Condition _ := true
  period_pos := one_pos

lemma getMedianTimePast_quarteringHeaders :
    getMedianTimePast quarteringHeaders 0 = 0 ∧ getMedianTimePast quarteringHeaders 1 = 1 := by
  have htimes : pastTimes quarteringHeaders nMedianTimeSpan 0 = [0] ∧
      pastTimes quarteringHeaders nMedianTimeSpan 1 = [1, 0] := by decide
  simp [getMedianTimePast, htimes, List.mergeSort, List.MergeSort.Internal.splitInTwo]

lemma timesRise_quarteringHeaders : TimesRise quarteringHeaders := by
  have hparent : ∀ x p, quarteringHeaders.parent x = some p → p = 0 ∧ x = 1 ∨ p = 1 ∧ x = 2 := by
    decide
  obtain ⟨h0, h1⟩ := getMedianTimePast_quarteringHeaders
  intro x p hp
  obtain ⟨rfl, rfl⟩ | ⟨rfl, rfl⟩ := hparent x p hp
  · rw [h0]
    decide
  · rw [h1]
    decide

lemma periodState_quarteringHeaders :
    everyBlock.periodState quarteringHeaders 2 2 = .STARTED ∧
      everyBlock.periodState quarteringHeaders 2 3 = .LOCKED_IN := by
  obtain ⟨h0, h1⟩ := getMedianTimePast_quarteringHeaders
  have hdefined : everyBlock.periodState quarteringHeaders 2 1 = .DEFINED :=
    if_neg (h0.trans_lt one_pos).not_ge
  have hstarted : everyBlock.periodState quarteringHeaders 2 2 = .STARTED := by
    change everyBlock.transition quarteringHeaders
      (everyBlock.periodState quarteringHeaders 2 1) 1 _ = _
    rw [hdefined]
    exact if_pos h1.ge
  refine ⟨hstarted, ?_⟩
  change everyBlock.transition quarteringHeaders
    (everyBlock.periodState quarteringHeaders 2 2) 2 _ = _
  rw [hstarted]
  decide

/-- A call for the second of three blocks fills the cache, and the calls for the third one go on
from there. -/
theorem getStateFor_by_periods_quarteringHeaders :
    ∃ cache cache' state,
      everyBlock.getStateFor quarteringHeaders (some 1) (fun _ => none) = .ok (cache, state) ∧
      everyBlock.getStateFor quarteringHeaders (some 2) cache = .ok (cache', .LOCKED_IN) ∧
      everyBlock.getStateSinceHeightFor quarteringHeaders (some 2) cache = .ok 3 := by
  have hstates := getStateFor_by_periods everyBlock quarteringHeaders timesRise_quarteringHeaders
    (by decide) (by decide)
  obtain ⟨⟨cache, hcall⟩, -⟩ := hstates _ .empty (some 1)
  obtain ⟨⟨cache', hstate⟩, ⟨m, hsince, hle, hrun, -⟩, -⟩ :=
    hstates cache (.call .empty hcall) (some 2)
  obtain ⟨hstarted, hlocked⟩ := periodState_quarteringHeaders
  have hlast : everyBlock.bip9State quarteringHeaders (some 2) = .LOCKED_IN := hlocked
  rw [hlast] at hstate hrun
  -- The period before has another state, so the run is the last period alone.
  have hm : m = 3 := by
    refine le_antisymm hle (not_lt.mp fun hlt => ?_)
    have hsame := hrun 2 (le_of_lt_succ hlt) (by decide)
    rw [hstarted] at hsame
    cases hsame
  rw [hm] at hsince
  exact ⟨cache, cache', _, hcall, hstate, hsince⟩

end ThresholdChecker

end SlithyTove
