import SlithyTove.Framework.Median
import SlithyTove.Sync.HeadersSyncProgress
import SlithyTove.Validation.ContextualCheck

/-!
# The bound on the commitments of a headers sync

The constructor of `HeadersSyncState` bounds the number of commitments it will store by how many
blocks the peer's chain can have at that time: six for each second from the median time past of
`chain_start` to the latest time a header may carry, divided by the commitment period.

Six blocks a second is right: under the rule of the median of eleven times, six headers raise the
median by a second at least (`length_le_maxBlocks`), and there are that many if none of the times
before is later than the median.  But the division rounds down, and the first commitment height need
not be a whole period above `chain_start`, so among that many blocks there can be one commitment
height more than the bound.  `presync_commitments_iff` says when there is.
-/

namespace SlithyTove

open Framework List Nat

variable {Hash : Type}

/-! ## The constructor -/

/-- The nanoseconds of a second. -/
def secondNs : ℤ := 1000000000

/-- `max_seconds_since_start`, for the clock `now` in nanoseconds.  `Ticks` truncates. -/
def maxSecondsSinceStart (now : Int64) (medianTimePast : ℤ) : ℤ :=
  (now.toInt - medianTimePast * secondNs).tdiv secondNs + MAX_FUTURE_BLOCK_TIME

/-- `6 * max_seconds_since_start`, as the division by a `size_t` reads it. -/
def maxBlocksSinceStart (now : Int64) (medianTimePast : ℤ) : ℕ :=
  ((6 * maxSecondsSinceStart now medianTimePast) % 2 ^ 64).toNat

/-- `m_max_commitments`. -/
def maxCommitments (now : Int64) (medianTimePast : ℤ) (commitment_period : ℕ) : ℕ :=
  maxBlocksSinceStart now medianTimePast / commitment_period

/-! ## The time rules -/

/-- The latest whole second a header may carry at the clock `now`: up to there
`Time() > now + MAX_FUTURE_BLOCK_TIME` is false. -/
def latestTime (now : Int64) : ℤ := now.toInt / secondNs + MAX_FUTURE_BLOCK_TIME

/-- The times of headers. -/
def headerTimes (headers : List (CBlockHeader Hash)) : List ℤ :=
  headers.map fun header => (header.nTime.toNat : ℤ)

section Start

variable {Node : Type} (H : HeaderTree Node)

/-- The headers extend `start` by the time rules of `ContextualCheckBlockHeader`: each time is after
the median time past of the parent and not after the latest time. -/
def TimesExtend (start : Node) (now : Int64) (headers : List (CBlockHeader Hash)) : Prop :=
  Climbs nMedianTimeSpan (latestTime now) (pastTimes H nMedianTimeSpan start) (headerTimes headers)

lemma length_pastTimes (n : ℕ) : ∀ x : Node, (pastTimes H n x).length ≤ n := by
  induction n with
  | zero => exact fun _ => le_rfl
  | succ n ih =>
    intro x
    rw [pastTimes, length_cons]
    cases H.parent x with
    | none => exact succ_le_succ (zero_le n)
    | some p => exact succ_le_succ (ih p)

variable (x : Node)

lemma windowMedian_pastTimes :
    windowMedian nMedianTimeSpan (pastTimes H nMedianTimeSpan x) = getMedianTimePast H x := by
  rw [windowMedian, take_of_length_le (length_pastTimes H _ x)]
  rfl

lemma pastTimes_ne_nil : pastTimes H nMedianTimeSpan x ≠ [] := cons_ne_nil _ _

lemma getMedianTimePast_nonneg : 0 ≤ getMedianTimePast H x := by
  have hpos : ∀ (n : ℕ) (y : Node), ∀ t ∈ pastTimes H n y, (0 : ℤ) ≤ t := by
    intro n
    induction n with
    | zero => exact fun _ _ h => absurd h not_mem_nil
    | succ n ih =>
      intro y t ht
      rw [pastTimes] at ht
      rcases mem_cons.1 ht with rfl | ht
      · exact Int.natCast_nonneg _
      · cases hp : H.parent y with
        | none => simp [hp] at ht
        | some p => exact ih p t (by simpa [hp] using ht)
  rw [← windowMedian_pastTimes]
  suffices h : -1 < windowMedian nMedianTimeSpan (pastTimes H nMedianTimeSpan x) by omega
  rw [lt_windowMedian_iff (by decide) (pastTimes_ne_nil H x)]
  have hnone : ((pastTimes H nMedianTimeSpan x).take nMedianTimeSpan).countP (· ≤ -1) = 0 := by
    rw [countP_eq_zero]
    intro t ht
    have := hpos _ _ t (mem_of_mem_take ht)
    simp
    omega
  rw [hnone]
  exact zero_le _

lemma tdiv_bounds (a : ℤ) {k : ℤ} (hk : 0 < k) : a / k ≤ a.tdiv k ∧ a.tdiv k ≤ a / k + 1 := by
  rw [Int.tdiv_eq_ediv, Int.sign_eq_one_of_pos hk]
  split <;> omega

/-- As long as there is a second left, the bound is six times the seconds: nothing wraps. -/
lemma le_maxBlocksSinceStart {now : Int64} {medianTimePast : ℤ} {n : ℕ} (hpos : 0 < n)
    (hmedian : 0 ≤ medianTimePast) (hle : (n : ℤ) ≤ 6 * (latestTime now - medianTimePast)) :
    n ≤ maxBlocksSinceStart now medianTimePast := by
  have hnow := Int64.toInt_lt now
  obtain ⟨hlow, hhigh⟩ := tdiv_bounds (now.toInt - medianTimePast * secondNs)
    (by decide : 0 < secondNs)
  have hfloor : (now.toInt - medianTimePast * secondNs) / secondNs =
      now.toInt / secondNs - medianTimePast := Int.sub_mul_ediv_right _ _ (by decide)
  have hsmall : now.toInt / secondNs ≤ 2 ^ 34 := by
    rw [secondNs]
    omega
  rw [hfloor] at hlow hhigh
  rw [latestTime, MAX_FUTURE_BLOCK_TIME] at hle
  rw [maxBlocksSinceStart, maxSecondsSinceStart, MAX_FUTURE_BLOCK_TIME]
  generalize (now.toInt - medianTimePast * secondNs).tdiv secondNs = seconds at *
  generalize now.toInt / secondNs = whole at *
  rw [Int.emod_eq_of_lt (by omega) (by omega)]
  omega

/-- **Six blocks a second.**  No chain that follows the time rules is longer than the bound before
the division. -/
lemma length_le_maxBlocks {start : Node} {now : Int64} {headers : List (CBlockHeader Hash)}
    (h : TimesExtend H start now headers) :
    headers.length ≤ maxBlocksSinceStart now (getMedianTimePast H start) := by
  rcases eq_or_ne headers [] with rfl | hne
  · exact zero_le _
  have hvalues : headerTimes headers ≠ [] := by simpa [headerTimes] using hne
  have hlen := Climbs.length_le (by decide) _ rfl (pastTimes_ne_nil H start) hvalues h
  rw [windowMedian_pastTimes, headerTimes, length_map,
    show ((nMedianTimeSpan - nMedianTimeSpan / 2 : ℕ) : ℤ) = 6 from rfl] at hlen
  exact le_maxBlocksSinceStart (length_pos_iff.2 hne) (getMedianTimePast_nonneg H start) hlen

/-- The length of the longest chain by the time rules.  A time has 32 bits. -/
def longestChain (start : Node) (now : Int64) : ℕ :=
  climbLength nMedianTimeSpan (min (latestTime now) (2 ^ 32 - 1))
    (maxBlocksSinceStart now (getMedianTimePast H start)) (pastTimes H nMedianTimeSpan start)

lemma headerTimes_le (headers : List (CBlockHeader Hash)) :
    ∀ t ∈ headerTimes headers, t ≤ 2 ^ 32 - 1 := by
  refine forall_mem_map.2 fun header _ => ?_
  have := header.nTime.toNat_lt
  omega

lemma length_le_longestChain {start : Node} {now : Int64} {headers : List (CBlockHeader Hash)}
    (h : TimesExtend H start now headers) : headers.length ≤ longestChain H start now := by
  have hlen : (headerTimes headers).length = headers.length := length_map ..
  have hclimbs := (Climbs.min (headerTimes_le headers)).2 h
  rw [← hlen]
  exact hclimbs.length_le_climbLength (by decide) (forall₂_refl _) (pastTimes_ne_nil H start)
    (hlen ▸ length_le_maxBlocks H h)

lemma longestChain_eq {start : Node} {now : Int64}
    (h : Settled nMedianTimeSpan (pastTimes H nMedianTimeSpan start))
    (hnow : getMedianTimePast H start * secondNs ≤ now.toInt) (hlatest : latestTime now < 2 ^ 32) :
    longestChain H start now = maxBlocksSinceStart now (getMedianTimePast H start) := by
  refine (climbLength_le ..).antisymm ?_
  have hmedian := getMedianTimePast_nonneg H start
  have hfloor : (now.toInt - getMedianTimePast H start * secondNs) / secondNs =
      now.toInt / secondNs - getMedianTimePast H start := Int.sub_mul_ediv_right _ _ (by decide)
  have hseconds : maxSecondsSinceStart now (getMedianTimePast H start) =
      latestTime now - getMedianTimePast H start := by
    rw [maxSecondsSinceStart, Int.tdiv_eq_ediv_of_nonneg (by omega), hfloor, latestTime]
    omega
  have hpos : getMedianTimePast H start ≤ now.toInt / secondNs :=
    (Int.le_ediv_iff_mul_le (by decide)).2 hnow
  have hfuture : latestTime now = now.toInt / secondNs + 7200 := rfl
  obtain ⟨n, hn⟩ := Int.eq_ofNat_of_zero_le
    (show 0 ≤ latestTime now - getMedianTimePast H start by omega)
  have hmax : maxBlocksSinceStart now (getMedianTimePast H start) = 6 * n := by
    rw [maxBlocksSinceStart, hseconds, hn, Int.emod_eq_of_lt (by omega) (by omega)]
    omega
  obtain ⟨values, hlen, hclimbs⟩ := h.exists_climbs (by decide) n
    (show windowMedian nMedianTimeSpan (pastTimes H nMedianTimeSpan start) + n ≤
      min (latestTime now) (2 ^ 32 - 1) by rw [windowMedian_pastTimes]; omega)
  rw [hmax]
  exact hlen.symm.trans_le (hclimbs.length_le_climbLength (by decide) (forall₂_refl _)
    (pastTimes_ne_nil H start) hlen.le)

end Start

/-! ## Counting commitment heights -/

lemma add_sub_mod_eq_zero_iff {a p offset : ℕ} (hoffset : offset < p) :
    (a + (p - offset)) % p = 0 ↔ a % p = offset := by
  have hlt : a % p < p := mod_lt _ (by omega)
  rw [← mod_add_mod]
  generalize a % p = b at *
  rcases lt_or_ge b offset with hb | hb
  · rw [mod_eq_of_lt (by omega)]
    omega
  · rw [show b + (p - offset) = b - offset + p by omega, add_mod_right,
      mod_eq_of_lt (by omega)]
    omega

namespace HeadersSyncConfig

variable (c : HeadersSyncConfig Hash)

/-- How many blocks `chain_start` is above the last commitment height, or would be if heights went
on below zero. -/
def commitmentPhase : ℕ :=
  (c.nHeight.toNat + (c.commitment_period - c.commit_offset)) % c.commitment_period

lemma commitmentPhase_lt : c.commitmentPhase < c.commitment_period :=
  mod_lt _ c.commitment_period_pos

variable {c}

lemma isCommitmentHeight_iff {n : ℕ} (hn : c.nHeight + n < 2 ^ 31) :
    c.isCommitmentHeight (c.nHeight + n) = true ↔
      c.commitment_period ∣ n + c.commitmentPhase := by
  have hnonneg := c.nHeight_nonneg
  have hheight : ((c.nHeight + n) % 2 ^ 64).toNat = c.nHeight.toNat + n := by
    rw [Int.emod_eq_of_lt (by omega) (by omega)]
    omega
  rw [isCommitmentHeight, decide_eq_true_iff, hheight, commitmentPhase,
    dvd_iff_mod_eq_zero, add_mod_mod, ← add_assoc, add_comm n,
    add_sub_mod_eq_zero_iff c.commit_offset_lt]

variable {headers : List (CBlockHeader Hash)}

/-- **The number of commitment heights** on a chain on top of `chain_start`. -/
lemma length_commitBits (hheights : c.nHeight + headers.length < 2 ^ 31) :
    (c.commitBits narrowInt c.nHeight headers).length =
      (headers.length + c.commitmentPhase) / c.commitment_period := by
  induction headers using List.reverseRecOn with
  | nil =>
    rw [length_nil, zero_add, div_eq_of_lt c.commitmentPhase_lt]
    rfl
  | append_singleton headers header ih =>
    rw [length_append, length_singleton] at hheights ⊢
    have hnonneg := c.nHeight_nonneg
    have hnext : narrowInt (c.nHeight + headers.length + 1) =
        c.nHeight + (headers.length + 1 : ℕ) := by
      rw [narrowInt_of_lt (by omega) (by omega)]
      omega
    rw [commitBits_append, length_append, ih (by omega), hnext,
      Nat.add_right_comm, Nat.succ_div]
    congr 1
    rw [add_right_comm]
    split
    · next hcommit => rw [if_pos ((isCommitmentHeight_iff hheights).1 hcommit), length_singleton]
    · next hcommit =>
      rw [if_neg fun hdvd => hcommit ((isCommitmentHeight_iff hheights).2 hdvd), length_nil]

/-! ## When pre-sync gives up -/

variable (c)

/-- `ValidateAndProcessSingleHeader` gives up with "exceeded max commitments". -/
def exceedsMaxCommitments (s : HeadersSyncState Hash) (current : CBlockHeader Hash) : Prop :=
  let next_height := narrowInt (s.m_current_height + 1)
  c.permitted next_height s.m_last_header_received.nBits current.nBits = true ∧
    c.isCommitmentHeight next_height = true ∧ c.max_commitments < s.m_header_commitments.length + 1

variable [Zero Hash]

/-- Pre-sync of a chain, as far as it goes, ends with "exceeded max commitments". -/
def PresyncExceeds (headers : List (CBlockHeader Hash)) : Prop :=
  ∃ front header s, front ++ [header] <+: headers ∧
    loopHeaders c.validateAndProcessSingleHeader front c.start = (true, s) ∧
    c.exceedsMaxCommitments s header

variable {c}

lemma presyncing_start : c.Presyncing [] c.start := by
  refine ⟨rfl, rfl, rfl, ?_, rfl, zero_le _, rfl, rfl⟩
  have hnarrow := narrowInt_of_lt c.nHeight_nonneg c.nHeight_lt
  simpa [start] using hnarrow.symm

lemma PresyncExceeds.lt (h : c.PresyncExceeds headers) :
    c.max_commitments < (c.commitBits narrowInt c.nHeight headers).length := by
  obtain ⟨front, header, s, hinitial, hrun, -, hcommit, hroom⟩ := h
  have hpre := loopHeaders_invariant (I := c.Presyncing) (fun _ _ _ _ h => h.step)
    presyncing_start hrun
  rw [nil_append] at hpre
  rw [hpre.height, narrowInt_succ] at hcommit
  have hbits := commitBits_append (c := c) narrowInt c.nHeight front header
  rw [if_pos hcommit, ← hpre.commitments] at hbits
  refine lt_of_lt_of_le ?_ (length_commitBits_mono narrowInt hinitial)
  rw [hbits, length_append, length_singleton]
  exact hroom

lemma presyncExceeds_of_lt (hheights : c.nHeight + headers.length < 2 ^ 31)
    (hlinked : c.Linked c.chain_start c.nHeight headers)
    (h : c.max_commitments < (c.commitBits narrowInt c.nHeight headers).length) :
    c.PresyncExceeds headers := by
  -- The chain is followed from its start until the first header without room.
  induction headers using List.reverseRecOn with
  | nil => exact absurd h (not_lt_zero _)
  | append_singleton front header ih =>
    obtain ⟨hfront, -, hpermitted⟩ := linked_append.1 hlinked
    rw [length_append, length_singleton] at hheights
    by_cases hfits : c.max_commitments < (c.commitBits narrowInt c.nHeight front).length
    · obtain ⟨front', header', s, hinitial, hrun⟩ := ih (by omega) hfront hfits
      exact ⟨front', header', s, hinitial.trans (prefix_append _ _), hrun⟩
    · have hsmall : c.nHeight + ([] ++ front).length < 2 ^ 31 := by
        rw [nil_append]
        omega
      have hroom := not_lt.1 hfits
      rw [commitBits_narrowInt c.nHeight_nonneg (by omega)] at hroom
      obtain ⟨s, hrun, hpre⟩ := presyncing_start.loop_ok hfront hsmall hroom
      rw [nil_append] at hpre
      refine ⟨front, header, s, prefix_rfl, hrun, ?_⟩
      rw [commitBits_append, ← hpre.commitments] at h
      have hle := hpre.commitments_le
      have hnonneg := c.nHeight_nonneg
      have hnext : narrowInt (s.m_current_height + 1) = c.nHeight + front.length + 1 := by
        rw [hpre.height, narrowInt_succ, narrowInt_of_lt (by omega) (by omega)]
      have hnarrow : narrowInt (c.nHeight + front.length + 1) = c.nHeight + front.length + 1 :=
        narrowInt_of_lt (by omega) (by omega)
      rw [hnarrow] at h
      rw [exceedsMaxCommitments, hnext, hpre.last]
      split at h
      · next hcommit => exact ⟨hpermitted, hcommit, by simpa using h⟩
      · rw [append_nil] at h
        omega

variable (c) in
/-- Headers with given times on top of `prev`, with its target. -/
def chainOf : (prev : CBlockHeader Hash) → List ℤ → List (CBlockHeader Hash)
  | _, [] => []
  | prev, t :: times =>
    let header := { prev with hashPrevBlock := c.blockHash prev, nTime := t.toNat.toUInt32 }
    header :: chainOf header times

omit [Zero Hash] in
lemma headerTimes_chainOf {times : List ℤ} : ∀ {prev : CBlockHeader Hash},
    (∀ t ∈ times, 0 ≤ t ∧ t ≤ 2 ^ 32 - 1) → headerTimes (c.chainOf prev times) = times := by
  induction times with
  | nil => exact fun _ => rfl
  | cons t times ih =>
    intro prev hle
    obtain ⟨ht, hrest⟩ := forall_mem_cons.1 hle
    have hnat : (t.toNat.toUInt32.toNat : ℤ) = t := by
      rw [Nat.toUInt32, UInt32.toNat_ofNat', Nat.mod_eq_of_lt (by omega)]
      omega
    exact congrArg₂ _ hnat (ih hrest)

omit [Zero Hash] in
lemma linked_chainOf {times : List ℤ} : ∀ {prev : CBlockHeader Hash} (height : ℤ),
    (∀ height, c.permitted height prev.nBits prev.nBits = true) →
    c.Linked prev height (c.chainOf prev times) := by
  induction times with
  | nil => exact fun _ _ => trivial
  | cons t times ih => exact fun height hbits => ⟨rfl, hbits _, ih (height + 1) hbits⟩

omit [Zero Hash] in
lemma exists_longestChain {Node : Type} (H : HeaderTree Node) (start : Node) (now : Int64)
    (hbits : ∀ height, c.permitted height c.chain_start.nBits c.chain_start.nBits = true) :
    ∃ headers, headers.length = longestChain H start now ∧ TimesExtend H start now headers ∧
      c.Linked c.chain_start c.nHeight headers := by
  obtain ⟨times, hlen, hclimbs⟩ := exists_climbs nMedianTimeSpan (min (latestTime now) (2 ^ 32 - 1))
    (maxBlocksSinceStart now (getMedianTimePast H start)) (pastTimes H nMedianTimeSpan start)
  have hlow := (hclimbs.above (by decide) (pastTimes_ne_nil H start)).1
  have hmedian := getMedianTimePast_nonneg H start
  rw [windowMedian_pastTimes] at hlow
  have htimes : headerTimes (c.chainOf c.chain_start times) = times := headerTimes_chainOf
    fun t ht => ⟨hmedian.trans (hlow t ht).le, (hclimbs.le_limit t ht).trans (min_le_right _ _)⟩
  refine ⟨c.chainOf c.chain_start times, ?_, ?_, linked_chainOf _ hbits⟩
  · rw [← length_map, ← headerTimes, htimes, hlen]
    rfl
  · rw [TimesExtend, ← Climbs.min (headerTimes_le _), htimes]
    exact hclimbs

/-- **When pre-sync never gives up.**  Let the bound be the one computed at the clock `now` for a
`chain_start` whose target may stay as it is.  Pre-sync gives up on no chain of permitted
difficulties that extends it by the time rules if and only if there is no room for one more
commitment height among six blocks for each second, less those for which the times before
`chain_start` leave no room.  The number of commitment heights is within the bound then, whatever
the difficulties are.  Where none of eleven times is later than their median no block has to be
taken off. -/
theorem presync_commitments_iff {Node : Type} (c : HeadersSyncConfig Hash) (H : HeaderTree Node)
    (start : Node) (now : Int64)
    (hmax : c.max_commitments = maxCommitments now (getMedianTimePast H start) c.commitment_period)
    (hheights : c.nHeight + longestChain H start now < 2 ^ 31)
    (hbits : ∀ height, c.permitted height c.chain_start.nBits c.chain_start.nBits = true) :
    let blocks := maxBlocksSinceStart now (getMedianTimePast H start)
    let room := c.commitmentPhase + blocks % c.commitment_period <
      c.commitment_period + (blocks - longestChain H start now)
    ((∀ headers, TimesExtend H start now headers → c.Linked c.chain_start c.nHeight headers →
      ¬ c.PresyncExceeds headers) ↔ room) ∧
    (room → ∀ headers, TimesExtend H start now headers →
      (c.commitBits narrowInt c.nHeight headers).length ≤ c.max_commitments ∧
        ¬ c.PresyncExceeds headers) ∧
    longestChain H start now ≤ blocks ∧
    (Settled nMedianTimeSpan (pastTimes H nMedianTimeSpan start) →
      getMedianTimePast H start * secondNs ≤ now.toInt → latestTime now < 2 ^ 32 →
      longestChain H start now = blocks) := by
  intro blocks room
  have hle : longestChain H start now ≤ blocks := climbLength_le ..
  -- the commitment heights of a chain of some length against the whole periods of the bound
  have hcount : ∀ n, n ≤ blocks →
    ((n + c.commitmentPhase) / c.commitment_period ≤ c.max_commitments ↔
      c.commitmentPhase + blocks % c.commitment_period < c.commitment_period + (blocks - n)) := by
    intro n hn
    have hsplit := div_add_mod blocks c.commitment_period
    rw [← Nat.lt_succ_iff, Nat.div_lt_iff_lt_mul c.commitment_period_pos, Nat.mul_comm,
      succ_eq_add_one, hmax, maxCommitments, mul_add, mul_one]
    change n + c.commitmentPhase < c.commitment_period * (blocks / c.commitment_period) + _ ↔ _
    omega
  have hwithin : room → ∀ headers, TimesExtend H start now headers →
      (c.commitBits narrowInt c.nHeight headers).length ≤ c.max_commitments := by
    intro hroom headers htimes
    have hlen := length_le_longestChain H htimes
    rw [length_commitBits (by omega), hcount _ (hlen.trans hle)]
    exact hroom.trans_le (by omega)
  refine ⟨⟨fun hall => ?_, fun hroom headers htimes _ hexceeds => ?_⟩,
    fun hroom headers htimes => ?_,
    hle, longestChain_eq H⟩
  · obtain ⟨headers, hlen, htimes, hlinked⟩ := exists_longestChain H start now hbits
    have hheights' : c.nHeight + headers.length < 2 ^ 31 := by rwa [hlen]
    refine (hcount _ hle).1 (not_lt.1 fun hlt => hall headers htimes hlinked ?_)
    refine presyncExceeds_of_lt hheights' hlinked ?_
    rwa [length_commitBits hheights', hlen]
  · exact absurd hexceeds.lt (not_lt.2 (hwithin hroom headers htimes))
  · have hle := hwithin hroom headers htimes
    exact ⟨hle, fun hexceeds => absurd hexceeds.lt (not_lt.2 hle)⟩

/-! ### Two chain starts -/

/-- A chain start on its own, at second `10⁹`. -/
def loneStart : HeaderTree (Fin 1) where
  parent _ := none
  depth _ := 0
  depth_root := by decide
  depth_child := by decide
  pskip _ := none
  skip_root := by decide
  skip_child := by decide
  nTime _ := 1000000000
  nBits _ := 0x207fffff

/-- Eleven blocks of that time. -/
def restingStart : HeaderTree (Fin 11) where
  parent x := if x = 0 then none else some (x - 1)
  depth x := x.val
  depth_root := by decide
  depth_child := by decide
  pskip x := if x = 0 then none else some (Fin.ofNat 11 (getSkipHeight x.val))
  skip_root := by decide
  skip_child := by decide
  nTime _ := 1000000000
  nBits _ := 0x207fffff

/-- The clock shows the same time. -/
def startNow : Int64 := 1000000000000000000

/-- A sync from there, on a network without a rule for the difficulty. -/
def startConfig (period : ℕ) (offset : Fin period) (height : ℕ) (h : height < 2 ^ 31) :
    HeadersSyncConfig ℕ where
  blockHash := countingHash
  hasher hash := hash % 2 = 1
  consensus_params := { mainParams with fPowAllowMinDifficultyBlocks := true }
  commitment_period := period
  commitment_period_pos := offset.pos
  redownload_buffer_size := 1
  redownload_buffer_size_pos := Nat.one_pos
  commit_offset := offset
  commit_offset_lt := offset.isLt
  chain_start := ⟨1, 0, 0, 1000000000, 0x207fffff, 0⟩
  nHeight := height
  nHeight_nonneg := Int.natCast_nonneg height
  nHeight_lt := by exact_mod_cast h
  nChainWork := 0
  minimum_required_work := 1000000
  max_commitments := maxCommitments startNow 1000000000 period

/-- A header on top of it, one second later. -/
def loneHeader : CBlockHeader ℕ :=
  ⟨1, countingHash ⟨1, 0, 0, 1000000000, 0x207fffff, 0⟩, 0, 1000000001, 0x207fffff, 0⟩

lemma getMedianTimePast_loneStart : getMedianTimePast loneStart 0 = 1000000000 := by
  simp [getMedianTimePast, pastTimes, nMedianTimeSpan, loneStart]

/-- A period of 43201 blocks, one more than the 7200 seconds leave room for: the bound is zero, and
pre-sync gives up at the first header, which follows every time rule. -/
theorem presync_exceeds_loneHeader :
    let c := startConfig 43201 1 0 (by decide)
    c.max_commitments = maxCommitments startNow (getMedianTimePast loneStart 0)
      c.commitment_period ∧
      TimesExtend loneStart 0 startNow [loneHeader] ∧
      c.Linked c.chain_start c.nHeight [loneHeader] ∧
      c.max_commitments < (c.commitBits narrowInt c.nHeight [loneHeader]).length ∧
      c.PresyncExceeds [loneHeader] := by
  refine ⟨?_, ⟨?_, by decide, trivial⟩, ⟨rfl, rfl, trivial⟩, by decide +kernel, ?_⟩
  · rw [getMedianTimePast_loneStart]
    rfl
  · rw [windowMedian_pastTimes, getMedianTimePast_loneStart]
    decide
  · exact ⟨[], loneHeader, _, prefix_rfl, rfl, rfl, by decide +kernel, by decide +kernel⟩

lemma pastTimes_restingStart :
    pastTimes restingStart nMedianTimeSpan 10 = replicate 11 1000000000 := by decide

lemma getMedianTimePast_restingStart : getMedianTimePast restingStart 10 = 1000000000 := by
  rw [getMedianTimePast, pastTimes_restingStart, mergeSort_of_pairwise (by decide)]
  rfl

/-- There is room for 43200 blocks.  From height 10 on they have 6172 commitment heights of period 7
if the offset is 6, one more than the bound, and 6171 if it is 3. -/
theorem presync_commitments_iff_restingStart :
    (∀ headers, TimesExtend restingStart 10 startNow headers →
      ¬ (startConfig 7 3 10 (by decide)).PresyncExceeds headers) ∧
    ∃ headers, TimesExtend restingStart 10 startNow headers ∧
      (startConfig 7 6 10 (by decide)).PresyncExceeds headers := by
  have hblocks : maxBlocksSinceStart startNow (getMedianTimePast restingStart 10) = 43200 := by
    rw [getMedianTimePast_restingStart]
    decide +kernel
  have hsettled : Settled nMedianTimeSpan (pastTimes restingStart nMedianTimeSpan 10) := by
    rw [Settled, windowMedian_pastTimes, getMedianTimePast_restingStart, pastTimes_restingStart]
    decide
  have hlongest := longestChain_eq restingStart hsettled
    (show _ ≤ startNow.toInt by rw [getMedianTimePast_restingStart]; decide) (by decide)
  rw [hblocks] at hlongest
  have hall := fun offset => presync_commitments_iff (startConfig 7 offset 10 (by decide))
    restingStart 10 startNow (by rw [getMedianTimePast_restingStart]; rfl)
    (by rw [hlongest]; exact show (10 : ℤ) + 43200 < 2 ^ 31 by decide) fun _ => rfl
  simp only [hblocks, hlongest] at hall
  refine ⟨fun headers htimes => ((hall 3).2.1 (by decide) headers htimes).2, ?_⟩
  by_contra hnone
  push Not at hnone
  exact absurd ((hall 6).1.1 fun headers htimes _ => hnone headers htimes) (by decide)

end HeadersSyncConfig

end SlithyTove
