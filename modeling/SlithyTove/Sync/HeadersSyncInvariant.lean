import SlithyTove.Sync.HeadersSync

/-!
# The two phases of headers sync

What a `HeadersSyncState` holds is a function of the headers it has accepted.  In the first phase
the commitments are the bits of the headers so far (`Presyncing`).  In the second phase they are the
bits of the headers of the first phase that are still to come, and the buffer holds the redownloaded
headers that were not returned (`Redownloading`).  Each header that is accepted keeps this, and it
says which headers are accepted.
-/

namespace SlithyTove.HeadersSyncConfig

open List Nat

variable {Hash : Type} (c : HeadersSyncConfig Hash)

/-! ## Chains of headers -/

/-- A chain of headers on top of `prev`, which has height `height`: each names the hash of the one
before and has a target that is permitted after it. -/
def Linked : (prev : CBlockHeader Hash) → (height : ℤ) → List (CBlockHeader Hash) → Prop
  | _, _, [] => True
  | prev, height, header :: headers =>
    header.hashPrevBlock = c.blockHash prev ∧
      c.permitted (height + 1) prev.nBits header.nBits = true ∧
      Linked header (height + 1) headers

variable (prev : CBlockHeader Hash)

/-- The last of a chain on top of `prev`. -/
def lastOf (headers : List (CBlockHeader Hash)) : CBlockHeader Hash :=
  headers.getLast?.getD prev

@[simp] lemma lastOf_nil : lastOf prev [] = prev := rfl

@[simp] lemma lastOf_append (header : CBlockHeader Hash) (headers : List (CBlockHeader Hash)) :
    lastOf prev (headers ++ [header]) = header := by
  simp [lastOf]

lemma lastOf_cons (header : CBlockHeader Hash) (headers : List (CBlockHeader Hash)) :
    lastOf prev (header :: headers) = lastOf header headers := by
  unfold lastOf
  cases headers with
  | nil => rfl
  | cons h t => simp [List.getLast?_cons]

lemma lastOf_append_list (front back : List (CBlockHeader Hash)) :
    lastOf prev (front ++ back) = lastOf (lastOf prev front) back := by
  induction front generalizing prev with
  | nil => rfl
  | cons header front ih => rw [cons_append, lastOf_cons, lastOf_cons, ih]

variable (headers : List (CBlockHeader Hash))

/-- The work of a chain on top of the start. -/
def chainWork : ℕ := headers.foldl addWork c.nChainWork

@[simp] lemma chainWork_append (header : CBlockHeader Hash) :
    c.chainWork (headers ++ [header]) = addWork (c.chainWork headers) header := by
  simp [chainWork, foldl_append]

/-- The work was enough after one of the headers. -/
def Reached : Prop :=
  ∃ k < headers.length, c.minimum_required_work ≤ c.chainWork (headers.take (k + 1))

lemma not_reached_nil : ¬ c.Reached [] := fun ⟨_, hk, _⟩ => not_lt_zero _ hk

variable {c}

variable {headers : List (CBlockHeader Hash)} {header : CBlockHeader Hash}

lemma reached_append : c.Reached (headers ++ [header]) ↔
      c.Reached headers ∨ c.minimum_required_work ≤ c.chainWork (headers ++ [header]) := by
  constructor
  · rintro ⟨k, hk, hwork⟩
    rw [length_append, length_singleton] at hk
    rcases lt_or_ge k headers.length with hlt | hge
    · rw [take_append_of_le_length hlt] at hwork
      exact .inl ⟨k, hlt, hwork⟩
    · rw [take_of_length_le (by simp; omega)] at hwork
      exact .inr hwork
  · rintro (⟨k, hk, hwork⟩ | hwork)
    · refine ⟨k, by simp; omega, ?_⟩
      rwa [take_append_of_le_length hk]
    · refine ⟨headers.length, by simp, ?_⟩
      rwa [take_of_length_le (by simp)]

variable {more : List (CBlockHeader Hash)}

lemma Reached.mono (h : c.Reached headers) (hinitial : headers <+: more) : c.Reached more := by
  obtain ⟨k, hk, hwork⟩ := h
  obtain ⟨tail, rfl⟩ := hinitial
  refine ⟨k, by simp; omega, ?_⟩
  rwa [take_append_of_le_length hk]

variable {prev : CBlockHeader Hash} {height : ℤ}

lemma linked_append : c.Linked prev height (headers ++ [header]) ↔ c.Linked prev height headers ∧
      header.hashPrevBlock = c.blockHash (lastOf prev headers) ∧
      c.permitted (height + headers.length + 1) (lastOf prev headers).nBits
        header.nBits = true := by
  induction headers generalizing prev height with
  | nil => simp [Linked]
  | cons h headers ih =>
    rw [cons_append, Linked, Linked, ih, lastOf_cons, length_cons]
    rw [show height + 1 + (headers.length : ℤ) + 1 = height + ((headers.length + 1 : ℕ) : ℤ) + 1 by
      push_cast; ring]
    tauto

lemma Linked.initial (h : c.Linked prev height more)
    (hinitial : headers <+: more) : c.Linked prev height headers := by
  obtain ⟨tail, rfl⟩ := hinitial
  induction headers generalizing prev height with
  | nil => trivial
  | cons header headers ih =>
    obtain ⟨hlink, hpermitted, hrest⟩ := h
    exact ⟨hlink, hpermitted, ih hrest⟩

lemma Linked.drop {front back : List (CBlockHeader Hash)}
    (h : c.Linked prev height (front ++ back)) :
    c.Linked (lastOf prev front) (height + front.length) back := by
  induction front generalizing prev height with
  | nil => simpa using h
  | cons header front ih =>
    obtain ⟨-, -, hrest⟩ := h
    rw [lastOf_cons, length_cons, cast_succ, add_comm (front.length : ℤ), ← add_assoc]
    exact ih hrest

/-! ## Commitments -/

variable (c)

/-- The bits of the headers at commitment heights, for headers after height `height`.  The two
phases pass their heights through different types, `narrow`. -/
def commitBits (narrow : ℤ → ℤ) : (height : ℤ) → List (CBlockHeader Hash) → List Bool
  | _, [] => []
  | height, header :: headers =>
    if c.isCommitmentHeight (narrow (height + 1)) then
      c.hasher (c.blockHash header) :: commitBits narrow (height + 1) headers
    else commitBits narrow (height + 1) headers

variable {c}

lemma commitBits_append (narrow : ℤ → ℤ) (height : ℤ) (headers : List (CBlockHeader Hash))
    (header : CBlockHeader Hash) :
    c.commitBits narrow height (headers ++ [header]) = c.commitBits narrow height headers ++
      if c.isCommitmentHeight (narrow (height + headers.length + 1)) then
        [c.hasher (c.blockHash header)]
      else [] := by
  induction headers generalizing height with
  | nil => simp [commitBits]
  | cons h headers ih =>
    have hheight : height + 1 + (headers.length : ℤ) + 1 =
        height + ((headers.length + 1 : ℕ) : ℤ) + 1 := by
      push_cast
      ring
    rw [cons_append, commitBits, commitBits, ih, length_cons, hheight]
    split
    · rw [cons_append]
    · rfl

lemma narrowInt_of_lt {x : ℤ} (hlow : 0 ≤ x) (hhigh : x < 2 ^ 31) : narrowInt x = x := by
  exact Int.bmod_eq_of_le (by omega) (by omega)

lemma narrowInt_succ (x : ℤ) : narrowInt (narrowInt x + 1) = narrowInt (x + 1) :=
  Int.bmod_add_bmod

/-- As long as the heights fit an `int`, both phases have the same commitment heights. -/
lemma commitBits_narrowInt (hlow : 0 ≤ height) (hhigh : height + headers.length < 2 ^ 31) :
    c.commitBits narrowInt height headers = c.commitBits id height headers := by
  induction headers generalizing height with
  | nil => rfl
  | cons header headers ih =>
    rw [length_cons, cast_succ] at hhigh
    rw [commitBits, commitBits, narrowInt_of_lt (by omega) (by omega), id,
      ih (by omega) (by omega)]

variable {P : List (CBlockHeader Hash)}

lemma commitBits_drop_of_commitment {j : ℕ}
    (hcommit : c.isCommitmentHeight (height + j + 1) = true) :
    c.commitBits id (height + j) (P.drop j) =
      (P[j]?.map fun header => c.hasher (c.blockHash header)).toList ++
        c.commitBits id (height + (j + 1 : ℕ)) (P.drop (j + 1)) := by
  rw [cast_succ, ← add_assoc]
  rcases lt_or_ge j P.length with hlt | hge
  · rw [drop_eq_getElem_cons hlt, commitBits, id, if_pos hcommit,
      List.getElem?_eq_getElem hlt]
    rfl
  · rw [drop_eq_nil_of_le hge, drop_eq_nil_of_le (by omega),
      List.getElem?_eq_none hge]
    rfl

lemma commitBits_drop_of_not_commitment {j : ℕ}
    (hcommit : ¬ c.isCommitmentHeight (height + j + 1) = true) :
    c.commitBits id (height + j) (P.drop j) =
      c.commitBits id (height + (j + 1 : ℕ)) (P.drop (j + 1)) := by
  rw [cast_succ, ← add_assoc]
  rcases lt_or_ge j P.length with hlt | hge
  · rw [drop_eq_getElem_cons hlt, commitBits, id, if_neg hcommit]
  · rw [drop_eq_nil_of_le hge, drop_eq_nil_of_le (by omega)]
    rfl

/-! ## The first phase -/

variable (c) in
/-- The state in `PRESYNC`, once the headers `P` were accepted. -/
structure Presyncing (P : List (CBlockHeader Hash)) (s : HeadersSyncState Hash) : Prop where
  state : s.m_download_state = .PRESYNC
  work : s.m_current_chain_work = c.chainWork P
  last : s.m_last_header_received = lastOf c.chain_start P
  height : s.m_current_height = narrowInt (c.nHeight + P.length)
  commitments : s.m_header_commitments = c.commitBits narrowInt c.nHeight P
  commitments_le : s.m_header_commitments.length ≤ c.max_commitments
  buffer : s.m_redownloaded_headers = []
  process_all : s.m_process_all_remaining_headers = false

variable {s : HeadersSyncState Hash}

/-- What happens to the state when a header of the first phase is accepted: the commitment, if any,
and then `advance`. -/
lemma Presyncing.advance (h : c.Presyncing P s) (header : CBlockHeader Hash)
    (hle : (c.commitBits narrowInt c.nHeight (P ++ [header])).length ≤ c.max_commitments) :
    c.Presyncing (P ++ [header])
      (advance { s with m_header_commitments := c.commitBits narrowInt c.nHeight (P ++ [header]) }
        header (narrowInt (c.nHeight + P.length + 1))) := by
  refine ⟨h.state, ?_, (lastOf_append _ _ _).symm, ?_, rfl, hle, h.buffer, h.process_all⟩
  · rw [chainWork_append, ← h.work]
    rfl
  · rw [length_append, length_singleton, cast_succ, ← add_assoc]
    rfl

section

variable (h : c.Presyncing P s)

include h

lemma Presyncing.single (header : CBlockHeader Hash) :
    c.validateAndProcessSingleHeader s header =
      let height := narrowInt (c.nHeight + P.length + 1)
      let bits := c.commitBits narrowInt c.nHeight (P ++ [header])
      let s' := { s with m_header_commitments := bits }
      if c.permitted height (lastOf c.chain_start P).nBits header.nBits = false then (false, s)
      else if bits.length > c.max_commitments then (false, s')
      else (true, HeadersSyncConfig.advance s' header height) := by
  have hnarrow : narrowInt (s.m_current_height + 1) = narrowInt (c.nHeight + P.length + 1) := by
    rw [h.height, narrowInt_succ]
  have hbits := commitBits_append (c := c) narrowInt c.nHeight P header
  unfold validateAndProcessSingleHeader
  simp only [hnarrow, h.last]
  split
  · rfl
  · split
    next hcommit =>
      rw [if_pos hcommit, ← h.commitments] at hbits
      rw [hbits]
    next hcommit =>
      -- Without a commitment the list is the old one, which is short enough.
      rw [if_neg hcommit, append_nil, ← h.commitments] at hbits
      rw [hbits, if_neg (not_lt.2 h.commitments_le), ← h.last]

lemma Presyncing.step {s' : HeadersSyncState Hash}
    (hok : c.validateAndProcessSingleHeader s header = (true, s')) :
    c.Presyncing (P ++ [header]) s' := by
  rw [h.single] at hok
  dsimp only at hok
  split at hok
  · cases hok
  · split at hok
    · cases hok
    next hle =>
      cases hok
      exact h.advance header (not_lt.1 hle)

/-- A header of the first phase that is permitted and for whose commitment there is room. -/
lemma Presyncing.accepts
    (hpermitted : c.permitted (narrowInt (c.nHeight + P.length + 1)) (lastOf c.chain_start P).nBits
      header.nBits = true)
    (hroom : (c.commitBits narrowInt c.nHeight (P ++ [header])).length ≤ c.max_commitments) :
    ∃ s', c.validateAndProcessSingleHeader s header = (true, s') := by
  rw [h.single]
  rw [if_neg (by simp [hpermitted]), if_neg (not_lt.2 hroom)]
  exact ⟨_, rfl⟩

/-- Whether it is accepted or not, a header of the first phase adds at most one commitment and
leaves the buffer empty. -/
lemma Presyncing.sizes (header : CBlockHeader Hash) :
    (c.validateAndProcessSingleHeader s header).2.m_header_commitments.length ≤
        c.max_commitments + 1 ∧
      (c.validateAndProcessSingleHeader s header).2.m_redownloaded_headers = [] := by
  have hbits : (c.commitBits narrowInt c.nHeight (P ++ [header])).length ≤
      c.max_commitments + 1 := by
    have hle := h.commitments_le
    rw [h.commitments] at hle
    rw [commitBits_append, length_append]
    have : (if c.isCommitmentHeight (narrowInt (c.nHeight + P.length + 1)) then
      [c.hasher (c.blockHash header)] else []).length ≤ 1 := by
      split <;> simp
    omega
  rw [h.single]
  dsimp only
  split
  · exact ⟨le_succ_of_le h.commitments_le, h.buffer⟩
  · split
    · exact ⟨hbits, h.buffer⟩
    · exact ⟨hbits, h.buffer⟩

end

/-! ## The second phase -/

variable (c) in
/-- The headers of the second phase before the threshold have, at the commitment heights, the bits
of the headers of the first phase. -/
def Matched (P R : List (CBlockHeader Hash)) : Prop :=
  ∀ (j : ℕ) (header : CBlockHeader Hash), R[j]? = some header →
    c.isCommitmentHeight (c.nHeight + j + 1) = true → ¬ c.Reached (R.take (j + 1)) →
    ∃ committed, P[j]? = some committed ∧
      c.hasher (c.blockHash committed) = c.hasher (c.blockHash header)

variable (c) in
/-- The state in `REDOWNLOAD`, once the headers `P` were accepted in the first phase, `R` in the
second, and `n` of these were returned.  The commitments that are left belong to the headers of `P`
after the first `R.length`. -/
structure Redownloading (P R : List (CBlockHeader Hash)) (n : ℕ) (s : HeadersSyncState Hash) :
    Prop where
  state : s.m_download_state = .REDOWNLOAD
  linked : c.Linked c.chain_start c.nHeight R
  last_height : s.m_redownload_buffer_last_height = c.nHeight + R.length
  last_hash : s.m_redownload_buffer_last_hash = c.blockHash (lastOf c.chain_start R)
  work : s.m_redownload_chain_work = c.chainWork R
  process_all : s.m_process_all_remaining_headers = true ↔ c.Reached R
  buffer : s.m_redownloaded_headers = (R.drop n).map .ofHeader
  first_prev_hash :
    s.m_redownload_buffer_first_prev_hash = c.blockHash (lastOf c.chain_start (R.take n))
  returned_lt : n < R.length ∨ R = [] ∧ n = 0
  commitments_le : s.m_header_commitments.length ≤ c.max_commitments
  commitments : c.nHeight + P.length < 2 ^ 31 → ¬ c.Reached R →
    s.m_header_commitments = c.commitBits id (c.nHeight + R.length) (P.drop R.length)
  matched : c.nHeight + P.length < 2 ^ 31 → c.Matched P R

lemma Presyncing.startRedownload (h : c.Presyncing P s) :
    c.Redownloading P [] 0 (c.startRedownload s) where
  state := rfl
  linked := trivial
  last_height := (add_zero _).symm
  last_hash := rfl
  work := rfl
  process_all := by
    constructor
    · intro hall
      exact absurd (h.process_all.symm.trans hall) nofun
    · intro hreached
      exact absurd hreached c.not_reached_nil
  buffer := rfl
  first_prev_hash := rfl
  returned_lt := .inr ⟨rfl, rfl⟩
  commitments_le := h.commitments_le
  commitments := by
    intro hsmall _
    change s.m_header_commitments = _
    rw [h.commitments, commitBits_narrowInt c.nHeight_nonneg hsmall]
    simp
  matched := by
    intro _ j header hj
    simp at hj

namespace Redownloading

variable {P R : List (CBlockHeader Hash)} {n : ℕ} {s : HeadersSyncState Hash}

variable (h : c.Redownloading P R n s)

include h

lemma returned_le : n ≤ R.length := by
  rcases h.returned_lt with hlt | ⟨-, rfl⟩
  · exact hlt.le
  · exact zero_le _

lemma previousBits_eq : c.previousBits s = (lastOf c.chain_start R).nBits := by
  unfold previousBits lastOf
  rw [h.buffer, List.getLast?_map]
  rcases h.returned_lt with hlt | ⟨rfl, -⟩
  · rw [List.getLast?_drop, if_neg (by omega)]
    cases R.getLast? with
    | none => rfl
    | some header => rfl
  · simp

lemma reached_trackWork (header : CBlockHeader Hash) :
    (c.trackWork s header).m_process_all_remaining_headers = true ↔ c.Reached (R ++ [header]) := by
  rw [reached_append, ← h.process_all, chainWork_append, ← h.work]
  simp [trackWork]

variable {header : CBlockHeader Hash} {s' : HeadersSyncState Hash}

lemma linked_of_ok [DecidableEq Hash]
    (hok : c.validateAndStoreRedownloadedHeader s header = (true, s')) :
    c.Linked c.chain_start c.nHeight (R ++ [header]) ∧
      c.checkCommitment (c.trackWork s header) header (c.nHeight + R.length + 1) = (true, s') := by
  unfold validateAndStoreRedownloadedHeader at hok
  simp only [h.last_height, h.last_hash, h.previousBits_eq] at hok
  split at hok
  · cases hok
  next hlink =>
    split at hok
    · cases hok
    next hpermitted =>
      exact ⟨linked_append.2 ⟨h.linked, not_not.1 hlink, by simpa using hpermitted⟩, hok⟩

lemma store {rest : List Bool} (hlinked : c.Linked c.chain_start c.nHeight (R ++ [header]))
    (hrest_le : rest.length ≤ c.max_commitments)
    (hrest : c.nHeight + P.length < 2 ^ 31 → ¬ c.Reached (R ++ [header]) →
      rest = c.commitBits id (c.nHeight + (R.length + 1 : ℕ)) (P.drop (R.length + 1)))
    (hmatched : c.nHeight + P.length < 2 ^ 31 → c.Matched P (R ++ [header])) :
    c.Redownloading P (R ++ [header]) n
      (c.store { c.trackWork s header with m_header_commitments := rest } header
        (c.nHeight + R.length + 1)) where
  state := h.state
  linked := hlinked
  last_height := by
    rw [length_append, length_singleton, cast_succ, ← add_assoc]
    rfl
  last_hash := by
    rw [lastOf_append]
    rfl
  work := by
    rw [chainWork_append, ← h.work]
    rfl
  process_all := h.reached_trackWork header
  buffer := by
    change s.m_redownloaded_headers ++ [_] = _
    rw [h.buffer, drop_append_of_le_length h.returned_le, map_append,
      map_singleton]
  first_prev_hash := by
    change s.m_redownload_buffer_first_prev_hash = _
    rw [h.first_prev_hash, take_append_of_le_length h.returned_le]
  returned_lt := by
    left
    rw [length_append, length_singleton]
    exact lt_succ_of_le h.returned_le
  commitments_le := hrest_le
  commitments := by
    rw [length_append, length_singleton]
    exact hrest
  matched := hmatched

lemma matched_append (hsmall : c.nHeight + P.length < 2 ^ 31)
    (hnew : c.isCommitmentHeight (c.nHeight + R.length + 1) = true →
      ¬ c.Reached (R ++ [header]) → ∃ committed, P[R.length]? = some committed ∧
        c.hasher (c.blockHash committed) = c.hasher (c.blockHash header)) :
    c.Matched P (R ++ [header]) := by
  intro j x hj hcommit hreached
  rcases lt_trichotomy j R.length with hlt | rfl | hgt
  · rw [List.getElem?_append_left hlt] at hj
    rw [take_append_of_le_length hlt] at hreached
    exact h.matched hsmall j x hj hcommit hreached
  · rw [List.getElem?_concat_length] at hj
    cases hj
    rw [take_of_length_le (by simp)] at hreached
    exact hnew hcommit hreached
  · rw [List.getElem?_eq_none (by simp; omega)] at hj
    cases hj

lemma step [DecidableEq Hash] (hok : c.validateAndStoreRedownloadedHeader s header = (true, s')) :
    c.Redownloading P (R ++ [header]) n s' := by
  obtain ⟨hlinked, hok⟩ := h.linked_of_ok hok
  have hflag := h.reached_trackWork header
  have hold : ¬ c.Reached (R ++ [header]) → ¬ c.Reached R :=
    fun hnew hreached => hnew (reached_append.2 (.inl hreached))
  unfold checkCommitment at hok
  split at hok
  next hcheck =>
    obtain ⟨-, hcommit⟩ := hcheck
    split at hok
    · cases hok
    next expected rest hqueue =>
      split at hok
      · cases hok
      next hbit =>
        rw [not_not] at hbit
        cases hok
        -- The head of the queue is the bit of the header of the first phase at this height.
        have hhead : c.nHeight + P.length < 2 ^ 31 → ¬ c.Reached (R ++ [header]) →
            ∃ committed, P[R.length]? = some committed ∧
              c.hasher (c.blockHash committed) = expected ∧
              rest = c.commitBits id (c.nHeight + (R.length + 1 : ℕ)) (P.drop (R.length + 1)) := by
          intro hsmall hreached
          have hleft := h.commitments hsmall (hold hreached)
          rw [commitBits_drop_of_commitment hcommit] at hleft
          change s.m_header_commitments = _ at hqueue
          rw [hqueue] at hleft
          cases hget : P[R.length]? with
          | none =>
            have hend : P.length ≤ R.length := List.getElem?_eq_none_iff.1 hget
            rw [hget, drop_eq_nil_of_le (by omega)] at hleft
            cases hleft
          | some committed =>
            rw [hget] at hleft
            obtain ⟨hexpected, hrest⟩ := List.cons.inj hleft
            exact ⟨committed, rfl, hexpected.symm, hrest⟩
        have hlen : rest.length ≤ c.max_commitments := by
          have hle := h.commitments_le
          change s.m_header_commitments = _ at hqueue
          rw [hqueue, length_cons] at hle
          omega
        refine h.store hlinked hlen ?_ ?_
        · intro hsmall hreached
          obtain ⟨-, -, -, hrest⟩ := hhead hsmall hreached
          exact hrest
        · intro hsmall
          refine h.matched_append hsmall fun _ hreached => ?_
          obtain ⟨committed, hget, hexpected, -⟩ := hhead hsmall hreached
          exact ⟨committed, hget, hexpected.trans hbit.symm⟩
  next hcheck =>
    cases hok
    have hnot : ¬ c.Reached (R ++ [header]) →
        ¬ c.isCommitmentHeight (c.nHeight + R.length + 1) = true := by
      intro hreached hcommit
      exact hcheck ⟨Bool.eq_false_iff.2 (mt hflag.1 hreached), hcommit⟩
    refine h.store hlinked h.commitments_le ?_ ?_
    · intro hsmall hreached
      rw [← commitBits_drop_of_not_commitment (hnot hreached)]
      exact h.commitments hsmall (hold hreached)
    · intro hsmall
      exact h.matched_append hsmall fun hcommit hreached => absurd hcommit (hnot hreached)

/-- A header of the second phase that links, is permitted, and has the bit of the header of the
first phase at its height. -/
lemma accepts [DecidableEq Hash] (hsmall : c.nHeight + P.length < 2 ^ 31)
    (hlinked : c.Linked c.chain_start c.nHeight (R ++ [header]))
    (hbit : ¬ c.Reached (R ++ [header]) → ∃ committed, P[R.length]? = some committed ∧
      c.hasher (c.blockHash committed) = c.hasher (c.blockHash header)) :
    ∃ s', c.validateAndStoreRedownloadedHeader s header = (true, s') := by
  obtain ⟨-, hlink, hpermitted⟩ := linked_append.1 hlinked
  unfold validateAndStoreRedownloadedHeader
  simp only [h.last_height, h.last_hash, h.previousBits_eq]
  rw [if_neg (not_not.2 hlink), if_neg (by simp [hpermitted])]
  unfold checkCommitment
  split
  next hcheck =>
    obtain ⟨hflag, hcommit⟩ := hcheck
    have hreached : ¬ c.Reached (R ++ [header]) :=
      mt (h.reached_trackWork header).2 (Bool.eq_false_iff.1 hflag)
    obtain ⟨committed, hget, hequal⟩ := hbit hreached
    have hold : ¬ c.Reached R := fun hR => hreached (reached_append.2 (.inl hR))
    have hqueue := h.commitments hsmall hold
    rw [commitBits_drop_of_commitment hcommit, hget] at hqueue
    change (c.trackWork s header).m_header_commitments = _ at hqueue
    rw [hqueue]
    simp only [Option.map_some, Option.toList_some, singleton_append]
    rw [if_neg (not_not.2 hequal.symm)]
    exact ⟨_, rfl⟩
  next => exact ⟨_, rfl⟩

omit h in
lemma checkCommitment_sizes (s : HeadersSyncState Hash) (header : CBlockHeader Hash)
    (next_height : ℤ) :
    (c.checkCommitment s header next_height).2.m_header_commitments.length ≤
        s.m_header_commitments.length ∧
      (c.checkCommitment s header next_height).2.m_redownloaded_headers.length ≤
        s.m_redownloaded_headers.length + 1 := by
  unfold checkCommitment
  split
  · split
    · exact ⟨le_rfl, le_succ _⟩
    next expected rest hqueue =>
      have hrest : rest.length ≤ s.m_header_commitments.length := by
        rw [hqueue]
        exact le_succ _
      split
      · exact ⟨hrest, le_succ _⟩
      · exact ⟨hrest, by simp [HeadersSyncConfig.store]⟩
  · exact ⟨le_rfl, by simp [HeadersSyncConfig.store]⟩

omit h in
/-- Whether it is accepted or not, a header of the second phase adds no commitment and at most one
header to the buffer. -/
lemma sizes [DecidableEq Hash] (s : HeadersSyncState Hash) (header : CBlockHeader Hash) :
    (c.validateAndStoreRedownloadedHeader s header).2.m_header_commitments.length ≤
        s.m_header_commitments.length ∧
      (c.validateAndStoreRedownloadedHeader s header).2.m_redownloaded_headers.length ≤
        s.m_redownloaded_headers.length + 1 := by
  have hcheck := checkCommitment_sizes (c := c) (c.trackWork s header) header
    (s.m_redownload_buffer_last_height + 1)
  unfold validateAndStoreRedownloadedHeader
  dsimp only
  split
  · exact ⟨le_rfl, le_succ _⟩
  · split
    · exact ⟨le_rfl, le_succ _⟩
    · exact hcheck

end Redownloading

/-! ## What is returned -/

lemma getFullHeader_ofHeader (header : CBlockHeader Hash) :
    (CompressedHeader.ofHeader header).getFullHeader header.hashPrevBlock = header := rfl

variable (c) in
/-- How many headers of a buffer of `len` headers are returned. -/
def releaseCount (process_all : Bool) (len : ℕ) : ℕ :=
  if process_all then len else len - c.redownload_buffer_size

/-- The loop returns the first headers of the buffer as they were received: the hash of the parent
that a compressed header lacks is the hash of the header returned before. -/
lemma popLoop_eq (process_all : Bool) (h : c.Linked prev height headers) :
    c.popLoop process_all (headers.map .ofHeader) (c.blockHash prev) =
      let m := c.releaseCount process_all headers.length
      (headers.take m, (headers.drop m).map .ofHeader,
        c.blockHash (lastOf prev (headers.take m))) := by
  induction headers generalizing prev height with
  | nil => simp [popLoop]
  | cons header headers ih =>
    obtain ⟨hlink, -, hrest⟩ := h
    rw [map_cons, popLoop]
    split
    next hpop =>
      have hm : c.releaseCount process_all (header :: headers).length =
          c.releaseCount process_all headers.length + 1 := by
        unfold releaseCount
        rw [length_map] at hpop
        rw [length_cons]
        split
        next => rfl
        next hall =>
          have hlong := hpop.resolve_right hall
          omega
      rw [← hlink, getFullHeader_ofHeader]
      dsimp only
      rw [ih hrest, hm]
      simp [lastOf_cons]
    next hpop =>
      rw [length_map, not_or, not_lt] at hpop
      have hm : c.releaseCount process_all (header :: headers).length = 0 := by
        unfold releaseCount
        rw [if_neg hpop.2, length_cons]
        omega
      rw [hm]
      rfl

namespace Redownloading

variable {P R : List (CBlockHeader Hash)} {n : ℕ} {s : HeadersSyncState Hash}

/-- What a message of the second phase returns: the headers of the chain after the first `n`, as
many as the buffer releases. -/
lemma pop (h : c.Redownloading P R n s) :
    c.popHeadersReadyForAcceptance s =
      let m := c.releaseCount s.m_process_all_remaining_headers (R.length - n)
      ((R.drop n).take m, { s with
        m_redownloaded_headers := (R.drop (n + m)).map .ofHeader
        m_redownload_buffer_first_prev_hash :=
          c.blockHash (lastOf c.chain_start (R.take (n + m))) }) := by
  have hlinked : c.Linked (lastOf c.chain_start (R.take n)) (c.nHeight + (R.take n).length)
      (R.drop n) := by
    refine Linked.drop ?_
    rw [take_append_drop]
    exact h.linked
  unfold popHeadersReadyForAcceptance
  rw [h.buffer, h.first_prev_hash, popLoop_eq _ hlinked]
  simp only [length_drop, drop_drop]
  rw [take_add, lastOf_append_list]

end Redownloading

end SlithyTove.HeadersSyncConfig
