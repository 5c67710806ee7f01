import SlithyTove.Sync.HeadersSyncInvariant

/-!
# What an untrusted peer can achieve with headers sync

A `SyncTrace` is a `HeadersSyncState` with the headers that it has accepted in either phase and the
headers that it has returned.  Whatever the messages are, the headers returned are the beginning of
the chain that was redownloaded, each returned only behind a full buffer or with enough work
(`headersSync_safe`), and the memory stays bounded, also while a message is processed.
-/

namespace SlithyTove.HeadersSyncConfig

open List

variable {Hash : Type} {c : HeadersSyncConfig Hash}

/-! ## Loops over the headers of a message -/

section Loop

variable {step : HeadersSyncState Hash → CBlockHeader Hash → Bool × HeadersSyncState Hash}
  {I : List (CBlockHeader Hash) → HeadersSyncState Hash → Prop}

/-- What one accepted header preserves, a loop that accepts every header preserves. -/
lemma loopHeaders_invariant
    (hstep : ∀ A s header s', I A s → step s header = (true, s') → I (A ++ [header]) s') :
    ∀ {headers A : List (CBlockHeader Hash)} {s s' : HeadersSyncState Hash},
      I A s → loopHeaders step headers s = (true, s') → I (A ++ headers) s'
  | [], A, s, s', hI, hok => by
    cases hok
    rwa [append_nil]
  | header :: headers, A, s, s', hI, hok => by
    rw [loopHeaders] at hok
    split at hok
    next s₁ hone =>
      have hrest := loopHeaders_invariant hstep (hstep A s header s₁ hI hone) hok
      rwa [append_assoc, singleton_append] at hrest
    next => cases hok

/-- The states a loop passes through, the last one included. -/
def loopStates (step : HeadersSyncState Hash → CBlockHeader Hash → Bool × HeadersSyncState Hash) :
    List (CBlockHeader Hash) → HeadersSyncState Hash → List (HeadersSyncState Hash)
  | [], s => [s]
  | header :: headers, s =>
    s :: match step s header with
      | (true, s) => loopStates step headers s
      | (false, s) => [s]

/-- Every state of a loop is its first one, or follows a header in a state that satisfies the
invariant. -/
lemma mem_loopStates
    (hstep : ∀ A s header s', I A s → step s header = (true, s') → I (A ++ [header]) s') :
    ∀ {headers A : List (CBlockHeader Hash)} {s s' : HeadersSyncState Hash},
      I A s → s' ∈ loopStates step headers s →
      s' = s ∨ ∃ front header s₁, I (A ++ front) s₁ ∧ s' = (step s₁ header).2 ∧
        front.length + 1 ≤ headers.length
  | [], A, s, s', hI, hmem => .inl (mem_singleton.1 hmem)
  | header :: headers, A, s, s', hI, hmem => by
    rw [loopStates, mem_cons] at hmem
    rcases hmem with rfl | hmem
    · exact .inl rfl
    right
    split at hmem
    next s₁ hone =>
      have hfirst : s' = s₁ → _ := fun heq =>
        (⟨[], header, s, by rwa [append_nil], by rw [hone]; exact heq, by simp⟩ :
          ∃ front header' s₂, I (A ++ front) s₂ ∧ s' = (step s₂ header').2 ∧
            front.length + 1 ≤ (header :: headers).length)
      rcases mem_loopStates hstep (hstep A s header s₁ hI hone) hmem with heq | hlater
      · exact hfirst heq
      · obtain ⟨front, header', s₂, hI₂, heq, hlen⟩ := hlater
        refine ⟨header :: front, header', s₂, ?_, heq, by simpa using hlen⟩
        rwa [append_assoc, singleton_append] at hI₂
    next s₁ hone =>
      refine ⟨[], header, s, by rwa [append_nil], ?_, by simp⟩
      rw [hone]
      exact mem_singleton.1 hmem

end Loop

/-! ## One message -/

/-- The end of `ValidateAndStoreHeadersCommitments`: what a message of the first phase leads to. -/
lemma Presyncing.message [DecidableEq Hash] {P headers : List (CBlockHeader Hash)}
    {s s' : HeadersSyncState Hash} (h : c.Presyncing P s)
    (hok : c.validateAndStoreHeadersCommitments s headers = (true, s')) :
    c.Presyncing (P ++ headers) s' ∨ c.Redownloading (P ++ headers) [] 0 s' := by
  unfold validateAndStoreHeadersCommitments at hok
  split at hok
  · cases hok
    left
    rwa [append_nil]
  · split at hok
    · cases hok
    · split at hok
      · cases hok
      next s₁ hloop =>
        have hall := loopHeaders_invariant (I := c.Presyncing) (fun _ _ _ _ h => h.step) h
          hloop
        cases hok
        split
        · exact .inr hall.startRedownload
        · exact .inl hall

/-- The headers that have been returned once the chain is `R`, if `n` of them were before. -/
def released (c : HeadersSyncConfig Hash) (R : List (CBlockHeader Hash)) (n : ℕ)
    (process_all : Bool) : ℕ :=
  n + c.releaseCount process_all (R.length - n)

lemma released_false (R : List (CBlockHeader Hash)) (n : ℕ) :
    c.released R n false = n + (R.length - n - c.redownload_buffer_size) := rfl

lemma released_true {R : List (CBlockHeader Hash)} {n : ℕ} (hle : n ≤ R.length) :
    c.released R n true = R.length := by
  change n + (R.length - n) = R.length
  omega

/-- After the headers of a message of the second phase, before the threshold: a header is left in
the buffer, and not more than fit. -/
lemma Redownloading.afterPop {P R : List (CBlockHeader Hash)} {n : ℕ} {s : HeadersSyncState Hash}
    (h : c.Redownloading P R n s) (hne : R ≠ [])
    (hall : s.m_process_all_remaining_headers = false) :
    c.Redownloading P R (c.released R n false) (c.popHeadersReadyForAcceptance s).2 := by
  have hlt : c.released R n false < R.length := by
    have hn : n < R.length := h.returned_lt.resolve_right fun hnil => hne hnil.1
    have hsize := c.redownload_buffer_size_pos
    rw [released_false]
    omega
  rw [h.pop, ← hall]
  exact { h with
    buffer := rfl
    first_prev_hash := rfl
    returned_lt := .inl (hall ▸ hlt) }

/-! ## Runs -/

variable (c)

/-- A `HeadersSyncState` with what it has accepted and returned. -/
structure SyncTrace (Hash : Type) where
  state : HeadersSyncState Hash
  /-- The headers accepted in `PRESYNC`. -/
  presynced : List (CBlockHeader Hash)
  /-- The headers accepted in `REDOWNLOAD`. -/
  redownloaded : List (CBlockHeader Hash)
  /-- All `pow_validated_headers` so far. -/
  returned : List (CBlockHeader Hash)

section Run

variable [DecidableEq Hash] [Zero Hash]

/-- A call of `ProcessNextHeaders`. -/
def receive (t : SyncTrace Hash) (message : List (CBlockHeader Hash) × Bool) : SyncTrace Hash :=
  let result := c.processNextHeaders t.state message.1 message.2
  { state := result.2
    presynced :=
      if result.1.success ∧ t.state.m_download_state = .PRESYNC then t.presynced ++ message.1
      else t.presynced
    redownloaded :=
      if result.1.success ∧ t.state.m_download_state = .REDOWNLOAD then t.redownloaded ++ message.1
      else t.redownloaded
    returned := t.returned ++ result.1.pow_validated_headers }

/-- A new `HeadersSyncState` after a sequence of messages. -/
def run (messages : List (List (CBlockHeader Hash) × Bool)) : SyncTrace Hash :=
  messages.foldl c.receive ⟨c.start, [], [], []⟩

end Run

/-- What the headers that were returned have to satisfy. -/
structure SyncTrace.Safe (t : SyncTrace Hash) : Prop where
  linked : c.Linked c.chain_start c.nHeight t.redownloaded
  returned : t.returned <+: t.redownloaded
  released : ∀ k < t.returned.length, c.Reached t.redownloaded ∨
    k + c.redownload_buffer_size < t.redownloaded.length
  matched : c.nHeight + t.presynced.length < 2 ^ 31 → c.Matched t.presynced t.redownloaded

/-- The invariant of a run: the phase it is in determines the state. -/
structure SyncTrace.Invariant (t : SyncTrace Hash) : Prop extends SyncTrace.Safe c t where
  presync : t.state.m_download_state = .PRESYNC →
    c.Presyncing t.presynced t.state ∧ t.redownloaded = [] ∧ t.returned = []
  redownload : t.state.m_download_state = .REDOWNLOAD →
    c.Redownloading t.presynced t.redownloaded t.returned.length t.state ∧
      ¬ c.Reached t.redownloaded ∧
      t.redownloaded.length ≤ t.returned.length + c.redownload_buffer_size
  final : t.state.m_download_state = .FINAL →
    t.state.m_header_commitments = [] ∧ t.state.m_redownloaded_headers = []

variable {c}

section Run

variable [DecidableEq Hash] [Zero Hash]

variable {t : SyncTrace Hash}

omit [DecidableEq Hash] in
lemma SyncTrace.Safe.finalize (h : SyncTrace.Safe c t) (s : HeadersSyncState Hash) :
    SyncTrace.Invariant c { t with state := HeadersSyncConfig.finalize s } where
  toSafe := ⟨h.linked, h.returned, h.released, h.matched⟩
  presync := nofun
  redownload := nofun
  final := fun _ => ⟨rfl, rfl⟩

/-! ### The calls of `ProcessNextHeaders` -/

variable {s : HeadersSyncState Hash} {headers : List (CBlockHeader Hash)}

lemma processNextHeaders_ignored {full : Bool} (h : headers = [] ∨ s.m_download_state = .FINAL) :
    c.processNextHeaders s headers full = ({}, s) := by
  unfold processNextHeaders
  rw [if_pos]
  simpa using h

variable {s' : HeadersSyncState Hash}

lemma processNextHeaders_of_process {full : Bool} {r : ProcessingResult Hash} (hne : headers ≠ [])
    (hstate : s.m_download_state ≠ .FINAL) (h : c.processHeaders s headers full = (r, s')) :
    c.processNextHeaders s headers full =
      (r, if r.success ∧ r.request_more then s' else finalize s') := by
  unfold processNextHeaders
  rw [if_neg (by simp [hne, hstate]), h]

variable (full : Bool)

lemma processNextHeaders_presync {ok : Bool} (hne : headers ≠ [])
    (hstate : s.m_download_state = .PRESYNC)
    (h : c.validateAndStoreHeadersCommitments s headers = (ok, s')) :
    c.processNextHeaders s headers full =
      if ok then
        ({ success := true, request_more := full || s'.m_download_state = .REDOWNLOAD },
          if (full || s'.m_download_state = .REDOWNLOAD : Bool) then s' else finalize s')
      else ({}, finalize s') := by
  have hprocess : c.processHeaders s headers full =
      (if ok then { success := true, request_more := full || s'.m_download_state = .REDOWNLOAD }
        else {}, s') := by
    unfold processHeaders
    rw [hstate, h]
    cases ok <;> rfl
  rw [processNextHeaders_of_process hne (by simp [hstate]) hprocess]
  cases ok <;> simp

lemma processNextHeaders_redownload {ok : Bool} (hne : headers ≠ [])
    (hstate : s.m_download_state = .REDOWNLOAD)
    (h : loopHeaders c.validateAndStoreRedownloadedHeader headers s = (ok, s')) :
    c.processNextHeaders s headers full =
      if ok then
        let popped := c.popHeadersReadyForAcceptance s'
        let more : Bool :=
          if popped.2.m_redownloaded_headers.isEmpty ∧ popped.2.m_process_all_remaining_headers then
            false
          else full
        (⟨popped.1, true, more⟩, if more then popped.2 else finalize popped.2)
      else ({}, finalize s') := by
  cases ok with
  | false =>
    have hprocess : c.processHeaders s headers full = ({}, s') := by
      unfold processHeaders
      rw [hstate, h]
    rw [processNextHeaders_of_process hne (by simp [hstate]) hprocess]
    simp
  | true =>
    have hprocess : c.processHeaders s headers full =
        (⟨(c.popHeadersReadyForAcceptance s').1, true,
          if (c.popHeadersReadyForAcceptance s').2.m_redownloaded_headers.isEmpty ∧
            (c.popHeadersReadyForAcceptance s').2.m_process_all_remaining_headers then false
          else full⟩, (c.popHeadersReadyForAcceptance s').2) := by
      unfold processHeaders
      rw [hstate, h]
    rw [processNextHeaders_of_process hne (by simp [hstate]) hprocess]
    simp

/-! ### What a message preserves -/

omit [DecidableEq Hash] [Zero Hash] in
lemma SyncTrace.safe_of_nil (hR : t.redownloaded = []) (hret : t.returned = []) :
    SyncTrace.Safe c t where
  linked := by
    rw [hR]
    trivial
  returned := by
    rw [hret]
    exact nil_prefix
  released := by
    intro k hk
    rw [hret] at hk
    cases hk
  matched := by
    intro _ j header hj
    rw [hR] at hj
    cases hj

omit [DecidableEq Hash] in
lemma invariant_start : SyncTrace.Invariant c ⟨c.start, [], [], []⟩ where
  toSafe := SyncTrace.safe_of_nil rfl rfl
  presync := by
    intro _
    refine ⟨⟨rfl, rfl, rfl, ?_, rfl, Nat.zero_le _, rfl, rfl⟩, rfl, rfl⟩
    have hnarrow := narrowInt_of_lt c.nHeight_nonneg c.nHeight_lt
    simpa [start] using hnarrow.symm
  redownload := nofun
  final := nofun

lemma receive_presync (hne : headers ≠ []) (hstate : t.state.m_download_state = .PRESYNC)
    (h : c.validateAndStoreHeadersCommitments t.state headers = (true, s')) :
    c.receive t (headers, full) = { t with
      state := if (full || s'.m_download_state = .REDOWNLOAD : Bool) then s' else finalize s'
      presynced := t.presynced ++ headers } := by
  simp [receive, processNextHeaders_presync full hne hstate h, hstate]

lemma invariant_receive_presync (h : SyncTrace.Invariant c t) (hne : headers ≠ [])
    (hstate : t.state.m_download_state = .PRESYNC) :
    SyncTrace.Invariant c (c.receive t (headers, full)) := by
  obtain ⟨hpre, hR, hret⟩ := h.presync hstate
  rcases hval : c.validateAndStoreHeadersCommitments t.state headers with ⟨ok, s'⟩
  cases ok with
  | false =>
    have hcall := processNextHeaders_presync full hne hstate hval
    have hreceive : c.receive t (headers, full) = { t with state := finalize s' } := by
      simp [receive, hcall]
    rw [hreceive]
    exact h.finalize s'
  | true =>
    have hsafe : SyncTrace.Safe c { t with presynced := t.presynced ++ headers } :=
      SyncTrace.safe_of_nil hR hret
    rw [receive_presync full hne hstate hval]
    split
    · rcases hpre.message hval with hpre' | hre
      · refine ⟨SyncTrace.safe_of_nil hR hret, fun _ => ⟨hpre', hR, hret⟩, ?_, ?_⟩
        · intro hs
          exact absurd (hpre'.state.symm.trans hs) nofun
        · intro hs
          exact absurd (hpre'.state.symm.trans hs) nofun
      · refine ⟨SyncTrace.safe_of_nil hR hret, ?_, ?_, ?_⟩
        · intro hs
          exact absurd (hre.state.symm.trans hs) nofun
        · intro _
          simp only [hR, hret]
          exact ⟨hre, c.not_reached_nil, Nat.zero_le _⟩
        · intro hs
          exact absurd (hre.state.symm.trans hs) nofun
    · exact hsafe.finalize s'

section

variable (h : SyncTrace.Invariant c t) (hstate : t.state.m_download_state = .REDOWNLOAD)

include h hstate

omit [DecidableEq Hash] [Zero Hash] in
/-- The headers that a message of the second phase leaves as returned are a beginning of the chain,
each with enough work or a full buffer behind it. -/
lemma safe_of_released
    (hre : c.Redownloading t.presynced (t.redownloaded ++ headers) t.returned.length s') :
    SyncTrace.Safe c { t with
      redownloaded := t.redownloaded ++ headers
      returned := (t.redownloaded ++ headers).take (c.released (t.redownloaded ++ headers)
        t.returned.length s'.m_process_all_remaining_headers) } where
  linked := hre.linked
  returned := take_prefix _ _
  released := by
    intro k hk
    obtain ⟨-, hnot, -⟩ := h.redownload hstate
    by_cases hall : s'.m_process_all_remaining_headers = true
    · exact .inl (hre.process_all.1 hall)
    right
    change k + c.redownload_buffer_size < (t.redownloaded ++ headers).length
    rw [Bool.not_eq_true] at hall
    rw [hall, length_take, released_false] at hk
    rcases Nat.lt_or_ge k t.returned.length with hold | hnew
    · have hbehind := (h.released k hold).resolve_left hnot
      rw [length_append]
      omega
    · omega
  matched := hre.matched

omit [DecidableEq Hash] [Zero Hash] hstate in
lemma returned_append_pop
    (hre : c.Redownloading t.presynced (t.redownloaded ++ headers) t.returned.length s') :
    t.returned ++ (c.popHeadersReadyForAcceptance s').1 =
      (t.redownloaded ++ headers).take (c.released (t.redownloaded ++ headers) t.returned.length
        s'.m_process_all_remaining_headers) := by
  have hbefore : t.returned = (t.redownloaded ++ headers).take t.returned.length :=
    prefix_iff_eq_take.1 (h.returned.trans (prefix_append _ _))
  rw [hre.pop, released, take_add, ← hbefore]

variable (hloop : loopHeaders c.validateAndStoreRedownloadedHeader headers t.state = (true, s'))

include hloop

omit [Zero Hash] in
/-- The state after the headers of a message of the second phase, when all are accepted. -/
lemma SyncTrace.Invariant.redownloaded :
    c.Redownloading t.presynced (t.redownloaded ++ headers) t.returned.length s' :=
  loopHeaders_invariant (I := fun R s => c.Redownloading t.presynced R t.returned.length s)
    (fun _ _ _ _ h => h.step) (h.redownload hstate).1 hloop

variable (full : Bool)

/-- A message of the second phase that is accepted: more is requested until the threshold, where the
buffer is emptied. -/
lemma processNextHeaders_redownloaded
    (hne : headers ≠ []) : c.processNextHeaders t.state headers full =
      let popped := c.popHeadersReadyForAcceptance s'
      let more := !s'.m_process_all_remaining_headers && full
      (⟨popped.1, true, more⟩, if more then popped.2 else finalize popped.2) := by
  have hre := h.redownloaded hstate hloop
  have hflag : (c.popHeadersReadyForAcceptance s').2.m_process_all_remaining_headers =
    s'.m_process_all_remaining_headers := rfl
  rw [processNextHeaders_redownload full hne hstate hloop]
  cases hall : s'.m_process_all_remaining_headers with
  | true =>
    have hempty : (c.popHeadersReadyForAcceptance s').2.m_redownloaded_headers = [] := by
      rw [hre.pop, hall]
      change List.map _ (List.drop (c.released _ _ true) _) = []
      rw [released_true hre.returned_le, drop_length, map_nil]
    simp [hempty, hflag, hall]
  | false => simp [hflag, hall]

lemma receive_redownload (hne : headers ≠ []) : c.receive t (headers, full) =
      let popped := (c.popHeadersReadyForAcceptance s').2
      { t with
        state := if !s'.m_process_all_remaining_headers && full then popped else finalize popped
        redownloaded := t.redownloaded ++ headers
        returned := (t.redownloaded ++ headers).take (c.released (t.redownloaded ++ headers)
          t.returned.length s'.m_process_all_remaining_headers) } := by
  rw [← returned_append_pop h (h.redownloaded hstate hloop)]
  simp [receive, processNextHeaders_redownloaded h hstate hloop full hne, hstate]

omit hloop in
lemma invariant_receive_redownload
    (hne : headers ≠ []) : SyncTrace.Invariant c (c.receive t (headers, full)) := by
  rcases hloop : loopHeaders c.validateAndStoreRedownloadedHeader headers t.state with ⟨ok, s'⟩
  cases ok with
  | false =>
    have hcall := processNextHeaders_redownload full hne hstate hloop
    have hreceive : c.receive t (headers, full) = { t with state := finalize s' } := by
      simp [receive, hcall]
    rw [hreceive]
    exact h.finalize s'
  | true =>
    have hre' := h.redownloaded hstate hloop
    have hsafe := safe_of_released h hstate hre'
    rw [receive_redownload h hstate hloop full hne]
    cases hall : s'.m_process_all_remaining_headers with
    | true =>
      rw [hall] at hsafe
      exact hsafe.finalize _
    | false =>
      rw [hall] at hsafe
      have hgo := hre'.afterPop (by simp [hne]) hall
      cases full with
      | true =>
        refine ⟨⟨hsafe.linked, hsafe.returned, hsafe.released, hsafe.matched⟩, ?_, ?_, ?_⟩
        · intro hs
          exact absurd (hgo.state.symm.trans hs) nofun
        · intro _
          have hlength : (List.take (c.released (t.redownloaded ++ headers) t.returned.length
              false) (t.redownloaded ++ headers)).length =
              c.released (t.redownloaded ++ headers) t.returned.length false := by
            rw [length_take, min_eq_left hgo.returned_le]
          simp only [hlength]
          refine ⟨hgo, ?_, ?_⟩
          · intro hreached
            exact absurd (hall.symm.trans (hre'.process_all.2 hreached)) nofun
          · rw [released_false]
            omega
        · intro hs
          exact absurd (hgo.state.symm.trans hs) nofun
      | false => exact hsafe.finalize _

end

/-- **What a message preserves.** -/
lemma invariant_receive (h : SyncTrace.Invariant c t) (message : List (CBlockHeader Hash) × Bool) :
    SyncTrace.Invariant c (c.receive t message) := by
  obtain ⟨headers, full⟩ := message
  by_cases hignored : headers = [] ∨ t.state.m_download_state = .FINAL
  · have hreceive : c.receive t (headers, full) = t := by
      simp [receive, processNextHeaders_ignored hignored]
    rwa [hreceive]
  · obtain ⟨hne, hnotFinal⟩ := not_or.1 hignored
    cases hstate : t.state.m_download_state with
    | PRESYNC => exact invariant_receive_presync full h hne hstate
    | REDOWNLOAD => exact invariant_receive_redownload h hstate full hne
    | FINAL => exact absurd hstate hnotFinal

lemma invariant_run (messages : List (List (CBlockHeader Hash) × Bool)) :
    SyncTrace.Invariant c (c.run messages) := by
  unfold run
  induction messages using List.reverseRecOn with
  | nil => exact invariant_start
  | append_singleton messages message ih =>
    rw [foldl_append]
    exact invariant_receive ih message

/-! ## Memory -/

variable (c) in
/-- The states that `ProcessNextHeaders` passes through while it works on the headers of a message.
What follows the loop only removes headers and commitments. -/
def statesDuring (s : HeadersSyncState Hash) (headers : List (CBlockHeader Hash)) :
    List (HeadersSyncState Hash) :=
  match s.m_download_state with
  | .PRESYNC => loopStates c.validateAndProcessSingleHeader headers s
  | .REDOWNLOAD => loopStates c.validateAndStoreRedownloadedHeader headers s
  | .FINAL => [s]

omit [Zero Hash] in
lemma SyncTrace.Invariant.sizes (h : SyncTrace.Invariant c t)
    (hs : s ∈ c.statesDuring t.state headers) :
    s.m_header_commitments.length ≤ c.max_commitments + 1 ∧
      s.m_redownloaded_headers.length ≤ c.redownload_buffer_size + headers.length := by
  unfold statesDuring at hs
  cases hstate : t.state.m_download_state with
  | PRESYNC =>
    rw [hstate] at hs
    obtain ⟨hpre, -, -⟩ := h.presync hstate
    have hbuffer := hpre.buffer
    rcases mem_loopStates (I := c.Presyncing) (fun _ _ _ _ h => h.step) hpre hs with
      rfl | ⟨front, header, s₁, hpre₁, rfl, -⟩
    · rw [hbuffer]
      exact ⟨Nat.le_succ_of_le hpre.commitments_le, Nat.zero_le _⟩
    · obtain ⟨hcommitments, hnil⟩ := hpre₁.sizes header
      rw [hnil]
      exact ⟨hcommitments, Nat.zero_le _⟩
  | REDOWNLOAD =>
    rw [hstate] at hs
    obtain ⟨hre, -, hle⟩ := h.redownload hstate
    have hlength : ∀ {R s₁}, c.Redownloading t.presynced R t.returned.length s₁ →
        s₁.m_redownloaded_headers.length = R.length - t.returned.length := by
      intro R s₁ hre₁
      rw [hre₁.buffer, length_map, length_drop]
    rcases mem_loopStates (I := fun R s => c.Redownloading t.presynced R t.returned.length s)
      (fun _ _ _ _ h => h.step) hre hs with
      rfl | ⟨front, header, s₁, hre₁, rfl, hfront⟩
    · rw [hlength hre]
      exact ⟨Nat.le_succ_of_le hre.commitments_le, by omega⟩
    · obtain ⟨hcommitments, hbuffer⟩ := Redownloading.sizes (c := c) s₁ header
      rw [hlength hre₁, length_append] at hbuffer
      have hle₁ := hre₁.commitments_le
      exact ⟨by omega, by omega⟩
  | FINAL =>
    rw [hstate] at hs
    obtain ⟨hcommitments, hbuffer⟩ := h.final hstate
    rw [mem_singleton.1 hs, hcommitments, hbuffer]
    exact ⟨Nat.zero_le _, Nat.zero_le _⟩

variable (c) in
/-- **Whatever a peer sends, what is returned is a chain on top of the start that was paid for.**
The headers returned are a beginning of the chain that was redownloaded; each was returned once that
chain's work was enough or more than `redownload_buffer_size` of its headers were accepted from it
on; and before the threshold these have the bits of the first phase, as long as the heights of the
first phase fit an `int`.  The queue of commitments and the buffer stay bounded at all times. -/
theorem headersSync_safe (messages : List (List (CBlockHeader Hash) × Bool)) :
    let t := c.run messages
    c.Linked c.chain_start c.nHeight t.returned ∧
      t.returned <+: t.redownloaded ∧
      (∀ k < t.returned.length, c.Reached t.redownloaded ∨
        k + c.redownload_buffer_size < t.redownloaded.length) ∧
      (c.nHeight + t.presynced.length < 2 ^ 31 → c.Matched t.presynced t.redownloaded) ∧
      ∀ (headers : List (CBlockHeader Hash)), ∀ s ∈ c.statesDuring t.state headers,
        s.m_header_commitments.length ≤ c.max_commitments + 1 ∧
          s.m_redownloaded_headers.length ≤ c.redownload_buffer_size + headers.length := by
  have h := invariant_run (c := c) messages
  refine ⟨h.linked.initial h.returned, h.returned, h.released, h.matched, ?_⟩
  intro headers s hs
  exact h.sizes hs

end Run

/-! ### A start whose height is at the end of an `int` -/

/-- A hash without collisions, in place of the real one. -/
def countingHash (header : CBlockHeader ℕ) : ℕ :=
  Nat.pair header.hashPrevBlock (Nat.pair header.hashMerkleRoot
    (Nat.pair header.nVersion.toUInt32.toNat (Nat.pair header.nTime.toNat
      (Nat.pair header.nBits.toNat header.nNonce.toNat))))

lemma countingHash_injective : Function.Injective countingHash := by
  intro a b h
  simp only [countingHash, Nat.pair_eq_pair, UInt32.toNat_inj] at h
  obtain ⟨hprev, hroot, hversion, htime, hbits, hnonce⟩ := h
  have hversion' : a.nVersion = b.nVersion := congrArg Int32.ofUInt32 hversion
  cases a
  cases b
  simp_all

/-- A header with work 2. -/
def easyHeader (hashPrevBlock : ℕ) (nNonce : UInt32) : CBlockHeader ℕ :=
  ⟨1, hashPrevBlock, 0, 0, 0x207fffff, nNonce⟩

/-- A chain of such headers. -/
def easyChain (hashPrevBlock : ℕ) : List UInt32 → List (CBlockHeader ℕ)
  | [] => []
  | nonce :: nonces =>
    let header := easyHeader hashPrevBlock nonce
    header :: easyChain (countingHash header) nonces

/-- One bit for every seventh header, a buffer of one header, and work for three headers, on top of
a header of the given height. -/
def sevenConfig (nHeight : ℤ) (hnonneg : 0 ≤ nHeight) (hlt : nHeight < 2 ^ 31) :
    HeadersSyncConfig ℕ where
  blockHash := countingHash
  hasher hash := hash % 2 = 1
  consensus_params := mainParams
  commitment_period := 7
  commitment_period_pos := by decide
  redownload_buffer_size := 1
  redownload_buffer_size_pos := le_rfl
  commit_offset := 2
  commit_offset_lt := by decide
  chain_start := easyHeader 0 0
  nHeight := nHeight
  nHeight_nonneg := hnonneg
  nHeight_lt := hlt
  nChainWork := 0
  minimum_required_work := 6
  max_commitments := 10

instance (c : HeadersSyncConfig Hash) (headers : List (CBlockHeader Hash)) :
    Decidable (c.Reached headers) :=
  inferInstanceAs (Decidable (∃ k < headers.length, _ ≤ _))

theorem headersSync_safe_sevenConfig :
    let c := sevenConfig 1 (by decide) (by decide)
    let chain := easyChain (countingHash c.chain_start) [1, 1, 0]
    let t := c.run [(chain, true), (chain.take 2, true)]
    c.nHeight + t.presynced.length < 2 ^ 31 ∧ t.returned = chain.take 1 ∧
      c.Matched t.presynced t.redownloaded := by
  have hsmall : (sevenConfig 1 (by decide) (by decide)).nHeight +
      ((sevenConfig 1 (by decide) (by decide)).run
        [(easyChain (countingHash (easyHeader 0 0)) [1, 1, 0], true),
          ((easyChain (countingHash (easyHeader 0 0)) [1, 1, 0]).take 2, true)]).presynced.length <
      2 ^ 31 := by
    decide +kernel
  refine ⟨hsmall, by decide +kernel, ?_⟩
  exact (headersSync_safe _ _).2.2.2.1 hsmall

/-- On top of height `2 ^ 31 - 1` the first phase keeps the bit of the third header and the second
compares it with that of the first: a header is returned before the threshold although its bit is
not the one of the header at its height in the first phase. -/
theorem headersSync_wrapped_heights :
    let c := sevenConfig (2 ^ 31 - 1) (by decide) (by decide)
    let t := c.run [(easyChain (countingHash c.chain_start) [1, 1, 0], true),
      (easyChain (countingHash c.chain_start) [0, 0], true)]
    Function.Injective c.blockHash ∧
      t.returned = easyChain (countingHash c.chain_start) [0] ∧ ¬ c.Reached t.redownloaded ∧
      c.isCommitmentHeight (c.nHeight + 1) = true ∧
      t.presynced[0]?.map (fun header => c.hasher (c.blockHash header)) = some false ∧
      t.redownloaded[0]?.map (fun header => c.hasher (c.blockHash header)) = some true :=
  ⟨countingHash_injective, by decide +kernel, by decide +kernel, by decide +kernel,
    by decide +kernel, by decide +kernel⟩

end SlithyTove.HeadersSyncConfig
