import SlithyTove.Sync.HeadersSyncSafety

/-!
# Headers sync with an honest peer

A peer that sends one chain twice, cut into messages in any two ways, is never rejected: each
message of the first phase is accepted because the chain is permitted and has few enough
commitments, each of the second because its headers are those of the first phase.  When the second
phase reaches the threshold, all its headers have been returned (`headersSync_progress`).
-/

namespace SlithyTove.HeadersSyncConfig

open List

variable {Hash : Type} {c : HeadersSyncConfig Hash}

/-! ## Messages that are accepted -/

/-- A loop accepts every header if each one is accepted after those before it. -/
lemma loopHeaders_accepts
    {step : HeadersSyncState Hash → CBlockHeader Hash → Bool × HeadersSyncState Hash}
    {I : List (CBlockHeader Hash) → HeadersSyncState Hash → Prop}
    (hstep : ∀ A s header s', I A s → step s header = (true, s') → I (A ++ [header]) s') :
    ∀ {headers A : List (CBlockHeader Hash)} {s : HeadersSyncState Hash},
      I A s →
      (∀ front header, A ++ front ++ [header] <+: A ++ headers → ∀ s, I (A ++ front) s →
        ∃ s', step s header = (true, s')) →
      ∃ s', loopHeaders step headers s = (true, s')
  | [], A, s, hI, haccepts => ⟨s, rfl⟩
  | header :: headers, A, s, hI, haccepts => by
    obtain ⟨s₁, hone⟩ := haccepts [] header (by simp) s (by rwa [append_nil])
    obtain ⟨s', hrest⟩ := loopHeaders_accepts hstep (hstep A s header s₁ hI hone)
      (fun front header' hinitial s₂ hI₂ => by
        rw [append_assoc, singleton_append] at hI₂
        refine haccepts (header :: front) header' ?_ s₂ hI₂
        simpa [append_assoc] using hinitial)
    refine ⟨s', ?_⟩
    rw [loopHeaders, hone]
    exact hrest

lemma length_commitBits_mono (narrow : ℤ → ℤ) {height : ℤ} {front more : List (CBlockHeader Hash)}
    (h : front <+: more) :
    (c.commitBits narrow height front).length ≤ (c.commitBits narrow height more).length := by
  obtain ⟨tail, rfl⟩ := h
  induction front generalizing height with
  | nil => exact Nat.zero_le _
  | cons header front ih =>
    rw [cons_append, commitBits, commitBits]
    split
    · exact Nat.succ_le_succ ih
    · exact ih

section Messages

variable {P headers : List (CBlockHeader Hash)} {s : HeadersSyncState Hash}

section

variable (h : c.Presyncing P s) (hlinked : c.Linked c.chain_start c.nHeight (P ++ headers))
  (hsmall : c.nHeight + (P ++ headers).length < 2 ^ 31)
  (hroom : (c.commitBits id c.nHeight (P ++ headers)).length ≤ c.max_commitments)

include h hlinked hsmall hroom

lemma Presyncing.loop_ok :
    ∃ s', loopHeaders c.validateAndProcessSingleHeader headers s = (true, s') ∧
      c.Presyncing (P ++ headers) s' := by
  have hlow := c.nHeight_nonneg
  have haccepts : ∀ front header, P ++ front ++ [header] <+: P ++ headers → ∀ s₂,
      c.Presyncing (P ++ front) s₂ →
      ∃ s', c.validateAndProcessSingleHeader s₂ header = (true, s') := by
    intro front header hinitial s₂ hpre
    obtain ⟨-, -, hpermitted⟩ := linked_append.1 (hlinked.initial hinitial)
    have hlength := hinitial.length_le
    have hsucc : (P ++ front ++ [header]).length = (P ++ front).length + 1 := by
      rw [length_append, length_singleton]
    refine hpre.accepts ?_ ?_
    · rwa [narrowInt_of_lt (by omega) (by omega)]
    · rw [commitBits_narrowInt hlow (by omega)]
      exact (length_commitBits_mono id hinitial).trans hroom
  obtain ⟨s₁, hloop⟩ := loopHeaders_accepts (I := c.Presyncing) (fun _ _ _ _ h => h.step) h
    haccepts
  exact ⟨s₁, hloop, loopHeaders_invariant (I := c.Presyncing) (fun _ _ _ _ h => h.step) h
    hloop⟩

/-- A message of the first phase that continues a permitted chain is accepted, and the phase ends if
the work is enough. -/
lemma Presyncing.message_ok [DecidableEq Hash] (hne : headers ≠ []) :
    ∃ s', c.validateAndStoreHeadersCommitments s headers = (true, s') ∧
      (s'.m_download_state = .REDOWNLOAD ↔
        c.minimum_required_work ≤ c.chainWork (P ++ headers)) := by
  obtain ⟨s₁, hloop, hpre⟩ := h.loop_ok hlinked hsmall hroom
  obtain ⟨first, rest, rfl⟩ := exists_cons_of_ne_nil hne
  have hfirst : first.hashPrevBlock = c.blockHash s.m_last_header_received := by
    have hinitial : P ++ [first] <+: P ++ first :: rest := by simp
    rw [h.last]
    exact (linked_append.1 (hlinked.initial hinitial)).2.1
  unfold validateAndStoreHeadersCommitments
  simp only [hfirst, ne_eq, not_true_eq_false, if_false, hloop, hpre.work]
  refine ⟨_, rfl, ?_⟩
  split
  next hwork => exact ⟨fun _ => hwork, fun _ => rfl⟩
  next hwork => exact ⟨fun hs => absurd (hpre.state.symm.trans hs) nofun, fun hs => absurd hs hwork⟩

end

variable {chain R : List (CBlockHeader Hash)}

/-- Before the threshold, a header of the second phase is the one of the first phase at its height,
if both are of one chain. -/
lemma committed_of_initial {header : CBlockHeader Hash} (hP : P <+: chain)
    (hR : R ++ [header] <+: chain) (hreached : c.Reached P) (hnot : ¬ c.Reached (R ++ [header])) :
    P[R.length]? = some header := by
  rcases Nat.le_total (R ++ [header]).length P.length with hle | hle
  · obtain ⟨tail, rfl⟩ := prefix_of_prefix_length_le hR hP hle
    simp
  · exact absurd (hreached.mono (prefix_of_prefix_length_le hP hR hle)) hnot

/-- The headers of a message of the second phase are accepted if they continue the chain of the
first phase. -/
lemma Redownloading.message_ok [DecidableEq Hash] {n : ℕ} (h : c.Redownloading P R n s)
    (hsmall : c.nHeight + P.length < 2 ^ 31) (hlinked : c.Linked c.chain_start c.nHeight chain)
    (hP : P <+: chain) (hreached : c.Reached P) (hR : R ++ headers <+: chain) :
    ∃ s', loopHeaders c.validateAndStoreRedownloadedHeader headers s = (true, s') := by
  refine loopHeaders_accepts (I := fun R s => c.Redownloading P R n s)
    (fun _ _ _ _ h => h.step) h ?_
  intro front header hinitial s₂ hre
  refine hre.accepts hsmall (hlinked.initial (hinitial.trans hR)) fun hnot => ?_
  exact ⟨header, committed_of_initial hP (hinitial.trans hR) hreached hnot, rfl⟩

end Messages

/-! ## The two phases of an honest peer -/

/-- What an honest peer sends: one chain on top of the start, cut into the messages `first` for the
first phase, which ends with the first of them at whose end there is enough work, and into the
messages `second` for the second. -/
structure HonestPeer (c : HeadersSyncConfig Hash) where
  chain : List (CBlockHeader Hash)
  linked : c.Linked c.chain_start c.nHeight chain
  first : List (List (CBlockHeader Hash))
  first_ne : ∀ message ∈ first, message ≠ []
  first_chain : first.flatten <+: chain
  first_pos : first ≠ []
  enough : c.minimum_required_work ≤ c.chainWork first.flatten
  not_before : ∀ before message after, first = before ++ message :: after → before ≠ [] →
    c.chainWork before.flatten < c.minimum_required_work
  room : (c.commitBits id c.nHeight first.flatten).length ≤ c.max_commitments
  second : List (List (CBlockHeader Hash))
  second_ne : ∀ message ∈ second, message ≠ []
  second_chain : second.flatten <+: chain

namespace HonestPeer

variable (peer : HonestPeer c)

lemma reached : c.Reached peer.first.flatten := by
  have hne : peer.first.flatten ≠ [] := by
    obtain ⟨message, rest, hfirst⟩ := exists_cons_of_ne_nil peer.first_pos
    have hmessage := peer.first_ne message (by simp [hfirst])
    rw [hfirst, flatten_cons]
    simp [hmessage]
  have hpos := length_pos_iff.2 hne
  refine ⟨peer.first.flatten.length - 1, by omega, ?_⟩
  rw [Nat.sub_add_cancel hpos, take_length]
  exact peer.enough

variable {peer}

variable {before after : List (List (CBlockHeader Hash))} {message : List (CBlockHeader Hash)}

lemma flatten_initial {messages : List (List (CBlockHeader Hash))}
    (h : messages = before ++ message :: after) :
    before.flatten ++ message <+: messages.flatten := by
  rw [h, flatten_append, flatten_cons, ← append_assoc]
  exact prefix_append _ _

variable [DecidableEq Hash] [Zero Hash]

variable (c) in
/-- The trace after full messages. -/
def runFull (messages : List (List (CBlockHeader Hash))) : SyncTrace Hash :=
  c.run (messages.map fun message => (message, true))

lemma runFull_append (messages : List (List (CBlockHeader Hash)))
    (message : List (CBlockHeader Hash)) :
    runFull c (messages ++ [message]) = c.receive (runFull c messages) (message, true) := by
  simp [runFull, run, foldl_append]

variable (hsmall : c.nHeight + peer.first.flatten.length < 2 ^ 31)

include hsmall

/-- A message of the first phase, once those before it are accepted: it is accepted, and ends the
phase if there is enough work. -/
lemma receive_first (hsplit : peer.first = before ++ message :: after)
    (hstate : (runFull c before).state.m_download_state = .PRESYNC)
    (hpresynced : (runFull c before).presynced = before.flatten) :
    ∃ s', c.processNextHeaders (runFull c before).state message true =
        ({ success := true, request_more := true }, s') ∧
      runFull c (before ++ [message]) = { runFull c before with
        state := s'
        presynced := (before ++ [message]).flatten } ∧
      s'.m_download_state = if c.minimum_required_work ≤ c.chainWork (before ++ [message]).flatten
        then .REDOWNLOAD else .PRESYNC := by
  have hinvariant : SyncTrace.Invariant c (runFull c before) := invariant_run _
  obtain ⟨hpre, -, -⟩ := hinvariant.presync hstate
  have hne := peer.first_ne message (by simp [hsplit])
  have hflatten : (before ++ [message]).flatten = before.flatten ++ message := by
    rw [flatten_append, flatten_singleton]
  have hinitial := flatten_initial hsplit
  have hlength := hinitial.length_le
  rw [hpresynced] at hpre
  obtain ⟨s', hval, hswitch⟩ := hpre.message_ok
    (peer.linked.initial (hinitial.trans peer.first_chain)) (by omega)
    ((length_commitBits_mono id hinitial).trans peer.room) hne
  refine ⟨s', ?_, ?_, ?_⟩
  · rw [processNextHeaders_presync true hne hstate hval]
    simp
  · rw [runFull_append, receive_presync true hne hstate hval, hpresynced, hflatten]
    simp
  · rw [hflatten]
    split
    next hwork => exact hswitch.2 hwork
    next hwork =>
      rcases hpre.message hval with hgo | hre
      · exact hgo.state
      · exact absurd (hswitch.1 hre.state) hwork

lemma presyncing_first (before : List (List (CBlockHeader Hash))) :
    ∀ rest, peer.first = before ++ rest → rest ≠ [] →
      (runFull c before).state.m_download_state = .PRESYNC ∧
        (runFull c before).presynced = before.flatten := by
  induction before using List.reverseRecOn with
  | nil =>
    intro rest _ _
    exact ⟨rfl, rfl⟩
  | append_singleton before message ih =>
    intro rest hsplit hrest
    obtain ⟨next, rest', rfl⟩ := exists_cons_of_ne_nil hrest
    have hless := peer.not_before (before ++ [message]) next rest' hsplit (by simp)
    rw [append_assoc, singleton_append] at hsplit
    obtain ⟨hstate, hpresynced⟩ := ih _ hsplit (by simp)
    obtain ⟨s', -, hrun, hphase⟩ := receive_first hsmall hsplit hstate hpresynced
    rw [if_neg (not_le.2 hless)] at hphase
    rw [hrun]
    exact ⟨hphase, rfl⟩

lemma redownload_begins : (runFull c peer.first).state.m_download_state = .REDOWNLOAD ∧
      (runFull c peer.first).presynced = peer.first.flatten ∧
      (runFull c peer.first).redownloaded = [] := by
  obtain ⟨before, message, hsplit⟩ :=
    (eq_nil_or_concat' peer.first).resolve_left peer.first_pos
  have henough := peer.enough
  obtain ⟨hstate, hpresynced⟩ := presyncing_first hsmall before [message] hsplit (by simp)
  have hinvariant : SyncTrace.Invariant c (runFull c before) := invariant_run _
  obtain ⟨-, hnil, -⟩ := hinvariant.presync hstate
  obtain ⟨s', -, hrun, hphase⟩ := receive_first hsmall hsplit hstate hpresynced
  rw [← hsplit] at hrun hphase
  rw [if_pos henough] at hphase
  rw [hrun]
  exact ⟨hphase, rfl, hnil⟩

/-- A message of the second phase, once those before it are accepted and the threshold is not
reached. -/
lemma receive_second (hsplit : peer.second = before ++ message :: after) {t : SyncTrace Hash}
    (hinvariant : SyncTrace.Invariant c t) (hstate : t.state.m_download_state = .REDOWNLOAD)
    (hpresynced : t.presynced = peer.first.flatten)
    (hredownloaded : t.redownloaded = before.flatten) :
    ∃ s', (s'.m_process_all_remaining_headers = true ↔ c.Reached (before ++ [message]).flatten) ∧
      c.processNextHeaders t.state message true =
        (⟨(c.popHeadersReadyForAcceptance s').1, true, !s'.m_process_all_remaining_headers⟩,
          if !s'.m_process_all_remaining_headers then (c.popHeadersReadyForAcceptance s').2
          else finalize (c.popHeadersReadyForAcceptance s').2) ∧
      c.Redownloading peer.first.flatten (before ++ [message]).flatten t.returned.length s' ∧
      c.receive t (message, true) = { t with
        state := if !s'.m_process_all_remaining_headers then (c.popHeadersReadyForAcceptance s').2
          else finalize (c.popHeadersReadyForAcceptance s').2
        redownloaded := (before ++ [message]).flatten
        returned := (before ++ [message]).flatten.take (c.released (before ++ [message]).flatten
          t.returned.length s'.m_process_all_remaining_headers) } := by
  have hne := peer.second_ne message (by simp [hsplit])
  have hflatten : t.redownloaded ++ message = (before ++ [message]).flatten := by
    rw [flatten_append, flatten_singleton, hredownloaded]
  obtain ⟨hre, -, -⟩ := hinvariant.redownload hstate
  rw [hpresynced] at hre
  obtain ⟨s', hloop⟩ := hre.message_ok hsmall peer.linked peer.first_chain peer.reached
    (hredownloaded ▸ (flatten_initial hsplit).trans peer.second_chain)
  have hre' := hinvariant.redownloaded hstate hloop
  have hcall := processNextHeaders_redownloaded hinvariant hstate hloop true hne
  have hreceive := receive_redownload hinvariant hstate hloop true hne
  rw [hflatten, hpresynced] at hre'
  rw [hflatten] at hreceive
  simp only [Bool.and_true] at hcall hreceive
  exact ⟨s', hre'.process_all, hcall, hre', hreceive⟩

lemma redownloading_second (before : List (List (CBlockHeader Hash))) :
    ∀ rest, peer.second = before ++ rest → ¬ c.Reached before.flatten →
      (runFull c (peer.first ++ before)).state.m_download_state = .REDOWNLOAD ∧
        (runFull c (peer.first ++ before)).presynced = peer.first.flatten ∧
        (runFull c (peer.first ++ before)).redownloaded = before.flatten := by
  induction before using List.reverseRecOn with
  | nil =>
    intro rest _ _
    rw [append_nil]
    exact redownload_begins hsmall
  | append_singleton before message ih =>
    intro rest hsplit hnot
    rw [append_assoc, singleton_append] at hsplit
    have hbefore : ¬ c.Reached before.flatten := fun hreached => hnot (hreached.mono (by simp))
    obtain ⟨hstate, hpresynced, hredownloaded⟩ := ih _ hsplit hbefore
    obtain ⟨s', hflag, -, hre, hreceive⟩ := receive_second hsmall hsplit (invariant_run _) hstate
      hpresynced hredownloaded
    have hfalse : s'.m_process_all_remaining_headers = false :=
      Bool.eq_false_iff.2 (mt hflag.1 hnot)
    rw [← append_assoc, runFull_append]
    unfold runFull at hpresynced ⊢
    rw [hreceive, hfalse]
    exact ⟨hre.state, hpresynced, rfl⟩

end HonestPeer

section Progress

variable [DecidableEq Hash] [Zero Hash]

open HonestPeer in
/-- **An honest peer is never rejected.**  As long as the heights of the first phase fit an `int`,
every message of the first phase is accepted and more is requested; every message of the second
phase until the threshold is accepted, more is requested unless it reaches the threshold, and if it
does all headers of the second phase have been returned, once each and in order. -/
theorem headersSync_progress (c : HeadersSyncConfig Hash) (peer : HonestPeer c)
    (hsmall : c.nHeight + peer.first.flatten.length < 2 ^ 31) :
    (∀ before message after, peer.first = before ++ message :: after →
      let result := (c.processNextHeaders (runFull c before).state message true).1
      result.success = true ∧ result.request_more = true ∧ result.pow_validated_headers = []) ∧
    ∀ before message after, peer.second = before ++ message :: after →
      ¬ c.Reached before.flatten →
      let t := runFull c (peer.first ++ before)
      let result := (c.processNextHeaders t.state message true).1
      result.success = true ∧
        (result.request_more = true ↔ ¬ c.Reached (before ++ [message]).flatten) ∧
        (c.Reached (before ++ [message]).flatten →
          t.returned ++ result.pow_validated_headers = (before ++ [message]).flatten) := by
  constructor
  · intro before message after hsplit
    obtain ⟨hstate, hpresynced⟩ := presyncing_first hsmall before _ hsplit (by simp)
    obtain ⟨s', hcall, -⟩ := receive_first hsmall hsplit hstate hpresynced
    rw [hcall]
    exact ⟨rfl, rfl, rfl⟩
  · intro before message after hsplit hnot t result
    obtain ⟨hstate, hpresynced, hredownloaded⟩ := redownloading_second hsmall before _ hsplit hnot
    have hinvariant : SyncTrace.Invariant c t := invariant_run _
    obtain ⟨s', hflag, hcall, hre, hreceive⟩ := receive_second hsmall hsplit hinvariant hstate
      hpresynced hredownloaded
    have hresult : result = ⟨(c.popHeadersReadyForAcceptance s').1, true,
        !s'.m_process_all_remaining_headers⟩ :=
      congrArg Prod.fst hcall
    refine ⟨by rw [hresult], ?_, ?_⟩
    · rw [hresult, ← hflag]
      simp
    · intro hreached
      have hall := hflag.2 hreached
      have hreturned : (c.receive t (message, true)).returned =
          t.returned ++ result.pow_validated_headers := rfl
      rw [← hreturned, hreceive, hall]
      rw [released_true hre.returned_le, take_length]

end Progress

/-- A peer that sends a chain of three headers at once, and then again in two messages. -/
def threeHeaders (nHeight : ℤ) (hnonneg : 0 ≤ nHeight) (hlt : nHeight < 2 ^ 31)
    (linked : (sevenConfig nHeight hnonneg hlt).Linked (easyHeader 0 0) nHeight
      (easyChain (countingHash (easyHeader 0 0)) [1, 1, 0]))
    (room : ((sevenConfig nHeight hnonneg hlt).commitBits id nHeight
      (easyChain (countingHash (easyHeader 0 0)) [1, 1, 0])).length ≤ 10) :
    HonestPeer (sevenConfig nHeight hnonneg hlt) where
  chain := easyChain (countingHash (easyHeader 0 0)) [1, 1, 0]
  linked := linked
  first := [easyChain (countingHash (easyHeader 0 0)) [1, 1, 0]]
  first_ne := by simp [easyChain]
  first_chain := by simp
  first_pos := by simp
  enough := by
    change 6 ≤ [easyChain (countingHash (easyHeader 0 0)) [1, 1, 0]].flatten.foldl addWork 0
    decide +kernel
  not_before := by
    intro before message after hsplit hbefore
    obtain ⟨head, rest, rfl⟩ := exists_cons_of_ne_nil hbefore
    simp at hsplit
  room := room
  second := [(easyChain (countingHash (easyHeader 0 0)) [1, 1, 0]).take 2,
    (easyChain (countingHash (easyHeader 0 0)) [1, 1, 0]).drop 2]
  second_ne := by simp [easyChain]
  second_chain := by simp [take_append_drop]

theorem headersSync_progress_threeHeaders :
    let c := sevenConfig 1 (by decide) (by decide)
    let chain := easyChain (countingHash c.chain_start) [1, 1, 0]
    let t := HonestPeer.runFull c [chain, chain.take 2]
    let result := (c.processNextHeaders t.state (chain.drop 2) true).1
    c.nHeight + chain.length < 2 ^ 31 ∧ ¬ c.Reached (chain.take 2) ∧ c.Reached chain ∧
      result.success = true ∧ t.returned ++ result.pow_validated_headers = chain := by
  have hlinked : (sevenConfig 1 (by decide) (by decide)).Linked (easyHeader 0 0) 1
      (easyChain (countingHash (easyHeader 0 0)) [1, 1, 0]) :=
    ⟨by decide +kernel, by decide +kernel, by decide +kernel, by decide +kernel,
      by decide +kernel, by decide +kernel, trivial⟩
  have hnot : ¬ (sevenConfig 1 (by decide) (by decide)).Reached
      ((easyChain (countingHash (easyHeader 0 0)) [1, 1, 0]).take 2) := by
    decide +kernel
  have hreached : (sevenConfig 1 (by decide) (by decide)).Reached
      (easyChain (countingHash (easyHeader 0 0)) [1, 1, 0]) := by
    decide +kernel
  have hsmall : (1 : ℤ) +
      [easyChain (countingHash (easyHeader 0 0)) [1, 1, 0]].flatten.length < 2 ^ 31 := by
    decide +kernel
  obtain ⟨hsuccess, -, hall⟩ := (headersSync_progress _
    (threeHeaders 1 (by decide) (by decide) hlinked (by decide +kernel)) hsmall).2
    [(easyChain (countingHash (easyHeader 0 0)) [1, 1, 0]).take 2]
    ((easyChain (countingHash (easyHeader 0 0)) [1, 1, 0]).drop 2) [] rfl (by simpa using hnot)
  rw [flatten_append, flatten_singleton, flatten_singleton,
    take_append_drop] at hall
  exact ⟨by decide +kernel, hnot, hreached, hsuccess, hall hreached⟩

/-- On top of height `2 ^ 31 - 1` the same peer is rejected: the bit that the first phase keeps for
the third header is compared with that of the first. -/
theorem headersSync_rejects_honest_peer :
    ∃ peer : HonestPeer (sevenConfig (2 ^ 31 - 1) (by decide) (by decide)),
      ∃ message after, peer.second = message :: after ∧
        ((sevenConfig (2 ^ 31 - 1) (by decide) (by decide)).processNextHeaders
          (HonestPeer.runFull (sevenConfig (2 ^ 31 - 1) (by decide) (by decide))
            peer.first).state message true).1.success = false := by
  have hlinked : (sevenConfig (2 ^ 31 - 1) (by decide) (by decide)).Linked (easyHeader 0 0)
      (2 ^ 31 - 1) (easyChain (countingHash (easyHeader 0 0)) [1, 1, 0]) :=
    ⟨by decide +kernel, by decide +kernel, by decide +kernel, by decide +kernel,
      by decide +kernel, by decide +kernel, trivial⟩
  refine ⟨threeHeaders _ (by decide) (by decide) hlinked (by decide +kernel), _, _, rfl, ?_⟩
  simp only [threeHeaders]
  decide +kernel

end SlithyTove.HeadersSyncConfig
