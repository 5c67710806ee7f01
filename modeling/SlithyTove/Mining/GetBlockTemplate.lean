import SlithyTove.Mining.CoinbaseRules

/-!
# `getblocktemplate`

The RPC keeps one template in static variables and rebuilds it only when the tip has changed or
the mempool has changed and five seconds have passed; a rebuild that throws leaves the cache
empty.  The reply takes `coinbasevalue` from the cached template's coinbase and recomputes the
treasury's share from the cached tip.

A call is modelled with everything it reads from the node at that moment (`TemplateCall`), and
the cache is threaded through any sequence of calls, failing ones included.  The invariant is
`CacheInv`: a non-empty cache holds a template `CreateNewBlock` returned on exactly the cached
tip.  From it `getBlockTemplate_pool_coinbase` derives that a pool that follows the reply builds
a coinbase the validator accepts.
-/

namespace SlithyTove

open Framework List

variable {Hash : Type} [DecidableEq Hash] [Zero Hash]

/-! ## The call -/

/-- The block index as the RPC sees it: entries by hash. -/
structure BlockIndexMap (Hash : Type) where
  lookup : Hash → Option (IndexEntry Hash)

/-- What one call of `getblocktemplate` finds. -/
structure TemplateCall (rules : ConsensusRules Hash) (index : BlockIndexMap Hash) where
  /-- The argument, connection and rule checks made before the cache is looked at. -/
  requestChecks : Except String Unit
  /-- The node's state while the call holds the chain lock. -/
  ctx : TemplateContext Hash
  ctx_rules : ctx.rules = rules
  tip_indexed : index.lookup ctx.tip.hash = some ctx.tip
  /-- What the mempool would select. -/
  selected : List (MempoolEntry Hash)
  block_reserved_weight : ℕ
  /-- `GetTransactionsUpdated()`. -/
  transactionsUpdated : ℕ
  /-- `GetTime()`. -/
  now : ℤ
  /-- The mining interface sees a tip; at shutdown it does not, and returns null. -/
  available : Bool
  /-- The client supports every active rule of the version-bits state. -/
  versionBitsChecks : Except String Unit

/-- The static variables of the RPC. -/
structure TemplateCache (Hash : Type) where
  pindexPrev : Option (IndexEntry Hash)
  time_start : ℤ
  block_template : Option (CBlockTemplate Hash)
  nTransactionsUpdatedLast : ℕ

/-- One entry of `transactions` in the reply. -/
structure ReplyTx (Hash : Type) where
  tx : CTransaction Hash
  fee : ℤ
  sigops : ℕ

/-- The reply, restricted to what a pool builds its coinbase from. -/
structure TemplateReply (Hash : Type) where
  previousblockhash : Hash
  transactions : List (ReplyTx Hash)
  coinbasevalue : ℤ
  treasury_value : ℤ
  treasury_script : CScript
  treasury_percent : ℤ
  height : ℕ

variable {rules : ConsensusRules Hash} {index : BlockIndexMap Hash}

/-- The options `getblocktemplate` creates a template with. -/
def TemplateCall.options (call : TemplateCall rules index) : AssemblerOptions :=
  { templateOptions with block_reserved_weight := call.block_reserved_weight }

variable (cache : TemplateCache Hash)

/-- The condition under which the cached template is thrown away. -/
def TemplateCache.isStale (call : TemplateCall rules index) : Bool :=
  match cache.pindexPrev with
  | none => true
  | some pindexPrev => pindexPrev.hash ≠ call.ctx.tip.hash ∨
      (call.transactionsUpdated ≠ cache.nTransactionsUpdatedLast ∧
        call.now - cache.time_start > 5)

/-- The cache update of a call, and whether it threw. -/
def refreshTemplate (call : TemplateCall rules index) : TemplateCache Hash × Except String Unit :=
  if cache.isStale call then
    -- Cleared first, so that a failure from here on makes the next call start over.
    let cleared := { cache with
      pindexPrev := none
      nTransactionsUpdatedLast := call.transactionsUpdated
      time_start := call.now }
    -- The mining interface answers null, before it assembles anything, when its wait for a tip
    -- is interrupted.
    if call.available then
      match createNewBlock call.ctx call.options call.selected with
      | .error e => (cleared, .error e)
      | .ok t => ({ cleared with
          block_template := some t, pindexPrev := index.lookup call.ctx.tip.hash }, .ok ())
    else ({ cleared with block_template := none }, .error "block_template")
  else (cache, .ok ())

/-- The `transactions` of the reply: every transaction but coinbases, with the fee and the
signature operations recorded for its position. -/
def replyTransactions (t : CBlockTemplate Hash) (preSegWit : Bool) :
    Except String (List (ReplyTx Hash)) :=
  (t.block.vtx.zipIdx.filter fun p => ¬ p.1.isCoinBase).mapM fun (tx, i) =>
    match i, t.vTxFees[i - 1]?, t.vTxSigOpsCost[i - 1]? with
    | _ + 1, some fee, some sigops =>
      if preSegWit ∧ sigops % WITNESS_SCALE_FACTOR ≠ 0 then
        .error "nTxSigOps % WITNESS_SCALE_FACTOR == 0"
      else .ok ⟨tx, fee, if preSegWit then sigops / WITNESS_SCALE_FACTOR else sigops⟩
    | _, _, _ => .error "vector::_M_range_check"

/-- The reply put together from a cached template and the tip it was built on. -/
def templateReply (params : Params) (preSegWit : Bool) (versionBitsChecks : Except String Unit)
    (pindexPrev : IndexEntry Hash) (t : CBlockTemplate Hash) :
    Except String (TemplateReply Hash) := do
  let transactions ← replyTransactions t preSegWit
  versionBitsChecks
  let vout := (t.block.vtx.head?.map CTransaction.vout).getD []
  let treasury_script := params.treasury_script_pub_key
  let treasury_output := vout.find? fun out => out.scriptPubKey = treasury_script
  let treasury_value := treasuryReward params (pindexPrev.nHeight + 1)
  ensure (treasury_value = 0 ∨ treasury_output.map CTxOut.nValue = some treasury_value)
    "treasury_value == 0 || treasury_output->nValue == treasury_value"
  return {
    previousblockhash := t.block.hashPrevBlock
    transactions
    coinbasevalue := totalOut vout
    treasury_value
    treasury_script
    treasury_percent := params.treasury_percent
    height := pindexPrev.nHeight + 1 }

/-- `getblocktemplate` in template mode: the new cache and the reply or exception. -/
def getBlockTemplate (call : TemplateCall rules index) :
    TemplateCache Hash × Except String (TemplateReply Hash) :=
  match call.requestChecks with
  | .error e => (cache, .error e)
  | .ok () =>
    match refreshTemplate cache call with
    | (cache, .error e) => (cache, .error e)
    | (cache, .ok ()) =>
      match cache.pindexPrev, cache.block_template with
      | some pindexPrev, some t =>
        (cache, templateReply rules.params (!call.ctx.segwitActive) call.versionBitsChecks
          pindexPrev t)
      | _, _ => (cache, .error "pindexPrev")

/-- The static variables at start-up. -/
def TemplateCache.initial : TemplateCache Hash := ⟨none, 0, none, 0⟩

/-- The cache after a sequence of calls. -/
def cacheAfter (calls : List (TemplateCall rules index)) : TemplateCache Hash :=
  calls.foldl (fun cache call => (getBlockTemplate cache call).1) .initial

/-! ## The cache invariant -/

/-- A filled cache holds a template that was created on the cached tip. -/
def CacheInv (rules : ConsensusRules Hash) (index : BlockIndexMap Hash)
    (cache : TemplateCache Hash) : Prop :=
  ∀ pindexPrev, cache.pindexPrev = some pindexPrev → ∃ (call : TemplateCall rules index) (t : _),
    cache.block_template = some t ∧ call.ctx.tip = pindexPrev ∧
      createNewBlock call.ctx call.options call.selected = .ok t

lemma refreshTemplate_inv {cache : TemplateCache Hash} (h : CacheInv rules index cache)
    (call : TemplateCall rules index) : CacheInv rules index (refreshTemplate cache call).1 := by
  rw [refreshTemplate]
  split
  · dsimp only
    split
    · split
      · intro pindexPrev hsome
        cases hsome
      · next t ht =>
        intro pindexPrev hsome
        refine ⟨call, t, rfl, ?_, ht⟩
        rw [call.tip_indexed] at hsome
        exact Option.some.inj hsome
    · intro pindexPrev hsome
      cases hsome
  · exact h

/-- A cache that is filled after a refresh is filled for the tip the call saw: equal hashes name
the same index entry. -/
lemma refreshTemplate_tip {cache : TemplateCache Hash} (h : CacheInv rules index cache)
    (call : TemplateCall rules index) :
    ∀ pindexPrev, (refreshTemplate cache call).1.pindexPrev = some pindexPrev →
      pindexPrev = call.ctx.tip := by
  intro pindexPrev hsome
  rw [refreshTemplate] at hsome
  split at hsome
  · dsimp only at hsome
    split at hsome
    · split at hsome
      · cases hsome
      · rw [call.tip_indexed] at hsome
        exact (Option.some.inj hsome).symm
    · cases hsome
  · next hfresh =>
    have hprev : cache.pindexPrev = some pindexPrev := hsome
    obtain ⟨built, -, -, hbuilt, -⟩ := h pindexPrev hprev
    simp only [TemplateCache.isStale, hprev, decide_eq_true_eq, not_or, not_not] at hfresh
    have hindexed := built.tip_indexed
    rw [hbuilt, hfresh.1, call.tip_indexed] at hindexed
    exact (Option.some.inj hindexed).symm

lemma getBlockTemplate_cache (call : TemplateCall rules index) :
    (getBlockTemplate cache call).1 = cache ∨
      (getBlockTemplate cache call).1 = (refreshTemplate cache call).1 := by
  rw [getBlockTemplate]
  split
  · exact .inl rfl
  · right
    split
    · next h => rw [h]
    · next h =>
      rw [h]
      split <;> rfl

lemma cacheAfter_inv (calls : List (TemplateCall rules index)) :
    CacheInv rules index (cacheAfter calls) := by
  induction calls using List.reverseRecOn with
  | nil =>
    intro pindexPrev hsome
    cases hsome
  | append_singleton calls call ih =>
    rw [cacheAfter, foldl_append, foldl_cons, foldl_nil, ← cacheAfter]
    rcases getBlockTemplate_cache (cacheAfter calls) call with h | h
    · rwa [h]
    · rw [h]
      exact refreshTemplate_inv ih call

/-! ## The reply -/

variable {call : TemplateCall rules index}

lemma checked_of_createNewBlock {t : CBlockTemplate Hash}
    (h : createNewBlock call.ctx call.options call.selected = .ok t) :
    (∀ tx ∈ t.block.vtx, CheckedTx tx) ∧ (∀ tx ∈ t.block.vtx.head?, tx.isCoinBase) ∧
      ∀ tx ∈ t.block.vtx.tail, ¬ tx.isCoinBase := by
  simp only [createNewBlock, bind_eq_ok, pure_eq_ok] at h
  obtain ⟨t', -, _, htest, rfl⟩ := h
  have hvalid : testBlockValidity call.ctx t'.block = .ok () := htest
  simp only [testBlockValidity, checkBlock, bind_eq_ok, ensure_eq_ok] at hvalid
  obtain ⟨_, -, _, ⟨_, -, _, -, _, -, _, hfirst, _, hrest, _, htxs, -⟩, -⟩ := hvalid
  exact ⟨fun tx hmem => .of_checkTransaction (forM_eq_ok htxs tx hmem), hfirst, hrest⟩

section

variable {t : CBlockTemplate Hash} {preSegWit : Bool} {coinbase : CTransaction Hash}
  {txs : List (CTransaction Hash)} (hvtx : t.block.vtx = coinbase :: txs)

include hvtx

lemma replyTransactions_fees {l : List (ReplyTx Hash)} (h : replyTransactions t preSegWit = .ok l)
    (hcoinbase : coinbase.isCoinBase) (hrest : ∀ tx ∈ txs, ¬ tx.isCoinBase)
    (hlength : t.vTxFees.length = txs.length) : l.map ReplyTx.fee = t.vTxFees := by
  have hfilter : t.block.vtx.zipIdx.filter (fun p => ¬ p.1.isCoinBase) = txs.zipIdx 1 := by
    rw [hvtx, zipIdx_cons, filter_cons_of_neg (by simpa using hcoinbase),
      filter_eq_self]
    intro p hp
    simpa using hrest p.1 (fst_mem_of_mem_zipIdx hp)
  rw [replyTransactions, hfilter] at h
  have hall := mapM_eq_ok h
  have hlen : l.length = txs.length := by simpa using hall.length_eq.symm
  refine ext_getElem (by rw [length_map, hlen, hlength]) fun k hk hk' => ?_
  have hentry := hall.get (i := k) (by simpa [hlength] using hk') (by simpa using hk)
  simp only [get_eq_getElem, getElem_zipIdx, Nat.add_comm 1 k, Nat.add_sub_cancel,
    List.getElem?_eq_getElem hk'] at hentry
  split at hentry
  · next hfee _ =>
    split at hentry
    · cases hentry
    · rw [getElem_map, ← Except.ok.inj hentry]
      exact (Option.some.inj hfee).symm
  · cases hentry

lemma templateReply_eq_ok {params : Params} {checks : Except String Unit}
    {pindexPrev : IndexEntry Hash} {reply : TemplateReply Hash}
    (h : templateReply params preSegWit checks pindexPrev t = .ok reply) :
    replyTransactions t preSegWit = .ok reply.transactions ∧
      reply.coinbasevalue = totalOut coinbase.vout ∧
      reply.treasury_value = treasuryReward params (pindexPrev.nHeight + 1) ∧
      reply.treasury_script = params.treasury_script_pub_key ∧
      reply.height = pindexPrev.nHeight + 1 ∧
      (reply.treasury_value = 0 ∨ ∃ out ∈ coinbase.vout, out.nValue = reply.treasury_value) := by
  simp only [templateReply, bind_eq_ok, ensure_eq_ok, pure_eq_ok, hvtx] at h
  obtain ⟨transactions, htxs, _, -, _, hcheck, rfl⟩ := h
  refine ⟨htxs, rfl, rfl, rfl, rfl, hcheck.imp_right fun hfound => ?_⟩
  obtain ⟨out, hfind, hvalue⟩ := Option.map_eq_some_iff.1 hfound
  exact ⟨out, mem_of_find?_eq_some hfind, hvalue⟩

end

variable {reply : TemplateReply Hash}

lemma getBlockTemplate_eq_ok {cache : TemplateCache Hash} (hinv : CacheInv rules index cache)
    (h : (getBlockTemplate cache call).2 = .ok reply) :
    ∃ (built : TemplateCall rules index) (t : _), built.ctx.tip = call.ctx.tip ∧
      createNewBlock built.ctx built.options built.selected = .ok t ∧
      templateReply rules.params (!call.ctx.segwitActive) call.versionBitsChecks call.ctx.tip t =
        .ok reply := by
  have hnext := refreshTemplate_inv hinv call
  have htip := refreshTemplate_tip hinv call
  rw [getBlockTemplate] at h
  split at h
  · cases h
  · split at h
    · cases h
    · next cache' hrefresh =>
      rw [hrefresh] at hnext htip
      split at h
      · next pindexPrev t hprev htemplate =>
        obtain ⟨built, t', ht', hbuilt, hcreate⟩ := hnext pindexPrev hprev
        obtain rfl : t = t' := Option.some.inj (htemplate.symm.trans ht')
        obtain rfl : pindexPrev = call.ctx.tip := htip pindexPrev hprev
        exact ⟨built, t, hbuilt, hcreate, h⟩
      · cases h

/-! ## The pool's coinbase -/

/-- The outputs of a coinbase built from a reply: amounts are not negative, what goes to the
treasury's script is exactly the value named, and the rest is within what remains. -/
structure PoolOutputs (reply : TemplateReply Hash) (vout : List CTxOut) : Prop where
  nonneg : ∀ out ∈ vout, 0 ≤ out.nValue
  treasury : totalOut (vout.filter fun out => out.scriptPubKey = reply.treasury_script) =
    reply.treasury_value
  rest : totalOut (vout.filter fun out => ¬ out.scriptPubKey = reply.treasury_script) ≤
    reply.coinbasevalue - reply.treasury_value

omit [DecidableEq Hash] [Zero Hash] in
lemma PoolOutputs.totalOut_le {vout : List CTxOut}
    (h : PoolOutputs reply vout) : totalOut vout ≤ reply.coinbasevalue := by
  have hsplit := totalOut_filter_add (fun out => out.scriptPubKey = reply.treasury_script) vout
  have htreasury := h.treasury
  have hrest := h.rest
  omega

/-- **A pool that follows the reply is accepted.**  After any sequence of calls, whatever tips,
mempools and failures they met, a reply of `getblocktemplate` offers exactly the fees it lists
plus the subsidy at its height, which is the next one on the current tip; and every coinbase
built from it passes the validator's amount and treasury checks there. -/
theorem getBlockTemplate_pool_coinbase (calls : List (TemplateCall rules index))
    (call : TemplateCall rules index) (reply : TemplateReply Hash)
    (h : (getBlockTemplate (cacheAfter calls) call).2 = .ok reply) :
    reply.height = call.ctx.tip.nHeight + 1 ∧
      reply.coinbasevalue = (reply.transactions.map ReplyTx.fee).sum +
        getBlockSubsidy reply.height rules.params ∧
      ∀ vout, PoolOutputs reply vout →
        checkCoinbase rules.params reply.height (reply.transactions.map ReplyTx.fee).sum vout =
          .ok () := by
  obtain ⟨built, t, htip, hcreate, hreply⟩ := getBlockTemplate_eq_ok (cacheAfter_inv calls) h
  have hspec := buildTemplate_spec (buildTemplate_of_createNewBlock hcreate)
  obtain ⟨hchecked, hfirst, hrest⟩ := checked_of_createNewBlock hcreate
  have hvtx := hspec.vtx_eq
  rw [hvtx] at hchecked hfirst hrest
  obtain ⟨htxs, hvalue, htreasury, hscript, hheight, hfound⟩ := templateReply_eq_ok hvtx hreply
  have hcoinbase := hchecked _ mem_cons_self
  have hfees : (reply.transactions.map ReplyTx.fee).sum =
      (built.selected.map MempoolEntry.fee).sum := by
    rw [replyTransactions_fees hvtx htxs (hfirst _ rfl) hrest (by rw [hspec.fees_eq]; simp),
      hspec.fees_eq]
  -- A negative share would be the value of an output of the coinbase that was checked.
  have hshare : 0 ≤ treasuryReward rules.params (call.ctx.tip.nHeight + 1) := by
    rw [← htreasury]
    rcases hfound with hzero | ⟨out, hmem, hout⟩
    · exact hzero.ge
    · exact hout ▸ hcoinbase.out_nonneg out hmem
  have hoffer : reply.coinbasevalue = (reply.transactions.map ReplyTx.fee).sum +
      getBlockSubsidy reply.height rules.params := by
    rw [hvalue, totalOut_generateCoinbaseCommitment, hfees, hheight]
    rw [coinbaseTx, built.ctx_rules, htip]
    exact totalOut_coinbaseOutputs hshare
  refine ⟨hheight, hoffer, fun vout hpool => checkCoinbase_eq_ok.2 ⟨hpool.nonneg, ?_, ?_, ?_⟩⟩
  · exact (hpool.totalOut_le.trans hvalue.le).trans hcoinbase.total_le
  · exact hpool.totalOut_le.trans hoffer.le
  · intro _ hne
    have hpaid := hpool.treasury
    rw [hscript, htreasury, treasuryReward, if_neg hne, ← hheight] at hpaid
    exact hpaid

/-- A first call to a node of the main network that has only the genesis block. -/
def firstCall : TemplateCall (lenientRules mainParams)
    ⟨fun hash => if hash = 1 then some firstBlockContext.tip else none⟩ where
  requestChecks := .ok ()
  ctx := firstBlockContext
  ctx_rules := rfl
  tip_indexed := rfl
  selected := []
  block_reserved_weight := 8000
  transactionsUpdated := 0
  now := 1
  available := true
  versionBitsChecks := .ok ()

/-- The outputs of a pool that takes nine tenths of the subsidy and pays the treasury. -/
def firstPayout : List CTxOut :=
  [⟨900000000, [0x51]⟩, ⟨100000000, mainParams.treasury_script_pub_key⟩]

theorem getBlockTemplate_pool_firstCall :
    ∃ reply, (getBlockTemplate (cacheAfter [firstCall, firstCall]) firstCall).2 = .ok reply ∧
      reply.height = 1 ∧ reply.coinbasevalue = (reply.transactions.map ReplyTx.fee).sum +
        getBlockSubsidy reply.height mainParams ∧ PoolOutputs reply firstPayout ∧
      checkCoinbase mainParams reply.height (reply.transactions.map ReplyTx.fee).sum firstPayout =
        .ok () := by
  have hok : (getBlockTemplate (cacheAfter [firstCall, firstCall]) firstCall).2.map
      (fun reply => (reply.coinbasevalue, reply.treasury_value, reply.treasury_script)) =
        .ok (1000000000, 100000000, mainParams.treasury_script_pub_key) := by decide
  cases hrun : (getBlockTemplate (cacheAfter [firstCall, firstCall]) firstCall).2 with
  | error e =>
    rw [hrun] at hok
    cases hok
  | ok reply =>
    rw [hrun, Except.map, Except.ok.injEq, Prod.mk.injEq, Prod.mk.injEq] at hok
    obtain ⟨hvalue, htreasury, hscript⟩ := hok
    obtain ⟨hheight, hoffer, haccept⟩ :=
      getBlockTemplate_pool_coinbase [firstCall, firstCall] firstCall reply hrun
    have hpool : PoolOutputs reply firstPayout := by
      refine ⟨by decide, ?_, ?_⟩
      · rw [hscript, htreasury]
        decide
      · rw [hscript, htreasury, hvalue]
        decide
    exact ⟨reply, rfl, hheight, hoffer, hpool, haccept _ hpool⟩

end SlithyTove
