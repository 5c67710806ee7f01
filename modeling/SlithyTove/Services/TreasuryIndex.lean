import SlithyTove.Consensus.Params
import SlithyTove.Framework.Decimal
import SlithyTove.Framework.Forest
import SlithyTove.Framework.Stateful
import Mathlib.Data.List.AList

/-!
# The treasury index of the status server

`slithy-node-status-server.py` follows the treasury by scanning blocks: every call of
`treasury_status` asks the node for up to a hundred more blocks and adds them to an index of five
global variables.  The node is asked once for each hash and once for each block, and its active
chain may change between any two of these calls, a call may fail, and the scan stops after five
seconds.

What the node stores is fixed: `NodeBlocks` has the blocks with their parents.  What the outside
does is an `Environment`: the active tip at every call, or that the call fails, and whether the
deadline has passed.  The result is that the index is never mixed: after every call it is empty, or
what scanning the chain up to its last block gives.

Amounts are in units of `10^-8`, and Python's `Decimal` rounds to 28 digits.
-/

namespace SlithyTove

open Framework

/-! ## What the node answers -/

/-- The keys of an input that the scan reads: `coinbase`, or `txid` and `vout`. -/
structure RpcInput (Hash : Type) where
  coinbase : Bool
  prevout : Option (Hash × ℕ)

/-- An output; its script stands for the `hex` text, which determines it. -/
structure RpcOutput where
  value : ℤ
  n : ℕ
  scriptPubKey : CScript

/-- A transaction of a block. -/
structure RpcTx (Hash : Type) where
  txid : Hash
  vin : List (RpcInput Hash)
  vout : List RpcOutput

/-- The answer to `getblock` with verbosity 2. -/
structure RpcBlock (Hash : Type) where
  previousblockhash : Option Hash
  tx : List (RpcTx Hash)

/-- The blocks the node knows; the depth of a block is its height. -/
structure NodeBlocks (Hash : Type) extends Forest Hash where
  tx : Hash → List (RpcTx Hash)

/-- A block as `getblock` shows it. -/
def NodeBlocks.rpcBlock {Hash : Type} (node : NodeBlocks Hash) (hash : Hash) : RpcBlock Hash :=
  ⟨node.parent hash, node.tx hash⟩

/-- What happens around the collector.  Calls to the node are counted from the start. -/
structure Environment (Hash : Type) where
  /-- The tip of the active chain when a call is answered; nothing if the call fails. -/
  tip : ℕ → Option Hash
  /-- Whether the deadline has passed after a number of calls. -/
  late : ℕ → Bool

/-! ## The index -/

/-- The precision of the default decimal context. -/
def DECIMAL_PRECISION : ℕ := 28

/-- `+` on decimals. -/
def decAdd (a b : ℤ) : ℤ := roundDigits DECIMAL_PRECISION (a + b)

/-- `-` on decimals. -/
def decSub (a b : ℤ) : ℤ := roundDigits DECIMAL_PRECISION (a - b)

/-- An entry of `_treasury_utxos`. -/
structure TreasuryUtxo where
  value : ℤ
  height : ℕ
  coinbase : Bool

/-- The five globals; an empty hash is `none`. -/
structure TreasuryIndex (Hash : Type) where
  height : ℕ
  hash : Option Hash
  utxos : AList fun _ : Hash × ℕ => TreasuryUtxo
  rewards : ℤ
  spent : ℤ

/-- The settings of the collector. -/
structure CollectorConfig where
  TREASURY_SCRIPT : CScript
  TREASURY_ADDRESS : String

/-- What `reset_treasury_index` leaves. -/
def TreasuryIndex.reset {Hash : Type} : TreasuryIndex Hash := ⟨0, none, ∅, 0, 0⟩

variable {Hash : Type} [DecidableEq Hash] (config : CollectorConfig)

/-- The variables of the scan of one transaction. -/
structure TxScan (Hash : Type) where
  utxos : AList fun _ : Hash × ℕ => TreasuryUtxo
  rewards : ℤ
  spent_value : ℤ
  received_value : ℤ

/-- One input: a treasury output that it spends leaves the index. -/
def scanInput (s : TxScan Hash) (vin : RpcInput Hash) : TxScan Hash :=
  match vin.prevout with
  | none => s
  | some key =>
    match s.utxos.lookup key with
    | none => s
    | some spent =>
      { s with utxos := s.utxos.erase key, spent_value := decAdd s.spent_value spent.value }

/-- One output: if it pays the treasury it enters the index, and counts as a reward in a
coinbase. -/
def scanOutput (txid : Hash) (block_height : ℕ) (is_coinbase : Bool) (s : TxScan Hash)
    (output : RpcOutput) : TxScan Hash :=
  if output.scriptPubKey ≠ config.TREASURY_SCRIPT then s
  else
    { s with
      utxos := s.utxos.insert (txid, output.n) ⟨output.value, block_height, is_coinbase⟩
      rewards := if is_coinbase then decAdd s.rewards output.value else s.rewards
      received_value := decAdd s.received_value output.value }

/-- One transaction.  Change that comes back is not spending. -/
def indexTx (block_height : ℕ) (c : TreasuryIndex Hash) (tx : RpcTx Hash) : TreasuryIndex Hash :=
  let is_coinbase := tx.vin.any fun v => v.coinbase
  let s := tx.vin.foldl scanInput ⟨c.utxos, c.rewards, 0, 0⟩
  let s := tx.vout.foldl (scanOutput config tx.txid block_height is_coinbase) s
  { c with
    utxos := s.utxos
    rewards := s.rewards
    spent := if s.spent_value ≠ 0 then
        decAdd c.spent (max 0 (decSub s.spent_value s.received_value))
      else c.spent }

/-- One block. -/
def indexBlock (block_height : ℕ) (block_hash : Hash) (block : RpcBlock Hash)
    (c : TreasuryIndex Hash) : TreasuryIndex Hash :=
  { block.tx.foldl (indexTx config block_height) c with
    height := block_height
    hash := some block_hash }

/-! ## The report -/

/-- An amount with eight decimals, as `:.8f` shows it. -/
def formatAmount (value : ℤ) : String :=
  let digits := toString (value.natAbs % 100000000)
  (if value < 0 then "-" else "") ++ toString (value.natAbs / 100000000) ++ "." ++
    String.ofList (List.replicate (8 - digits.length) '0') ++ digits

/-- The eight decimals of an amount. -/
def decimals (value : ℤ) : List Char :=
  let digits := Nat.toDigits 10 (value.natAbs % 100000000)
  List.replicate (8 - digits.length) '0' ++ digits

lemma toList_formatAmount (value : ℤ) : (formatAmount value).toList =
    (if value < 0 then ['-'] else []) ++ Nat.toDigits 10 (value.natAbs / 100000000) ++
      ('.' :: decimals value) := by
  have hlength (n : ℕ) : (toString n).length = (Nat.toDigits 10 n).length := by
    rw [Nat.toString_eq_ofList_toDigits, String.length_ofList]
  have hlist (n : ℕ) : (toString n).toList = Nat.toDigits 10 n := Nat.toList_repr
  unfold formatAmount decimals
  simp only [String.toList_append, String.toList_ofList, hlength, hlist, List.append_assoc]
  split <;> rfl

lemma length_decimals (value : ℤ) : (decimals value).length = 8 := by
  have hle : (Nat.toDigits 10 (value.natAbs % 100000000)).length ≤ 8 :=
    (Nat.length_toDigits_le_iff (by decide) (by decide)).2 (Nat.mod_lt _ (by decide))
  rw [decimals, List.length_append, List.length_replicate]
  omega

lemma ofDigitChars_decimals (value : ℤ) :
    Nat.ofDigitChars 10 (decimals value) 0 = value.natAbs % 100000000 := by
  rw [decimals, Nat.ofDigitChars_append, Nat.ofDigitChars_replicate_zero, Nat.mul_zero,
    Nat.ofDigitChars_ten_toDigits]

/-- **The text of an amount determines it.** -/
lemma formatAmount_injective : Function.Injective formatAmount := by
  intro v w heq
  have hlists := congrArg String.toList heq
  rw [toList_formatAmount, toList_formatAmount] at hlists
  obtain ⟨hwhole, hrest⟩ := List.append_inj' hlists (by
    rw [List.length_cons, List.length_cons, length_decimals, length_decimals])
  have hdecimals := congrArg (fun l => Nat.ofDigitChars 10 l 0) (List.cons_inj_right _ |>.1 hrest)
  rw [ofDigitChars_decimals, ofDigitChars_decimals] at hdecimals
  have hdigits {n k : ℕ} (h : Nat.toDigits 10 n = Nat.toDigits 10 k) : n = k := by
    rw [← @Nat.ofDigitChars_ten_toDigits n, h, Nat.ofDigitChars_ten_toDigits]
  -- No digit is a minus sign.
  have hsign {n k : ℕ} : '-' :: Nat.toDigits 10 n ≠ Nat.toDigits 10 k := fun h =>
    absurd (Nat.isDigit_of_mem_toDigits (by decide) (by decide) (h ▸ List.mem_cons_self))
      (by decide)
  split at hwhole <;> split at hwhole
  · have := hdigits (List.cons_inj_right _ |>.1 hwhole)
    omega
  · exact absurd hwhole hsign
  · exact absurd hwhole.symm hsign
  · have := hdigits hwhole
    omega

/-- The dictionary that is published. -/
structure TreasuryReport where
  treasuryAddress : String
  accruedRewards : String
  currentBalance : String
  unlockedBalance : String
  immatureBalance : String
  totalSpent : String
  deriving DecidableEq

/-- The sum of decimals. -/
def decSum (values : List ℤ) : ℤ := values.foldl decAdd 0

/-- The dictionary at a height.  A coinbase output is unlocked after a hundred blocks. -/
def treasuryReport (height : ℕ) (c : TreasuryIndex Hash) : TreasuryReport :=
  let utxos := c.utxos.entries.map Sigma.snd
  let current := decSum (utxos.map TreasuryUtxo.value)
  let unlocked := decSum ((utxos.filter fun u =>
    !u.coinbase || decide ((height : ℤ) - u.height + 1 ≥ 100)).map TreasuryUtxo.value)
  { treasuryAddress := config.TREASURY_ADDRESS
    accruedRewards := formatAmount c.rewards
    currentBalance := formatAmount current
    unlockedBalance := formatAmount unlocked
    immatureBalance := formatAmount (decSub current unlocked)
    totalSpent := formatAmount c.spent }

/-! ## The collector -/

/-- The index, and how many calls the node has answered or failed. -/
structure Session (Hash : Type) where
  index : TreasuryIndex Hash
  calls : ℕ

/-- A procedure of the collector; exceptions leave the globals as they are. -/
abbrev Collector (Hash : Type) := EStateM String (Session Hash)

variable (node : NodeBlocks Hash) (env : Environment Hash)

/-- `cli("getblockhash", height)`: the block of the active chain at that height. -/
def getblockhash (height : ℕ) : Collector Hash Hash := fun s =>
  match env.tip s.calls with
  | none => .error "getblockhash" { s with calls := s.calls + 1 }
  | some tip =>
    match node.atDepth tip height with
    | none => .error "Block height out of range" { s with calls := s.calls + 1 }
    | some hash => .ok hash { s with calls := s.calls + 1 }

/-- `read_block`: any block the node knows. -/
def readBlock (block_hash : Hash) : Collector Hash (RpcBlock Hash) := fun s =>
  match env.tip s.calls with
  | none => .error "getblock" { s with calls := s.calls + 1 }
  | some _ => .ok (node.rpcBlock block_hash) { s with calls := s.calls + 1 }

/-- The globals. -/
def readIndex : Collector Hash (TreasuryIndex Hash) := fun s => .ok s.index s

def writeIndex (index : TreasuryIndex Hash) :
    Collector Hash Unit := fun s => .ok () { s with index }

/-- `time.monotonic() >= deadline`. -/
def deadlinePassed : Collector Hash Bool := fun s => .ok (env.late s.calls) s

/-- The first check: the index is dropped if it is too high or its last block is not active. -/
def checkIndexed (height : ℕ) : Collector Hash Unit := do
  let c ← readIndex
  if c.height > height then writeIndex .reset
  else if c.height ≠ 0 then
    let hash ← getblockhash node env c.height
    if some hash ≠ c.hash then writeIndex .reset

/-- The scan over the given heights; `false` if it returns because the chain changed. -/
def scanBlocks : List ℕ → Collector Hash Bool
  | [] => return true
  | block_height :: rest => do
    let block_hash ← getblockhash node env block_height
    let block ← readBlock node env block_hash
    let c ← readIndex
    if c.hash.isSome ∧ block.previousblockhash ≠ c.hash then
      writeIndex .reset
      return false
    else
      writeIndex (indexBlock config block_height block_hash block c)
      if ← deadlinePassed env then return true
      else scanBlocks rest

/-- The end of a call: the last check and the dictionary. -/
def finishReport (height : ℕ) : Collector Hash (Option TreasuryReport) := do
  let c ← readIndex
  if c.height ≠ height then return none
  else if height = 0 then return some (treasuryReport config height c)
  else
    let hash ← getblockhash node env height
    if some hash ≠ c.hash then
      writeIndex .reset
      return none
    else return some (treasuryReport config height c)

/-- The heights one call looks at: a hundred at most. -/
def scanHeights (c : TreasuryIndex Hash) (height : ℕ) : List ℕ :=
  List.range' (c.height + 1) (min height (c.height + 100) - c.height)

/-- `advance_treasury_index`. -/
def advanceTreasuryIndex (height : ℕ) : Collector Hash (Option TreasuryReport) :=
  if config.TREASURY_SCRIPT = [] ∨ config.TREASURY_ADDRESS = "" then return none
  else do
    checkIndexed node env height
    let c ← readIndex
    if ← scanBlocks config node env (scanHeights c height) then finishReport config node env height
    else return none

/-- `treasury_status`: an exception drops the index. -/
def treasuryStatus (height : ℕ) : Collector Hash (Option TreasuryReport) := fun s =>
  match advanceTreasuryIndex config node env height s with
  | .ok report s => .ok report s
  | .error e s => .error e { s with index := .reset }

/-- The session after a call, whether it returned or raised. -/
def afterCall (s : Session Hash) (height : ℕ) : Session Hash :=
  match treasuryStatus config node env height s with
  | .ok _ s => s
  | .error _ s => s

/-- The session after calls for the given heights, from the start of the server on. -/
def afterCalls (heights : List ℕ) : Session Hash :=
  heights.foldl (afterCall config node env) ⟨.reset, 0⟩

/-! ## What the index should be -/

/-- The block at height `k + 1` of the chain that ends in `x`, added to the index. -/
def indexAncestor (x : Hash) (c : TreasuryIndex Hash) (k : ℕ) : TreasuryIndex Hash :=
  match node.atDepth x (k + 1) with
  | none => c
  | some y => indexBlock config (k + 1) y (node.rpcBlock y) c

/-- The blocks of the chain that ends in `x`, from height one on, added to an empty index. -/
def indexChain (x : Hash) : TreasuryIndex Hash :=
  (List.range (node.depth x)).foldl (indexAncestor config node x) .reset

variable {config node env} {x : Hash}

lemma indexChain_root (hx : node.depth x = 0) : indexChain config node x = .reset := by
  rw [indexChain, hx]
  rfl

lemma indexChain_child {p : Hash} (hp : node.parent x = some p) :
    indexChain config node x =
      indexBlock config (node.depth x) x (node.rpcBlock x) (indexChain config node p) := by
  have hdepth := node.depth_child x p hp
  have hbelow : ∀ c, ∀ k ∈ List.range (node.depth p),
      indexAncestor config node x c k = indexAncestor config node p c k := by
    intro c k hk
    rw [indexAncestor, indexAncestor, Forest.atDepth_of_parent hp (List.mem_range.1 hk)]
  have hlast : ∀ c, indexAncestor config node x c (node.depth p) =
      indexBlock config (node.depth x) x (node.rpcBlock x) c := by
    intro c
    rw [indexAncestor, ← hdepth, Forest.atDepth_self]
  rw [indexChain, hdepth, List.range_succ, List.foldl_append, List.foldl_cons,
    List.foldl_nil, hlast,
    indexChain, List.foldl_ext _ _ _ hbelow, hdepth]

lemma indexChain_last (config : CollectorConfig) (hx : 0 < node.depth x) :
    (indexChain config node x).height = node.depth x ∧
      (indexChain config node x).hash = some x := by
  obtain ⟨p, hp, -⟩ := node.exists_parent hx
  rw [indexChain_child hp]
  exact ⟨rfl, rfl⟩

/-- The index is empty or that of one chain. -/
def Indexed (config : CollectorConfig) (node : NodeBlocks Hash) (c : TreasuryIndex Hash) : Prop :=
  c = .reset ∨ ∃ x, 0 < node.depth x ∧ c = indexChain config node x

variable {c : TreasuryIndex Hash}

lemma Indexed.extend (h : Indexed config node c)
    (hdepth : node.depth x = c.height + 1) (hprev : c.hash.isSome → node.parent x = c.hash) :
    indexBlock config (node.depth x) x (node.rpcBlock x) c = indexChain config node x := by
  obtain ⟨p, hp, hdepth'⟩ := node.exists_parent (show 0 < node.depth x by omega)
  rw [indexChain_child hp]
  rcases h with rfl | ⟨y, hy, rfl⟩
  · rw [indexChain_root]
    have : (TreasuryIndex.reset : TreasuryIndex Hash).height = 0 := rfl
    omega
  · obtain ⟨-, hhash⟩ := indexChain_last config hy
    have hy' := hprev (by rw [hhash]; rfl)
    rw [hhash, hp, Option.some.injEq] at hy'
    rw [hy']

lemma Indexed.eq_reset (h : Indexed config node c) (hc : c.height = 0) : c = .reset := by
  rcases h with rfl | ⟨x, hx, rfl⟩
  · rfl
  · rw [(indexChain_last config hx).1] at hc
    omega

/-! ## The calls -/

variable {s : Session Hash}

omit [DecidableEq Hash] in
lemma getblockhash_ends (height : ℕ) :
    Ends (getblockhash node env height s)
      (fun x s' => s' = ⟨s.index, s.calls + 1⟩ ∧
        ∃ tip, env.tip s.calls = some tip ∧ node.atDepth tip height = some x)
      (fun _ _ => True) := by
  unfold getblockhash
  cases htip : env.tip s.calls with
  | none => trivial
  | some tip =>
    dsimp only
    cases hx : node.atDepth tip height with
    | none => trivial
    | some x => exact ⟨rfl, tip, rfl, hx⟩

omit [DecidableEq Hash] in
lemma readBlock_ends (x : Hash) :
    Ends (readBlock node env x s)
      (fun block s' => s' = ⟨s.index, s.calls + 1⟩ ∧ block = node.rpcBlock x)
      (fun _ _ => True) := by
  unfold readBlock
  cases env.tip s.calls with
  | none => trivial
  | some tip => exact ⟨rfl, rfl⟩

section

variable (h : Indexed config node s.index)

include h

lemma checkIndexed_ends {height : ℕ} : Ends (checkIndexed node env height s)
      (fun _ s' => Indexed config node s'.index ∧ s'.index.height ≤ height) (fun _ _ => True) := by
  change Ends ((if s.index.height > height then writeIndex .reset else _ :
    Collector Hash Unit) s) _ _
  split
  · exact ⟨.inl rfl, Nat.zero_le _⟩
  · next hle =>
    split
    · refine (getblockhash_ends s.index.height).bind ?_
      rintro x _ ⟨rfl, -⟩
      split
      · exact ⟨.inl rfl, Nat.zero_le _⟩
      · exact ⟨h, Nat.le_of_not_lt hle⟩
    · exact ⟨h, Nat.le_of_not_lt hle⟩

lemma scanBlocks_ends {len : ℕ} :
    Ends (scanBlocks config node env (List.range' (s.index.height + 1) len) s)
      (fun _ s' => Indexed config node s'.index) (fun _ _ => True) := by
  induction len generalizing s with
  | zero => exact h
  | succ len ih =>
    rw [List.range'_succ, scanBlocks]
    refine (getblockhash_ends _).bind ?_
    rintro x _ ⟨rfl, tip, -, hx⟩
    refine (readBlock_ends x).bind ?_
    rintro _ _ ⟨rfl, rfl⟩
    obtain ⟨-, hdepth⟩ := Forest.atDepth_eq_some_iff.1 hx
    change Ends ((if s.index.hash.isSome ∧ node.parent x ≠ s.index.hash then _ else _ :
      Collector Hash Bool) _) _ _
    split
    · exact .inl rfl
    · next hlinked =>
      have hextend := h.extend hdepth fun hsome => by
        by_contra hne
        exact hlinked ⟨hsome, hne⟩
      have hnext : Indexed config node (indexChain config node x) :=
        .inr ⟨x, by omega, rfl⟩
      have hheight := (indexChain_last config (show 0 < node.depth x by omega)).1
      rw [← hdepth, hextend]
      change Ends ((if env.late (s.calls + 1 + 1) then _ else _ : Collector Hash Bool) _) _ _
      split
      · exact hnext
      · have hrec := ih (s := ⟨indexChain config node x, s.calls + 1 + 1⟩) hnext
        rw [hheight] at hrec
        exact hrec

/-- The last call to the node found the last block of the index on the active chain at a height. -/
def Confirmed (node : NodeBlocks Hash) (env : Environment Hash) (height : ℕ) (s : Session Hash) :
    Prop :=
  ∃ calls tip, s.calls = calls + 1 ∧ env.tip calls = some tip ∧
    s.index.hash.isSome ∧ node.atDepth tip height = s.index.hash

/-- What holds where a call returns. -/
structure CallReturns (config : CollectorConfig) (node : NodeBlocks Hash) (env : Environment Hash)
    (height : ℕ) (report : Option TreasuryReport) (s : Session Hash) : Prop where
  indexed : Indexed config node s.index
  /-- At height zero the node is not asked. -/
  zero : report.isSome → height = 0 → s.index = .reset
  confirmed : report.isSome → height ≠ 0 → Confirmed node env height s

/-- What is returned is the dictionary of the index that is left. -/
structure Reported (config : CollectorConfig) (height : ℕ) (report : Option TreasuryReport)
    (s : Session Hash) : Prop where
  set : report.isSome → config.TREASURY_SCRIPT ≠ []
  report_eq : ∀ r ∈ report, r = treasuryReport config height s.index
  height_eq : report.isSome → s.index.height = height

lemma finishReport_ends (height : ℕ) (hset : config.TREASURY_SCRIPT ≠ []) :
    Ends (finishReport config node env height s)
      (fun r s => CallReturns config node env height r s ∧ Reported config height r s)
      (fun _ _ => True) := by
  change Ends ((if s.index.height ≠ height then _ else _ : Collector Hash _) s) _ _
  split
  · exact ⟨⟨h, nofun, nofun⟩, nofun, nofun, nofun⟩
  · next hheight =>
    rw [not_not] at hheight
    have hreported : Reported config height (some (treasuryReport config height s.index)) s :=
      ⟨fun _ => hset, fun r hr => (Option.some.inj hr).symm, fun _ => hheight⟩
    split
    · next hzero =>
      refine ⟨⟨h, fun _ _ => ?_, fun _ hpos => absurd hzero hpos⟩, hreported⟩
      exact h.eq_reset (hheight.trans hzero)
    · next hpos =>
      refine (getblockhash_ends height).bind ?_
      rintro x _ ⟨rfl, tip, htip, hx⟩
      split
      · exact ⟨⟨.inl rfl, nofun, nofun⟩, nofun, nofun, nofun⟩
      · next hsame =>
        rw [not_not] at hsame
        refine ⟨⟨h, fun _ hzero => absurd hzero hpos, fun _ _ => ?_⟩, hreported.1, hreported.2,
          hreported.3⟩
        exact ⟨s.calls, tip, rfl, htip, hsame ▸ rfl, hx.trans hsame⟩

lemma advanceTreasuryIndex_ends (height : ℕ) : Ends (advanceTreasuryIndex config node env height s)
      (fun r s => CallReturns config node env height r s ∧ Reported config height r s)
      (fun _ _ => True) := by
  unfold advanceTreasuryIndex
  split
  · exact ⟨⟨h, nofun, nofun⟩, nofun, nofun, nofun⟩
  · next hset =>
    rw [not_or] at hset
    refine (checkIndexed_ends h).bind ?_
    rintro _ s₁ ⟨h₁, -⟩
    refine (scanBlocks_ends h₁).bind ?_
    intro scanned s₂ h₂
    cases scanned with
    | true => exact finishReport_ends h₂ height hset.1
    | false => exact ⟨⟨h₂, nofun, nofun⟩, nofun, nofun, nofun⟩

lemma treasuryStatus_ends (env : Environment Hash) (height : ℕ) :
    Ends (treasuryStatus config node env height s)
      (fun r s => CallReturns config node env height r s ∧ Reported config height r s)
      (fun _ s' => s'.index = .reset) := by
  have hadvance : Ends (advanceTreasuryIndex config node env height s) _ _ :=
    advanceTreasuryIndex_ends h height
  unfold treasuryStatus
  cases hrun : advanceTreasuryIndex config node env height s with
  | ok report s' =>
    rw [hrun] at hadvance
    exact hadvance
  | error e s' => rfl

lemma afterCall_indexed (env : Environment Hash) (height : ℕ) :
    Indexed config node (afterCall config node env s height).index := by
  have hstatus := treasuryStatus_ends h env height
  unfold afterCall
  cases hrun : treasuryStatus config node env height s with
  | ok report s' =>
    rw [hrun] at hstatus
    exact hstatus.1.indexed
  | error e s' =>
    rw [hrun] at hstatus
    exact .inl hstatus

end

lemma afterCalls_indexed (config : CollectorConfig) (node : NodeBlocks Hash)
    (env : Environment Hash) (heights : List ℕ) :
    Indexed config node (afterCalls config node env heights).index := by
  induction heights using List.reverseRecOn with
  | nil => exact .inl rfl
  | append_singleton heights height ih =>
    unfold afterCalls at ih ⊢
    rw [List.foldl_append]
    exact afterCall_indexed ih env height

/-- **The index is never mixed.**  However the active chain changes between the calls to the node,
whichever of them fail, and wherever the deadline cuts a scan short: after calls of
`treasury_status` for any heights the index is empty, or what adding the blocks of one chain gives,
up to the block it names.  Where a dictionary is returned, that block was on the active chain at the
last call, except that at height zero the index is empty and the node is not asked. -/
theorem treasuryStatus_never_mixed (config : CollectorConfig) (node : NodeBlocks Hash)
    (env : Environment Hash) (heights : List ℕ) :
    ((afterCalls config node env heights).index = .reset ∨
      ∃ x, (afterCalls config node env heights).index.hash = some x ∧
        (afterCalls config node env heights).index.height = node.depth x ∧
        (afterCalls config node env heights).index = indexChain config node x) ∧
    ∀ height report s',
      treasuryStatus config node env height (afterCalls config node env heights) =
        .ok (some report) s' →
      (height = 0 → s'.index = .reset) ∧ (height ≠ 0 → Confirmed node env height s') := by
  have hindexed := afterCalls_indexed config node env heights
  constructor
  · rcases hindexed with hreset | ⟨x, hx, hchain⟩
    · exact .inl hreset
    · obtain ⟨hheight, hhash⟩ := indexChain_last config hx
      rw [hchain]
      exact .inr ⟨x, hhash, hheight, rfl⟩
  · intro height report s' hrun
    have hreturns := ((treasuryStatus_ends hindexed env height).of_ok hrun).1
    exact ⟨hreturns.zero rfl, hreturns.confirmed rfl⟩

/-- Blocks `0`, `1`, `2` and so on, each with a reward of one coin for the script `51`. -/
def countingNode : NodeBlocks ℕ where
  parent n := if n = 0 then none else some (n - 1)
  depth n := n
  depth_root := by
    intro n hn
    by_contra hpos
    rw [if_neg hpos] at hn
    cases hn
  depth_child := by
    intro n p hp
    split at hp
    · cases hp
    · obtain rfl := Option.some.inj hp
      omega
  tx n := [⟨n, [⟨true, none⟩], [⟨100000000, 0, [0x51]⟩]⟩]

def countingConfig : CollectorConfig := ⟨[0x51], "treasury"⟩

/-- The tip is always block `1`. -/
def quietEnvironment : Environment ℕ := ⟨fun _ => some 1, fun _ => false⟩

/-- A first call for height one returns a dictionary, and the block it names is active. -/
theorem treasuryStatus_first_block :
    ∃ report s', treasuryStatus countingConfig countingNode quietEnvironment 1 ⟨.reset, 0⟩ =
        .ok (some report) s' ∧ Confirmed countingNode quietEnvironment 1 s' := by
  obtain ⟨report, s', hrun⟩ : ∃ report s', treasuryStatus countingConfig countingNode
      quietEnvironment 1 ⟨.reset, 0⟩ = .ok (some report) s' := ⟨_, _, rfl⟩
  have hall := treasuryStatus_never_mixed countingConfig countingNode quietEnvironment []
  exact ⟨report, s', hrun, (hall.2 1 report s' hrun).2 Nat.one_ne_zero⟩

/-- At height zero a dictionary is returned though the index names no block. -/
theorem treasuryStatus_height_zero :
    ∃ report s', treasuryStatus countingConfig countingNode quietEnvironment 0 ⟨.reset, 0⟩ =
        .ok (some report) s' ∧ s'.index.hash = none ∧
      ¬ Confirmed countingNode quietEnvironment 0 s' := by
  refine ⟨_, _, rfl, rfl, ?_⟩
  rintro ⟨calls, tip, hcalls, -⟩
  cases hcalls

end SlithyTove
