import SlithyTove.Desktop.RecoveryWallet

/-!
# What a failed setup leaves behind

When `CreateWalletFromRecoveryWordsAsync` throws, the new wallet should not be left unlocked.  The
handler of a failed import sees to that: it throws the exception of an unconfirmed lock unless the
node answered `walletlock`.  Before the import the method has no handler, and there one call can
unlock the wallet and still throw: `walletpassphrase`, when its reply is lost.
-/

namespace SlithyTove

open Framework

/-! ## Time alone -/

/-- Nothing but time has passed. -/
structure Passes (w w' : SetupWorld) : Prop where
  wallet : w'.wallet = w.wallet
  clock : w.clock ≤ w'.clock
  walletName : w'.walletName = w.walletName
  walletEncrypted : w'.walletEncrypted = w.walletEncrypted

lemma Passes.refl (w : SetupWorld) : Passes w w := ⟨rfl, le_rfl, rfl, rfl⟩

lemma Passes.trans {w₁ w₂ w₃ : SetupWorld} (h : Passes w₁ w₂) (h' : Passes w₂ w₃) :
    Passes w₁ w₃ :=
  ⟨h'.wallet.trans h.wallet, h.clock.trans h'.clock, h'.walletName.trans h.walletName,
    h'.walletEncrypted.trans h.walletEncrypted⟩

lemma passes_elapse (w : SetupWorld) (seconds : ℕ) : Passes w (w.elapse seconds) :=
  ⟨rfl, Nat.le_add_right .., rfl, rfl⟩

lemma Passes.elapse {w w' : SetupWorld} (h : Passes w w') (seconds : ℕ) :
    Passes w (w'.elapse seconds) :=
  h.trans (passes_elapse w' seconds)

/-- A computation that only takes time, whatever comes of it. -/
def OnlyTime {α : Type} (x : SetupM α) : Prop :=
  ∀ w, Ends (x w) (fun _ w' => Passes w w') (fun _ w' => Passes w w')

section OnlyTime

variable {α β : Type}

variable {x : SetupM α}

lemma OnlyTime.ends (h : OnlyTime x) (w : SetupWorld) :
    Ends (x w) (fun _ w' => Passes w w') (fun _ _ => True) :=
  (h w).mono (fun _ _ => id) fun _ _ _ => trivial

lemma onlyTime_pure (a : α) : OnlyTime (pure a : SetupM α) := fun w => Passes.refl w

lemma onlyTime_throw (e : SetupException) : OnlyTime (throw e : SetupM α) := fun w => Passes.refl w

lemma OnlyTime.bind {f : α → SetupM β} (hx : OnlyTime x) (hf : ∀ a, OnlyTime (f a)) :
    OnlyTime (x >>= f) := fun w =>
  Ends.bind (hx w) fun a w' hpass =>
    (hf a w').mono (fun _ _ => hpass.trans) fun _ _ => hpass.trans

lemma OnlyTime.tryCatch {handler : SetupException → SetupM α} (hx : OnlyTime x)
    (hhandler : ∀ e, OnlyTime (handler e)) : OnlyTime (tryCatch x handler) := fun w =>
  Ends.tryCatch (hx w) fun e w' hpass =>
    (hhandler e w').mono (fun _ _ => hpass.trans) fun _ _ => hpass.trans

lemma OnlyTime.ite {y : SetupM α} (p : Prop) [Decidable p] (hx : OnlyTime x) (hy : OnlyTime y) :
    OnlyTime (if p then x else y) := by
  split
  · exact hx
  · exact hy

lemma onlyTime_checking (x : Except ClientException α) : OnlyTime (checking x) := by
  cases x with
  | ok a => exact onlyTime_pure a
  | error e => exact onlyTime_throw _

variable (env : SetupEnvironment) (call : SetupCall)

lemma query_ends {w : SetupWorld} (reply : SetupWorld → Except String JsonElement) :
    Ends (query env call reply w)
      (fun info w' => Passes w w' ∧ ∃ w₁, Passes w w₁ ∧ reply w₁ = .ok info)
      (fun _ w' => Passes w w') := by
  unfold query callAsync
  cases env.fate call with
  | fails seconds failure => exact passes_elapse w seconds
  | lost before after failure =>
    dsimp only
    cases reply (w.elapse before) with
    | error message => exact (passes_elapse w before).elapse after
    | ok info => exact (passes_elapse w before).elapse after
  | answers before after =>
    dsimp only
    cases hreply : reply (w.elapse before) with
    | error message => exact (passes_elapse w before).elapse after
    | ok info =>
      exact ⟨(passes_elapse w before).elapse after, _, passes_elapse w before, hreply⟩

lemma onlyTime_query (reply : SetupWorld → Except String JsonElement) :
    OnlyTime (query env call reply) := fun _ =>
  (query_ends env call reply).mono (fun _ _ h => h.1) fun _ _ => id

lemma onlyTime_throwIfCancellationRequested (p : CancelPoint) :
    OnlyTime (throwIfCancellationRequested env p) :=
  OnlyTime.ite _ (onlyTime_throw _) (onlyTime_pure _)

lemma onlyTime_get : OnlyTime (get : SetupM SetupWorld) := fun w => Passes.refl w

lemma onlyTime_ensureWalletOpen : OnlyTime ensureWalletOpen :=
  onlyTime_get.bind fun _ => OnlyTime.ite _ (onlyTime_throw _) (onlyTime_pure _)

lemma onlyTime_ensureSameWallet (expected : String) : OnlyTime (ensureSameWallet expected) :=
  onlyTime_get.bind fun _ => OnlyTime.ite _ (onlyTime_throw _) (onlyTime_pure _)

lemma onlyTime_getCheckedDescriptorAsync (change : Bool) (descriptor : String) :
    OnlyTime (getCheckedDescriptorAsync env change descriptor) :=
  (onlyTime_query env _ _).bind fun _ => onlyTime_checking _

lemma onlyTime_prepareDescriptors (request : SetupRequest) :
    OnlyTime (prepareDescriptors env request) :=
  (onlyTime_checking _).bind fun _ =>
    (onlyTime_throwIfCancellationRequested env _).bind fun _ =>
      (onlyTime_query env _ _).bind fun _ =>
        (onlyTime_checking _).bind fun _ =>
          (onlyTime_checking _).bind fun _ =>
            (onlyTime_getCheckedDescriptorAsync env _ _).bind fun _ =>
              (onlyTime_getCheckedDescriptorAsync env _ _).bind fun _ => onlyTime_pure _

lemma onlyTime_importDescriptors (request : SetupRequest) (descriptors : List String) :
    OnlyTime (importDescriptors env request descriptors) := by
  have hwait : ∀ requests, OnlyTime (waitForImport env requests) := fun requests =>
    OnlyTime.ite _ (fun w => passes_elapse w _) (onlyTime_query env _ _)
  have hstop : ∀ e, OnlyTime (stopScan env e) := by
    intro e
    refine OnlyTime.ite _ ?_ (onlyTime_throw e)
    refine OnlyTime.bind ?_ fun _ => OnlyTime.bind (fun w => passes_elapse w _) fun _ =>
      onlyTime_throw e
    exact OnlyTime.tryCatch ((onlyTime_query env _ _).bind fun _ => onlyTime_pure _)
      fun _ => onlyTime_pure _
  exact (onlyTime_checking _).bind fun requests =>
    ((hwait requests).tryCatch hstop).bind fun _ =>
      (onlyTime_checking _).bind fun _ => onlyTime_throwIfCancellationRequested env _

end OnlyTime

/-! ## Locking -/

section Lock

variable (env : SetupEnvironment) {password : String} {w : SetupWorld}

/-- The new wallet is there, with this password. -/
def HasWallet (password : String) (w : SetupWorld) : Prop :=
  ∃ unlocked_until, w.wallet = some ⟨password, unlocked_until⟩

lemma HasWallet.passes {w' : SetupWorld} (h : HasWallet password w) (hpass : Passes w w') :
    HasWallet password w' :=
  h.imp fun _ hw => hpass.wallet.trans hw

lemma spendingLocked_of_none (hw : w.wallet = none) : w.SpendingLocked := by
  intro x hx
  rw [hw] at hx
  cases hx

section

variable (hpassword : password ≠ "")

include hpassword

lemma spendingLocked_of_new (hw : w.wallet = some ⟨password, 0⟩) : w.SpendingLocked := by
  intro x hx
  rw [← Option.some.inj (hw.symm.trans hx)]
  exact ⟨hpassword, Nat.zero_le _⟩

section

variable (hw : HasWallet password w)

include hw

lemma tryGetProperty_getwalletinfo {info : JsonElement} (hinfo : getwalletinfo env w = .ok info) :
    ∃ value, info.tryGetProperty "unlocked_until" = .ok (some value) := by
  obtain ⟨unlocked_until, hw⟩ := hw
  rw [getwalletinfo, hw] at hinfo
  simp only [hpassword, if_false, Except.ok.injEq] at hinfo
  rw [← hinfo]
  simp [JsonElement.tryGetProperty]

lemma knownEncrypted_ends :
    Ends (knownEncrypted env w) (fun b w' => b = true ∧ Passes w w') (fun _ _ => True) := by
  refine Ends.bind (P := fun a w' => a = w ∧ w' = w) ⟨rfl, rfl⟩ ?_
  rintro _ _ ⟨rfl, rfl⟩
  split
  · exact ⟨rfl, Passes.refl _⟩
  · refine Ends.bind (onlyTime_ensureWalletOpen.ends _) ?_
    intro _ w₁ hpass₁
    refine Ends.bind ((query_ends env _ _).mono (fun _ _ => id) fun _ _ _ => trivial) ?_
    rintro info w₂ ⟨hpass₂, w₃, hpass₃, hinfo⟩
    obtain ⟨value, hvalue⟩ :=
      tryGetProperty_getwalletinfo env hpassword (hw.passes (hpass₁.trans hpass₃)) hinfo
    rw [hvalue]
    exact ⟨rfl, hpass₁.trans hpass₂⟩

lemma walletlock_ends :
    Ends (callAsync env .walletlock (fun w =>
        onEncrypted "walletlock" w fun x => .ok { x with unlocked_until := 0 }) w)
      (fun _ w' => w'.wallet = some ⟨password, 0⟩) (fun _ _ => True) := by
  obtain ⟨unlocked_until, hw⟩ := hw
  unfold callAsync
  cases env.fate .walletlock with
  | fails seconds failure => trivial
  | lost before after failure =>
    dsimp only
    split <;> trivial
  | answers before after =>
    have hwallet : (w.elapse before).wallet = some ⟨password, unlocked_until⟩ := hw
    simp only [onEncrypted, hwallet, hpassword, if_false]
    rfl

lemma lockAndConfirm_ends (wallet : String) :
    Ends (lockAndConfirm env wallet w) (fun _ w' => w'.SpendingLocked) (fun _ _ => True) := by
  -- After the lock nothing changes the wallet any more.
  have hkeep : ∀ {α : Type} {x : SetupM α}, OnlyTime x → ∀ w₁ : SetupWorld,
      w₁.wallet = some ⟨password, 0⟩ →
      Ends (x w₁) (fun _ w₂ => w₂.wallet = some ⟨password, 0⟩) (fun _ _ => True) := by
    intro α x hx w₁ hw₁
    exact (hx.ends w₁).mono (fun _ _ hpass => hpass.wallet.trans hw₁) fun _ _ => id
  refine Ends.bind ((onlyTime_ensureSameWallet wallet).ends w) fun _ w₁ hpass => ?_
  refine Ends.bind (walletlock_ends env hpassword (hw.passes hpass)) fun _ w₂ hw₂ => ?_
  refine Ends.bind (hkeep (onlyTime_ensureSameWallet wallet) w₂ hw₂) fun _ w₃ hw₃ => ?_
  refine Ends.bind (hkeep (onlyTime_query env _ _) w₃ hw₃) fun _ w₄ hw₄ => ?_
  refine Ends.bind (hkeep (onlyTime_ensureSameWallet wallet) w₄ hw₄) fun _ w₅ hw₅ => ?_
  exact Ends.bind (hkeep (onlyTime_checking _) w₅ hw₅) fun _ _ => spendingLocked_of_new hpassword

/-- **Where `LockWalletOnlyAsync` returns, the wallet is locked.** -/
lemma lockWalletOnlyAsync_ends :
    Ends (lockWalletOnlyAsync env w) (fun _ w' => w'.SpendingLocked) (fun _ _ => True) := by
  refine Ends.bind (onlyTime_ensureWalletOpen.ends w) fun _ w₁ hpass₁ => ?_
  refine Ends.bind (P := fun a w' => a = w₁ ∧ w' = w₁) ⟨rfl, rfl⟩ ?_
  rintro _ _ ⟨rfl, rfl⟩
  refine Ends.bind (knownEncrypted_ends env hpassword (hw.passes hpass₁)) ?_
  rintro _ w₂ ⟨rfl, hpass₂⟩
  exact lockAndConfirm_ends env hpassword (hw.passes (hpass₁.trans hpass₂)) _

lemma lockAfterFailure_ends (importError : SetupException) :
    Ends (lockAfterFailure env importError w) (fun _ _ => False)
      (fun e w' => e.reportsUnconfirmedLock = false → w'.SpendingLocked) := by
  refine Ends.bind (Ends.tryCatch (lockWalletOnlyAsync_ends env hpassword hw) ?_) ?_
  · intro lockError w' _ hreports
    cases hreports
  · intro _ w' hlocked
    split <;> exact fun _ => hlocked

end

end

end Lock

/-! ## Creating and unlocking -/

section Unlock

variable (env : SetupEnvironment) {request : SetupRequest} {w : SetupWorld}

/-- The reply to `walletpassphrase` is lost before the wallet locks itself again, and the failure is
not taken for that of a wallet without encryption. -/
def UnlockReplyLost (request : SetupRequest) : Prop :=
  ∃ before after failure, env.fate .walletpassphrase = .lost before after failure ∧
    (SetupException.call failure).saysNotEncrypted = false ∧
    after < unlockSeconds request.unlockFor

section

variable (hpassword : request.password ≠ "")

include hpassword

lemma createWallet_ends (hw : w.wallet = none) :
    Ends (createWallet env request w)
      (fun _ w' => w'.wallet = some ⟨request.password, 0⟩ ∧ w'.walletName = request.name ∧
        (∃ before after, env.fate .createwallet = .answers before after) ∧ env.nameTaken = false)
      (fun e w' => e.reportsUnconfirmedLock = false → w'.SpendingLocked) := by
  refine Ends.bind (P := fun _ w' => w'.wallet = some ⟨request.password, 0⟩ ∧
    (∃ before after, env.fate .createwallet = .answers before after) ∧ env.nameTaken = false) ?_
    fun _ w' hw' => ⟨hw'.1, rfl, hw'.2⟩
  unfold callAsync
  cases hfate : env.fate .createwallet with
  | fails seconds failure => exact fun _ => spendingLocked_of_none hw
  | lost before after failure =>
    cases htaken : env.nameTaken with
    | true => exact fun _ => spendingLocked_of_none hw
    | false => exact fun _ => spendingLocked_of_new hpassword rfl
  | answers before after =>
    cases htaken : env.nameTaken with
    | true => exact fun _ => spendingLocked_of_none hw
    | false => exact ⟨rfl, ⟨before, after, rfl⟩, rfl⟩

lemma walletpassphrase_elapse (hw : w.wallet = some ⟨request.password, 0⟩) (before : ℕ) :
    walletpassphrase request.password (unlockSeconds request.unlockFor) (w.elapse before) =
      .ok ((), some ⟨request.password, w.clock + before + unlockSeconds request.unlockFor⟩) := by
  have hwallet : (w.elapse before).wallet = some ⟨request.password, 0⟩ := hw
  simp only [walletpassphrase, onEncrypted, hwallet, hpassword, if_false, if_true]
  rfl

/-- `UnlockWalletAsync` on the new wallet: where it throws, the wallet is locked, or the reply to
`walletpassphrase` was lost. -/
lemma unlockIfEncrypted_ends (hw : w.wallet = some ⟨request.password, 0⟩) :
    Ends (unlockIfEncrypted env request w) (fun _ w' => HasWallet request.password w')
      (fun _ w' => w'.SpendingLocked ∨
        isNullOrWhiteSpace w.walletName = false ∧ UnlockReplyLost env request) := by
  have hopen : Ends (ensureWalletOpen w)
      (fun _ w' => w' = w ∧ isNullOrWhiteSpace w.walletName = false)
      (fun _ w' => w'.SpendingLocked ∨
        isNullOrWhiteSpace w.walletName = false ∧ UnlockReplyLost env request) := by
    refine Ends.bind (P := fun a w' => a = w ∧ w' = w) ⟨rfl, rfl⟩ ?_
    rintro _ _ ⟨rfl, rfl⟩
    split
    · exact .inl (spendingLocked_of_new hpassword hw)
    · next hname => exact ⟨rfl, Bool.eq_false_iff.2 hname⟩
  rw [unlockIfEncrypted, if_pos hpassword, unlockWalletAsync]
  refine Ends.bind hopen ?_
  rintro _ w₁ ⟨hw₁, hname⟩
  rw [hw₁]
  -- The call leaves the wallet as it was, or unlocked for the time that is left.
  have hcall : Ends (callAsync env .walletpassphrase
        (walletpassphrase request.password (unlockSeconds request.unlockFor)) w)
      (fun _ w' => HasWallet request.password w')
      (fun e w' => w'.wallet = some ⟨request.password, 0⟩ ∨
        ∃ before after failure, env.fate .walletpassphrase = .lost before after failure ∧
          e = .call failure ∧ w'.clock = w.clock + before + after ∧
          w'.wallet = some ⟨request.password,
            w.clock + before + unlockSeconds request.unlockFor⟩) := by
    unfold callAsync
    cases hfate : env.fate .walletpassphrase with
    | fails seconds failure => exact .inl hw
    | lost before after failure =>
      dsimp only
      rw [walletpassphrase_elapse hpassword hw]
      exact .inr ⟨before, after, failure, rfl, rfl, rfl, rfl⟩
    | answers before after =>
      dsimp only
      rw [walletpassphrase_elapse hpassword hw]
      exact ⟨_, rfl⟩
  refine Ends.tryCatch (Ends.bind hcall fun _ _ => id) ?_
  rintro e w' (hkept | ⟨before, after, failure, hfate, rfl, hclock, hunlocked⟩)
  · split
    · exact ⟨_, hkept⟩
    · exact .inl (spendingLocked_of_new hpassword hkept)
  · split
    · exact ⟨_, hunlocked⟩
    · next hother =>
      by_cases hafter : after < unlockSeconds request.unlockFor
      · exact .inr ⟨hname, before, after, failure, hfate, Bool.eq_false_iff.2 hother, hafter⟩
      · refine .inl fun x hx => ?_
        rw [← Option.some.inj (hunlocked.symm.trans hx), hclock]
        exact ⟨hpassword, by dsimp only; omega⟩

end

end Unlock

/-! ## The whole method -/

section Setup

variable (env : SetupEnvironment) (request : SetupRequest)

/-- Everything before `createwallet` goes well. -/
structure Prepares : Prop where
  range : validateRecoveryRange request.recoveryRangeEnd = .ok ()
  notCanceled : env.isCancellationRequested .start = false
  answered : ∀ call ∈ [SetupCall.getblockchaininfo, .getdescriptorinfo false,
    .getdescriptorinfo true], ∃ before after, env.fate call = .answers before after
  descriptors : ∃ network d receiving change, readNetwork env.blockchainInfo = .ok network ∧
    env.buildDescriptors request.recoveryWords network = .ok d ∧
    withChecksum d.1 (env.descriptorInfo d.1) = .ok receiving ∧
    withChecksum d.2 (env.descriptorInfo d.2) = .ok change

/-- The method gets as far as `walletpassphrase`. -/
structure ReachesUnlock : Prop extends Prepares env request where
  created : ∃ before after, env.fate .createwallet = .answers before after
  nameFree : env.nameTaken = false
  named : isNullOrWhiteSpace request.name = false

variable {env request}

variable {w w' : SetupWorld}

lemma checking_eq_ok {α : Type} {x : Except ClientException α} {a : α} :
    checking x w = .ok a w' ↔ x = .ok a ∧ w' = w := by
  cases x with
  | ok b =>
    change EStateM.Result.ok b w = .ok a w' ↔ _
    simp [eq_comm]
  | error e =>
    change EStateM.Result.error _ w = .ok a w' ↔ _
    simp

lemma throwIfCancellationRequested_eq_ok {p : CancelPoint} {u : Unit} :
    throwIfCancellationRequested env p w = .ok u w' ↔
      env.isCancellationRequested p = false ∧ w' = w := by
  unfold throwIfCancellationRequested
  cases env.isCancellationRequested p with
  | true =>
    change EStateM.Result.error _ w = .ok u w' ↔ _
    simp
  | false =>
    change EStateM.Result.ok () w = .ok u w' ↔ _
    simp [eq_comm]

lemma query_eq_ok {call : SetupCall} {reply info : JsonElement} :
    query env call (fun _ => .ok reply) w = .ok info w' ↔
      ∃ before after, env.fate call = .answers before after ∧ info = reply ∧
        w' = (w.elapse before).elapse after := by
  unfold query callAsync
  cases env.fate call with
  | fails seconds failure => simp
  | lost before after failure =>
    simp
  | answers before after =>
    constructor
    · intro h
      cases h
      exact ⟨before, after, rfl, rfl, rfl⟩
    · rintro ⟨_, _, hfate, rfl, rfl⟩
      cases hfate
      rfl

lemma getCheckedDescriptorAsync_eq_ok {change : Bool} {descriptor checked : String} :
    getCheckedDescriptorAsync env change descriptor w = .ok checked w' ↔
      ∃ before after, env.fate (.getdescriptorinfo change) = .answers before after ∧
        withChecksum descriptor (env.descriptorInfo descriptor) = .ok checked ∧
        w' = (w.elapse before).elapse after := by
  unfold getCheckedDescriptorAsync
  simp only [run_bind_eq_ok, query_eq_ok, checking_eq_ok]
  constructor
  · rintro ⟨_, _, ⟨before, after, hfate, rfl, rfl⟩, hchecked, rfl⟩
    exact ⟨before, after, hfate, hchecked, rfl⟩
  · rintro ⟨before, after, hfate, hchecked, rfl⟩
    exact ⟨_, _, ⟨before, after, hfate, rfl, rfl⟩, hchecked, rfl⟩

lemma exists_prepareDescriptors_iff :
    (∃ d w', prepareDescriptors env request w = .ok d w') ↔ Prepares env request := by
  unfold prepareDescriptors
  simp only [run_bind_eq_ok, query_eq_ok, checking_eq_ok, throwIfCancellationRequested_eq_ok,
    getCheckedDescriptorAsync_eq_ok, run_pure_eq_ok]
  constructor
  · rintro ⟨_, _, _, _, ⟨hrange, rfl⟩, _, _, ⟨hcancel, rfl⟩, _, _,
      ⟨b₁, a₁, h₁, rfl, rfl⟩, network, _,
      ⟨hnetwork, rfl⟩, d, _, ⟨hd, rfl⟩, receiving, _, ⟨b₂, a₂, h₂, hreceiving, rfl⟩, change, _,
      ⟨b₃, a₃, h₃, hchange, rfl⟩, _⟩
    refine ⟨hrange, hcancel, ?_, network, d, receiving, change, hnetwork, hd, hreceiving, hchange⟩
    simp only [List.forall_mem_cons]
    exact ⟨⟨b₁, a₁, h₁⟩, ⟨b₂, a₂, h₂⟩, ⟨b₃, a₃, h₃⟩, nofun⟩
  · rintro ⟨hrange, hcancel, hanswered, network, d, receiving, change, hnetwork, hd, hreceiving,
      hchange⟩
    simp only [List.forall_mem_cons] at hanswered
    obtain ⟨⟨b₁, a₁, h₁⟩, ⟨b₂, a₂, h₂⟩, ⟨b₃, a₃, h₃⟩, -⟩ := hanswered
    exact ⟨_, _, (), _, ⟨hrange, rfl⟩, (), _, ⟨hcancel, rfl⟩, _, _,
      ⟨b₁, a₁, h₁, rfl, rfl⟩, network, _,
      ⟨hnetwork, rfl⟩, d, _, ⟨hd, rfl⟩, receiving, _, ⟨b₂, a₂, h₂, hreceiving, rfl⟩, change, _,
      ⟨b₃, a₃, h₃, hchange, rfl⟩, rfl, rfl⟩

/-- Where the method throws: the wallet is locked or not there, an unconfirmed lock is reported, or
the reply to `walletpassphrase` was lost. -/
lemma createWalletFromRecoveryWordsAsync_ends (hpassword : request.password ≠ "")
    (hw : w.wallet = none) :
    Ends (createWalletFromRecoveryWordsAsync env request w) (fun _ _ => True)
      (fun e w' => e.reportsUnconfirmedLock = false →
        w'.SpendingLocked ∨ ReachesUnlock env request ∧ UnlockReplyLost env request) := by
  have hprepare : Ends (prepareDescriptors env request w)
      (fun _ w' => w'.wallet = none ∧ Prepares env request)
      (fun e w' => e.reportsUnconfirmedLock = false →
        w'.SpendingLocked ∨ ReachesUnlock env request ∧ UnlockReplyLost env request) := by
    have hpass := onlyTime_prepareDescriptors env request w
    cases hrun : prepareDescriptors env request w with
    | ok d w' =>
      rw [hrun] at hpass
      exact ⟨hpass.wallet.trans hw, exists_prepareDescriptors_iff.1 ⟨d, w', hrun⟩⟩
    | error e w' =>
      rw [hrun] at hpass
      exact fun _ => .inl (spendingLocked_of_none (hpass.wallet.trans hw))
  refine Ends.bind hprepare ?_
  rintro descriptors w₁ ⟨hw₁, hprepares⟩
  refine Ends.bind ((createWallet_ends env hpassword hw₁).mono (fun _ _ => id)
    fun e w' h hreports => .inl (h hreports)) ?_
  rintro _ w₂ ⟨hw₂, hname, hcreated, hfree⟩
  refine Ends.bind ((unlockIfEncrypted_ends env hpassword hw₂).mono (fun _ _ => id) ?_) ?_
  · rintro e w' (hlocked | ⟨hnamed, hlost⟩) -
    · exact .inl hlocked
    · rw [hname] at hnamed
      exact .inr ⟨⟨hprepares, hcreated, hfree, hnamed⟩, hlost⟩
  · intro _ w₃ hw₃
    refine Ends.tryCatch
      ((onlyTime_importDescriptors env request descriptors w₃).mono (fun _ _ _ => trivial)
        fun _ _ hpass => hw₃.passes hpass) fun e w₄ hw₄ => ?_
    exact (lockAfterFailure_ends env hpassword hw₄ e).mono (fun _ _ => False.elim)
      fun e' w' h hreports => .inl (h hreports)

lemma createWallet_of_answers {before after : ℕ} (w : SetupWorld)
    (hcreated : env.fate .createwallet = .answers before after) (hfree : env.nameTaken = false) :
    ∃ w', createWallet env request w = .ok () w' ∧
      w'.wallet = some ⟨request.password, 0⟩ ∧ w'.walletName = request.name := by
  unfold createWallet
  rw [run_bind_of_ok (a := ()) (t := SetupWorld.elapse
    { w.elapse before with wallet := some ⟨request.password, 0⟩ } after)]
  · exact ⟨_, rfl, rfl, rfl⟩
  · unfold callAsync
    rw [hcreated, hfree]
    rfl

lemma unlockIfEncrypted_of_lost {before after : ℕ} {failure : CallFailure}
    (hpassword : request.password ≠ "") (hw : w.wallet = some ⟨request.password, 0⟩)
    (hnamed : isNullOrWhiteSpace w.walletName = false)
    (hfate : env.fate .walletpassphrase = .lost before after failure)
    (hother : (SetupException.call failure).saysNotEncrypted = false) :
    unlockIfEncrypted env request w = .error (.call failure)
      { w with
        wallet := some ⟨request.password, w.clock + before + unlockSeconds request.unlockFor⟩
        clock := w.clock + before + after } := by
  have hopen : ensureWalletOpen w = .ok () w := by
    change (if isNullOrWhiteSpace w.walletName = true then _ else pure () : SetupM Unit) w = _
    rw [hnamed]
    rfl
  have hcall : callAsync env .walletpassphrase
      (walletpassphrase request.password (unlockSeconds request.unlockFor)) w =
      .error (.call failure) { w with
        wallet := some ⟨request.password, w.clock + before + unlockSeconds request.unlockFor⟩
        clock := w.clock + before + after } := by
    unfold callAsync
    rw [hfate]
    dsimp only
    rw [walletpassphrase_elapse hpassword hw]
    rfl
  rw [unlockIfEncrypted, if_pos hpassword, unlockWalletAsync, run_bind_of_ok hopen]
  change EStateM.tryCatch _ _ w = _
  unfold EStateM.tryCatch
  rw [run_bind_of_error hcall]
  dsimp only
  rw [hother]
  rfl

/-- **When the method throws**, and does not report an unconfirmed lock, **the new wallet is locked
or not there, unless the reply to `walletpassphrase` is lost** while the wallet is still
unlocked. -/
theorem setup_leaves_locked_iff (env : SetupEnvironment) (request : SetupRequest) (w : SetupWorld)
    (hpassword : request.password ≠ "") (hw : w.wallet = none) :
    (∀ e w', createWalletFromRecoveryWordsAsync env request w = .error e w' →
      e.reportsUnconfirmedLock = false → w'.SpendingLocked) ↔
      ¬ (ReachesUnlock env request ∧ UnlockReplyLost env request) := by
  constructor
  · rintro hlocked ⟨hreaches, before, after, failure, hfate, hother, hafter⟩
    obtain ⟨d, w₁, hprepare⟩ := (exists_prepareDescriptors_iff (w := w)).2 hreaches.toPrepares
    obtain ⟨_, _, hcreated⟩ := hreaches.created
    obtain ⟨w₂, hcreate, hw₂, hname⟩ :=
      @createWallet_of_answers env request _ _ w₁ hcreated hreaches.nameFree
    have hunlock := unlockIfEncrypted_of_lost hpassword hw₂ (hname ▸ hreaches.named) hfate hother
    have hrun := hlocked (.call failure) _
      ((run_bind_of_ok hprepare).trans ((run_bind_of_ok hcreate).trans (run_bind_of_error hunlock)))
      rfl _ rfl
    have hle : w₂.clock + before + unlockSeconds request.unlockFor ≤ w₂.clock + before + after :=
      hrun.2
    omega
  · intro hnot e w' hrun hreports
    have hends := @createWalletFromRecoveryWordsAsync_ends env request w hpassword hw
    rw [hrun] at hends
    exact (hends hreports).resolve_right hnot

end Setup

/-- A node that answers every call within a second, except for one. -/
def oneFailure (call : SetupCall) (fate : CallFate) : SetupEnvironment where
  fate c := if c = call then fate else .answers 0 1
  isCancellationRequested _ := false
  nameTaken := false
  blockchainInfo := .object "" [("chain", .string "main")]
  buildDescriptors _ _ := .ok ("receiving", "change")
  descriptorInfo _ := .object "" [("checksum", .string "q")]
  importReply _ := .array "" [.object "" [("success", .bool true)]]
  walletInfo := []
  redactPrivateKeys := id
  importWait := 0
  secondWait := 0

/-- A new wallet with a password, to be unlocked for ten minutes. -/
def seedWallet : SetupRequest := ⟨"seed", "secret", "words", false, none, 10000⟩

/-- The node before the call. -/
def beforeSetup : SetupWorld := ⟨none, 0, "", false⟩

/-- The request reaches the node, which unlocks the wallet, and the connection breaks. -/
theorem setup_leaves_unlocked_seedWallet :
    ∃ e w', createWalletFromRecoveryWordsAsync
        (oneFailure .walletpassphrase (.lost 0 1 .httpRequest)) seedWallet beforeSetup =
        .error e w' ∧ e.reportsUnconfirmedLock = false ∧ ¬ w'.SpendingLocked := by
  refine ⟨.call .httpRequest, ⟨some ⟨"secret", 604⟩, 5, "seed", true⟩, rfl, rfl, fun hlocked => ?_⟩
  have hle : 604 ≤ 5 := (hlocked _ rfl).2
  omega

/-- The import fails, and the wallet is locked again. -/
theorem setup_leaves_locked_iff_seedWallet :
    ∃ e w', createWalletFromRecoveryWordsAsync
      (oneFailure .importdescriptors (.lost 0 1 .httpRequest)) seedWallet beforeSetup =
      .error e w' ∧ e.reportsUnconfirmedLock = false ∧ w'.SpendingLocked := by
  have hiff := setup_leaves_locked_iff (oneFailure .importdescriptors (.lost 0 1 .httpRequest))
    seedWallet beforeSetup (by decide) rfl
  refine ⟨_, _, rfl, rfl, hiff.2 ?_ _ _ rfl rfl⟩
  rintro ⟨-, before, after, failure, hfate, -, -⟩
  cases hfate

end SlithyTove
