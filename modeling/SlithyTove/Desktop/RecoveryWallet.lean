import SlithyTove.Desktop.JsonElement
import SlithyTove.Framework.Stateful
import Mathlib.Algebra.Group.Int.Defs
import Mathlib.Data.List.Infix

/-!
# Creating a wallet from recovery words

`CreateWalletFromRecoveryWordsAsync` asks the node for its network and for the checksums of two
descriptors, creates an encrypted wallet, unlocks it, imports the descriptors and, if the import
fails, locks the wallet again and asks whether it is locked.

Every call can fail before it takes effect, or take effect while its reply is lost; time passes
before and after.  Cancellation is looked at in five places, and each may find it requested.  The
state is what the node has made of the wallet, the clock, and the two fields of the client that the
method reads back.  The node is as in `wallet/rpc`: a new wallet with a passphrase is locked, an
unlocked one locks itself when its time is over, and `getwalletinfo` tells the truth.
-/

namespace SlithyTove

open Framework

/-! ## Calls and how they end -/

/-- The calls of the method, each made at most once. -/
inductive SetupCall
  | getblockchaininfo
  | getdescriptorinfo (change : Bool)
  | createwallet
  | walletpassphrase
  | importdescriptors
  | abortrescan
  /-- `getwalletinfo` of `IsWalletEncryptedAsync`. -/
  | encryptionInfo
  | walletlock
  /-- `getwalletinfo` of `LockWalletOnlyAsync`. -/
  | lockInfo
  deriving DecidableEq

/-- The exceptions of a call. -/
inductive CallFailure
  | httpRequest
  | taskCanceled
  | json
  | invalidOperation (message : String)
  deriving DecidableEq

/-- How a call ends, with the seconds that pass: it fails without effect, it takes effect and its
reply is lost, or it is answered. -/
inductive CallFate
  | fails (seconds : ℕ) (failure : CallFailure)
  | lost (before after : ℕ) (failure : CallFailure)
  | answers (before after : ℕ)
  deriving DecidableEq

/-- Where the method looks at the cancellation token. -/
inductive CancelPoint
  | start
  | importWait
  | importFilter
  | afterImport
  | report
  deriving DecidableEq

/-- The exceptions of the method. -/
inductive SetupException
  | call (failure : CallFailure)
  | client (e : ClientException)
  | operationCanceled
  /-- `OperationCanceledException` with the recovery message. -/
  | setupCanceled (importError : SetupException)
  /-- `InvalidOperationException` with the recovery message. -/
  | setupIncomplete (importError : SetupException)
  /-- The `AggregateException` of a lock that could not be confirmed. -/
  | lockUnconfirmed (importError lockError : SetupException)

/-- `is OperationCanceledException`. -/
def SetupException.isOperationCanceled : SetupException → Bool
  | .call .taskCanceled => true
  | .operationCanceled => true
  | .setupCanceled _ => true
  | _ => false

/-- The exception reports an unconfirmed lock. -/
def SetupException.reportsUnconfirmedLock : SetupException → Bool
  | .lockUnconfirmed .. => true
  | _ => false

/-- `Contains(part, OrdinalIgnoreCase)`, for a part in lower-case letters. -/
def containsIgnoreCase (text part : String) : Bool :=
  part.toList <:+: text.toList.map Char.toLower

/-- The filter `ex.Message.Contains("not encrypted")` of `UnlockWalletAsync`. -/
def SetupException.saysNotEncrypted : SetupException → Bool
  | .call (.invalidOperation message) => containsIgnoreCase message "not encrypted"
  | _ => false

/-! ## The node and the client -/

/-- A wallet at the node; without a passphrase it is not encrypted. -/
structure NodeWallet where
  passphrase : String
  unlocked_until : ℕ
  deriving DecidableEq

/-- What the method changes: the wallet it creates, the clock of the node, and its own fields. -/
structure SetupWorld where
  wallet : Option NodeWallet
  clock : ℕ
  walletName : String
  walletEncrypted : Bool
  deriving DecidableEq

/-- What the method meets. -/
structure SetupEnvironment where
  fate : SetupCall → CallFate
  isCancellationRequested : CancelPoint → Bool
  /-- Another wallet at the node has the name already. -/
  nameTaken : Bool
  blockchainInfo : JsonElement
  buildDescriptors : String → String → Except ClientException (String × String)
  descriptorInfo : String → JsonElement
  importReply : List JsonElement → JsonElement
  /-- The other properties of `getwalletinfo`. -/
  walletInfo : List (String × JsonElement)
  redactPrivateKeys : String → String
  /-- Seconds until a cancelled wait returns, and of the second wait for the import. -/
  importWait : ℕ
  secondWait : ℕ

/-- The arguments of the method; `unlockFor` counts ticks of 100 nanoseconds. -/
structure SetupRequest where
  name : String
  password : String
  recoveryWords : String
  scanFromStart : Bool
  unlockFor : Option ℤ
  recoveryRangeEnd : ℤ

/-- A computation of the client. -/
abbrev SetupM := EStateM SetupException SetupWorld

namespace SetupWorld

/-- Time passes. -/
def elapse (w : SetupWorld) (seconds : ℕ) : SetupWorld := { w with clock := w.clock + seconds }

/-- The wallet, if it is there, is encrypted and its time is over. -/
def SpendingLocked (w : SetupWorld) : Prop :=
  ∀ x, w.wallet = some x → x.passphrase ≠ "" ∧ x.unlocked_until ≤ w.clock

end SetupWorld

variable (env : SetupEnvironment)

/-- `CallAsync`: what the node makes of a call that reaches it is given by `effect`. -/
def callAsync {α : Type} (call : SetupCall)
    (effect : SetupWorld → Except String (α × Option NodeWallet)) : SetupM α := fun w =>
  match env.fate call with
  | .fails seconds failure => .error (.call failure) (w.elapse seconds)
  | .lost before after failure =>
    let w := w.elapse before
    match effect w with
    | .ok (_, wallet) => .error (.call failure) (({ w with wallet } : SetupWorld).elapse after)
    | .error _ => .error (.call failure) (w.elapse after)
  | .answers before after =>
    let w := w.elapse before
    match effect w with
    | .ok (a, wallet) => .ok a (({ w with wallet } : SetupWorld).elapse after)
    | .error message => .error (.call (.invalidOperation message)) (w.elapse after)

/-- A call that changes nothing at the node. -/
def query (call : SetupCall) (reply : SetupWorld → Except String JsonElement) :
    SetupM JsonElement :=
  callAsync env call fun w => do
    let info ← reply w
    return (info, w.wallet)

/-- A call on the wallet, which must be encrypted. -/
def onEncrypted (method : String) (w : SetupWorld)
    (effect : NodeWallet → Except String NodeWallet) : Except String (Unit × Option NodeWallet) :=
  match w.wallet with
  | none => .error "Requested wallet does not exist or is not loaded"
  | some x =>
    if x.passphrase = "" then
      .error s!"Error: running with an unencrypted wallet, but {method} was called."
    else do
      let x ← effect x
      return ((), some x)

/-- `getwalletinfo`. -/
def getwalletinfo (w : SetupWorld) : Except String JsonElement :=
  match w.wallet with
  | none => .error "Requested wallet does not exist or is not loaded"
  | some x =>
    let until_ := if x.unlocked_until ≤ w.clock then 0 else x.unlocked_until
    let shown := if x.passphrase = "" then []
      else [("unlocked_until", JsonElement.number (toString until_) (some until_) none)]
    .ok (.object "" (env.walletInfo ++ shown))

/-- A check of the client. -/
def checking {α : Type} (x : Except ClientException α) : SetupM α :=
  match x with
  | .ok a => pure a
  | .error e => throw (.client e)

/-- `ThrowIfCancellationRequested`. -/
def throwIfCancellationRequested (p : CancelPoint) : SetupM Unit :=
  if env.isCancellationRequested p then throw .operationCanceled else pure ()

/-- `char.IsWhiteSpace`. -/
def isWhiteSpace (c : Char) : Bool :=
  let n := c.toNat
  (0x9 ≤ n ∧ n ≤ 0xd) ∨ n ∈ [0x20, 0x85, 0xa0, 0x1680, 0x2028, 0x2029, 0x202f, 0x205f, 0x3000] ∨
    (0x2000 ≤ n ∧ n ≤ 0x200a)

/-- `string.IsNullOrWhiteSpace`. -/
def isNullOrWhiteSpace (s : String) : Bool := s.toList.all isWhiteSpace

/-- `EnsureWalletOpen`. -/
def ensureWalletOpen : SetupM Unit := do
  let w ← get
  if isNullOrWhiteSpace w.walletName then
    throw (.client (.invalidOperation "Open or create a wallet first."))
  else pure ()

/-- `EnsureSameWallet`. -/
def ensureSameWallet (expected : String) : SetupM Unit := do
  let w ← get
  if expected ≠ w.walletName then
    throw (.client (.invalidOperation
      "The open wallet changed. Try again with the wallet now shown."))
  else pure ()

/-! ## Before the wallet -/

/-- `DefaultRecoveryRangeEnd`. -/
def DefaultRecoveryRangeEnd : ℤ := 10000

/-- `MaximumRecoveryRangeEnd`. -/
def MaximumRecoveryRangeEnd : ℤ := 100000

/-- `ImportRangeEnd`. -/
def ImportRangeEnd : ℤ := 1000

/-- `ValidateRecoveryRange`. -/
def validateRecoveryRange (rangeEnd : ℤ) : Except ClientException Unit :=
  ensure (¬ (rangeEnd < DefaultRecoveryRangeEnd ∨ rangeEnd > MaximumRecoveryRangeEnd))
    (.argumentOutOfRange "rangeEnd")

/-- `chain.GetProperty("chain").GetString()`. -/
def readNetwork (chain : JsonElement) : Except ClientException String := do
  let value ← chain.getProperty "chain"
  match ← value.getString with
  | some network => return network
  | none => .error (.invalidOperation "Node did not identify its network.")

/-- The descriptor with its checksum, of `GetCheckedDescriptorAsync`. -/
def withChecksum (descriptor : String) (result : JsonElement) : Except ClientException String := do
  let checksum ← readString result "checksum"
  return if isNullOrWhiteSpace checksum then descriptor else descriptor ++ "#" ++ checksum

/-- `GetCheckedDescriptorAsync`. -/
def getCheckedDescriptorAsync (change : Bool) (descriptor : String) : SetupM String := do
  let result ← query env (.getdescriptorinfo change) fun _ => .ok (env.descriptorInfo descriptor)
  checking (withChecksum descriptor result)

variable (request : SetupRequest)

/-- The method up to the checked descriptors. -/
def prepareDescriptors : SetupM (List String) := do
  checking (validateRecoveryRange request.recoveryRangeEnd)
  throwIfCancellationRequested env .start
  let chain ← query env .getblockchaininfo fun _ => .ok env.blockchainInfo
  let network ← checking (readNetwork chain)
  let descriptors ← checking (env.buildDescriptors request.recoveryWords network)
  let receiving ← getCheckedDescriptorAsync env false descriptors.1
  let change ← getCheckedDescriptorAsync env true descriptors.2
  return [receiving, change]

/-! ## Creating and unlocking -/

/-- `createwallet`, and the fields of the client after it. -/
def createWallet : SetupM Unit := do
  callAsync env .createwallet fun _ =>
    if env.nameTaken then .error "Wallet file verification failed. Database already exists."
    else .ok ((), some ⟨request.password, 0⟩)
  modify fun w => { w with walletName := request.name, walletEncrypted := request.password ≠ "" }

/-- The cast of a `double` to `int`, which gives the smallest `int` out of range. -/
def castInt (x : ℤ) : ℤ := if -2 ^ 31 ≤ x ∧ x < 2 ^ 31 then x else -2 ^ 31

/-- The seconds `walletpassphrase` is asked for. -/
def unlockSeconds (unlockFor : Option ℤ) : ℕ :=
  let ticks := unlockFor.getD (10 * 60 * 10000000)
  (max 1 (min (castInt (-(-ticks / 10000000))) 86400)).toNat

/-- `walletpassphrase`. -/
def walletpassphrase (password : String) (seconds : ℕ) (w : SetupWorld) :
    Except String (Unit × Option NodeWallet) :=
  onEncrypted "walletpassphrase" w fun x =>
    if x.passphrase = password then .ok { x with unlocked_until := w.clock + seconds }
    else .error "Error: The wallet passphrase entered was incorrect."

/-- `UnlockWalletAsync` with a password. -/
def unlockWalletAsync (password : String) (unlockFor : Option ℤ) : SetupM Unit := do
  ensureWalletOpen
  tryCatch
    (do
      callAsync env .walletpassphrase (walletpassphrase password (unlockSeconds unlockFor))
      modify fun w => { w with walletEncrypted := true })
    fun e =>
      if e.saysNotEncrypted then modify fun w => { w with walletEncrypted := false } else throw e

/-! ## Importing -/

/-- One request of `BuildImportRequests`. -/
def importRequest (descriptor : String) (change : Bool) : JsonElement :=
  let rangeEnd := if request.scanFromStart then request.recoveryRangeEnd else ImportRangeEnd
  .object "" [("desc", .string descriptor), ("active", .bool true),
    ("range", .array "" [.number "0" (some 0) (some 0),
      .number (toString rangeEnd) (some rangeEnd) (some rangeEnd)]),
    ("next_index", .number "0" (some 0) (some 0)),
    ("timestamp", if request.scanFromStart then .number "0" (some 0) (some 0) else .string "now"),
    ("internal", .bool change)]

/-- `BuildImportRequests`. -/
def buildImportRequests (descriptors : List String) :
    Except ClientException (List JsonElement) := do
  validateRecoveryRange request.recoveryRangeEnd
  match descriptors with
  | [receiving, change] =>
    return [importRequest request receiving false, importRequest request change true]
  | _ => .error (.argument "Both receiving and change descriptors are required.")

/-- One item of `ThrowIfImportFailed`. -/
def throwIfItemFailed (item : JsonElement) : Except ClientException Unit := do
  let success := ((← item.tryGetProperty "success").map JsonElement.isTrue).getD false
  if success then return ()
  match ← item.tryGetProperty "error" with
  | none => .error (.invalidOperation "Recovery-word import failed.")
  | some error =>
    match ← error.tryGetProperty "message" with
    | none => .error (.invalidOperation "Recovery-word import failed.")
    | some message => do
      let text := (← message.getString).getD "Recovery-word import failed."
      .error (.invalidOperation (env.redactPrivateKeys text))

/-- `ThrowIfImportFailed`. -/
def throwIfImportFailed (result : JsonElement) : Except ClientException Unit :=
  match result with
  | .array _ items => items.forM (throwIfItemFailed env)
  | _ => .error (.invalidOperation "Slithy did not return a descriptor import result.")

/-- `importTask.WaitAsync(cancellationToken)`. -/
def waitForImport (requests : List JsonElement) : SetupM JsonElement :=
  if env.isCancellationRequested .importWait then fun w =>
    .error .operationCanceled (w.elapse env.importWait)
  else query env .importdescriptors fun _ => .ok (env.importReply requests)

/-- The handler of a cancelled wait: the scan is stopped, and the import gets some more time. -/
def stopScan (e : SetupException) : SetupM JsonElement :=
  if e.isOperationCanceled && env.isCancellationRequested .importFilter then do
    tryCatch (do let _ ← query env .abortrescan fun _ => .ok (.bool true)) fun _ => pure ()
    modify fun w => w.elapse env.secondWait
    throw e
  else throw e

/-- The body of the outer `try`. -/
def importDescriptors (descriptors : List String) : SetupM Unit := do
  let requests ← checking (buildImportRequests request descriptors)
  let importResult ← tryCatch (waitForImport env requests) (stopScan env)
  checking (throwIfImportFailed env importResult)
  throwIfCancellationRequested env .afterImport

/-! ## Locking -/

/-- `IsWalletEncryptedAsync`. -/
def isWalletEncryptedAsync : SetupM Bool := do
  ensureWalletOpen
  let info ← query env .encryptionInfo (getwalletinfo env)
  let until_ ← checking (info.tryGetProperty "unlocked_until")
  return until_.isSome

/-- The last check of `LockWalletOnlyAsync`. -/
def confirmLocked (locked : JsonElement) : Except ClientException Unit := do
  match ← locked.tryGetProperty "unlocked_until" with
  | none => .error (.invalidOperation "Wallet spending lock could not be confirmed.")
  | some until_ => do
    let value ← until_.getInt64
    ensure (value = 0) (.invalidOperation "Wallet spending lock could not be confirmed.")

/-- `LockWalletOnlyAsync` from the `walletlock` on. -/
def lockAndConfirm (wallet : String) : SetupM Unit := do
  ensureSameWallet wallet
  callAsync env .walletlock fun w =>
    onEncrypted "walletlock" w fun x => .ok { x with unlocked_until := 0 }
  ensureSameWallet wallet
  let locked ← query env .lockInfo (getwalletinfo env)
  ensureSameWallet wallet
  checking (confirmLocked locked)
  modify fun w => { w with walletEncrypted := true }

/-- The wallet is known to be encrypted, or the node says so. -/
def knownEncrypted : SetupM Bool := do
  let w ← get
  if w.walletEncrypted then pure true else isWalletEncryptedAsync env

/-- `LockWalletOnlyAsync`. -/
def lockWalletOnlyAsync : SetupM Unit := do
  ensureWalletOpen
  let w ← get
  let encrypted ← knownEncrypted env
  if encrypted then lockAndConfirm env w.walletName else pure ()

/-- The handler of a failed import. -/
def lockAfterFailure (importError : SetupException) : SetupM Unit := do
  tryCatch (lockWalletOnlyAsync env) fun lockError => throw (.lockUnconfirmed importError lockError)
  if importError.isOperationCanceled && env.isCancellationRequested .report then
    throw (.setupCanceled importError)
  else throw (.setupIncomplete importError)

/-- The wallet is unlocked if it has a password. -/
def unlockIfEncrypted : SetupM Unit :=
  if request.password ≠ "" then unlockWalletAsync env request.password request.unlockFor
  else pure ()

/-- `CreateWalletFromRecoveryWordsAsync`. -/
def createWalletFromRecoveryWordsAsync : SetupM Unit := do
  let descriptors ← prepareDescriptors env request
  createWallet env request
  unlockIfEncrypted env request
  tryCatch (importDescriptors env request descriptors) (lockAfterFailure env)

end SlithyTove
