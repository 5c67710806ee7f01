import SlithyTove.Framework.Stateful

/-!
# The Linux updater

`slithy-update.sh install` builds the new release in a staging directory, stops the service, moves
the installed `bin` into a backup directory, moves the staged one into its place and then the
`VERSION` file.  It runs under `set -e`, so a command that fails ends it, and a signal ends it once
the command in the foreground is through.  However it ends, the `EXIT` trap runs `cleanup`, which
decides from four flags whether the old release has to be put back.  The traps of the signals are
still set there, and since that of `EXIT` is not, a signal ends `cleanup` for good.

The script is a computation that may exit with a status.  Each of its steps has a name, and the
environment says which steps fail and after which of them a signal is delivered.  A signal during a
test of the shell has the effect of one after the command before it.  Directories are the files in
them; what a failed command leaves in the staging directory is not kept, since the script then ends
and removes it.  Renaming within the installation directory either happens or does not.  A `bin`
that is a symbolic link is left out.
-/

namespace SlithyTove

open Framework

/-! ## Files -/

/-- A file as far as the updater sets it up. -/
structure InstalledFile where
  contents : String
  mode : ℕ
  /-- Owned by root. -/
  root : Bool
  deriving DecidableEq

/-- The files below a directory, by their path. -/
abbrev FileTree := List (List String × InstalledFile)

/-- What a path names. -/
inductive PathEntry
  | absent
  | file (f : InstalledFile)
  | directory (files : FileTree)
  deriving DecidableEq

/-- `[[ -d path ]]`. -/
def PathEntry.isDirectory : PathEntry → Bool
  | .directory _ => true
  | _ => false

/-- The text of a file in a directory, if there is one. -/
def FileTree.read (files : FileTree) (path : List String) : Option String :=
  (files.find? fun p => p.1 = path).map fun p => p.2.contents

/-- The same below a path that may not be a directory. -/
def PathEntry.read : PathEntry → List String → Option String
  | .directory files, path => FileTree.read files path
  | _, _ => none

/-- `mv` of a directory called `bin` to a path: into a directory that is there, and never over a
file. -/
def moveBinTo (files : FileTree) : PathEntry → Option PathEntry
  | .absent => some (.directory files)
  | .directory there => some (.directory (there ++ files.map fun p => ("bin" :: p.1, p.2)))
  | .file _ => none

/-! ## The environment -/

/-- The signals with a trap. -/
inductive UpdateSignal
  | INT
  | TERM
  deriving DecidableEq

/-- The status the trap exits with. -/
def UpdateSignal.status : UpdateSignal → ℕ
  | .INT => 130
  | .TERM => 143

/-- The commands of the script in their order. -/
inductive UpdateStep
  | need | downloadFeed | decodeEnvelope | verifySignature | readManifest | readInstalledVersion
  | compareVersions | confirm | downloadPackage | checkHash | extractPackage | locateSource
  | checkInstallDir
  | installDirectory | chownDirectory | openLock | flock | makeStage | makeBackup | makeStageBin
  | copyBinaries | checkNetwork | chmodDirectories | chmodFiles | chmodTerms | chmodLicenses
  | chownStage | writeVersion | chmodVersion | backupVersion
  | showLoadState | showActiveState | setWasActive | setStopped | stopService | confirmStopped
  | moveOldBin | setBinReplaced | moveNewBin | moveVersion
  | startService | sleep | isActive | setCommitted | reportVersion | reportBackup
  deriving DecidableEq

/-- Assignments do not fail, and of the commands in a condition only the answer counts. -/
def UpdateStep.mayFail : UpdateStep → Bool
  | .showLoadState | .confirmStopped | .setWasActive | .setStopped | .setBinReplaced
  | .setCommitted => false
  | _ => true

/-- The commands of `cleanup` in their order. -/
inductive CleanupStep
  | clearTrap | stopService | confirmStopped | moveFailedBin | moveBackupBin | copyVersion
  | removeVersion | startService | removeStage | removeTmp
  deriving DecidableEq

/-- What `systemctl` answers `service_is_stopped`; nothing where it fails. -/
structure ServiceAnswers where
  ActiveState : Option String
  MainPID : Option String
  ControlPID : Option String
  /-- `systemctl reset-failed` succeeds. -/
  resetFailed : Bool
  /-- The state after that. -/
  stateAfterReset : Option String

/-- What the updater finds and what happens to it. -/
structure UpdateEnvironment where
  /-- `EUID` is zero. -/
  root : Bool
  /-- The signed release: its version and the files of its `bin`. -/
  VERSION : String
  package : FileTree
  /-- `.update.lock` is a symbolic link. -/
  lockIsSymlink : Bool
  /-- The comparison of two `slithy-network.json`, either of which may be missing. -/
  sameNetwork : Option String → Option String → Bool
  /-- There is a `systemctl`, and it has loaded the service. -/
  loaded : Bool
  /-- `ActiveState` before the update. -/
  CURRENT_STATE : String
  stopped : ServiceAnswers
  /-- The status with which a step that may fail makes the script exit. -/
  failure : UpdateStep → Option ℕ
  /-- A signal that is delivered while a step runs, or right after it. -/
  signal : UpdateStep → Option UpdateSignal
  cleanupSucceeds : CleanupStep → Bool
  /-- The same for the commands of `cleanup`. -/
  cleanupSignal : CleanupStep → Option UpdateSignal
  cleanupStopped : ServiceAnswers

/-- The variables of the script and the directories it works on. -/
structure UpdateWorld where
  /-- `INSTALL_DIR/bin` and `INSTALL_DIR/VERSION`. -/
  bin : PathEntry
  version : Option String
  /-- `STAGE` is set, with what is in it. -/
  STAGE : Bool
  stageBin : Option FileTree
  stageVersion : Option String
  /-- What is in `BACKUP`. -/
  backupBin : Option FileTree
  backupVersion : Option String
  failedBin : Option PathEntry
  BIN_REPLACED : Bool
  WAS_ACTIVE : Bool
  STOPPED : Bool
  COMMITTED : Bool

/-- The part of an installation that an update replaces. -/
structure Installation where
  bin : PathEntry
  version : Option String
  deriving DecidableEq

/-- The start of the script. -/
def UpdateWorld.start (old : Installation) : UpdateWorld where
  bin := old.bin
  version := old.version
  STAGE := false
  stageBin := none
  stageVersion := none
  backupBin := none
  backupVersion := none
  failedBin := none
  BIN_REPLACED := false
  WAS_ACTIVE := false
  STOPPED := false
  COMMITTED := false

/-- A part of the script; the exception is the exit status. -/
abbrev UpdateScript := EStateM ℕ UpdateWorld

/-- `service_is_stopped`. -/
def serviceIsStopped (answers : ServiceAnswers) : Bool :=
  match answers.ActiveState with
  | none => false
  | some state =>
    answers.MainPID = some "0" && answers.ControlPID = some "0" &&
      if state = "failed" then
        answers.resetFailed && answers.stateAfterReset = some "inactive"
      else state = "inactive"

/-! ## Steps -/

variable (env : UpdateEnvironment)

/-- The traps of `INT` and `TERM`, once a step is through. -/
def afterStep (step : UpdateStep) : UpdateScript Unit :=
  match env.signal step with
  | some signal => throw signal.status
  | none => pure ()

/-- A step that fails, or that has its effect. -/
def runStep (step : UpdateStep) (effect : UpdateWorld → UpdateWorld) : UpdateScript Unit :=
  match if step.mayFail then env.failure step else none with
  | some status => throw status
  | none => do
    modify effect
    afterStep env step

/-- Steps that change nothing the updater is about. -/
def runSteps : List UpdateStep → UpdateScript Unit
  | [] => pure ()
  | step :: steps => do
    runStep env step id
    runSteps steps

/-- `[[ condition ]] || exit 1`. -/
def exitUnless (condition : Bool) : UpdateScript Unit :=
  if condition then pure () else throw 1

/-- `if [[ condition ]]; then script; fi`. -/
def onlyIf (condition : Bool) (script : UpdateScript Unit) : UpdateScript Unit :=
  if condition then script else pure ()

/-! ## Staging -/

/-- What is done before the installation directory is touched. -/
def preparation : List UpdateStep :=
  [.need, .downloadFeed, .decodeEnvelope, .verifySignature, .readManifest, .readInstalledVersion,
    .compareVersions, .confirm, .downloadPackage, .checkHash, .extractPackage, .locateSource,
    .checkInstallDir]

/-- The files every release has. -/
def requiredBinaries : List String :=
  ["slithyd", "slithy-cli", "slithy-wallet", "slithy-tx", "slithy", "slithy-node",
    "slithy-update.sh", "slithy-common.sh", "slithy-seed-tool", "slithy-terms.txt"]

/-- The package has them. -/
def hasBinaries : Bool :=
  requiredBinaries.all fun binary => (FileTree.read env.package [binary]).isSome

/-- `cp -R --no-preserve=ownership,mode` under `umask 077`. -/
def copyFiles (files : FileTree) : FileTree :=
  files.map fun p => (p.1, { contents := p.2.contents, mode := 0o600, root := env.root })

/-- `chmod` of the files with a property. -/
def chmodFiles (selected : List String → Bool) (mode : ℕ) (files : FileTree) : FileTree :=
  files.map fun p => (p.1, if selected p.1 then { p.2 with mode } else p.2)

/-- `chown -R root:root`. -/
def chownFiles (files : FileTree) : FileTree := files.map fun p => (p.1, { p.2 with root := true })

/-- A file somewhere below `licenses`. -/
def isLicense : List String → Bool
  | "licenses" :: _ :: _ => true
  | _ => false

/-- The package has such files. -/
def hasLicenses : Bool := env.package.any fun p => isLicense p.1

/-- The release or the installation has a `slithy-network.json`. -/
def namesNetwork (bin : PathEntry) : Bool :=
  (FileTree.read env.package ["slithy-network.json"]).isSome ||
    (bin.read ["slithy-network.json"]).isSome

/-- The comparison of the two. -/
def keepsNetwork (bin : PathEntry) : Bool :=
  env.sameNetwork (FileTree.read env.package ["slithy-network.json"])
    (bin.read ["slithy-network.json"])

/-- The network of the release must be that of the installation. -/
def checkNetwork : UpdateScript Unit := do
  let w ← get
  onlyIf (namesNetwork env w.bin) do
    exitUnless (keepsNetwork env w.bin)
    runStep env .checkNetwork id

/-- The copy of the installed `VERSION`. -/
def backupVersion : UpdateScript Unit := do
  let w ← get
  onlyIf w.version.isSome
    (runStep env .backupVersion fun w => { w with backupVersion := w.version })

/-- The lock and the two new directories. -/
def makeDirectories : UpdateScript Unit := do
  runStep env .installDirectory id
  onlyIf env.root (runStep env .chownDirectory id)
  exitUnless (!env.lockIsSymlink)
  runStep env .openLock id
  runStep env .flock id
  runStep env .makeStage fun w => { w with STAGE := true }
  runStep env .makeBackup id
  runStep env .makeStageBin fun w => { w with stageBin := some [] }

/-- The new release in the staging directory. -/
def stageFiles : UpdateScript Unit := do
  exitUnless (hasBinaries env)
  runStep env .copyBinaries fun w => { w with stageBin := some (copyFiles env env.package) }
  checkNetwork env
  runStep env .chmodDirectories id
  runStep env .chmodFiles fun w =>
    { w with stageBin := w.stageBin.map (chmodFiles (fun _ => true) 0o755) }
  runStep env .chmodTerms fun w => { w with
    stageBin := w.stageBin.map (chmodFiles (fun path => path = ["slithy-terms.txt"]) 0o644) }
  onlyIf (hasLicenses env) (runStep env .chmodLicenses fun w =>
    { w with stageBin := w.stageBin.map (chmodFiles isLicense 0o644) })
  onlyIf env.root (runStep env .chownStage fun w =>
    { w with stageBin := w.stageBin.map chownFiles })
  runStep env .writeVersion fun w => { w with stageVersion := some (env.VERSION ++ "\n") }
  runStep env .chmodVersion id
  backupVersion env

/-! ## The service -/

/-- The service was running. -/
def foundActive : Bool := env.CURRENT_STATE ≠ "inactive" ∧ env.CURRENT_STATE ≠ "failed"

/-- A running service is stopped. -/
def stopService : UpdateScript Unit :=
  onlyIf (foundActive env) do
    runStep env .setWasActive fun w => { w with WAS_ACTIVE := true }
    runStep env .setStopped fun w => { w with STOPPED := true }
    runStep env .stopService id

/-- The service must be stopped before anything is replaced. -/
def confirmStopped : UpdateScript Unit := do
  runStep env .showLoadState id
  onlyIf env.loaded do
    runStep env .showActiveState id
    stopService env
    runStep env .confirmStopped id
    exitUnless (serviceIsStopped env.stopped)

/-! ## The replacement -/

/-- The installed `bin` goes into the backup. -/
def moveOldBin : UpdateScript Unit := do
  let w ← get
  match w.bin with
  | .directory files =>
    runStep env .moveOldBin fun w => { w with bin := .absent, backupBin := some files }
  | _ => pure ()

/-- The staged `bin` comes into its place. -/
def moveNewBin : UpdateScript Unit := do
  let w ← get
  match moveBinTo (w.stageBin.getD []) w.bin with
  | some bin => runStep env .moveNewBin fun w => { w with bin, stageBin := none }
  | none => throw 1

/-- The service is started again and must stay up. -/
def restartService : UpdateScript Unit := do
  let w ← get
  onlyIf w.WAS_ACTIVE do
    runStep env .startService id
    runStep env .sleep id
    runStep env .isActive id

/-- From the flag on to the end of the script. -/
def putRelease : UpdateScript Unit := do
  runStep env .setBinReplaced fun w => { w with BIN_REPLACED := true }
  moveNewBin env
  runStep env .moveVersion fun w => { w with version := w.stageVersion, stageVersion := none }
  restartService env
  runStep env .setCommitted fun w => { w with COMMITTED := true }
  runStep env .reportVersion id
  runStep env .reportBackup id

/-- From the installed `bin` on to the end of the script. -/
def replaceRelease : UpdateScript Unit := do
  moveOldBin env
  putRelease env

/-- Everything before the replacement. -/
def prepareRelease : UpdateScript Unit := do
  runSteps env preparation
  makeDirectories env
  stageFiles env
  confirmStopped env

/-- The script up to its exit. -/
def installUpdate : UpdateScript Unit := do
  prepareRelease env
  replaceRelease env

/-! ## `cleanup` -/

/-- The traps of `INT` and `TERM`, once a command of `cleanup` is through. -/
def afterCleanupStep (step : CleanupStep) : UpdateScript Unit :=
  match env.cleanupSignal step with
  | some signal => throw signal.status
  | none => pure ()

/-- `command || status=1`. -/
def attempt (step : CleanupStep) (status : ℕ) (effect : UpdateWorld → Option UpdateWorld) :
    UpdateScript ℕ := do
  let w ← get
  match env.cleanupSucceeds step, effect w with
  | true, some w' =>
    set w'
    afterCleanupStep env step
    return status
  | _, _ =>
    afterCleanupStep env step
    return 1

/-- The failed candidate is kept aside. -/
def keepFailedBin (status : ℕ) : UpdateScript ℕ := do
  let w ← get
  if w.bin.isDirectory then
    attempt env .moveFailedBin status fun w =>
      some { w with bin := .absent, failedBin := some w.bin }
  else return status

/-- The old `bin` comes back. -/
def restoreBin (status : ℕ) : UpdateScript ℕ := do
  let w ← get
  match w.backupBin with
  | some files => attempt env .moveBackupBin status fun w =>
    (moveBinTo files w.bin).map fun bin => { w with bin, backupBin := none }
  | none => return status

/-- The old `VERSION` comes back, or the new one goes. -/
def restoreVersion (status : ℕ) : UpdateScript ℕ := do
  let w ← get
  match w.backupVersion with
  | some version => attempt env .copyVersion status fun w => some { w with version := some version }
  | none =>
    if env.cleanupSucceeds .removeVersion then
      set { w with version := none }
      afterCleanupStep env .removeVersion
      return status
    else throw 1

/-- The service that runs the candidate is stopped first. -/
def confirmCleanupStopped : UpdateScript Unit := do
  let w ← get
  onlyIf w.WAS_ACTIVE do
    afterCleanupStep env .stopService
    afterCleanupStep env .confirmStopped
    exitUnless (serviceIsStopped env.cleanupStopped)

/-- The old release is put back, if the flags say that it was moved. -/
def rollbackUpdate (status : ℕ) : UpdateScript ℕ := do
  let w ← get
  if w.BIN_REPLACED then
    confirmCleanupStopped env
    let status ← keepFailedBin env status
    let status ← restoreBin env status
    restoreVersion env status
  else return status

/-- A service that was stopped is started again. -/
def restartStopped (status : ℕ) : UpdateScript ℕ := do
  let w ← get
  if w.STOPPED && w.WAS_ACTIVE then attempt env .startService status some else return status

/-- What `cleanup` does unless the update is committed. -/
def undoUpdate (status : ℕ) : UpdateScript ℕ := do
  let w ← get
  if w.COMMITTED then return status
  else
    let status ← rollbackUpdate env status
    restartStopped env status

/-- `cleanup`, with the status of the exit. -/
def cleanup (status : ℕ) : UpdateScript Unit := do
  afterCleanupStep env .clearTrap
  let status ← undoUpdate env status
  modify fun w => { w with STAGE := false, stageBin := none, stageVersion := none }
  afterCleanupStep env .removeStage
  afterCleanupStep env .removeTmp
  throw status

/-- `slithy-update.sh install` with its `EXIT` trap. -/
def slithyUpdate : UpdateScript Unit := fun w =>
  match installUpdate env w with
  | .ok _ w => cleanup env 0 w
  | .error status w => cleanup env status w

/-- What an update leaves. -/
def afterUpdate (old : Installation) : UpdateWorld :=
  lastState (slithyUpdate env (.start old))

end SlithyTove
