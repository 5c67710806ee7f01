import SlithyTove.Install.SlithyUpdate

/-!
# All or nothing

After an update, however it ended, the installation should be the new release or the old one.  Up
to the replacement nothing of the installation is changed.  During the replacement the flag
`BIN_REPLACED` tells `cleanup` to put the old release back, and the backup has all that is needed
(`Restorable`).  At the end the new release is in place and `COMMITTED` is set.

There are two gaps.  The flag is set by a command of its own after the installed `bin` was moved
away.  A signal that is delivered during the move ends the script before the flag is set, and then
`cleanup` leaves the installation without a `bin`.  And a signal that is delivered to `cleanup`
leaves whatever it has put back so far (`cutShort`).
-/

namespace SlithyTove

open Framework List

variable {env : UpdateEnvironment} {old : Installation} {w w' : UpdateWorld}

/-! ## Steps -/

/-- A step neither fails nor is followed by a signal. -/
def Completes (env : UpdateEnvironment) (step : UpdateStep) : Prop :=
  (step.mayFail → env.failure step = none) ∧ env.signal step = none

variable {step : UpdateStep} {effect : UpdateWorld → UpdateWorld}

lemma runStep_of_no_failure (h : step.mayFail → env.failure step = none) :
    runStep env step effect w = afterStep env step (effect w) := by
  have hnone : (if step.mayFail then env.failure step else none) = none := by
    split
    · next hmay => exact h hmay
    · rfl
  rw [runStep, hnone]
  rfl

lemma runStep_of_completes (h : Completes env step) :
    runStep env step effect w = .ok () (effect w) := by
  rw [runStep_of_no_failure h.1, afterStep, h.2]
  rfl

lemma runStep_of_failure {status : ℕ} (hmay : step.mayFail = true)
    (h : env.failure step = some status) : runStep env step effect w = .error status w := by
  rw [runStep, if_pos hmay, h]
  rfl

lemma runStep_of_signal {signal : UpdateSignal}
    (hfailure : step.mayFail → env.failure step = none) (hsignal : env.signal step = some signal) :
    runStep env step effect w = .error signal.status (effect w) := by
  rw [runStep_of_no_failure hfailure, afterStep, hsignal]
  rfl

lemma runStep_of_not_completes (h : ¬ Completes env step) (effect : UpdateWorld → UpdateWorld)
    (w : UpdateWorld) :
    ∃ status, runStep env step effect w = .error status w ∨
      runStep env step effect w = .error status (effect w) := by
  by_cases hfailure : step.mayFail → env.failure step = none
  · obtain ⟨signal, hsignal⟩ := Option.ne_none_iff_exists'.mp fun hnone => h ⟨hfailure, hnone⟩
    exact ⟨_, .inr (runStep_of_signal hfailure hsignal)⟩
  · obtain ⟨hmay, hsome⟩ := Classical.not_imp.mp hfailure
    obtain ⟨status, hstatus⟩ := Option.ne_none_iff_exists'.mp hsome
    exact ⟨_, .inl (runStep_of_failure hmay hstatus)⟩

variable {u : Unit}

lemma runStep_eq_ok :
    runStep env step effect w = .ok u w' ↔ Completes env step ∧ w' = effect w := by
  by_cases h : Completes env step
  · rw [runStep_of_completes h, EStateM.Result.ok.injEq]
    exact ⟨fun heq => ⟨h, heq.2.symm⟩, fun heq => ⟨rfl, heq.2.symm⟩⟩
  · obtain ⟨status, herror | herror⟩ := runStep_of_not_completes h effect w
    · rw [herror]
      exact ⟨nofun, fun heq => absurd heq.1 h⟩
    · rw [herror]
      exact ⟨nofun, fun heq => absurd heq.1 h⟩

variable {condition : Bool}

lemma exitUnless_eq_ok : exitUnless condition w = .ok u w' ↔ condition = true ∧ w' = w := by
  cases condition with
  | false => exact ⟨nofun, nofun⟩
  | true => exact ⟨fun h => ⟨rfl, (EStateM.Result.ok.inj h).2.symm⟩, fun h => h.2 ▸ rfl⟩

lemma onlyIf_eq_ok {script : UpdateScript Unit} :
    onlyIf condition script w = .ok u w' ↔
      if condition then script w = .ok u w' else w' = w := by
  cases condition with
  | false => exact ⟨fun h => (EStateM.Result.ok.inj h).2.symm, fun h => h ▸ rfl⟩
  | true => exact Iff.rfl

/-! ## Before the replacement -/

/-- Nothing ends the script before the replacement. -/
structure ReachesReplacement (env : UpdateEnvironment) (old : Installation) : Prop where
  prepared : ∀ step ∈ preparation, Completes env step
  directories : ∀ step ∈ [.installDirectory, .openLock, .flock, .makeStage, .makeBackup,
    .makeStageBin], Completes env step
  lock : env.lockIsSymlink = false
  binaries : hasBinaries env = true
  staged : ∀ step ∈ [.copyBinaries, .chmodDirectories, .chmodFiles, .chmodTerms, .writeVersion,
    .chmodVersion], Completes env step
  owned : env.root = true → Completes env .chownDirectory ∧ Completes env .chownStage
  network : namesNetwork env old.bin = true →
    keepsNetwork env old.bin = true ∧ Completes env .checkNetwork
  licenses : hasLicenses env = true → Completes env .chmodLicenses
  version : old.version.isSome = true → Completes env .backupVersion
  shown : Completes env .showLoadState
  stopped : env.loaded = true → Completes env .showActiveState ∧
    (foundActive env = true → ∀ step ∈ [.setWasActive, .setStopped, .stopService],
      Completes env step) ∧
    Completes env .confirmStopped ∧ serviceIsStopped env.stopped = true

lemma runSteps_eq_ok {steps : List UpdateStep} :
    runSteps env steps w = .ok u w' ↔ (∀ step ∈ steps, Completes env step) ∧ w' = w := by
  induction steps generalizing w with
  | nil =>
    rw [runSteps, run_pure_eq_ok]
    simp [eq_comm]
  | cons step steps ih =>
    rw [runSteps, run_bind_eq_ok_iff runStep_eq_ok, ih, forall_mem_cons, and_assoc]
    rfl

lemma run_get_bind {α : Type} (f : UpdateWorld → UpdateScript α) :
    ((get : UpdateScript UpdateWorld) >>= f) w = f w w := rfl

lemma onlyIf_runStep_eq_ok : onlyIf condition (runStep env step effect) w = .ok u w' ↔
      (condition = true → Completes env step) ∧ w' = if condition then effect w else w := by
  rw [onlyIf_eq_ok]
  cases condition with
  | false => exact ⟨fun h => ⟨nofun, h⟩, fun h => h.2⟩
  | true =>
    rw [if_pos rfl, if_pos rfl, runStep_eq_ok]
    exact ⟨fun h => ⟨fun _ => h.1, h.2⟩, fun h => ⟨h.1 rfl, h.2⟩⟩

lemma onlyIf_stage_eq_ok {f : FileTree → FileTree} :
    onlyIf condition (runStep env step fun w => { w with stageBin := w.stageBin.map f }) w =
        .ok u w' ↔
      (condition = true → Completes env step) ∧
        w' = { w with stageBin := w.stageBin.map (if condition then f else id) } := by
  rw [onlyIf_runStep_eq_ok]
  cases condition with
  | false => simp
  | true => exact Iff.rfl

lemma makeDirectories_eq_ok : makeDirectories env w = .ok u w' ↔
      ((∀ step ∈ [.installDirectory, .openLock, .flock, .makeStage, .makeBackup, .makeStageBin],
        Completes env step) ∧ (env.root = true → Completes env .chownDirectory) ∧
      env.lockIsSymlink = false) ∧ w' = { w with STAGE := true, stageBin := some [] } := by
  simp [makeDirectories, run_bind_eq_ok, runStep_eq_ok, onlyIf_runStep_eq_ok, exitUnless_eq_ok]
  tauto

lemma checkNetwork_eq_ok : checkNetwork env w = .ok u w' ↔
      (namesNetwork env w.bin = true →
        keepsNetwork env w.bin = true ∧ Completes env .checkNetwork) ∧ w' = w := by
  rw [checkNetwork, run_get_bind, onlyIf_eq_ok]
  cases namesNetwork env w.bin with
  | false => exact ⟨fun heq => ⟨nofun, heq⟩, fun heq => heq.2⟩
  | true =>
    rw [if_pos rfl, run_bind_eq_ok_iff exitUnless_eq_ok, runStep_eq_ok, ← and_assoc]
    exact and_congr_left' ⟨fun h _ => h, fun h => h rfl⟩

lemma backupVersion_eq_ok : backupVersion env w = .ok u w' ↔
      (w.version.isSome = true → Completes env .backupVersion) ∧
      w' = { w with backupVersion := if w.version.isSome then w.version else w.backupVersion } := by
  rw [backupVersion, run_get_bind, onlyIf_runStep_eq_ok]
  cases w.version.isSome with
  | false => exact Iff.rfl
  | true => exact Iff.rfl

/-! ## The new release -/

/-- The `bin` of the release: everything can be run but the terms and the licenses, and root owns
it where root installs it. -/
def releaseBin (env : UpdateEnvironment) : FileTree :=
  env.package.map fun p => (p.1,
    { contents := p.2.contents
      mode := if p.1 = ["slithy-terms.txt"] || isLicense p.1 then 0o644 else 0o755
      root := env.root })

/-- What the steps make of the package. -/
def stagedBin (env : UpdateEnvironment) : FileTree :=
  let files := copyFiles env env.package
  let files := chmodFiles (fun _ => true) 0o755 files
  let files := chmodFiles (fun path => path = ["slithy-terms.txt"]) 0o644 files
  let files := (if hasLicenses env then chmodFiles isLicense 0o644 else id) files
  (if env.root then chownFiles else id) files

lemma stagedBin_eq_releaseBin (env : UpdateEnvironment) : stagedBin env = releaseBin env := by
  -- Without a license the step for licenses would change nothing.
  have hlicenses : ∀ files : FileTree, files.map Prod.fst = env.package.map Prod.fst →
      (if hasLicenses env then chmodFiles isLicense 0o644 else id) files =
        chmodFiles isLicense 0o644 files := by
    intro files hpaths
    split
    · rfl
    · next hnone =>
      refine ((map_congr_left fun p hp => ?_).trans (map_id _)).symm
      have hmem : p.1 ∈ env.package.map Prod.fst := hpaths ▸ mem_map_of_mem hp
      obtain ⟨q, hq, hqp⟩ := mem_map.1 hmem
      have hnot : isLicense p.1 = false := by
        rw [hasLicenses, any_eq_true] at hnone
        rw [← hqp]
        exact (Bool.not_eq_true _).mp fun hlicense => hnone ⟨q, hq, hlicense⟩
      rw [hnot]
      rfl
  unfold stagedBin
  dsimp only
  rw [hlicenses _ (by simp [chmodFiles, copyFiles])]
  cases hroot : env.root with
  | false =>
    simp only [copyFiles, chmodFiles, map_map]
    refine map_congr_left fun p _ => ?_
    cases hlicense : isLicense p.1 <;> by_cases hterms : p.1 = ["slithy-terms.txt"] <;>
      simp [hlicense, hterms, hroot]
  | true =>
    simp only [copyFiles, chmodFiles, chownFiles, map_map, if_true]
    refine map_congr_left fun p _ => ?_
    cases hlicense : isLicense p.1 <;> by_cases hterms : p.1 = ["slithy-terms.txt"] <;>
      simp [hlicense, hterms, hroot]

lemma stageFiles_eq_ok : stageFiles env w = .ok u w' ↔
      (hasBinaries env = true ∧
      (∀ step ∈ [.copyBinaries, .chmodDirectories, .chmodFiles, .chmodTerms, .writeVersion,
        .chmodVersion], Completes env step) ∧
      (namesNetwork env w.bin = true →
        keepsNetwork env w.bin = true ∧ Completes env .checkNetwork) ∧
      (hasLicenses env = true → Completes env .chmodLicenses) ∧
      (env.root = true → Completes env .chownStage) ∧
      (w.version.isSome = true → Completes env .backupVersion)) ∧
      w' = { w with
        stageBin := some (stagedBin env)
        stageVersion := some (env.VERSION ++ "\n")
        backupVersion := if w.version.isSome then w.version else w.backupVersion } := by
  simp only [stageFiles, run_bind_eq_ok_iff runStep_eq_ok, run_bind_eq_ok_iff onlyIf_stage_eq_ok,
    run_bind_eq_ok_iff exitUnless_eq_ok, run_bind_eq_ok_iff checkNetwork_eq_ok, backupVersion_eq_ok,
    forall_mem_cons]
  constructor
  · rintro ⟨hbinaries, hcopy, hnetwork, hdirectories, hfiles, hterms, hlicenses, hchown, hwrite,
      hchmod, hbackup, rfl⟩
    exact ⟨⟨hbinaries, ⟨hcopy, hdirectories, hfiles, hterms, hwrite, hchmod, nofun⟩, hnetwork,
      hlicenses, hchown, hbackup⟩, rfl⟩
  · rintro ⟨⟨hbinaries, ⟨hcopy, hdirectories, hfiles, hterms, hwrite, hchmod, -⟩, hnetwork,
      hlicenses, hchown, hbackup⟩, rfl⟩
    exact ⟨hbinaries, hcopy, hnetwork, hdirectories, hfiles, hterms, hlicenses, hchown, hwrite,
      hchmod, hbackup, rfl⟩

lemma stopService_eq_ok : stopService env w = .ok u w' ↔
      (foundActive env = true → ∀ step ∈ [.setWasActive, .setStopped, .stopService],
        Completes env step) ∧
      w' = { w with WAS_ACTIVE := foundActive env || w.WAS_ACTIVE
                    STOPPED := foundActive env || w.STOPPED } := by
  rw [stopService, onlyIf_eq_ok]
  cases foundActive env with
  | false => simp
  | true =>
    simp only [run_bind_eq_ok_iff runStep_eq_ok, runStep_eq_ok, forall_mem_cons]
    constructor
    · rintro ⟨hactive, hstopped, hstop, rfl⟩
      exact ⟨fun _ => ⟨hactive, hstopped, hstop, nofun⟩, rfl⟩
    · rintro ⟨hsteps, rfl⟩
      obtain ⟨hactive, hstopped, hstop, -⟩ := hsteps trivial
      exact ⟨hactive, hstopped, hstop, rfl⟩

lemma confirmStopped_eq_ok : confirmStopped env w = .ok u w' ↔
      (Completes env .showLoadState ∧ (env.loaded = true → Completes env .showActiveState ∧
        (foundActive env = true → ∀ step ∈ [.setWasActive, .setStopped, .stopService],
          Completes env step) ∧
        Completes env .confirmStopped ∧ serviceIsStopped env.stopped = true)) ∧
      w' = { w with WAS_ACTIVE := env.loaded && foundActive env || w.WAS_ACTIVE
                    STOPPED := env.loaded && foundActive env || w.STOPPED } := by
  rw [confirmStopped, run_bind_eq_ok_iff runStep_eq_ok, onlyIf_eq_ok, and_assoc]
  refine and_congr_right fun _ => ?_
  cases env.loaded with
  | false => exact ⟨fun h => ⟨nofun, h⟩, fun h => h.2⟩
  | true =>
    simp only [run_bind_eq_ok_iff runStep_eq_ok, run_bind_eq_ok_iff stopService_eq_ok,
      exitUnless_eq_ok]
    constructor
    · rintro ⟨hstate, hstop, hconfirm, hstopped, rfl⟩
      exact ⟨fun _ => ⟨hstate, hstop, hconfirm, hstopped⟩, rfl⟩
    · rintro ⟨hloaded, rfl⟩
      obtain ⟨hstate, hstop, hconfirm, hstopped⟩ := hloaded trivial
      exact ⟨hstate, hstop, hconfirm, hstopped, rfl⟩

/-- The world in which the replacement starts. -/
def stagedWorld (env : UpdateEnvironment) (old : Installation) : UpdateWorld where
  bin := old.bin
  version := old.version
  STAGE := true
  stageBin := some (releaseBin env)
  stageVersion := some (env.VERSION ++ "\n")
  backupBin := none
  backupVersion := old.version
  failedBin := none
  BIN_REPLACED := false
  WAS_ACTIVE := env.loaded && foundActive env
  STOPPED := env.loaded && foundActive env
  COMMITTED := false

/-- **The replacement is reached** exactly where nothing ends the script before, and then the new
release is staged. -/
lemma prepareRelease_eq_ok : prepareRelease env (.start old) = .ok u w' ↔
      ReachesReplacement env old ∧ w' = stagedWorld env old := by
  have hbackup : (if old.version.isSome then old.version else none) = old.version := by
    cases old.version <;> rfl
  have hworld : ∀ b, ({ UpdateWorld.start old with
      STAGE := true
      stageBin := some (stagedBin env)
      stageVersion := some (env.VERSION ++ "\n")
      backupVersion := if old.version.isSome then old.version else none
      WAS_ACTIVE := b || false
      STOPPED := b || false } : UpdateWorld) =
    { stagedWorld env old with WAS_ACTIVE := b, STOPPED := b } := by
    intro b
    rw [hbackup, stagedBin_eq_releaseBin, Bool.or_false]
    rfl
  rw [prepareRelease, run_bind_eq_ok_iff runSteps_eq_ok, run_bind_eq_ok_iff makeDirectories_eq_ok,
    run_bind_eq_ok_iff stageFiles_eq_ok, confirmStopped_eq_ok]
  constructor
  · rintro ⟨hprepared, ⟨hdirectories, hchown, hlock⟩,
      ⟨hbinaries, hstaged, hnetwork, hlicenses, hchown', hversion⟩, ⟨hshown, hstopped⟩, rfl⟩
    exact ⟨⟨hprepared, hdirectories, hlock, hbinaries, hstaged, fun h => ⟨hchown h, hchown' h⟩,
      hnetwork, hlicenses, hversion, hshown, hstopped⟩, hworld _⟩
  · rintro ⟨h, rfl⟩
    exact ⟨h.prepared, ⟨h.directories, fun hr => (h.owned hr).1, h.lock⟩,
      ⟨h.binaries, h.staged, h.network, h.licenses, fun hr => (h.owned hr).2, h.version⟩,
      ⟨h.shown, h.stopped⟩, (hworld _).symm⟩

/-! ## The installation before the replacement -/

/-- The installation and the flags that `cleanup` goes by are the same. -/
structure SameInstallation (w w' : UpdateWorld) : Prop where
  bin : w'.bin = w.bin
  version : w'.version = w.version
  BIN_REPLACED : w'.BIN_REPLACED = w.BIN_REPLACED
  COMMITTED : w'.COMMITTED = w.COMMITTED

lemma SameInstallation.refl (w : UpdateWorld) : SameInstallation w w := ⟨rfl, rfl, rfl, rfl⟩

lemma SameInstallation.trans {w₁ w₂ w₃ : UpdateWorld} (h : SameInstallation w₁ w₂)
    (h' : SameInstallation w₂ w₃) : SameInstallation w₁ w₃ :=
  ⟨h'.bin.trans h.bin, h'.version.trans h.version, h'.BIN_REPLACED.trans h.BIN_REPLACED,
    h'.COMMITTED.trans h.COMMITTED⟩

/-- A part of the script that leaves the installation alone, however it ends. -/
def KeepsInstallation {α : Type} (x : UpdateScript α) : Prop :=
  ∀ w, Ends (x w) (fun _ w' => SameInstallation w w') (fun _ w' => SameInstallation w w')

lemma keeps_pure {α : Type} (a : α) : KeepsInstallation (pure a : UpdateScript α) :=
  fun w => SameInstallation.refl w

lemma KeepsInstallation.bind {α β : Type} {x : UpdateScript α} {f : α → UpdateScript β}
    (hx : KeepsInstallation x) (hf : ∀ a, KeepsInstallation (f a)) : KeepsInstallation (x >>= f) :=
  fun w => Ends.bind (hx w) fun a w' hsame =>
    (hf a w').mono (fun _ _ => hsame.trans) fun _ _ => hsame.trans

variable (env)

lemma runStep_ends (step : UpdateStep) (effect : UpdateWorld → UpdateWorld) (w : UpdateWorld) :
    Ends (runStep env step effect w) (fun _ w' => w' = effect w)
      (fun _ w' => w' = w ∨ w' = effect w) := by
  by_cases h : Completes env step
  · rw [runStep_of_completes h]
    exact rfl
  · obtain ⟨status, herror | herror⟩ := runStep_of_not_completes h effect w
    · rw [herror]
      exact .inl rfl
    · rw [herror]
      exact .inr rfl

lemma keeps_runStep (step : UpdateStep)
    (h : ∀ w, SameInstallation w (effect w) := by exact fun _ => ⟨rfl, rfl, rfl, rfl⟩) :
    KeepsInstallation (runStep env step effect) := by
  intro w
  refine (runStep_ends env step effect w).mono (fun _ w' heq => heq ▸ h w) fun _ w' hor => ?_
  rcases hor with rfl | rfl
  · exact SameInstallation.refl _
  · exact h w

lemma keeps_runSteps (steps : List UpdateStep) : KeepsInstallation (runSteps env steps) := by
  induction steps with
  | nil => exact keeps_pure ()
  | cons step steps ih => exact (keeps_runStep env step).bind fun _ => ih

lemma keeps_exitUnless (condition : Bool) : KeepsInstallation (exitUnless condition) := by
  intro w
  cases condition with
  | false => exact SameInstallation.refl w
  | true => exact SameInstallation.refl w

lemma KeepsInstallation.onlyIf {x : UpdateScript Unit} (h : KeepsInstallation x)
    (condition : Bool) : KeepsInstallation (onlyIf condition x) := by
  cases condition with
  | false => exact keeps_pure ()
  | true => exact h

lemma keeps_get : KeepsInstallation (get : UpdateScript UpdateWorld) :=
  fun w => SameInstallation.refl w

lemma keeps_makeDirectories : KeepsInstallation (makeDirectories env) :=
  (keeps_runStep env _).bind fun _ =>
  ((keeps_runStep env _).onlyIf _).bind fun _ =>
  (keeps_exitUnless _).bind fun _ =>
  (keeps_runStep env _).bind fun _ =>
  (keeps_runStep env _).bind fun _ =>
  (keeps_runStep env _).bind fun _ =>
  (keeps_runStep env _).bind fun _ =>
  keeps_runStep env _

lemma keeps_checkNetwork : KeepsInstallation (checkNetwork env) :=
  keeps_get.bind fun _ => KeepsInstallation.onlyIf
    ((keeps_exitUnless _).bind fun _ => keeps_runStep env _) _

lemma keeps_backupVersion : KeepsInstallation (backupVersion env) :=
  keeps_get.bind fun _ => (keeps_runStep env _).onlyIf _

lemma keeps_stageFiles : KeepsInstallation (stageFiles env) :=
  (keeps_exitUnless _).bind fun _ =>
  (keeps_runStep env _).bind fun _ =>
  (keeps_checkNetwork env).bind fun _ =>
  (keeps_runStep env _).bind fun _ =>
  (keeps_runStep env _).bind fun _ =>
  (keeps_runStep env _).bind fun _ =>
  ((keeps_runStep env _).onlyIf _).bind fun _ =>
  ((keeps_runStep env _).onlyIf _).bind fun _ =>
  (keeps_runStep env _).bind fun _ =>
  (keeps_runStep env _).bind fun _ =>
  keeps_backupVersion env

lemma keeps_confirmStopped : KeepsInstallation (confirmStopped env) := by
  have hstop : KeepsInstallation (stopService env) := KeepsInstallation.onlyIf
    ((keeps_runStep env _).bind fun _ => (keeps_runStep env _).bind fun _ => keeps_runStep env _) _
  exact (keeps_runStep env _).bind fun _ => KeepsInstallation.onlyIf
    ((keeps_runStep env _).bind fun _ => hstop.bind fun _ =>
      (keeps_runStep env _).bind fun _ => keeps_exitUnless _) _

/-- **Before the replacement nothing of the installation changes.** -/
lemma keeps_prepareRelease : KeepsInstallation (prepareRelease env) :=
  (keeps_runSteps env _).bind fun _ => (keeps_makeDirectories env).bind fun _ =>
    (keeps_stageFiles env).bind fun _ => keeps_confirmStopped env

/-! ## During the replacement -/

variable {env}

/-- The installed `bin` is out of the way, or there is none to move. -/
def MovedAside (old : Installation) (w : UpdateWorld) : Prop :=
  match old.bin with
  | .directory files => w.backupBin = some files ∧ w.bin = .absent
  | .absent => w.backupBin = none ∧ w.bin = .absent
  | .file f => w.backupBin = none ∧ w.bin = .file f

/-- The backup has what is needed to put the old release back, and the flags say so. -/
structure Restorable (old : Installation) (w : UpdateWorld) : Prop where
  BIN_REPLACED : w.BIN_REPLACED = true
  COMMITTED : w.COMMITTED = false
  version : w.backupVersion = old.version
  /-- Apart from a candidate that stands where the old `bin` was. -/
  bin : MovedAside old w ∨ (w.bin.isDirectory = true ∧ MovedAside old { w with bin := .absent })

/-- The new release is in place. -/
structure Committed (env : UpdateEnvironment) (w : UpdateWorld) : Prop where
  COMMITTED : w.COMMITTED = true
  bin : w.bin = .directory (releaseBin env)
  version : w.version = some (env.VERSION ++ "\n")

/-- What the steps after the move start from. -/
structure ReadyToReplace (env : UpdateEnvironment) (old : Installation) (w : UpdateWorld) :
    Prop where
  COMMITTED : w.COMMITTED = false
  backupVersion : w.backupVersion = old.version
  stageBin : w.stageBin = some (releaseBin env)
  stageVersion : w.stageVersion = some (env.VERSION ++ "\n")
  moved : MovedAside old w

/-- The candidate stands where the old `bin` was. -/
structure Candidate (env : UpdateEnvironment) (old : Installation) (w : UpdateWorld) : Prop where
  BIN_REPLACED : w.BIN_REPLACED = true
  COMMITTED : w.COMMITTED = false
  backupVersion : w.backupVersion = old.version
  bin : w.bin = .directory (releaseBin env)
  moved : MovedAside old { w with bin := .absent }

lemma Candidate.restorable (h : Candidate env old w) : Restorable old w :=
  ⟨h.BIN_REPLACED, h.COMMITTED, h.backupVersion, .inr ⟨by rw [h.bin]; rfl, h.moved⟩⟩

lemma assignStep_ends (env : UpdateEnvironment) (h : step.mayFail = false)
    (effect : UpdateWorld → UpdateWorld) (w : UpdateWorld) :
    Ends (runStep env step effect w) (fun _ w' => w' = effect w) (fun _ w' => w' = effect w) := by
  rw [runStep, h]
  rw [afterStep]
  cases env.signal step with
  | some signal => exact rfl
  | none => exact rfl

lemma moveNewBin_ends (h : ReadyToReplace env old w) (hflag : w.BIN_REPLACED = true) :
    Ends (moveNewBin env w)
      (fun _ w' => Candidate env old w' ∧ w'.stageVersion = some (env.VERSION ++ "\n"))
      (fun _ w' => Restorable old w') := by
  have hhere : Restorable old w := ⟨hflag, h.COMMITTED, h.backupVersion, .inl h.moved⟩
  have hfree : w.bin = .absent → Ends (moveNewBin env w)
      (fun _ w' => Candidate env old w' ∧ w'.stageVersion = some (env.VERSION ++ "\n"))
      (fun _ w' => Restorable old w') := by
    intro hbin
    have hmoved : MovedAside old { w with bin := .absent } := by
      rw [← hbin]
      exact h.moved
    have hcandidate : Candidate env old
        { w with bin := .directory (releaseBin env), stageBin := none } :=
      ⟨hflag, h.COMMITTED, h.backupVersion, rfl, hmoved⟩
    rw [moveNewBin, run_get_bind, hbin, h.stageBin]
    refine (runStep_ends env .moveNewBin _ w).mono ?_ ?_
    · rintro _ _ rfl
      exact ⟨hcandidate, h.stageVersion⟩
    · rintro _ _ (rfl | rfl)
      · exact hhere
      · exact hcandidate.restorable
  have hmoved := h.moved
  unfold MovedAside at hmoved
  split at hmoved
  · exact hfree hmoved.2
  · exact hfree hmoved.2
  · rw [moveNewBin, run_get_bind, hmoved.2]
    exact hhere

lemma idleStep_ends (env : UpdateEnvironment) (step : UpdateStep) (w : UpdateWorld) :
    Ends (runStep env step id w) (fun _ w' => w' = w) (fun _ w' => w' = w) :=
  (runStep_ends env step id w).mono (fun _ _ => id) fun _ _ h => h.elim id id

lemma restartService_ends (env : UpdateEnvironment) (w : UpdateWorld) :
    Ends (restartService env w) (fun _ w' => w' = w) (fun _ w' => w' = w) := by
  rw [restartService, run_get_bind, onlyIf]
  split
  · refine (idleStep_ends env _ w).bind ?_
    rintro _ _ rfl
    refine (idleStep_ends env _ _).bind ?_
    rintro _ _ rfl
    exact idleStep_ends env _ _
  · exact rfl

/-- **From the flag on the old release can be put back, or the new one is in place.** -/
lemma putRelease_ends (h : ReadyToReplace env old w) :
    Ends (putRelease env w) (fun _ w' => Committed env w')
      (fun _ w' => Restorable old w' ∨ Committed env w') := by
  obtain ⟨w₁, hw₁⟩ : ∃ w₁, w₁ = { w with BIN_REPLACED := true } := ⟨_, rfl⟩
  have hready : ReadyToReplace env old w₁ :=
    hw₁ ▸ ⟨h.COMMITTED, h.backupVersion, h.stageBin, h.stageVersion, h.moved⟩
  have hflag : w₁.BIN_REPLACED = true := hw₁ ▸ rfl
  refine Ends.bind ((assignStep_ends env rfl _ w).mono (fun _ _ => id) ?_) ?_
  · rintro _ _ rfl
    exact .inl (hw₁ ▸ ⟨hflag, hready.COMMITTED, hready.backupVersion, .inl hready.moved⟩)
  rintro _ _ rfl
  rw [← hw₁]
  refine Ends.bind ((moveNewBin_ends hready hflag).mono (fun _ _ => id) fun _ _ => .inl) ?_
  rintro _ w₂ ⟨hcandidate, hversion⟩
  obtain ⟨w₃, hw₃⟩ : ∃ w₃, w₃ = { w₂ with version := w₂.stageVersion, stageVersion := none } :=
    ⟨_, rfl⟩
  have hcandidate₃ : Candidate env old w₃ :=
    hw₃ ▸ ⟨hcandidate.BIN_REPLACED, hcandidate.COMMITTED, hcandidate.backupVersion, hcandidate.bin,
      hcandidate.moved⟩
  have hversion₃ : w₃.version = some (env.VERSION ++ "\n") := hw₃ ▸ hversion
  refine Ends.bind ((runStep_ends env .moveVersion _ w₂).mono (fun _ _ => id) ?_) ?_
  · rintro _ _ (rfl | rfl)
    · exact .inl hcandidate.restorable
    · exact .inl (hw₃ ▸ hcandidate₃.restorable)
  rintro _ _ rfl
  rw [← hw₃]
  refine Ends.bind ((restartService_ends env w₃).mono (fun _ _ => id) ?_) ?_
  · rintro _ _ rfl
    exact .inl hcandidate₃.restorable
  rintro _ w₄ rfl
  have hcommitted : Committed env { w₄ with COMMITTED := true } :=
    ⟨rfl, hcandidate₃.bin, hversion₃⟩
  refine Ends.bind ((assignStep_ends env rfl _ w₄).mono (fun _ _ => id) ?_) ?_
  · rintro _ _ rfl
    exact .inr hcommitted
  rintro _ _ rfl
  refine Ends.bind ((idleStep_ends env _ _).mono (fun _ _ => id) ?_) ?_
  · rintro _ _ rfl
    exact .inr hcommitted
  rintro _ _ rfl
  refine (idleStep_ends env _ _).mono ?_ ?_
  · rintro _ _ rfl
    exact hcommitted
  · rintro _ _ rfl
    exact .inr hcommitted

/-! ## `cleanup` -/

/-- The commands of `cleanup` succeed. -/
structure CleanupSucceeds (env : UpdateEnvironment) : Prop where
  steps : ∀ step, env.cleanupSucceeds step = true
  stopped : serviceIsStopped env.cleanupStopped = true

/-- An installation with the flag for a finished update. -/
structure Leaves (bin : PathEntry) (version : Option String) (committed : Bool) (w : UpdateWorld) :
    Prop where
  bin : w.bin = bin
  version : w.version = version
  COMMITTED : w.COMMITTED = committed

/-- A signal is delivered to a command of `cleanup`. -/
def interrupted (env : UpdateEnvironment) (step : CleanupStep) : Bool :=
  (env.cleanupSignal step).isSome

/-- What `cleanup` leaves of an update that it has to undo.  A signal ends it before anything was
put back, after the candidate was moved away, or after the old `bin` came back; later ones find the
old release in place. -/
def cutShort (env : UpdateEnvironment) (old : Installation) (w : UpdateWorld) : Installation :=
  if interrupted env .clearTrap || (w.WAS_ACTIVE &&
      (interrupted env .stopService || interrupted env .confirmStopped)) then ⟨w.bin, w.version⟩
  else if w.bin.isDirectory && interrupted env .moveFailedBin then ⟨.absent, w.version⟩
  else if old.bin.isDirectory && interrupted env .moveBackupBin then ⟨old.bin, w.version⟩
  else old

section Cleanup

variable {bin : PathEntry} {version : Option String} {committed : Bool} {status : ℕ}

lemma afterCleanupStep_ends (env : UpdateEnvironment) (step : CleanupStep) (w : UpdateWorld) :
    Ends (afterCleanupStep env step w) (fun _ w' => interrupted env step = false ∧ w' = w)
      (fun _ w' => interrupted env step = true ∧ w' = w) := by
  rw [afterCleanupStep, interrupted]
  cases env.cleanupSignal step with
  | some signal => exact ⟨rfl, rfl⟩
  | none => exact ⟨rfl, rfl⟩

lemma afterCleanupStep_leaves (step : CleanupStep) (h : Leaves bin version committed w) :
    Ends (afterCleanupStep env step w) (fun _ => Leaves bin version committed)
      fun _ => Leaves bin version committed :=
  (afterCleanupStep_ends env step w).mono (fun _ _ heq => heq.2 ▸ h) fun _ _ heq => heq.2 ▸ h

lemma attempt_ends (hcleanup : CleanupSucceeds env) (step : CleanupStep) (status : ℕ)
    {effect : UpdateWorld → Option UpdateWorld} (heffect : effect w = some w') :
    Ends (attempt env step status effect w) (fun _ w₁ => interrupted env step = false ∧ w₁ = w')
      (fun _ w₁ => interrupted env step = true ∧ w₁ = w') := by
  rw [attempt, run_get_bind, hcleanup.steps, heffect]
  exact (afterCleanupStep_ends env step w').bind fun _ _ h => h

/-- What `cleanup` leaves is what undoing leaves, unless a signal comes first. -/
lemma cleanup_leaves (hw : interrupted env .clearTrap = true → Leaves bin version committed w)
    (h : interrupted env .clearTrap = false → Ends (undoUpdate env status w)
      (fun _ => Leaves bin version committed) fun _ => Leaves bin version committed) :
    Leaves bin version committed (lastState (cleanup env status w)) := by
  refine Ends.lastState ?_
  refine Ends.bind ((afterCleanupStep_ends env _ w).mono (fun _ _ => id) ?_) ?_
  · rintro _ _ ⟨htrap, rfl⟩
    exact hw htrap
  rintro _ _ ⟨htrap, rfl⟩
  refine (h htrap).bind fun status' w₁ h₁ => ?_
  have hremoved : Leaves bin version committed
      { w₁ with STAGE := false, stageBin := none, stageVersion := none } :=
    ⟨h₁.bin, h₁.version, h₁.COMMITTED⟩
  exact (afterCleanupStep_leaves .removeStage hremoved).bind fun _ _ h₂ =>
    (afterCleanupStep_leaves .removeTmp h₂).bind fun _ _ h₃ => h₃

lemma restartStopped_ends (hcleanup : CleanupSucceeds env) (status : ℕ) (w : UpdateWorld) :
    Ends (restartStopped env status w) (fun _ w' => w' = w) (fun _ w' => w' = w) := by
  rw [restartStopped, run_get_bind]
  split
  · exact (attempt_ends hcleanup .startService status rfl).mono (fun _ _ => And.right)
      fun _ _ => And.right
  · exact rfl

lemma cleanup_of_committed (h : w.COMMITTED = true) :
    Leaves w.bin w.version true (lastState (cleanup env status w)) := by
  refine cleanup_leaves (fun _ => ⟨rfl, rfl, h⟩) fun _ => ?_
  rw [undoUpdate, run_get_bind, if_pos h]
  exact ⟨rfl, rfl, h⟩

lemma cleanup_of_not_replaced (hcleanup : CleanupSucceeds env) (hcommitted : w.COMMITTED = false)
    (hflag : w.BIN_REPLACED = false) :
    Leaves w.bin w.version false (lastState (cleanup env status w)) := by
  refine cleanup_leaves (fun _ => ⟨rfl, rfl, hcommitted⟩) fun _ => ?_
  rw [undoUpdate, run_get_bind, if_neg (by rw [hcommitted]; exact Bool.false_ne_true)]
  have hroll : rollbackUpdate env status w = .ok status w := by
    rw [rollbackUpdate, run_get_bind, if_neg (by rw [hflag]; exact Bool.false_ne_true)]
    rfl
  rw [run_bind_of_ok hroll]
  refine (restartStopped_ends hcleanup status w).mono ?_ ?_
  · rintro _ _ rfl
    exact ⟨rfl, rfl, hcommitted⟩
  · rintro _ _ rfl
    exact ⟨rfl, rfl, hcommitted⟩

lemma confirmCleanupStopped_ends (hcleanup : CleanupSucceeds env) (w : UpdateWorld) :
    Ends (confirmCleanupStopped env w)
      (fun _ w' => (w.WAS_ACTIVE &&
        (interrupted env .stopService || interrupted env .confirmStopped)) = false ∧ w' = w)
      (fun _ w' => (w.WAS_ACTIVE &&
        (interrupted env .stopService || interrupted env .confirmStopped)) = true ∧ w' = w) := by
  rw [confirmCleanupStopped, run_get_bind, hcleanup.stopped]
  cases w.WAS_ACTIVE with
  | false => exact ⟨rfl, rfl⟩
  | true =>
    refine ((afterCleanupStep_ends env _ w).mono (fun _ _ => id) ?_).bind ?_
    · rintro _ _ ⟨hstop, rfl⟩
      exact ⟨by rw [hstop]; rfl, rfl⟩
    rintro _ _ ⟨hstop, rfl⟩
    refine ((afterCleanupStep_ends env _ _).mono (fun _ _ => id) ?_).bind ?_
    · rintro _ _ ⟨hconfirm, rfl⟩
      exact ⟨by rw [hstop, hconfirm]; rfl, rfl⟩
    rintro _ _ ⟨hconfirm, rfl⟩
    exact ⟨by rw [hstop, hconfirm]; rfl, rfl⟩

lemma keepFailedBin_ends (hcleanup : CleanupSucceeds env) (h : Restorable old w) (status : ℕ) :
    Ends (keepFailedBin env status w)
      (fun _ w' => (w.bin.isDirectory && interrupted env .moveFailedBin) = false ∧
        MovedAside old w' ∧ w'.backupVersion = old.version ∧ w'.version = w.version ∧
        w'.COMMITTED = false)
      (fun _ w' => (w.bin.isDirectory && interrupted env .moveFailedBin) = true ∧
        Leaves .absent w.version false w') := by
  rw [keepFailedBin, run_get_bind]
  rcases h.bin with hmoved | ⟨hdirectory, hmoved⟩
  · have hnot : w.bin.isDirectory = false := by
      unfold MovedAside at hmoved
      split at hmoved <;> rw [hmoved.2] <;> rfl
    rw [hnot]
    exact ⟨rfl, hmoved, h.version, rfl, h.COMMITTED⟩
  · rw [hdirectory]
    refine (attempt_ends hcleanup .moveFailedBin status (by rfl)).mono ?_ ?_
    · rintro _ _ ⟨hsignal, rfl⟩
      exact ⟨hsignal, hmoved, h.version, rfl, h.COMMITTED⟩
    · rintro _ _ ⟨hsignal, rfl⟩
      exact ⟨hsignal, rfl, rfl, h.COMMITTED⟩

lemma restoreBin_ends (hcleanup : CleanupSucceeds env) (h : MovedAside old w) (status : ℕ) :
    Ends (restoreBin env status w)
      (fun _ w' => (old.bin.isDirectory && interrupted env .moveBackupBin) = false ∧
        w'.bin = old.bin ∧ w'.backupVersion = w.backupVersion ∧ w'.COMMITTED = w.COMMITTED)
      (fun _ w' => (old.bin.isDirectory && interrupted env .moveBackupBin) = true ∧
        Leaves old.bin w.version w.COMMITTED w') := by
  rw [restoreBin, run_get_bind]
  unfold MovedAside at h
  split at h
  · next files hold =>
    rw [h.1, hold]
    refine (attempt_ends hcleanup .moveBackupBin status (by rw [h.2]; rfl)).mono ?_ ?_
    · rintro _ _ ⟨hsignal, rfl⟩
      exact ⟨hsignal, rfl, rfl, rfl⟩
    · rintro _ _ ⟨hsignal, rfl⟩
      exact ⟨hsignal, rfl, rfl, rfl⟩
  · next hold =>
    rw [h.1, hold]
    exact ⟨rfl, h.2, rfl, rfl⟩
  · next f hold =>
    rw [h.1, hold]
    exact ⟨rfl, h.2, rfl, rfl⟩

lemma restoreVersion_ends (hcleanup : CleanupSucceeds env) (h : w.backupVersion = old.version)
    (status : ℕ) :
    Ends (restoreVersion env status w) (fun _ => Leaves w.bin old.version w.COMMITTED)
      (fun _ => Leaves w.bin old.version w.COMMITTED) := by
  rw [restoreVersion, run_get_bind, h]
  cases old.version with
  | some version =>
    refine (attempt_ends hcleanup .copyVersion status (by rfl)).mono ?_ ?_
    · rintro _ _ ⟨-, rfl⟩
      exact ⟨rfl, rfl, rfl⟩
    · rintro _ _ ⟨-, rfl⟩
      exact ⟨rfl, rfl, rfl⟩
  | none =>
    dsimp only
    rw [if_pos (hcleanup.steps _)]
    refine Ends.bind (P := fun _ => Leaves w.bin none w.COMMITTED) ⟨rfl, rfl, rfl⟩ fun _ w₁ h₁ => ?_
    exact (afterCleanupStep_leaves .removeVersion h₁).bind fun _ _ h₂ => h₂

/-- **With the flag the old release comes back**, as far as no signal stops `cleanup`. -/
lemma cleanup_of_restorable (hcleanup : CleanupSucceeds env) (h : Restorable old w) :
    Leaves (cutShort env old w).bin (cutShort env old w).version false
      (lastState (cleanup env status w)) := by
  refine cleanup_leaves ?_ fun htrap => ?_
  · intro htrap
    rw [cutShort, htrap]
    exact ⟨rfl, rfl, h.COMMITTED⟩
  rw [undoUpdate, run_get_bind, if_neg (by rw [h.COMMITTED]; exact Bool.false_ne_true)]
  suffices hroll : Ends (rollbackUpdate env status w)
      (fun _ => Leaves (cutShort env old w).bin (cutShort env old w).version false)
      (fun _ => Leaves (cutShort env old w).bin (cutShort env old w).version false) by
    refine hroll.bind fun status' w₁ h₁ => ?_
    exact (restartStopped_ends hcleanup status' w₁).mono (fun _ _ heq => heq ▸ h₁)
      fun _ _ heq => heq ▸ h₁
  rw [rollbackUpdate, run_get_bind, if_pos h.BIN_REPLACED]
  refine ((confirmCleanupStopped_ends hcleanup w).mono (fun _ _ => id) ?_).bind ?_
  · rintro _ _ ⟨hstop, rfl⟩
    rw [cutShort, htrap, hstop]
    exact ⟨rfl, rfl, h.COMMITTED⟩
  rintro _ w ⟨hstop, rfl⟩
  refine ((keepFailedBin_ends hcleanup h status).mono (fun _ _ => id) ?_).bind ?_
  · rintro _ _ ⟨hkeep, hleft⟩
    rw [cutShort, htrap, hstop, hkeep]
    exact hleft
  rintro status₁ w₁ ⟨hkeep, hmoved, hbackup, hversion, hcommitted⟩
  refine ((restoreBin_ends hcleanup hmoved status₁).mono (fun _ _ => id) ?_).bind ?_
  · rintro _ _ ⟨hrestore, hleft⟩
    rw [cutShort, htrap, hstop, hkeep, hrestore]
    exact ⟨hleft.bin, hleft.version.trans hversion, hleft.COMMITTED.trans hcommitted⟩
  rintro status₂ w₂ ⟨hrestore, hbin, hbackup₂, hcommitted₂⟩
  have hversion₂ := restoreVersion_ends hcleanup (hbackup₂.trans hbackup) status₂
  rw [hbin, hcommitted₂.trans hcommitted] at hversion₂
  rw [cutShort, htrap, hstop, hkeep, hrestore]
  exact hversion₂

end Cleanup

/-! ## The whole script -/

/-- The installed `bin` is moved away and a signal is delivered during that. -/
structure SignalledDuringMove (env : UpdateEnvironment) (old : Installation) : Prop where
  reached : ReachesReplacement env old
  directory : old.bin.isDirectory = true
  moved : env.failure .moveOldBin = none
  signalled : (env.signal .moveOldBin).isSome = true

/-- The old release has to be put back and a signal is delivered to `cleanup` before it is. -/
def SignalledDuringRollback (env : UpdateEnvironment) (old : Installation) : Prop :=
  ∃ status w, installUpdate env (.start old) = .error status w ∧ w.BIN_REPLACED = true ∧
    w.COMMITTED = false ∧ cutShort env old w ≠ old

/-- What a signal during the move leaves to `cleanup`. -/
def movedWorld (env : UpdateEnvironment) (old : Installation) (files : FileTree) : UpdateWorld :=
  { stagedWorld env old with bin := .absent, backupBin := some files }

lemma moveOldBin_stagedWorld (env : UpdateEnvironment) (old : Installation) :
    moveOldBin env (stagedWorld env old) =
      match old.bin with
      | .directory files => runStep env .moveOldBin
          (fun w => { w with bin := .absent, backupBin := some files }) (stagedWorld env old)
      | _ => .ok () (stagedWorld env old) := by
  obtain ⟨bin, version⟩ := old
  cases bin <;> rfl

/-- The move ends as it should unless a signal is delivered during it. -/
lemma moveOldBin_ends (hreached : ReachesReplacement env old) (h : ¬ SignalledDuringMove env old) :
    Ends (moveOldBin env (stagedWorld env old)) (fun _ w => ReadyToReplace env old w)
      (fun _ w => w = stagedWorld env old) := by
  rw [moveOldBin_stagedWorld]
  cases hold : old.bin with
  | absent =>
    refine ⟨rfl, rfl, rfl, rfl, ?_⟩
    rw [MovedAside, hold]
    exact ⟨rfl, hold⟩
  | file f =>
    refine ⟨rfl, rfl, rfl, rfl, ?_⟩
    rw [MovedAside, hold]
    exact ⟨rfl, hold⟩
  | directory files =>
    dsimp only
    cases hfailure : env.failure .moveOldBin with
    | some status =>
      rw [runStep_of_failure rfl hfailure]
      exact rfl
    | none =>
      cases hsignal : env.signal .moveOldBin with
      | some signal =>
        exact absurd ⟨hreached, by rw [hold]; rfl, hfailure, by rw [hsignal]; rfl⟩ h
      | none =>
        rw [runStep_of_completes ⟨fun _ => hfailure, hsignal⟩]
        refine ⟨rfl, rfl, rfl, rfl, ?_⟩
        rw [MovedAside, hold]
        exact ⟨rfl, rfl⟩

lemma installUpdate_of_signalled (h : SignalledDuringMove env old) :
    ∃ status files, installUpdate env (.start old) = .error status (movedWorld env old files) := by
  have hstaged : prepareRelease env (.start old) = .ok () (stagedWorld env old) :=
    prepareRelease_eq_ok.mpr ⟨h.reached, rfl⟩
  obtain ⟨files, hold⟩ : ∃ files, old.bin = .directory files := by
    have hdirectory := h.directory
    cases hold : old.bin with
    | directory files => exact ⟨files, rfl⟩
    | absent =>
      rw [hold] at hdirectory
      exact absurd hdirectory Bool.false_ne_true
    | file f =>
      rw [hold] at hdirectory
      exact absurd hdirectory Bool.false_ne_true
  obtain ⟨signal, hsignal⟩ := Option.isSome_iff_exists.mp h.signalled
  refine ⟨signal.status, files, ?_⟩
  have hmove : moveOldBin env (stagedWorld env old) =
      .error signal.status (movedWorld env old files) := by
    rw [moveOldBin_stagedWorld, hold]
    exact runStep_of_signal (fun _ => h.moved) hsignal
  have hreplace : replaceRelease env (stagedWorld env old) =
      .error signal.status (movedWorld env old files) := run_bind_of_error hmove
  rw [installUpdate, run_bind_of_ok hstaged, hreplace]

/-- **Where the script ends** unless a signal is delivered during the move: nothing was changed, the
old release can be put back, or the new one is in place. -/
lemma installUpdate_ends (h : ¬ SignalledDuringMove env old) :
    Ends (installUpdate env (.start old)) (fun _ w => Committed env w)
      (fun _ w => SameInstallation (.start old) w ∨ Restorable old w ∨ Committed env w) := by
  cases hprepare : prepareRelease env (.start old) with
  | error status w =>
    have hkeeps := keeps_prepareRelease env (.start old)
    rw [hprepare] at hkeeps
    rw [installUpdate, run_bind_of_error hprepare]
    exact .inl hkeeps
  | ok u w =>
    obtain ⟨hreached, rfl⟩ := prepareRelease_eq_ok.mp hprepare
    rw [installUpdate, run_bind_of_ok hprepare, replaceRelease]
    refine Ends.bind ((moveOldBin_ends hreached h).mono (fun _ _ => id) ?_) ?_
    · rintro _ _ rfl
      exact .inl ⟨rfl, rfl, rfl, rfl⟩
    · exact fun _ w hready => (putRelease_ends hready).mono (fun _ _ => id) fun _ _ => .inr

/-- After the update the installation is the new release or what it was. -/
def NewOrOld (env : UpdateEnvironment) (old : Installation) (w : UpdateWorld) : Prop :=
  Committed env w ∨ (w.bin = old.bin ∧ w.version = old.version)

lemma Committed.newOrOld_cleanup (h : Committed env w) (old : Installation) (status : ℕ) :
    NewOrOld env old (lastState (cleanup env status w)) := by
  have hleft : Leaves w.bin w.version true (lastState (cleanup env status w)) :=
    cleanup_of_committed h.COMMITTED
  exact .inl ⟨hleft.COMMITTED, hleft.bin.trans h.bin, hleft.version.trans h.version⟩

lemma SameInstallation.newOrOld_cleanup (hcleanup : CleanupSucceeds env)
    (h : SameInstallation (.start old) w) (status : ℕ) :
    NewOrOld env old (lastState (cleanup env status w)) := by
  have hleft : Leaves w.bin w.version false (lastState (cleanup env status w)) :=
    cleanup_of_not_replaced hcleanup h.COMMITTED h.BIN_REPLACED
  exact .inr ⟨hleft.bin.trans h.bin, hleft.version.trans h.version⟩

lemma Restorable.newOrOld_cleanup_iff (hcleanup : CleanupSucceeds env) (h : Restorable old w)
    (status : ℕ) :
    NewOrOld env old (lastState (cleanup env status w)) ↔ cutShort env old w = old := by
  have hleft : Leaves (cutShort env old w).bin (cutShort env old w).version false
      (lastState (cleanup env status w)) := cleanup_of_restorable hcleanup h
  constructor
  · rintro (hcommitted | ⟨hbin, hversion⟩)
    · exact absurd (hcommitted.COMMITTED.symm.trans hleft.COMMITTED) Bool.noConfusion
    · rw [← show (⟨(cutShort env old w).bin, (cutShort env old w).version⟩ : Installation) =
        cutShort env old w from rfl, ← hleft.bin, ← hleft.version, hbin, hversion]
  · intro heq
    exact .inr ⟨hleft.bin.trans (by rw [heq]), hleft.version.trans (by rw [heq])⟩

lemma not_newOrOld_of_signalled (hcleanup : CleanupSucceeds env) (h : SignalledDuringMove env old) :
    ¬ NewOrOld env old (afterUpdate env old) := by
  obtain ⟨status, files, hrun⟩ := installUpdate_of_signalled h
  have hleft : Leaves .absent old.version false (afterUpdate env old) := by
    rw [afterUpdate, slithyUpdate, hrun]
    exact @cleanup_of_not_replaced env (movedWorld env old files) status hcleanup rfl rfl
  rintro (hcommitted | ⟨hbin, -⟩)
  · exact absurd (hcommitted.COMMITTED.symm.trans hleft.COMMITTED) Bool.noConfusion
  · have hdirectory := h.directory
    rw [← hbin, hleft.bin] at hdirectory
    exact absurd hdirectory Bool.false_ne_true

/-- An update by root of a release with nothing but the required files, on a machine without
`systemctl`. -/
def smallUpdate (failure : UpdateStep → Option ℕ) (signal : UpdateStep → Option UpdateSignal)
    (cleanupSignal : CleanupStep → Option UpdateSignal) : UpdateEnvironment where
  root := true
  VERSION := "1.0.2"
  package := requiredBinaries.map fun binary =>
    ([binary], { contents := "new", mode := 0o755, root := false })
  lockIsSymlink := false
  sameNetwork _ _ := true
  loaded := false
  CURRENT_STATE := "inactive"
  stopped := ⟨some "inactive", some "0", some "0", true, some "inactive"⟩
  failure
  signal
  cleanupSucceeds _ := true
  cleanupSignal
  cleanupStopped := ⟨some "inactive", some "0", some "0", true, some "inactive"⟩

/-- The release before it. -/
def smallInstallation : Installation where
  bin := .directory [(["slithyd"], { contents := "old", mode := 0o755, root := true })]
  version := some "1.0.1\n"

/-- The new `VERSION` cannot be moved into its place. -/
def versionFails : UpdateStep → Option ℕ
  | .moveVersion => some 1
  | _ => none

/-- The same update where `TERM` is delivered while `cleanup` takes the candidate away. -/
example : (afterUpdate (smallUpdate versionFails (fun _ => none)
    fun step => if step = .moveFailedBin then some .TERM else none) smallInstallation).bin =
    .absent := by decide +kernel

end SlithyTove
