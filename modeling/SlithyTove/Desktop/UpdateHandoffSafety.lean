import SlithyTove.Desktop.UpdateHandoff

/-!
# Only one application owns the node

The replacement may open the node only after `LaunchAsync` has let it, and never where
`LaunchAsync` has thrown, since the old application then goes on.  Both follow from who writes which
file.  `proceed.json` comes from `LaunchAsync` alone, by one renaming, with the text for this token
and this process, and after it nothing is left in `LaunchAsync` that could throw (`LaunchInv`).  And
the replacement is past its last check only where that renaming has happened (`ReplacementInv`).

The replacement touches the files of `LaunchAsync` only by removing them, so its steps keep what
`LaunchInv` says (`LaunchInv.of_removed`).
-/

namespace SlithyTove

open Framework Option HandoffFolder

/-! ## Files -/

namespace HandoffFolder

variable {Text : Type} {folder folder' : HandoffFolder Text} {file target : HandoffFile}

@[simp] lemma read_ensure (folder : HandoffFolder Text) (file : HandoffFile) :
    folder.ensure.read file = folder.read file := by
  cases folder <;> rfl

lemma read_create {empty : Text} (h : folder.create file empty = some folder')
    (other : HandoffFile) :
    folder'.read other = if other = file then some empty else folder.read other := by
  cases folder with
  | none => cases h
  | some files =>
    rw [create] at h
    split at h
    · cases h
    · cases h
      exact Function.update_apply ..

lemma read_write (folder : HandoffFolder Text) (file : HandoffFile) (text : Text)
    (other : HandoffFile) :
    (folder.write file text).read other =
      if other = file then (folder.read file).map fun _ => text else folder.read other := by
  cases folder with
  | none =>
    change none = if other = file then none else none
    rw [ite_self]
  | some files =>
    change (if (files file).isSome then Function.update files file (some text) else files) other =
      if other = file then (files file).map fun _ => text else files other
    by_cases hother : other = file
    · subst hother
      cases hfile : files other with
      | none => simp [hfile]
      | some old => simp
    · cases hfile : files file with
      | none => simp [hother]
      | some old => simp [hother]

lemma read_move (h : folder.move file target = some folder') :
    ∃ text, folder.read file = some text ∧ ∀ other, folder'.read other =
      if other = target then some text else if other = file then none else folder.read other := by
  cases folder with
  | none => cases h
  | some files =>
    rw [move] at h
    split at h
    · next text hfile htarget =>
      cases h
      refine ⟨text, hfile, fun other => ?_⟩
      change Function.update (Function.update files file none) target (some text) other = _
      rw [Function.update_apply, Function.update_apply]
      rfl
    · cases h

lemma read_delete (folder : HandoffFolder Text) (file other : HandoffFile) :
    (folder.delete file).read other = if other = file then none else folder.read other := by
  cases folder with
  | none =>
    change none = if other = file then none else none
    rw [ite_self]
  | some files => exact Function.update_apply ..

lemma read_remove (h : folder.remove = some folder') (other : HandoffFile) :
    folder'.read other = none := by
  cases folder with
  | none => cases h
  | some files =>
    rw [remove] at h
    split at h
    · cases h
      rfl
    · cases h

end HandoffFolder

/-! ## What `LaunchAsync` guarantees -/

/-- No process has been started. -/
def LaunchPc.unstarted : LaunchPc → Bool
  | .ensureCache | .ensureHandoff | .createRequest | .writeRequest | .startProcess => true
  | _ => false

/-- The answer that `LaunchAsync` has accepted. -/
def LaunchPc.ready : LaunchPc → Option Ready
  | .createProceed ready | .writeProceed ready | .moveProceed ready => some ready
  | _ => none

/-- Files that only `LaunchAsync` writes. -/
def HandoffFile.ofLaunch : HandoffFile → Bool
  | .request | .proceedTemporary | .proceed => true
  | .readyTemporary | .ready => false

/-- `proceed.json` has been written. -/
def LaunchPc.started : LaunchPc → Bool
  | .setStarted | .returned => true
  | _ => false

/-- From one operation to another that is not the start and has accepted nothing. -/
def LaunchPc.leadsTo (pc pc' : LaunchPc) : Bool :=
  !pc.started && (!pc'.unstarted || pc.unstarted) && decide
    (pc' ≠ .startProcess) && pc'.ready.isNone

/-- What the replacement has read as the request. -/
def ReplacementPc.request : ReplacementPc → Option Handoff
  | .checkHandoff request | .createReady request | .writeReady request | .moveReady request
  | .findProceed request | .checkExpiry request | .checkProceed request | .readProceed request
  | .deleteFolder request | .returned request => some request
  | _ => none

/-- The replacement has seen its confirmation. -/
def ReplacementPc.confirmed : ReplacementPc → Bool
  | .deleteFolder _ | .returned _ => true
  | _ => false

namespace HandoffSetup

variable {Text : Type} {setup : HandoffSetup Text} {s s' : HandoffWorld Text}

/-- The answer for this token and this process. -/
def confirmation (setup : HandoffSetup Text) : Ready := ⟨setup.request.Token, setup.processId⟩

/-- The files and the variables of `LaunchAsync`. -/
structure LaunchInv (setup : HandoffSetup Text) (s : HandoffWorld Text) : Prop where
  unstarted : s.launch.unstarted = true → s.replacement = none
  request : s.launch = .startProcess ∨ s.replacement.isSome = true →
    ∀ text, s.folder.read .request = some text → text = setup.format.writeHandoff setup.request
  ready : ∀ ready, s.launch.ready = some ready → ready = setup.confirmation
  temporary : ∀ ready, s.launch = .moveProceed ready →
    ∀ text, s.folder.read .proceedTemporary = some text → text = setup.format.writeReady ready
  proceed : ∀ text, s.folder.read .proceed = some text → s.proceeded = some text
  proceeded : ∀ text, s.proceeded = some text →
    text = setup.format.writeReady setup.confirmation ∧ s.launch.started = true

/-- What the replacement knows. -/
structure ReplacementInv (setup : HandoffSetup Text) (s : HandoffWorld Text) : Prop where
  request : ∀ pc request, s.replacement = some pc → pc.request = some request →
    request = setup.request
  confirmed : ∀ pc, s.replacement = some pc → pc.confirmed = true → s.proceeded.isSome = true

namespace LaunchInv

variable (h : LaunchInv setup s)

include h

lemma not_proceeded (hstarted : s.launch.started = false) : s.proceeded = none := by
  rw [eq_none_iff_forall_ne_some]
  intro text htext
  exact absurd ((h.proceeded text htext).2.symm.trans hstarted) Bool.noConfusion

/-- Steps that leave `LaunchAsync` where it is and at most remove files of it. -/
lemma of_removed (hlaunch : s'.launch = s.launch)
    (hreplacement : s'.replacement.isSome = s.replacement.isSome)
    (hproceeded : s'.proceeded = s.proceeded) (hread : ∀ file text, file.ofLaunch = true →
      s'.folder.read file = some text → s.folder.read file = some text) : LaunchInv setup s' where
  unstarted hunstarted := by
    rw [← not_isSome_iff_eq_none, hreplacement, h.unstarted (hlaunch ▸ hunstarted)]
    exact Bool.false_ne_true
  request hor text htext := by
    rw [hlaunch, hreplacement] at hor
    exact h.request hor text (hread _ text rfl htext)
  ready := by
    rw [hlaunch]
    exact h.ready
  temporary ready hmove text htext :=
    h.temporary ready (hlaunch ▸ hmove) text (hread _ text rfl htext)
  proceed text htext := by
    rw [hproceeded]
    exact h.proceed text (hread _ text rfl htext)
  proceeded := by
    rw [hproceeded, hlaunch]
    exact h.proceeded

variable {pc : LaunchPc} {folder : HandoffFolder Text}

/-- `LaunchAsync` goes on before `proceed.json` is written, in a directory with no new one. -/
lemma advance (hstarted : s.launch.started = false)
    (hunstarted : pc.unstarted = true → s.launch.unstarted = true)
    (hrequest : pc = .startProcess ∨ s.replacement.isSome = true →
      ∀ text, folder.read .request = some text → text = setup.format.writeHandoff setup.request)
    (hready : ∀ ready, pc.ready = some ready → ready = setup.confirmation)
    (htemporary : ∀ ready, pc = .moveProceed ready →
      ∀ text, folder.read .proceedTemporary = some text → text = setup.format.writeReady ready)
    (hproceed : folder.read .proceed = s.folder.read .proceed) :
    LaunchInv setup { s with folder, launch := pc } where
  unstarted hpc := h.unstarted (hunstarted hpc)
  request := hrequest
  ready := hready
  temporary := htemporary
  proceed text htext := h.proceed text (hproceed ▸ htext)
  proceeded _ htext := absurd ((h.not_proceeded hstarted).symm.trans htext) nofun

lemma goto (hstarted : s.launch.started = false)
    (hunstarted : pc.unstarted = true → s.launch.unstarted = true) (hstart : pc ≠ .startProcess)
    (hready : ∀ ready, pc.ready = some ready → ready = setup.confirmation)
    (hmove : ∀ ready, pc ≠ .moveProceed ready) : LaunchInv setup { s with launch := pc } :=
  h.advance hstarted hunstarted (fun hor => h.request (.inr (hor.resolve_left hstart))) hready
    (fun ready heq => absurd heq (hmove ready)) rfl

lemma goto_plain (hnext : s.launch.leadsTo pc = true) :
    LaunchInv setup { s with launch := pc } := by
  simp only [LaunchPc.leadsTo, Bool.and_eq_true, Bool.not_eq_true', Bool.or_eq_true,
    decide_eq_true_eq, isNone_iff_eq_none] at hnext
  obtain ⟨⟨⟨hstarted, hunstarted⟩, hstart⟩, hready⟩ := hnext
  refine h.goto hstarted (fun hpc => ?_) hstart (fun ready heq => ?_) fun ready heq => ?_
  · rw [hpc] at hunstarted
    exact hunstarted.resolve_left Bool.noConfusion
  · rw [hready] at heq
    cases heq
  · rw [heq] at hready
    cases hready

lemma of_read (hread : ∀ file text, file.ofLaunch = true →
      folder.read file = some text → s.folder.read file = some text) :
    LaunchInv setup { s with folder } :=
  h.of_removed rfl rfl rfl hread

lemma createRequest (hpc : s.launch = .createRequest) {empty : Text}
    (hcreate : s.folder.create .request empty = some folder) :
    LaunchInv setup { s with folder, launch := .writeRequest } := by
  refine h.advance (by rw [hpc]; rfl) (fun _ => by rw [hpc]; rfl) (fun hor => ?_) (fun _ => nofun)
    (fun _ => nofun) (read_create hcreate _)
  rw [h.unstarted (by rw [hpc]; rfl)] at hor
  exact absurd (hor.resolve_left nofun) nofun

variable {file : HandoffFile}

omit h in
lemma eq_of_read_write {written text : Text}
    (h : (folder.write file written).read file = some text) : text = written := by
  rw [read_write, if_pos rfl, map_eq_some_iff] at h
  obtain ⟨_, -, heq⟩ := h
  exact heq.symm

lemma writeRequest (hpc : s.launch = .writeRequest) : LaunchInv setup { s with
      folder := s.folder.write .request (setup.format.writeHandoff setup.request)
      launch := .startProcess } :=
  h.advance (by rw [hpc]; rfl) (fun _ => by rw [hpc]; rfl) (fun _ _ => eq_of_read_write)
    (fun _ => nofun) (fun _ => nofun) (read_write ..)

lemma startProcess (hpc : s.launch = .startProcess) :
    LaunchInv setup { s with replacement := some .checkFolder, launch := .checkDeadline } where
  unstarted := nofun
  request _ := h.request (.inl hpc)
  ready _ := nofun
  temporary _ := nofun
  proceed := h.proceed
  proceeded _ htext := absurd ((h.not_proceeded (by rw [hpc]; rfl)).symm.trans htext) nofun

lemma readResponse (hpc : s.launch = .readResponse) (ready : Ready) : LaunchInv setup { s with
      launch :=
        if ready.Token ≠ setup.request.Token ∨ ready.ProcessId ≠ setup.processId then .finallyBlock
        else .createProceed ready } := by
  split
  · exact h.goto_plain (by rw [hpc]; rfl)
  · next hne =>
    obtain ⟨htoken, hid⟩ := not_or.mp hne
    refine h.goto (by rw [hpc]; rfl) nofun nofun (fun ready' heq => ?_) nofun
    cases heq
    exact congrArg₂ Ready.mk (not_not.mp htoken) (not_not.mp hid)

variable {ready : Ready}

lemma createProceed (hpc : s.launch = .createProceed ready) {empty : Text}
    (hcreate : s.folder.create .proceedTemporary empty = some folder) :
    LaunchInv setup { s with folder, launch := .writeProceed ready } := by
  refine h.advance (by rw [hpc]; rfl) nofun (fun hor => ?_)
    (fun _ heq => h.ready _ (by rw [hpc]; exact heq)) (fun _ => nofun)
    (read_create hcreate _)
  rw [read_create hcreate, if_neg nofun]
  exact h.request (.inr (hor.resolve_left nofun))

lemma writeProceed (hpc : s.launch = .writeProceed ready) : LaunchInv setup { s with
      folder := s.folder.write .proceedTemporary (setup.format.writeReady ready)
      launch := .moveProceed ready } := by
  refine h.advance (by rw [hpc]; rfl) nofun (fun hor => ?_) (fun _ heq => ?_) (fun _ heq _ => ?_)
    (read_write ..)
  · rw [read_write, if_neg nofun]
    exact h.request (.inr (hor.resolve_left nofun))
  · exact h.ready _ (by rw [hpc]; exact heq)
  · cases heq
    exact eq_of_read_write

lemma moveProceed (hpc : s.launch = .moveProceed ready)
    (hmove : s.folder.move .proceedTemporary .proceed = some folder) :
    LaunchInv setup
      { s with folder, proceeded := folder.read .proceed, launch := .setStarted } := by
  obtain ⟨text, htext, hread⟩ := read_move hmove
  have hready : ready = setup.confirmation := h.ready ready (by rw [hpc]; rfl)
  exact {
    unstarted := nofun
    request := fun hor text' htext' => by
      rw [hread, if_neg nofun, if_neg nofun] at htext'
      exact h.request (.inr (hor.resolve_left nofun)) text' htext'
    ready := fun _ => nofun
    temporary := fun _ => nofun
    proceed := fun _ => id
    proceeded := fun text' htext' => by
      rw [hread, if_pos rfl] at htext'
      cases htext'
      exact ⟨hready ▸ h.temporary ready hpc text htext, rfl⟩ }

/-- **A step of `LaunchAsync`.** -/
lemma launchNext (hnext : setup.launchNext s = some s') : LaunchInv setup s' := by
  cases hpc : s.launch <;> simp only [HandoffSetup.launchNext, hpc] at hnext
  case ensureCache | checkDeadline | delay | kill =>
    cases hnext
    exact h.goto_plain (by rw [hpc]; rfl)
  case checkExited | findResponse | finallyBlock | catchBlock =>
    cases hnext
    exact h.goto_plain (by rw [hpc]; split <;> rfl)
  case ensureHandoff =>
    cases hnext
    have hfolder : LaunchInv setup { s with folder := s.folder.ensure } :=
      h.of_read fun file text _ htext => by rwa [read_ensure] at htext
    exact hfolder.goto_plain (by rw [hpc]; rfl)
  case createRequest =>
    split at hnext
    · next folder hcreate =>
      cases hnext
      exact h.createRequest hpc hcreate
    · cases hnext
      exact h.goto_plain (by rw [hpc]; rfl)
  case writeRequest =>
    cases hnext
    exact h.writeRequest hpc
  case startProcess =>
    cases hnext
    exact h.startProcess hpc
  case checkResponse =>
    split at hnext
    · cases hnext
      exact h.goto_plain (by rw [hpc]; split <;> rfl)
    · cases hnext
      exact h.goto_plain (by rw [hpc]; rfl)
  case readResponse =>
    split at hnext
    · next ready _ =>
      cases hnext
      exact h.readResponse hpc ready
    · cases hnext
      exact h.goto_plain (by rw [hpc]; rfl)
  case createProceed ready =>
    split at hnext
    · next folder hcreate =>
      cases hnext
      exact h.createProceed hpc hcreate
    · cases hnext
      exact h.goto_plain (by rw [hpc]; rfl)
  case writeProceed ready =>
    cases hnext
    exact h.writeProceed hpc
  case moveProceed ready =>
    split at hnext
    · next folder hmove =>
      cases hnext
      exact h.moveProceed hpc hmove
    · cases hnext
      exact h.goto_plain (by rw [hpc]; rfl)
  case setStarted =>
    cases hnext
    exact {
      unstarted := nofun
      request := fun hor => h.request (.inr (hor.resolve_left nofun))
      ready := fun _ => nofun
      temporary := fun _ => nofun
      proceed := h.proceed
      proceeded := fun text htext => ⟨(h.proceeded text htext).1, rfl⟩ }
  case waitForExit =>
    split at hnext
    · cases hnext
      exact h.goto_plain (by rw [hpc]; rfl)
    · cases hnext
  case deleteFolder =>
    cases hnext
    have hfolder : LaunchInv setup { s with folder := s.folder.remove.getD s.folder } := by
      refine h.of_read fun file text _ htext => ?_
      cases hremove : s.folder.remove with
      | none => rwa [hremove] at htext
      | some folder =>
        rw [hremove, getD_some, read_remove hremove] at htext
        cases htext
    exact hfolder.goto_plain (by rw [hpc]; rfl)
  case returned | threw =>
    cases hnext

lemma launchFails (hfails : HandoffSetup.launchFails s.launch = some pc) :
    LaunchInv setup { s with launch := pc } := by
  refine h.goto_plain ?_
  cases hpc : s.launch with
  | setStarted | returned | threw =>
    rw [hpc] at hfails
    cases hfails
  | _ =>
    rw [hpc] at hfails
    cases hfails
    rfl

lemma launchWrites (text : Text) (hfile : launchFile s.launch = some file) :
    LaunchInv setup { s with folder := s.folder.write file text } := by
  have hread : ∀ other text', other ≠ file →
      (s.folder.write file text).read other = some text' → s.folder.read other = some text' := by
    intro other text' hother htext
    rwa [read_write, if_neg hother] at htext
  have hcases : (s.launch = .writeRequest ∧ file = .request) ∨
      (∃ ready, s.launch = .writeProceed ready) ∧ file = .proceedTemporary := by
    unfold launchFile at hfile
    split at hfile
    · next hpc =>
      cases hfile
      exact .inl ⟨hpc, rfl⟩
    · next ready hpc =>
      cases hfile
      exact .inr ⟨⟨ready, hpc⟩, rfl⟩
    · cases hfile
  rcases hcases with ⟨hpc, rfl⟩ | ⟨⟨ready, hpc⟩, rfl⟩
  · have hnone := h.unstarted (by rw [hpc]; rfl)
    exact {
      h with
      request := fun hor => by
        rcases hor with heq | hsome
        · exact absurd (hpc.symm.trans heq) nofun
        · rw [hnone] at hsome
          cases hsome
      temporary := fun _ heq => absurd (hpc.symm.trans heq) nofun
      proceed := fun text' htext => h.proceed text' (hread _ text' nofun htext) }
  · exact {
      h with
      request := fun hor text' htext => h.request hor text' (hread _ text' nofun htext)
      temporary := fun _ heq => absurd (hpc.symm.trans heq) nofun
      proceed := fun text' htext => h.proceed text' (hread _ text' nofun htext) }

lemma delete (file : HandoffFile) : LaunchInv setup { s with folder := s.folder.delete file } := by
  refine h.of_read fun other text _ htext => ?_
  rw [read_delete] at htext
  split at htext
  · cases htext
  · exact htext

end LaunchInv

/-! ## What the replacement guarantees -/

/-- The replacement neither starts nor lets `LaunchAsync` go on, and only removes its files. -/
structure OnlyReplacement (s s' : HandoffWorld Text) : Prop where
  launch : s'.launch = s.launch
  replacement : s'.replacement.isSome = s.replacement.isSome
  proceeded : s'.proceeded = s.proceeded
  read : ∀ file text, file.ofLaunch = true →
    s'.folder.read file = some text → s.folder.read file = some text

lemma LaunchInv.onlyReplacement (h : LaunchInv setup s) (hs : OnlyReplacement s s') :
    LaunchInv setup s' :=
  h.of_removed hs.launch hs.replacement hs.proceeded hs.read

/-- What a step of `AcknowledgeAsync` from `pc` can do: it reads its request before it knows one,
and sees `proceed.json` before it is confirmed. -/
structure ReplacementMove (setup : HandoffSetup Text) (pc : ReplacementPc)
    (s s' : HandoffWorld Text) : Prop extends OnlyReplacement s s' where
  request : ∀ pc' request, s'.replacement = some pc' → pc'.request = some request →
    pc.request = some request ∨
      (s.folder.read .request).bind setup.format.readHandoff = some (some request)
  confirmed : ∀ pc', s'.replacement = some pc' → pc'.confirmed = true →
    pc.confirmed = true ∨ (s.folder.read .proceed).isSome = true

variable {pc : ReplacementPc}

lemma replacementMove_goto {pc' : ReplacementPc} (hpc : s.replacement = some pc)
    {folder : HandoffFolder Text} (hread : ∀ file text, file.ofLaunch = true →
      folder.read file = some text → s.folder.read file = some text)
    (hrequest : ∀ request, pc'.request = some request → pc.request = some request ∨
      (s.folder.read .request).bind setup.format.readHandoff = some (some request))
    (hconfirmed : pc'.confirmed = true →
      pc.confirmed = true ∨ (s.folder.read .proceed).isSome = true) :
    ReplacementMove setup pc s { s with folder, replacement := some pc' } where
  launch := rfl
  replacement := by rw [hpc]; rfl
  proceeded := rfl
  read := hread
  request _ request heq := by
    cases heq
    exact hrequest request
  confirmed _ heq := by
    cases heq
    exact hconfirmed

lemma replacementMove_throws (hpc : s.replacement = some pc) :
    ReplacementMove setup pc s { s with replacement := some .threw } :=
  replacementMove_goto hpc (fun _ _ _ => id) (fun _ => nofun) nofun

/-- **A step of `AcknowledgeAsync`.** -/
lemma replacementMove_next {now later : ℕ} (hpc : s.replacement = some pc)
    (hnext : setup.replacementNext now later s pc = some s') : ReplacementMove setup pc s s' := by
  have hthrows : ReplacementMove setup pc s { s with replacement := some .threw } :=
    replacementMove_throws hpc
  have hgoto : ∀ pc', (∀ request, pc'.request = some request → pc.request = some request) →
      pc'.confirmed = false → ReplacementMove setup pc s { s with replacement := some pc' } :=
    fun pc' hrequest hconfirmed => replacementMove_goto hpc (fun _ _ _ => id)
      (fun request heq => .inl (hrequest request heq)) (by rw [hconfirmed]; exact nofun)
  cases pc <;> simp only [replacementNext] at hnext
  case checkFolder | checkHandoff request =>
    cases hnext
    split
    · exact hgoto _ (fun _ => id) rfl
    · exact hthrows
  case findProceed request =>
    cases hnext
    split
    · exact hgoto _ (fun _ => id) rfl
    · exact hgoto _ (fun _ => id) rfl
  case checkExpiry request =>
    cases hnext
    split
    · exact hthrows
    · exact hgoto _ (fun _ => id) rfl
  case checkRequest | checkProceed request =>
    split at hnext
    · cases hnext
      split
      · exact hthrows
      · exact hgoto _ (fun _ => id) rfl
    · cases hnext
      exact hthrows
  case readRequest =>
    split at hnext
    · next request hread =>
      cases hnext
      exact replacementMove_goto hpc (fun _ _ _ => id) (fun _ heq => .inr (hread.trans (by
        rw [← heq]; rfl))) nofun
    · cases hnext
      exact hthrows
  case createReady request =>
    split at hnext
    · next folder hcreate =>
      cases hnext
      refine replacementMove_goto hpc (fun file text hfile htext => ?_) (fun _ => .inl) nofun
      rwa [read_create hcreate, if_neg (by rintro rfl; cases hfile)] at htext
    · cases hnext
      exact hthrows
  case writeReady request =>
    cases hnext
    refine replacementMove_goto hpc (fun file text hfile htext => ?_) (fun _ => .inl) nofun
    rwa [read_write, if_neg (by rintro rfl; cases hfile)] at htext
  case moveReady request =>
    split at hnext
    · next folder hmove =>
      cases hnext
      obtain ⟨text', -, hread⟩ := read_move hmove
      refine replacementMove_goto hpc (fun file text hfile htext => ?_) (fun _ => .inl) nofun
      rwa [hread, if_neg (by rintro rfl; cases hfile), if_neg (by rintro rfl; cases hfile)] at htext
    · cases hnext
      exact hthrows
  case readProceed request =>
    split at hnext
    · next confirmation hread =>
      cases hnext
      split
      · exact hthrows
      · obtain ⟨text, htext, -⟩ := bind_eq_some_iff.mp hread
        exact replacementMove_goto hpc (fun _ _ _ => id) (fun _ => .inl)
          fun _ => .inr (by rw [htext]; rfl)
    · cases hnext
      exact hthrows
  case deleteFolder request =>
    split at hnext
    · next folder hremove =>
      cases hnext
      refine replacementMove_goto hpc (fun file text _ htext => ?_)
        (fun _ => .inl) fun _ => .inl rfl
      rw [read_remove hremove] at htext
      cases htext
    · cases hnext
      exact hthrows
  case returned request | threw =>
    cases hnext

/-- What `LaunchAsync` does to the replacement: it starts it, and it lets it go on. -/
lemma launchNext_replacement (hnext : setup.launchNext s = some s') :
    (s'.replacement = s.replacement ∨ s'.replacement = some .checkFolder) ∧
      (s.proceeded.isSome = true → s'.proceeded.isSome = true) := by
  cases hpc : s.launch <;> simp only [launchNext, hpc] at hnext
  case startProcess =>
    cases hnext
    exact ⟨.inr rfl, id⟩
  case moveProceed ready =>
    split at hnext
    · next folder hmove =>
      cases hnext
      obtain ⟨text, -, hread⟩ := read_move hmove
      exact ⟨.inl rfl, fun _ => by rw [hread, if_pos rfl]; rfl⟩
    · cases hnext
      exact ⟨.inl rfl, id⟩
  case createRequest | checkResponse | readResponse | createProceed ready =>
    split at hnext
    · cases hnext
      exact ⟨.inl rfl, id⟩
    · cases hnext
      exact ⟨.inl rfl, id⟩
  case waitForExit =>
    split at hnext
    · cases hnext
      exact ⟨.inl rfl, id⟩
    · cases hnext
  case returned | threw =>
    cases hnext
  all_goals
    cases hnext
    exact ⟨.inl rfl, id⟩

namespace ReplacementInv

lemma launchNext (h : ReplacementInv setup s) (hnext : setup.launchNext s = some s') :
    ReplacementInv setup s' := by
  obtain ⟨heq | heq, hproceeded⟩ := launchNext_replacement hnext
  · exact ⟨fun pc request hpc => h.request pc request (heq ▸ hpc),
      fun pc hpc hconfirmed => hproceeded (h.confirmed pc (heq ▸ hpc) hconfirmed)⟩
  · refine ⟨fun pc request hpc hrequest => ?_, fun pc hpc hconfirmed => ?_⟩
    · rw [heq] at hpc
      cases hpc
      cases hrequest
    · rw [heq] at hpc
      cases hpc
      cases hconfirmed

/-- The request it reads is that of `LaunchAsync`, and so is its confirmation. -/
lemma move (h : ReplacementInv setup s) (hlaunch : LaunchInv setup s) {pc : ReplacementPc}
    (hpc : s.replacement = some pc) (hmove : ReplacementMove setup pc s s') :
    ReplacementInv setup s' where
  request pc' request hpc' hrequest := by
    obtain hold | hread := hmove.request pc' request hpc' hrequest
    · exact h.request pc request hpc hold
    · obtain ⟨text, htext, hformat⟩ := bind_eq_some_iff.mp hread
      have hwritten := hlaunch.request (.inr (by rw [hpc]; rfl)) text htext
      rw [hwritten, setup.format.readHandoff_writeHandoff] at hformat
      cases hformat
      rfl
  confirmed pc' hpc' hconfirmed := by
    rw [hmove.proceeded]
    obtain hold | hsome := hmove.confirmed pc' hpc' hconfirmed
    · exact h.confirmed pc hpc hold
    · obtain ⟨text, htext⟩ := isSome_iff_exists.mp hsome
      rw [hlaunch.proceed text htext]
      rfl

end ReplacementInv

/-! ## Interleavings -/

lemma launchStep_eq_some {next : LaunchPc → Option (HandoffWorld Text)} :
    launchStep s next = some s' ↔ s.launchKilled = false ∧ next s.launch = some s' := by
  rw [launchStep]
  cases s.launchKilled with
  | true => exact ⟨nofun, nofun⟩
  | false => exact ⟨fun h => ⟨rfl, h⟩, fun h => h.2⟩

lemma replacementStep_eq_some {next : ReplacementPc → Option (HandoffWorld Text)} :
    replacementStep s next = some s' ↔
      s.exited = false ∧ ∃ pc, s.replacement = some pc ∧ next pc = some s' := by
  rw [replacementStep]
  cases s.exited with
  | true => exact ⟨nofun, nofun⟩
  | false =>
    rw [if_neg Bool.false_ne_true, bind_eq_some_iff]
    exact ⟨fun h => ⟨rfl, h⟩, fun h => h.2⟩

/-- **What one event preserves.** -/
lemma inv_step (e : HandoffEvent Text) (h : LaunchInv setup s ∧ ReplacementInv setup s)
    (hstep : setup.step s e = some s') : LaunchInv setup s' ∧ ReplacementInv setup s' := by
  obtain ⟨hlaunch, hreplacement⟩ := h
  unfold step at hstep
  cases e with
  | launch =>
    obtain ⟨-, hnext⟩ := launchStep_eq_some.mp hstep
    exact ⟨hlaunch.launchNext hnext, hreplacement.launchNext hnext⟩
  | launchFails =>
    obtain ⟨-, hnext⟩ := launchStep_eq_some.mp hstep
    obtain ⟨pc, hpc, rfl⟩ := map_eq_some_iff.mp hnext
    exact ⟨hlaunch.launchFails hpc, hreplacement.request, hreplacement.confirmed⟩
  | launchWrites text =>
    obtain ⟨-, hnext⟩ := launchStep_eq_some.mp hstep
    obtain ⟨file, hfile, rfl⟩ := map_eq_some_iff.mp hnext
    exact ⟨hlaunch.launchWrites text hfile, hreplacement.request, hreplacement.confirmed⟩
  | launchDeletes file =>
    obtain ⟨-, hnext⟩ := launchStep_eq_some.mp hstep
    split at hnext
    · cases hnext
      exact ⟨hlaunch.delete file, hreplacement.request, hreplacement.confirmed⟩
    · cases hnext
  | launchKilled =>
    obtain ⟨-, hnext⟩ := launchStep_eq_some.mp hstep
    cases hnext
    exact ⟨hlaunch.of_removed rfl rfl rfl fun _ _ _ => id, hreplacement.request,
      hreplacement.confirmed⟩
  | replacement now later =>
    obtain ⟨-, pc, hpc, hnext⟩ := replacementStep_eq_some.mp hstep
    have hmove := replacementMove_next hpc hnext
    exact ⟨hlaunch.onlyReplacement hmove.toOnlyReplacement, hreplacement.move hlaunch hpc hmove⟩
  | replacementFails =>
    obtain ⟨-, pc, hpc, hnext⟩ := replacementStep_eq_some.mp hstep
    split at hnext
    · cases hnext
    · cases hnext
    · cases hnext
      have hmove : ReplacementMove setup pc s _ := replacementMove_throws hpc
      exact ⟨hlaunch.onlyReplacement hmove.toOnlyReplacement, hreplacement.move hlaunch hpc hmove⟩
  | replacementWrites text =>
    obtain ⟨-, pc, hpc, hnext⟩ := replacementStep_eq_some.mp hstep
    obtain ⟨file, hfile, rfl⟩ := map_eq_some_iff.mp hnext
    refine ⟨hlaunch.of_read fun other text' hother htext => ?_, hreplacement.request,
      hreplacement.confirmed⟩
    unfold replacementFile at hfile
    split at hfile
    · cases hfile
      rwa [read_write, if_neg (by rintro rfl; cases hother)] at htext
    · cases hfile
  | replacementDeletes file =>
    obtain ⟨-, pc, hpc, hnext⟩ := replacementStep_eq_some.mp hstep
    split at hnext
    · cases hnext
      exact ⟨hlaunch.delete file, hreplacement.request, hreplacement.confirmed⟩
    · cases hnext
  | replacementExits =>
    obtain ⟨-, pc, hpc, hnext⟩ := replacementStep_eq_some.mp hstep
    cases hnext
    exact ⟨hlaunch.of_removed rfl rfl rfl fun _ _ _ => id, hreplacement.request,
      hreplacement.confirmed⟩

lemma inv_reachable (h : Reachable setup.step .start s) :
    LaunchInv setup s ∧ ReplacementInv setup s := by
  refine h.invariant ⟨?_, ?_⟩ fun _ e _ hs hstep => inv_step e hs hstep
  · exact ⟨fun _ => rfl, fun _ _ => nofun, fun _ => nofun, fun _ => nofun, fun _ => nofun,
      fun _ => nofun⟩
  · exact ⟨fun _ _ => nofun, fun _ => nofun⟩

/-- **Only one application goes on to the node.**  In every interleaving, whatever throws and
whoever is killed: where the replacement returns from `AcknowledgeAsync`, `LaunchAsync` has written
`proceed.json` for its token and its process id; and where `LaunchAsync` has thrown, the replacement
has not returned. -/
theorem acknowledge_only_after_proceed (setup : HandoffSetup Text) (s : HandoffWorld Text)
    (h : Reachable setup.step .start s) :
    (∀ request, s.replacement = some (.returned request) →
      s.proceeded = some (setup.format.writeReady ⟨request.Token, setup.processId⟩)) ∧
    (s.launch = .threw → ∀ request, s.replacement ≠ some (.returned request)) := by
  obtain ⟨hlaunch, hreplacement⟩ := inv_reachable h
  have hproceeded : ∀ request, s.replacement = some (.returned request) →
      ∃ text, s.proceeded = some text := fun request hreturned =>
    isSome_iff_exists.mp (hreplacement.confirmed _ hreturned rfl)
  constructor
  · intro request hreturned
    obtain ⟨text, htext⟩ := hproceeded request hreturned
    rw [htext, (hlaunch.proceeded text htext).1,
      hreplacement.request _ request hreturned rfl]
    rfl
  · intro hthrew request hreturned
    obtain ⟨text, htext⟩ := hproceeded request hreturned
    have hstarted := (hlaunch.proceeded text htext).2
    rw [hthrew] at hstarted
    cases hstarted

/-! ## One handoff -/

end HandoffSetup

/-- Texts that are the records themselves. -/
def plainFormat : HandoffFormat (Unit ⊕ Handoff ⊕ Ready) where
  empty := .inl ()
  length _ := 100
  writeHandoff request := .inr (.inl request)
  readHandoff
    | .inr (.inl request) => some (some request)
    | _ => none
  writeReady ready := .inr (.inr ready)
  readReady
    | .inr (.inr ready) => some (some ready)
    | _ => none
  readHandoff_writeHandoff _ := rfl
  readReady_writeReady _ := rfl

/-- A handoff to process 17. -/
def plainSetup : HandoffSetup (Unit ⊕ Handoff ⊕ Ready) where
  format := plainFormat
  getFullPath := id
  getDirectoryName _ := "updates"
  getFileName _ := "handoff-00000000000000000000000000000000"
  parsesVersion _ := true
  cacheDirectory := "updates"
  handoffDirectory := "updates/handoff-00000000000000000000000000000000"
  token := "0000000000000000000000000000000000000000000000000000000000000000"
  directory := "app"
  version := "0.1.47"
  now := 0
  processId := 17
  executableDirectory := "app"
  runningVersion := "0.1.47"

/-- An interleaving in which the replacement comes through. -/
def plainRun : List (HandoffEvent (Unit ⊕ Handoff ⊕ Ready)) :=
  List.replicate 5 .launch ++ List.replicate 7 (.replacement 1 1) ++ List.replicate 8 .launch ++
    List.replicate 3 (.replacement 2 2) ++
      [.replacementDeletes .request, .replacementDeletes .ready,
      .replacementDeletes .proceed, .replacement 3 3]

/-- The replacement has returned. -/
def HandoffWorld.hasReturned {Text : Type} (s : HandoffWorld Text) : Bool :=
  match s.replacement with
  | some (.returned _) => true
  | _ => false

/-- The replacement comes through, and then `proceed.json` was for process 17. -/
theorem acknowledge_only_after_proceed_plainRun :
    ∃ s request, Reachable plainSetup.step .start s ∧
      s.replacement = some (.returned request) ∧
      s.proceeded = some (.inr (.inr ⟨request.Token, 17⟩)) := by
  obtain ⟨s, hreachable, hreturned⟩ := exists_reachable plainSetup.step .start plainRun
    HandoffWorld.hasReturned (by decide +kernel)
  unfold HandoffWorld.hasReturned at hreturned
  split at hreturned
  · next request hrequest =>
    exact ⟨s, request, hreachable, hrequest,
      (HandoffSetup.acknowledge_only_after_proceed plainSetup s hreachable).1 request hrequest⟩
  · cases hreturned

end SlithyTove
