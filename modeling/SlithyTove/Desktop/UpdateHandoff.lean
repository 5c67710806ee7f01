import SlithyTove.Framework.Interleaving

/-!
# The handoff to an updated application

An application that has installed its successor starts it and then has to leave the node to it.
The two processes talk through a private directory that the old one makes for this start alone.
`LaunchAsync` writes `request.json` and starts the replacement; the replacement checks the request
and answers with `ready.json`; `LaunchAsync` checks that answer and writes `proceed.json`; and
`AcknowledgeAsync` returns in the replacement once it has seen that, after which it may open the
node.  Either side waits for the other by looking for a file again and again.

A world is the directory with a program counter for each side.  A side's next operation is carried
out by an event of its own, so a sequence of events is an interleaving.  Between any two operations
a side may be killed, and any operation may throw.  Clocks are read by the event, since nothing is
known of them.  An operation that throws has changed nothing, and renaming within the directory is
one operation.  A file is filled while it is open, so that what is in it until then is arbitrary,
and a directory is removed one file at a time.

One variable is not in the source: `proceeded` is the text that `LaunchAsync` has given the name
`proceed.json`.
-/

namespace SlithyTove

open Framework

/-! ## The records and their text -/

/-- `Handoff`; times are in seconds. -/
structure Handoff where
  Token : Option String
  Directory : Option String
  Version : Option String
  ExpiresAt : ℕ
  deriving DecidableEq

/-- `Ready`. -/
structure Ready where
  Token : Option String
  ProcessId : ℕ
  deriving DecidableEq

/-- `JsonSerializer` on the two records.  A text that is not one of the record throws, and `null`
is read as nothing. -/
structure HandoffFormat (Text : Type) where
  /-- The text of a new file. -/
  empty : Text
  length : Text → ℕ
  writeHandoff : Handoff → Text
  readHandoff : Text → Option (Option Handoff)
  writeReady : Ready → Text
  readReady : Text → Option (Option Ready)
  readHandoff_writeHandoff : ∀ request, readHandoff (writeHandoff request) = some (some request)
  readReady_writeReady : ∀ ready, readReady (writeReady ready) = some (some ready)

/-! ## The directory -/

/-- The files of the handoff. -/
inductive HandoffFile
  /-- `request.json` -/
  | request
  /-- `.ready-*` -/
  | readyTemporary
  /-- `ready.json` -/
  | ready
  /-- `.proceed` -/
  | proceedTemporary
  /-- `proceed.json` -/
  | proceed
  deriving DecidableEq

/-- All of them. -/
def HandoffFile.all : List HandoffFile :=
  [.request, .readyTemporary, .ready, .proceedTemporary, .proceed]

/-- What is in the directory, if there is one. -/
abbrev HandoffFolder (Text : Type) := Option (HandoffFile → Option Text)

namespace HandoffFolder

variable {Text : Type}

variable (folder : HandoffFolder Text)

/-- The text of a file, if it exists. -/
def read (file : HandoffFile) : Option Text := folder.bind (· file)

/-- `EnsureDirectory`. -/
def ensure : HandoffFolder Text := some (folder.getD fun _ => none)

/-- `CreatePrivateFile`, which throws where the file exists. -/
def create (file : HandoffFile) (empty : Text) : Option (HandoffFolder Text) :=
  match folder with
  | none => none
  | some files =>
    if (files file).isSome then none else some (some (Function.update files file (some empty)))

/-- Writing to a file that was opened, which may have been removed since. -/
def write (file : HandoffFile) (text : Text) : HandoffFolder Text :=
  folder.map fun files =>
    if (files file).isSome then Function.update files file (some text) else files

/-- `File.Move`, which throws where the source is not there or the target is. -/
def move (source target : HandoffFile) : Option (HandoffFolder Text) :=
  match folder with
  | none => none
  | some files =>
    match files source, files target with
    | some text, none =>
      some (some (Function.update (Function.update files source none) target (some text)))
    | _, _ => none

/-- One of the files is removed. -/
def delete (file : HandoffFile) : HandoffFolder Text :=
  folder.map fun files => Function.update files file none

/-- The directory itself is removed, which throws where it is not empty. -/
def remove : Option (HandoffFolder Text) :=
  match folder with
  | none => none
  | some files => if HandoffFile.all.all fun file => (files file).isNone then some none else none

end HandoffFolder

/-! ## Both sides -/

/-- Where `LaunchAsync` stands. -/
inductive LaunchPc
  | ensureCache | ensureHandoff | createRequest | writeRequest | startProcess
  /-- The loop. -/
  | checkDeadline | checkExited | findResponse | delay
  | checkResponse | readResponse
  | createProceed (ready : Ready) | writeProceed (ready : Ready) | moveProceed (ready : Ready)
  /-- Before `started = true`. -/
  | setStarted
  /-- The `finally` block where `started` is false. -/
  | finallyBlock | kill | waitForExit | catchBlock | deleteFolder
  | returned | threw
  deriving DecidableEq

/-- Where `AcknowledgeAsync` stands. -/
inductive ReplacementPc
  | checkFolder | checkRequest | readRequest
  | checkHandoff (request : Handoff)
  | createReady (request : Handoff) | writeReady (request : Handoff) | moveReady (request : Handoff)
  /-- The loop. -/
  | findProceed (request : Handoff) | checkExpiry (request : Handoff)
  | checkProceed (request : Handoff) | readProceed (request : Handoff)
  | deleteFolder (request : Handoff)
  | returned (request : Handoff)
  | threw
  deriving DecidableEq

/-- What a handoff starts from. -/
structure HandoffSetup (Text : Type) where
  format : HandoffFormat Text
  /-- `Path.GetFullPath`, `Path.GetDirectoryName` and `Path.GetFileName`. -/
  getFullPath : String → String
  getDirectoryName : String → String
  getFileName : String → String
  /-- `LinuxGuiVersion.Parse` accepts it. -/
  parsesVersion : String → Bool
  cacheDirectory : String
  handoffDirectory : String
  /-- The hexadecimal token. -/
  token : String
  /-- The arguments of `LaunchAsync`, and when it was called. -/
  directory : String
  version : String
  now : ℕ
  /-- The id the replacement gets from the system. -/
  processId : ℕ
  /-- What the replacement is. -/
  executableDirectory : String
  runningVersion : String

/-- The directory and the two sides. -/
structure HandoffWorld (Text : Type) where
  folder : HandoffFolder Text
  launch : LaunchPc
  launchKilled : Bool
  /-- Nothing before the process is started. -/
  replacement : Option ReplacementPc
  /-- `HasExited`. -/
  exited : Bool
  proceeded : Option Text

/-- Before `LaunchAsync` is called. -/
def HandoffWorld.start {Text : Type} : HandoffWorld Text where
  folder := none
  launch := .ensureCache
  launchKilled := false
  replacement := none
  exited := false
  proceeded := none

namespace HandoffSetup

variable {Text : Type} (setup : HandoffSetup Text)

/-- The request of `LaunchAsync`. -/
def request : Handoff where
  Token := some setup.token
  Directory := some (setup.getFullPath setup.directory)
  Version := some setup.version
  ExpiresAt := setup.now + 30

/-! ## `LaunchAsync` -/

/-- The next operation, unless it throws; nothing while it waits. -/
def launchNext (s : HandoffWorld Text) : Option (HandoffWorld Text) :=
  match s.launch with
  | .ensureCache => some { s with launch := .ensureHandoff }
  | .ensureHandoff => some { s with folder := s.folder.ensure, launch := .createRequest }
  | .createRequest =>
    match s.folder.create .request setup.format.empty with
    | some folder => some { s with folder, launch := .writeRequest }
    | none => some { s with launch := .threw }
  | .writeRequest =>
    some { s with
      folder := s.folder.write .request (setup.format.writeHandoff setup.request)
      launch := .startProcess }
  | .startProcess => some { s with replacement := some .checkFolder, launch := .checkDeadline }
  | .checkDeadline => some { s with launch := .checkExited }
  | .checkExited => some { s with launch := if s.exited then .finallyBlock else .findResponse }
  | .findResponse =>
    some { s with launch := if (s.folder.read .ready).isSome then .checkResponse else .delay }
  | .delay => some { s with launch := .checkDeadline }
  | .checkResponse =>
    match s.folder.read .ready with
    | some text =>
      some { s with
        launch := if setup.format.length text > 4096 then .finallyBlock else .readResponse }
    | none => some { s with launch := .finallyBlock }
  | .readResponse =>
    match (s.folder.read .ready).bind setup.format.readReady with
    | some (some ready) =>
      some { s with
        launch :=
          if ready.Token ≠ setup.request.Token ∨
            ready.ProcessId ≠ setup.processId then .finallyBlock
          else .createProceed ready }
    | _ => some { s with launch := .finallyBlock }
  | .createProceed ready =>
    match s.folder.create .proceedTemporary setup.format.empty with
    | some folder => some { s with folder, launch := .writeProceed ready }
    | none => some { s with launch := .finallyBlock }
  | .writeProceed ready =>
    some { s with
      folder := s.folder.write .proceedTemporary (setup.format.writeReady ready)
      launch := .moveProceed ready }
  | .moveProceed _ =>
    match s.folder.move .proceedTemporary .proceed with
    | some folder =>
      some { s with folder, proceeded := folder.read .proceed, launch := .setStarted }
    | none => some { s with launch := .finallyBlock }
  | .setStarted => some { s with launch := .returned }
  | .finallyBlock =>
    some { s with launch := if s.replacement.isSome && !s.exited then .kill else .deleteFolder }
  | .kill => some { s with launch := .waitForExit }
  | .waitForExit => if s.exited then some { s with launch := .deleteFolder } else none
  | .catchBlock => some { s with launch := if s.exited then .deleteFolder else .threw }
  | .deleteFolder => some { s with folder := s.folder.remove.getD s.folder, launch := .threw }
  | .returned => none
  | .threw => none

/-- Where an operation that throws leads. -/
def launchFails : LaunchPc → Option LaunchPc
  | .ensureCache | .ensureHandoff | .createRequest | .writeRequest => some .threw
  | .startProcess | .checkDeadline | .checkExited | .findResponse | .delay | .checkResponse
  | .readResponse | .createProceed _ | .writeProceed _ | .moveProceed _ => some .finallyBlock
  | .setStarted => none
  | .finallyBlock => some .threw
  | .kill | .waitForExit => some .catchBlock
  | .catchBlock | .deleteFolder => some .threw
  | .returned | .threw => none

/-- The file `LaunchAsync` has open. -/
def launchFile : LaunchPc → Option HandoffFile
  | .writeRequest => some .request
  | .writeProceed _ => some .proceedTemporary
  | _ => none

/-! ## `AcknowledgeAsync` -/

/-- `handoff-` and 32 hexadecimal digits. -/
def isFolderName (name : String) : Bool :=
  match name.toList with
  | 'h' :: 'a' :: 'n' :: 'd' :: 'o' :: 'f' :: 'f' :: '-' :: digits =>
    digits.length = 32 && digits.all fun c => c.isDigit || ('a' ≤ c && c ≤ 'f')
  | _ => false

/-- 64 hexadecimal digits. -/
def isToken (token : String) : Bool :=
  token.toList.length = 64 && token.toList.all fun c => c.isDigit || ('A' ≤ c && c ≤ 'F')

/-- `TrimEnd` of separators. -/
def trimEnd (path : String) : String :=
  String.ofList (path.toList.reverse.dropWhile (· = '/')).reverse

/-- The directory is one of the cache. -/
def acceptsFolder : Bool :=
  setup.getDirectoryName (setup.getFullPath setup.handoffDirectory) =
      setup.getFullPath setup.cacheDirectory &&
    isFolderName (setup.getFileName (setup.getFullPath setup.handoffDirectory))

/-- The request is for this application, and the clock, read twice, is in its time. -/
def acceptsHandoff (now later : ℕ) (request : Handoff) : Bool :=
  isToken (request.Token.getD "") &&
    (match request.Directory with
      | some directory =>
        trimEnd (setup.getFullPath directory) =
          trimEnd (setup.getFullPath setup.executableDirectory)
      | none => false) &&
    request.Version = some setup.runningVersion &&
    now ≤ request.ExpiresAt && request.ExpiresAt ≤ later + 60 &&
    setup.parsesVersion setup.runningVersion

/-- The next operation, unless it throws. -/
def replacementNext (now later : ℕ) (s : HandoffWorld Text) :
    ReplacementPc → Option (HandoffWorld Text)
  | .checkFolder =>
    some { s with replacement := if setup.acceptsFolder then some .checkRequest else some .threw }
  | .checkRequest =>
    match s.folder.read .request with
    | some text =>
      some { s with
        replacement :=
          if setup.format.length text > 8192 then some .threw else some .readRequest }
    | none => some { s with replacement := some .threw }
  | .readRequest =>
    match (s.folder.read .request).bind setup.format.readHandoff with
    | some (some request) => some { s with replacement := some (.checkHandoff request) }
    | _ => some { s with replacement := some .threw }
  | .checkHandoff request =>
    some { s with
      replacement :=
        if setup.acceptsHandoff now later request then some (.createReady request)
        else some .threw }
  | .createReady request =>
    match s.folder.create .readyTemporary setup.format.empty with
    | some folder => some { s with folder, replacement := some (.writeReady request) }
    | none => some { s with replacement := some .threw }
  | .writeReady request =>
    some { s with
      folder := s.folder.write .readyTemporary
        (setup.format.writeReady ⟨request.Token, setup.processId⟩)
      replacement := some (.moveReady request) }
  | .moveReady request =>
    match s.folder.move .readyTemporary .ready with
    | some folder => some { s with folder, replacement := some (.findProceed request) }
    | none => some { s with replacement := some .threw }
  | .findProceed request =>
    some { s with
      replacement :=
        if (s.folder.read .proceed).isSome then some (.checkProceed request)
        else some (.checkExpiry request) }
  | .checkExpiry request =>
    some { s with
      replacement := if now > request.ExpiresAt then some .threw else some (.findProceed request) }
  | .checkProceed request =>
    match s.folder.read .proceed with
    | some text =>
      some { s with
        replacement :=
          if setup.format.length text > 4096 then some .threw else some (.readProceed request) }
    | none => some { s with replacement := some .threw }
  | .readProceed request =>
    match (s.folder.read .proceed).bind setup.format.readReady with
    | some (some confirmation) =>
      some { s with
        replacement :=
          if confirmation.Token ≠ request.Token ∨ confirmation.ProcessId ≠ setup.processId then
            some .threw
          else some (.deleteFolder request) }
    | _ => some { s with replacement := some .threw }
  | .deleteFolder request =>
    match s.folder.remove with
    | some folder => some { s with folder, replacement := some (.returned request) }
    | none => some { s with replacement := some .threw }
  | .returned _ => none
  | .threw => none

/-- The file `AcknowledgeAsync` has open. -/
def replacementFile : ReplacementPc → Option HandoffFile
  | .writeReady _ => some .readyTemporary
  | _ => none

/-! ## Interleavings -/

end HandoffSetup

/-- What can happen next. -/
inductive HandoffEvent (Text : Type)
  /-- `LaunchAsync` carries out its next operation. -/
  | launch
  /-- The operation throws. -/
  | launchFails
  /-- A part of the text is in the file. -/
  | launchWrites (text : Text)
  /-- `Directory.Delete` has removed a file. -/
  | launchDeletes (file : HandoffFile)
  | launchKilled
  /-- `AcknowledgeAsync` carries out its next operation, where the clock shows these times. -/
  | replacement (now later : ℕ)
  | replacementFails
  | replacementWrites (text : Text)
  | replacementDeletes (file : HandoffFile)
  /-- The replacement is killed or ends. -/
  | replacementExits

namespace HandoffSetup

variable {Text : Type} (setup : HandoffSetup Text)

/-- An operation of `LaunchAsync`, while its process lives. -/
def launchStep (s : HandoffWorld Text) (next : LaunchPc → Option (HandoffWorld Text)) :
    Option (HandoffWorld Text) :=
  if s.launchKilled then none else next s.launch

/-- An operation of `AcknowledgeAsync`, while its process lives. -/
def replacementStep (s : HandoffWorld Text) (next : ReplacementPc → Option (HandoffWorld Text)) :
    Option (HandoffWorld Text) :=
  if s.exited then none else s.replacement.bind next

/-- What an event does, if it can happen. -/
def step (s : HandoffWorld Text) : HandoffEvent Text → Option (HandoffWorld Text)
  | .launch => launchStep s fun _ => setup.launchNext s
  | .launchFails => launchStep s fun pc => (launchFails pc).map fun launch => { s with launch }
  | .launchWrites text => launchStep s fun pc =>
    (launchFile pc).map fun file => { s with folder := s.folder.write file text }
  | .launchDeletes file => launchStep s fun pc =>
    if pc = .deleteFolder then some { s with folder := s.folder.delete file } else none
  | .launchKilled => launchStep s fun _ => some { s with launchKilled := true }
  | .replacement now later => replacementStep s (setup.replacementNext now later s)
  | .replacementFails => replacementStep s fun pc =>
    match pc with
    | .returned _ | .threw => none
    | _ => some { s with replacement := some .threw }
  | .replacementWrites text => replacementStep s fun pc =>
    (replacementFile pc).map fun file => { s with folder := s.folder.write file text }
  | .replacementDeletes file => replacementStep s fun pc =>
    match pc with
    | .deleteFolder _ => some { s with folder := s.folder.delete file }
    | _ => none
  | .replacementExits => replacementStep s fun _ => some { s with exited := true }

end HandoffSetup

end SlithyTove
