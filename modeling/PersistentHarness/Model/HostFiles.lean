import PersistentHarness.Data.FatalDecoder
import PersistentHarness.Lib.Effect
import PersistentHarness.Lib.Replace

/-! # Files of the host

A file is written to a private temporary name and then published at its own name, by a rename if it replaces a file and by a link
if it does not. Every call of the file system may fail, and the signal may be aborted at every check.
-/

namespace PersistentHarness.HostFiles

open Effect (raise attempt settle rethrow ensuring require get modify)

section FileSystem

/-- What a call of the file system throws. -/
structure SystemError where
  code : JsString
  message : JsString
deriving DecidableEq

/-- A failure before it is known whether the file is published. -/
inductive Failure where
  | system (error : SystemError)
  | raised (message : JsString)
  /-- The signal is aborted. -/
  | cancelled
deriving DecidableEq

/-- `error.code`. -/
def Failure.code : Failure → Option JsString
  | system error => some error.code
  | raised _ => none
  | cancelled => none

/-- `error.message`. -/
def Failure.message : Failure → JsString
  | system error => error.message
  | raised message => message
  | cancelled => js "file operation cancelled"

inductive Rejection where
  | failure (e : Failure)
  /-- `CommittedAtomicFileError`. -/
  | committedAtomicFile
deriving DecidableEq

/-- What a file is, without its name. -/
structure Node where
  mode : ℕ
  uid : ℕ
  gid : ℕ
  content : Bytes
deriving DecidableEq

/-- The members of a stat that no step of the model depends on. -/
structure Facts where
  dev : ℕ
  ino : ℕ
  nlink : ℕ
  mtimeNs : ℕ
  ctimeNs : ℕ
deriving DecidableEq

structure Stat where
  mode : ℕ
  uid : ℕ
  gid : ℕ
  size : ℕ
  facts : Facts
deriving DecidableEq

def fileType (mode : ℕ) : ℕ := mode &&& 0o170000

def Stat.isFile (stat : Stat) : Bool := fileType stat.mode = 0o100000

def Stat.isSymbolicLink (stat : Stat) : Bool := fileType stat.mode = 0o120000

def Node.stat (node : Node) (facts : Facts) : Stat := ⟨node.mode, node.uid, node.gid, node.content.length, facts⟩

/-- The file that was there, and the one that is created. -/
inductive Inode where
  | existing
  | created
deriving DecidableEq

/-- The directory of the file: what the name of the file and the temporary name stand for. -/
structure Files where
  leaf : Option Inode
  temp : Option Inode
  existing : Node
  created : Node

def Files.node (files : Files) : Inode → Node
  | .existing => files.existing
  | .created => files.created

/-- The file under its name. -/
def Files.destination (files : Files) : Option Node := files.leaf.map files.node

/-- How the outside answers a call. -/
structure Reply where
  failure : Option SystemError
  facts : Facts
  /-- `signal.aborted`. -/
  aborted : Bool
  /-- How many bytes a call moves at most. -/
  length : ℕ

structure Process where
  uid : ℕ
  gid : ℕ
  umask : ℕ

/-- The result of `createOwnedTemp`. -/
structure OwnedTemp where
  /-- Whether `tempPath` is not `null`. -/
  hasPath : Bool
  expected : Stat
  content : Bytes

/-- The file system, what has been seen of it, and the variables of `commitAtomicFile` that its handlers read. -/
structure World where
  process : Process
  replies : ℕ → Reply
  calls : ℕ
  files : Files
  /-- The directory after each call. -/
  trace : List Files
  /-- Whether the last removal of the temporary file failed. -/
  unremoved : Bool
  temp : Option OwnedTemp
  committed : Bool

abbrev M := Effect World Failure

def World.next (w : World) (files : Files) : World :=
  { w with calls := w.calls + 1, files, trace := w.trace ++ [files] }

/-- A call: it fails as its reply says, or it acts. -/
def call {α : Type} (fails : Reply → Files → Files) (acts : Reply → Files → Except SystemError α × Files) : M α := fun w =>
  let reply := w.replies w.calls
  match reply.failure with
  | some error => (.error (.system error), w.next (fails reply w.files))
  | none => ((acts reply w.files).1.mapError .system, w.next (acts reply w.files).2)

/-- A call that changes nothing. -/
def look {α : Type} (find : Reply → Files → Except SystemError α) : M α :=
  call (fun _ files => files) fun reply files => (find reply files, files)

def missing : SystemError := ⟨js "ENOENT", js "ENOENT: no such file or directory"⟩

def exists_ : SystemError := ⟨js "EEXIST", js "EEXIST: file already exists"⟩

def loop : SystemError := ⟨js "ELOOP", js "ELOOP: too many symbolic links encountered"⟩

/-- A call on a handle or a directory of which only the success counts. -/
def touch : M PUnit := look fun _ _ => .ok ⟨⟩

/-- `handle.stat()` of a directory. -/
def statDirectory : M Facts := look fun reply _ => .ok reply.facts

/-- `handle.stat()`. -/
def statHandle (inode : Inode) : M Stat := look fun reply files => .ok ((files.node inode).stat reply.facts)

/-- `lstat(leafPath)`. -/
def lstatLeaf : M Stat := look fun reply files =>
  match files.leaf with
  | some inode => .ok ((files.node inode).stat reply.facts)
  | none => .error missing

/-- `lstat(tempPath)`. -/
def lstatTemp : M Stat := look fun reply files =>
  match files.temp with
  | some inode => .ok ((files.node inode).stat reply.facts)
  | none => .error missing

/-- `open(leafPath, REGULAR_READ_FLAGS)`. -/
def openLeaf : M Inode := look fun _ files =>
  match files.leaf with
  | some inode => if fileType (files.node inode).mode = 0o120000 then .error loop else .ok inode
  | none => .error missing

/-- `handle.read(buffer, offset, room, offset)`: the bytes that are read. -/
def read (inode : Inode) (offset room : ℕ) : M Bytes := look fun reply files =>
  .ok (((files.node inode).content.drop offset).take (min room (max 1 reply.length)))

/-- `open(tempPath, TEMP_OPEN_FLAGS, 0o600)`. -/
def openTemp (process : Process) : M PUnit := call (fun _ files => files) fun _ files =>
  match files.temp with
  | some _ => (.error exists_, files)
  | none =>
    (.ok ⟨⟩, { files with
      temp := some .created
      created := { mode := 0o100000 ||| 0o600, uid := process.uid, gid := process.gid, content := [] } })

/-- `handle.writeFile(content)`; one that fails may have written some of it. -/
def writeFile (content : Bytes) : M PUnit :=
  call (fun reply files => { files with created := { files.created with content := content.take reply.length } })
    fun _ files => (.ok ⟨⟩, { files with created := { files.created with content } })

/-- `handle.chown(uid, gid)`. -/
def chown (uid gid : ℕ) : M PUnit := call (fun _ files => files) fun _ files =>
  (.ok ⟨⟩, { files with created := { files.created with uid, gid } })

/-- `handle.chmod(mode)`. -/
def chmod (mode : ℕ) : M PUnit := call (fun _ files => files) fun _ files =>
  (.ok ⟨⟩, { files with created := { files.created with mode := fileType files.created.mode ||| mode } })

/-- `rename(tempPath, filePath)`. -/
def rename : M PUnit := call (fun _ files => files) fun _ files =>
  match files.temp with
  | some inode => (.ok ⟨⟩, { files with leaf := some inode, temp := none })
  | none => (.error missing, files)

/-- `link(tempPath, filePath)`. -/
def link : M PUnit := call (fun _ files => files) fun _ files =>
  match files.temp, files.leaf with
  | some inode, none => (.ok ⟨⟩, { files with leaf := some inode })
  | some _, some _ => (.error exists_, files)
  | none, _ => (.error missing, files)

/-- `unlink(tempPath)`. -/
def unlinkTemp : M PUnit := fun w =>
  let (ended, after) := call (α := PUnit) (fun _ files => files) (fun _ files =>
    match files.temp with
    | some _ => (.ok ⟨⟩, { files with temp := none })
    | none => (.error missing, files)) w
  (ended, { after with unremoved := after.files.temp.isSome })

/-- `throwIfAborted(signal)`. -/
def throwIfAborted : M PUnit := fun w =>
  (if (w.replies w.calls).aborted then .error .cancelled else .ok ⟨⟩, w.next w.files)

end FileSystem

section Directories

/-- `procFdChild(directoryHandle, name)`. -/
def procFdChild (name : JsString) : M PUnit :=
  require (name ≠ [] ∧ name ≠ js "." ∧ name ≠ js ".." ∧ name.includes 0x2F = false)
    (.raised (js "invalid anchored path component"))

def unsupportedDirectorySyncErrors : List JsString := [js "EINVAL", js "ENOTSUP", js "EOPNOTSUPP", js "EBADF"]

/-- A step of which some failures do not count. -/
def ignoring (ignored : Failure → Bool) (x : M PUnit) : M PUnit := do
  match ← attempt x with
  | .ok _ => pure ⟨⟩
  | .error e => require (ignored e) e

/-- `syncDirectory(directoryHandle)`. -/
def syncDirectory : M PUnit := ignoring (fun e => e.code.any fun code => code ∈ unsupportedDirectorySyncErrors) touch

/-- Whether an error says that a component is no directory. -/
def notDirectory (e : Failure) : Bool := e.code = some (js "ELOOP") ∨ e.code = some (js "ENOTDIR")

def makeDirectory : M PUnit := ignoring (fun e => e.code = some (js "EEXIST")) do
  touch
  syncDirectory

/-- A component of a path is opened, and made if it may be. -/
def openChild (create : Bool) (component : JsString) : M PUnit := do
  match ← attempt touch with
  | .ok _ => pure ⟨⟩
  | .error e =>
    if create = false ∨ e.code ≠ some (js "ENOENT") then
      raise (if notDirectory e then .raised (js "parent path component is a symlink or non-directory: " ++ component) else e)
    else do
      makeDirectory
      rethrow touch fun e =>
        if notDirectory e then .raised (js "parent path component changed during creation: " ++ component) else e

/-- A step that closes one more handle when it fails. -/
def closingAfter (x : M PUnit) : M PUnit := do
  match ← attempt x with
  | .ok _ => pure ⟨⟩
  | .error e => do
    let _ ← attempt touch
    raise e

/-- One component of a path is opened, and the handle of the one before is closed. -/
def openComponent (create : Bool) (component : JsString) : M PUnit := do
  procFdChild component
  openChild create component
  closingAfter touch

def openComponents (create : Bool) : List JsString → M PUnit
  | [] => pure ⟨⟩
  | component :: rest => do
    openComponent create component
    openComponents create rest

def openAnchoredDirectory (create : Bool) (directoryPath : List JsString) : M PUnit := do
  touch
  closingAfter (openComponents create directoryPath)

end Directories

section Snapshots

def maxWriteBytes : ℕ := 1024 * 1024

def tooLarge : Failure := .raised (js "existing file exceeds 1048576 byte atomic-source limit")

/-- The loop of `readBoundedHandle`, with the bytes it has read. -/
def readFrom (inode : Inode) (length : ℕ) : ℕ → Bytes → M Bytes
  | 0, buffer => pure buffer
  | fuel + 1, buffer =>
    if buffer.length < length then do
      let bytes ← read inode buffer.length (length - buffer.length)
      if bytes = [] then pure buffer else readFrom inode length fuel (buffer ++ bytes)
    else pure buffer

def readBoundedHandle (inode : Inode) (maximumBytes : ℕ) : M Bytes := do
  let buffer ← readFrom inode (maximumBytes + 1) (maximumBytes + 1) []
  require (buffer.length ≤ maximumBytes) tooLarge
  pure buffer

structure Snapshot where
  stat : Stat
  content : Bytes

/-- `readRegularSnapshot(leafPath)`, behind the lookup of the name. -/
def readOpened (inode : Inode) (leafStat : Stat) : M Snapshot := do
  let before ← statHandle inode
  require before.isFile (.raised (js "file path must be a regular file"))
  require (before.facts.dev = leafStat.facts.dev ∧ before.facts.ino = leafStat.facts.ino)
    (.raised (js "file changed concurrently while opening"))
  require (before.size ≤ maxWriteBytes) tooLarge
  let content ← readBoundedHandle inode maxWriteBytes
  let after ← statHandle inode
  require (before = after ∧ content.length = after.size) (.raised (js "file changed concurrently while being read"))
  pure ⟨after, content⟩

def symlinked : Failure := .raised (js "file path must not be a symlink")

/-- `readRegularSnapshot(leafPath)`. -/
def readRegularSnapshot : M (Option Snapshot) := do
  match ← attempt lstatLeaf with
  | .error e => if e.code = some (js "ENOENT") then pure none else raise e
  | .ok leafStat => do
    require (leafStat.isSymbolicLink = false) symlinked
    require leafStat.isFile (.raised (js "file path must be a regular file"))
    let inode ← rethrow openLeaf fun e => if e.code = some (js "ELOOP") then symlinked else e
    let snapshot ← ensuring (readOpened inode leafStat) touch
    pure (some snapshot)

end Snapshots

section Temporary

/-- What is left of a failure that a missing file does not count for. -/
def unlessMissing : Except Failure PUnit → Option Failure
  | .ok _ => none
  | .error e => if e.code = some (js "ENOENT") then none else some e

def failureOf : Except Failure PUnit → Option Failure
  | .ok _ => none
  | .error e => some e

/-- The owner of the new file is that of the file it replaces. -/
def changeOwner (opened : Stat) : Option (ℕ × ℕ) → M PUnit
  | some (uid, gid) => if opened.uid ≠ uid ∨ opened.gid ≠ gid then chown uid gid else pure ⟨⟩
  | none => pure ⟨⟩

/-- `createOwnedTemp`, from the open handle to the result. -/
def prepareTemp (content : JsString) (mode : ℕ) (owner : Option (ℕ × ℕ)) : M OwnedTemp := do
  let opened ← statHandle .created
  require (opened.isFile ∧ opened.facts.nlink = 1) (.raised (js "atomic temp path is not a private regular file"))
  writeFile (Utf8.encode content)
  changeOwner opened owner
  chmod mode
  touch
  let expected ← statHandle .created
  pure { hasPath := true, expected, content := Utf8.encode content }

/-- A step that is only taken under a condition, and whose failure is a value. -/
def attemptWhen (condition : Bool) (x : M PUnit) : M (Except Failure PUnit) :=
  if condition then attempt x else pure (.ok ⟨⟩)

/-- `createOwnedTemp(parentHandle, content, { mode, owner })`. -/
def createOwnedTemp (content : JsString) (mode : ℕ) (owner : Option (ℕ × ℕ)) : M OwnedTemp := do
  let w ← get
  let handle ← attempt (openTemp w.process)
  let prepared ← attempt (do settle handle; prepareTemp content mode owner)
  match prepared with
  | .ok temp => pure temp
  | .error e => do
    let closed ← attemptWhen handle.isOk touch
    let removed ← attempt unlinkTemp
    raise (((failureOf closed).or (unlessMissing removed)).getD e)

variable (operation : JsString)

def tempChanged : Failure := .raised (js "atomic temp changed concurrently; " ++ operation ++ js " was not committed")

/-- The temporary file under its name. -/
def lstatOwnedTemp : M Stat :=
  rethrow lstatTemp fun e => if e.code = some (js "ENOENT") then tempChanged operation else e

/-- `assertTempPathIdentity(temp, operation)`: what it finds of the handle. -/
def assertTempPathIdentity (temp : OwnedTemp) : M Stat := do
  let pathStat ← lstatOwnedTemp operation
  let current ← statHandle .created
  require (pathStat.isFile ∧ pathStat.facts.dev = current.facts.dev ∧ pathStat.facts.ino = current.facts.ino
    ∧ temp.expected = current) (tempChanged operation)
  pure current

def assertTempUnchanged (temp : OwnedTemp) : M PUnit := do
  let before ← assertTempPathIdentity operation temp
  let content ← readBoundedHandle .created maxWriteBytes
  let after ← statHandle .created
  require (before = after ∧ content = temp.content) (tempChanged operation)

def parentChanged : Failure := .raised (js "parent directory changed concurrently; " ++ operation ++ js " was not committed")

def fileChanged : Failure := .raised (js "file changed concurrently; " ++ operation ++ js " was not committed")

/-- Both directories are the same. -/
def assertSameParent : M PUnit := do
  let expectedParent ← statDirectory
  let currentParent ← statDirectory
  require (expectedParent.dev = currentParent.dev ∧ expectedParent.ino = currentParent.ino) (parentChanged operation)

/-- Whether an error says that a path leads nowhere. -/
def leadsNowhere (e : Failure) : Bool := e.code = some (js "ENOENT") ∨ notDirectory e

/-- What the two checks of the parent path make of their failures. -/
def parentFailure (e : Failure) : Failure :=
  if leadsNowhere e ∨ js "parent path component" <:+: e.message then parentChanged operation else e

/-- A check with the parent directory opened again, and its handle closed whatever happens. -/
def withParent (parentPath : List JsString) (check : M PUnit) : M PUnit := do
  match ← attempt (openAnchoredDirectory false parentPath) with
  | .error e => raise (parentFailure operation e)
  | .ok _ => do
    let checked ← attempt check
    let _ ← attempt touch
    rethrow (settle checked) (parentFailure operation)

/-- `assertParentPathUnchanged(parentHandle, parentPath, operation)`. -/
def assertParentPathUnchanged (parentPath : List JsString) : M PUnit :=
  withParent operation parentPath (assertSameParent operation)

/-- `assertReplacementSourceUnchanged(parentHandle, parentPath, leafName, source, operation)`. -/
def assertReplacementSourceUnchanged (parentPath : List JsString) (leafName : JsString) (source : Snapshot) : M PUnit :=
  withParent operation parentPath do
    assertSameParent operation
    let current ← rethrow (do procFdChild leafName; readRegularSnapshot) fun e =>
      if leadsNowhere e ∨ js "file path must not be a symlink" <:+: e.message
          ∨ js "file path must be a regular file" <:+: e.message then fileChanged operation
      else e
    require (∃ found ∈ current, source.stat = found.stat ∧ source.content = found.content) (fileChanged operation)

/-- `assertPublishedFile(canonicalParent, leafName, temp, operation)`. -/
def assertPublishedFile (leafName : JsString) (temp : OwnedTemp) : M PUnit := do
  procFdChild leafName
  let published ← lstatLeaf
  let before ← statHandle .created
  require (published.isFile ∧ published.facts.dev = before.facts.dev ∧ published.facts.ino = before.facts.ino
    ∧ published = before) (.raised (operation ++ js " committed, but the destination changed before verification"))
  let content ← readBoundedHandle .created maxWriteBytes
  let after ← statHandle .created
  require (before = after ∧ content = temp.content)
    (.raised (operation ++ js " committed, but the published file changed before verification"))

end Temporary

section Commit

structure Built (α : Type) where
  content : JsString
  metadata : α

/-- The argument of `commitAtomicFile`. -/
structure Request (α : Type) where
  parentPath : List JsString
  leafName : JsString
  /-- `buildContent`, or the content itself. -/
  buildContent : Option Snapshot → Except JsString (Built α)
  createParents : Bool
  replaceExisting : Bool
  operation : JsString

structure Receipt (α : Type) where
  created : Bool
  metadata : α

variable {α : Type} (request : Request α)

/-- The content is published under its own name. -/
def publish (source : Option Snapshot) (temp : OwnedTemp) : M PUnit :=
  match source with
  | some _ => do
    rename
    modify fun w => { w with committed := true, temp := some { temp with hasPath := false } }
  | none => do
    rethrow link fun e =>
      if e.code = some (js "EEXIST") then
        .raised (js "file changed concurrently; " ++ request.operation ++ js " create was not committed")
      else e
    modify fun w => { w with committed := true }
    unlinkTemp
    modify fun w => { w with temp := some { temp with hasPath := false } }

/-- The directories are written out, that of the handle only if it is another one. -/
def syncParents (source : Option Snapshot) : M PUnit := do
  let expectedParent ← statDirectory
  let currentParent ← statDirectory
  syncDirectory
  if expectedParent.dev = currentParent.dev ∧ expectedParent.ino = currentParent.ino then pure ⟨⟩
  else do
    syncDirectory
    require source.isNone
      (.raised (request.operation ++ js " committed, but the parent directory changed before verification"))

/-- What is checked once the file is published. -/
def verifyPublished (source : Option Snapshot) (temp : OwnedTemp) : M PUnit := do
  openAnchoredDirectory false request.parentPath
  ensuring (do
    syncParents request source
    assertPublishedFile request.operation request.leafName temp) touch

/-- The source of a request, when it may be written. -/
def admitSource : M (Option Snapshot) := do
  let source ← readRegularSnapshot
  require (request.replaceExisting = false ∨ source.isSome) (.raised (js "file does not exist"))
  require (∀ snapshot ∈ source, snapshot.stat.mode &&& 0o7000 = 0)
    (.raised (js "existing file has unsupported special mode bits; " ++ request.operation ++ js " was not committed"))
  require (request.replaceExisting ∨ source.isNone)
    (.raised (js "file already exists; " ++ request.operation ++ js " was not committed"))
  pure source

/-- The mode of the new file. -/
def modeFor (process : Process) : Option Snapshot → ℕ
  | some source => source.stat.mode &&& 0o777
  | none => 0o666 &&& (0o777 - process.umask)

/-- The check of what is published, or of where. -/
def assertPlaceUnchanged : Option Snapshot → M PUnit
  | some source => assertReplacementSourceUnchanged request.operation request.parentPath request.leafName source
  | none => assertParentPathUnchanged request.operation request.parentPath

/-- What is checked right before the file is published. -/
def assertUnpublished (source : Option Snapshot) (temp : OwnedTemp) : M PUnit := do
  throwIfAborted
  assertTempUnchanged request.operation temp
  assertPlaceUnchanged request source
  let _ ← assertTempPathIdentity request.operation temp
  throwIfAborted

/-- The `try` block of `commitAtomicFile`. -/
def attemptCommit : M (Receipt α) := do
  let source ← admitSource request
  let built ← settle ((request.buildContent source).mapError .raised)
  require ((Utf8.encode built.content).length ≤ maxWriteBytes) (.raised (js "atomic file content exceeds write limit"))
  let w ← get
  let temp ← createOwnedTemp built.content (modeFor w.process source)
    (source.map fun source => (source.stat.uid, source.stat.gid))
  modify fun w => { w with temp := some temp }
  assertUnpublished request source temp
  publish request source temp
  verifyPublished request source temp
  pure { created := source.isNone, metadata := built.metadata }

/-- The handles are closed and the temporary name is removed; the result is the first failure. -/
def cleanUp : M (Option Failure) := do
  let w ← get
  let closed ← attemptWhen w.temp.isSome touch
  let removed ← attemptWhen (w.temp.any OwnedTemp.hasPath) unlinkTemp
  let parentClosed ← attempt touch
  pure (((failureOf closed).or (unlessMissing removed)).or (failureOf parentClosed))

/-- `commitAtomicFile`, before its `try` block. -/
def openParent : M PUnit := do
  throwIfAborted
  openAnchoredDirectory request.createParents request.parentPath
  procFdChild request.leafName

/-- How `commitAtomicFile` ends. -/
def conclude (result : Except Failure (Receipt α)) (cleanupError : Option Failure) (committed : Bool) :
    Except Rejection (Receipt α) :=
  match result, cleanupError with
  | .error primaryError, _ => .error (if committed then .committedAtomicFile else .failure primaryError)
  | .ok _, some cleanupError => .error (if committed then .committedAtomicFile else .failure cleanupError)
  | .ok receipt, none => .ok receipt

def commitAtomicFile : Effect World Rejection (Receipt α) := do
  rethrow (openParent request) .failure
  let result ← rethrow (attempt (attemptCommit request)) .failure
  let cleanupError ← rethrow cleanUp .failure
  let w ← get
  settle (conclude result cleanupError w.committed)

end Commit

section Handlers

def emptyNode : Node := ⟨0, 0, 0, []⟩

/-- A directory in which no temporary file is, and the file perhaps. -/
def Files.initial (destination : Option Node) : Files where
  leaf := destination.map fun _ => .existing
  temp := none
  existing := destination.getD emptyNode
  created := emptyNode

/-- Before the call, with the file as it is and the answers that the call will get. -/
def World.initial (process : Process) (replies : ℕ → Reply) (destination : Option Node) : World where
  process := process
  replies := replies
  calls := 0
  files := .initial destination
  trace := [.initial destination]
  unremoved := false
  temp := none
  committed := false

/-- `Buffer.byteLength(text)`. -/
def byteLength (text : JsString) : ℕ := (Utf8.encode text).length

/-- `new TextDecoder("utf-8", { fatal: true }).decode(bytes)`. -/
def decodeText (bytes : Bytes) : Option JsString :=
  (Utf8.FatalDecoder.initial.decode bytes).bind fun (decoder, text) => decoder.finish.map fun _ => text.flatMap utf16

structure Place where
  parentPath : List JsString
  leafName : JsString
  filePath : JsString

def requireString (value context : JsString) (allowEmpty : Bool) (maxBytes : ℕ) : Except JsString JsString :=
  if (allowEmpty = false ∧ value = []) ∨ maxBytes < byteLength value then
    .error (context ++ js " must be " ++ (if allowEmpty then js "a" else js "a non-empty") ++ js " bounded string")
  else .ok value

def maxDiffBytes : ℕ := 64 * 1024

def simpleDiff (filePath oldText newText : JsString) : JsString :=
  let oldLines := (oldText.split 0x0A).map fun line => js "-" ++ line
  let newLines := (newText.split 0x0A).map fun line => js "+" ++ line
  let diff := (js "\n").intercalate ([js "--- " ++ filePath, js "+++ " ++ filePath] ++ oldLines ++ newLines)
  if byteLength diff ≤ maxDiffBytes then diff
  else Utf8.toText ((Utf8.encode diff).take maxDiffBytes) ++ js "\n... diff truncated ..."

/-- What an edit says of itself. -/
structure EditMetadata where
  replacements : ℕ
  bytes : ℕ

/-- `buildContent` of `files.edit`. -/
def buildEdit (oldText newText : JsString) (replaceAll : Bool) (source : Option Snapshot) : Except JsString (Built EditMetadata) :=
  match source.bind fun source => decodeText source.content with
  | none => .error (js "existing file is not valid UTF-8; edit was not committed")
  | some content =>
    let occurrences := Replace.occurrences oldText content
    if occurrences = 0 then .error (js "oldText was not found exactly")
    else if replaceAll = false ∧ occurrences ≠ 1 then
      .error (js "oldText matched " ++ integerText occurrences ++ js " times; use replace_all=True explicitly")
    else
      let updated := Replace.replaced oldText newText content
      if maxWriteBytes < byteLength updated then .error (js "edited file exceeds write limit")
      else .ok {
        content := updated
        metadata := { replacements := if replaceAll then occurrences else 1, bytes := byteLength updated } }

/-- The answer of `files.edit`. -/
structure EditResult where
  path : JsString
  replacements : ℕ
  bytes : ℕ
  diff : JsString

/-- What `files.edit` asks of `commitAtomicFile`. -/
def editRequest (place : Place) (oldText newText : JsString) (replaceAll : Bool) : Request EditMetadata where
  parentPath := place.parentPath
  leafName := place.leafName
  buildContent := buildEdit oldText newText replaceAll
  createParents := false
  replaceExisting := true
  operation := js "edit"

/-- The texts of a payload of `files.edit`, when they are bounded. -/
def admitEdit (oldText newText : JsString) : Except JsString PUnit := do
  let _ ← requireString oldText (js "oldText") false maxWriteBytes
  let _ ← requireString newText (js "newText") true maxWriteBytes
  pure ⟨⟩

/-- `files.edit`. -/
def filesEdit (place : Place) (oldText newText : JsString) (replaceAll : Bool) : Effect World Rejection EditResult := do
  settle ((admitEdit oldText newText).mapError fun message => .failure (.raised message))
  let result ← commitAtomicFile (editRequest place oldText newText replaceAll)
  pure {
    path := place.filePath
    replacements := result.metadata.replacements
    bytes := result.metadata.bytes
    diff := simpleDiff place.filePath oldText newText }

end Handlers

end PersistentHarness.HostFiles
