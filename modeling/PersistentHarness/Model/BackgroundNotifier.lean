import Mathlib.Logic.Function.Basic
import PersistentHarness.Data.Text

/-! # The background completion monitor

A scan lists directories of background jobs, reads the files of every job it knows, and then acts on what it read:
it dispatches the completions that have no notification marker, and removes old jobs that have one. A dispatch goes
on while later scans run, and publishes the marker once it resolved. Every file-system call is a step of its own.
-/

namespace PersistentHarness.BackgroundNotifier

open Json (unit isDigit)

def MAX_JOBS : ℕ := 128

section Jobs

inductive NotificationState where
  | sent
  | skipped
deriving DecidableEq, Repr

def NotificationState.text : NotificationState → JsString
  | .sent => js "sent"
  | .skipped => js "skipped"

/-- The files of a job directory, each with the object in it. -/
structure JobFiles where
  directory : Bool := false
  metadata : Option Value := none
  exit : Option Value := none
  notification : Option Value := none
deriving DecidableEq

structure Active where
  id : JsString
  name : JsString
  sessionId : JsString
  startedAt : Option JsString
deriving DecidableEq

structure Exit where
  exitCode : Option ℤ
  signal : Option JsString
  endedAt : JsString
deriving DecidableEq

structure Completed extends Exit where
  id : JsString
  name : JsString
  sessionId : JsString
  startedAt : Option JsString
  notificationState : Option NotificationState
deriving DecidableEq

inductive Job where
  | active (job : Active)
  | completed (job : Completed)
deriving DecidableEq

def Job.id : Job → JsString
  | .active job => job.id
  | .completed job => job.id

def Job.completed? : Job → Option Completed
  | .active _ => none
  | .completed job => some job

/-- How long finished jobs are kept, and `Date.parse`. -/
structure Config where
  retentionMs : ℤ
  dates : JsString → Option ℤ

def isAlphanumeric (u : UInt16) : Bool := isDigit u || (unit 'A' ≤ u && u ≤ unit 'Z') || (unit 'a' ≤ u && u ≤ unit 'z')

/-- `/^bg-[0-9a-f]{12}$/`. -/
def isJobId (id : JsString) : Bool :=
  id.take 3 = js "bg-" && id.length = 15 && (id.drop 3).all fun u => isDigit u || (unit 'a' ≤ u && u ≤ unit 'f')

/-- `/^[A-Za-z0-9][A-Za-z0-9._:-]{0,127}$/`. -/
def isSessionId (id : JsString) : Bool :=
  id.head?.any isAlphanumeric && id.length ≤ 128
    && id.all fun u => isAlphanumeric u || u ∈ [unit '.', unit '_', unit ':', unit '-']

/-- `/^[A-Za-z0-9._-]{1,32}$/`. -/
def isSignal (signal : JsString) : Bool :=
  signal ≠ [] && signal.length ≤ 32 && signal.all fun u => isAlphanumeric u || u ∈ [unit '.', unit '_', unit '-']

def isBlank (u : UInt16) : Bool := u ≤ 0x1F || u == 0x7F || isWhiteSpace u

/-- Runs of control characters and white space become one space. -/
def squash : JsString → JsString
  | [] => []
  | [u] => if isBlank u then [unit ' '] else [u]
  | u :: v :: rest =>
    if isBlank u then if isBlank v then squash (v :: rest) else unit ' ' :: squash (v :: rest)
    else u :: squash (v :: rest)

def safeName (value : Value) (fallback : JsString) : JsString :=
  match value with
  | .str name =>
    let cleaned := JsString.trim (squash name)
    if cleaned = [] then fallback else cleaned.take 64
  | _ => fallback

/-- `Number.isSafeInteger(value)`, with the integer. -/
def safeInteger? : Value → Option ℤ
  | .num n => ({ n with negative := false }.toSafeNat?).map fun value => if n.negative then -value else value
  | _ => none

def startedAt (c : Config) (value : Value) : Option JsString :=
  match value with
  | .str text => if text.length > 64 then none else (c.dates text).map isoString
  | _ => none

def terminalExit (c : Config) (value : Option Value) : Option Exit := do
  let value ← value
  if (Assoc.keys value.fields).any (· ∉ [js "exit_code", js "signal", js "ended_at"]) then none
  let exitCode ← match value.get (js "exit_code") with
    | .null => some none
    | code => (safeInteger? code).map some
  let signal ← match value.get (js "signal") with
    | .null => some none
    | .str signal => if isSignal signal then some (some signal) else none
    | _ => none
  let endedAt ← match value.get (js "ended_at") with
    | .str text => (c.dates text).map fun _ => text
    | _ => none
  some ⟨exitCode, signal, endedAt⟩

def jobMetadata (id : JsString) (metadata : Option Value) : Option Value :=
  metadata.filter fun value =>
    value.get (js "schema") = .text "background.job.v1" && value.get (js "id") = .str id
      && (value.get (js "kind") = .text "launched" || value.get (js "kind") = .text "adopted")
      && (value.get (js "session_id")).isString && isSessionId (value.get (js "session_id")).units

def notificationState (id : JsString) (notification : Option Value) : Option NotificationState := do
  let value ← notification
  if value.get (js "version") ≠ .num (.ofNat 1) ∨ value.get (js "jobId") ≠ .str id then none
  [NotificationState.sent, .skipped].find? fun state => value.get (js "state") = .str state.text

def marker (id : JsString) (state : NotificationState) (updatedAt : JsString) : Value :=
  .record [("version", .num (.ofNat 1)), ("state", .str state.text), ("jobId", .str id), ("updatedAt", .str updatedAt)]

def backgroundCompletionMessage (job : Completed) : JsString :=
  let outcome := match job.signal, job.exitCode with
    | some signal, _ => js "was terminated by " ++ signal
    | none, none => js "finished with an unknown result"
    | none, some 0 => js "completed successfully (exit code 0)"
    | none, some code => js "failed (exit code " ++ integerText code ++ js ")"
  js "Background process \"" ++ safeName (.str job.name) job.id ++ js "\" " ++ outcome ++ js ".\nJob ID: " ++ job.id
    ++ js ".\nContinue with background(operation=\"status\", selector=\"" ++ job.id ++ js "\") and inspect its logs if needed."

/-- The next call of `readJob`, or its result. -/
inductive Progress where
  | directory
  | metadata
  | exit (metadata : Value)
  | process (metadata : Value)
  | notification (metadata : Value) (exit : Exit)
  | done (job : Option Job)
deriving DecidableEq

/-- A call of `readJob` returns: a failing read finds nothing, and `live` is what `isActiveProcess` found. -/
def readJob (c : Config) (id : JsString) (files : JobFiles) (fails live : Bool) : Progress → Progress
  | .directory => if fails || !files.directory then .done none else .metadata
  | .metadata =>
    match jobMetadata id (if fails then none else files.metadata) with
    | some metadata => .exit metadata
    | none => .done none
  | .exit metadata =>
    match terminalExit c (if fails then none else files.exit) with
    | some exit => .notification metadata exit
    | none => .process metadata
  | .process metadata =>
    if live then
      .done (some (.active
        ⟨id, safeName (metadata.get (js "name")) id, (metadata.get (js "session_id")).units,
          startedAt c (metadata.get (js "created_at"))⟩))
    else .done none
  | .notification metadata exit =>
    .done (some (.completed
      { exit with
        id
        name := safeName (metadata.get (js "name")) id
        sessionId := (metadata.get (js "session_id")).units
        startedAt := startedAt c (metadata.get (js "created_at"))
        notificationState := notificationState id (if fails then none else files.notification) }))
  | .done job => .done job

end Jobs

section Monitor

/-- The next call of a delivery. -/
inductive DeliveryStage where
  /-- The turn of the promise has not come. -/
  | queued
  | dispatching
  /-- `writeFile(temporary)`. -/
  | writing (state : NotificationState)
  /-- `rename(temporary, target)`. -/
  | publishing (state : NotificationState)
  /-- `unlink(temporary)`. -/
  | cleaning
  | published
deriving DecidableEq

/-- An entry of `inFlight`. -/
structure Delivery where
  job : Completed
  message : JsString
  stage : DeliveryStage
deriving DecidableEq

inductive Phase where
  | listing (ids : List JsString) (count : ℕ)
  | reading (jobs : List (JsString × Progress))
  /-- `rm` of a job directory. -/
  | pruning (id : JsString) (rest : List Job) (cutoff : ℤ)
  /-- `onScanComplete`. -/
  | completing
deriving DecidableEq

structure Scan where
  scanOwners : List JsString
  phase : Phase
deriving DecidableEq

/-- What can be seen of the monitor. -/
inductive Observation where
  /-- A delivery enters `inFlight`. -/
  | admitted (id : JsString)
  /-- `dispatch` is called. -/
  | dispatched (id : JsString)
  | resolved (id : JsString) (state : NotificationState)
  | rejected (id : JsString)
  | published (id : JsString) (state : NotificationState)
  /-- A delivery leaves `inFlight`. -/
  | settled (id : JsString)
  | removing (id : JsString)
  | removed (id : JsString)
deriving DecidableEq

/-- The monitor, the job directories, the ones it began to remove, and what was seen, the latest first. -/
structure System where
  disk : JsString → JobFiles
  pruned : List JsString
  stopped : Bool
  scan : Option Scan
  inFlight : List Delivery
  activeJobs : List Active
  directoryReader : Bool
  retryJobs : List JsString
  completedScans : ℕ
  log : List Observation

/-- A monitor that was not started. -/
def System.initial (disk : JsString → JobFiles) : System := ⟨disk, [], true, none, [], [], false, [], 0, []⟩

namespace System

def owned (s : System) : List JsString := s.inFlight.map (·.job.id)

def observe (s : System) (o : Observation) : System := { s with log := o :: s.log }

/-- `runScan`, which starts no scan beside another. -/
def runScan (s : System) : System :=
  if s.stopped || s.scan.isSome then s
  else { s with scan := some ⟨s.owned, .listing (s.retryJobs ++ s.activeJobs.map (·.id)).dedup 0⟩ }

def readJobs (s : System) (scan : Scan) (ids : List JsString) : System :=
  { s with scan := some { scan with phase := .reading ((ids.mergeSort JsString.le).map fun id => (id, .directory)) } }

def retry (s : System) (id : JsString) : System :=
  if s.retryJobs.length < MAX_JOBS ∧ id ∉ s.retryJobs then { s with retryJobs := s.retryJobs ++ [id] } else s

/-- The dispatch of a completion, unless something speaks against it. -/
def admitJob (owners : List JsString) (s : System) (job : Job) : System :=
  match job with
  | .active _ => s
  | .completed job =>
    if s.stopped || job.notificationState.isSome || job.id ∈ owners || job.id ∈ s.owned || MAX_JOBS ≤ s.inFlight.length then s
    else
      { s with
        inFlight := s.inFlight ++ [⟨job, backgroundCompletionMessage job, .queued⟩]
        log := .admitted job.id :: s.log }

/-- An old job that was notified, and is not being dispatched. -/
def removable (c : Config) (s : System) (cutoff : ℤ) (job : Job) : Bool :=
  match job with
  | .active _ => false
  | .completed job => job.notificationState.isSome && job.id ∉ s.owned && (c.dates job.endedAt).any (· < cutoff)

/-- The scan is over but for its callback. -/
def complete (s : System) (scan : Scan) : System :=
  if s.stopped then { s with scan := none }
  else { s with completedScans := s.completedScans + 1, scan := some { scan with phase := .completing } }

/-- The loop of `pruneFinished`, up to the next job it removes. -/
def pruneFinished (c : Config) (s : System) (scan : Scan) (cutoff : ℤ) (jobs : List Job) : System :=
  match jobs.dropWhile fun job => !s.removable c cutoff job with
  | [] => s.complete scan
  | job :: rest =>
    { s with scan := some { scan with phase := .pruning job.id rest cutoff }, pruned := job.id :: s.pruned }.observe (.removing job.id)

/-- Every job was read. -/
def act (c : Config) (s : System) (scan : Scan) (now : ℤ) (jobs : List Job) : System :=
  let retryable := (jobs.filterMap Job.completed?).filter (·.notificationState = none) |>.map (·.id)
  let s := { s with retryJobs := s.retryJobs.filter (· ∈ retryable) }
  if s.stopped then { s with scan := none }
  else
    let active := jobs.filterMap fun
      | .active job => some job
      | .completed _ => none
    let s := jobs.foldl (admitJob scan.scanOwners) { s with activeJobs := active.take MAX_JOBS }
    s.pruneFinished c scan (now - c.retentionMs) jobs

def setStage (s : System) (id : JsString) (stage : DeliveryStage) : System :=
  { s with inFlight := s.inFlight.map fun d => if d.job.id = id then { d with stage } else d }

/-- The delivery is over: `inFlight.delete`. -/
def settle (s : System) (id : JsString) : System :=
  { s with inFlight := s.inFlight.filter (·.job.id ≠ id) }.observe (.settled id)

def write (s : System) (id : JsString) (files : JobFiles) : System := { s with disk := Function.update s.disk id files }

end System

/-- Which files of a directory a failing `rm` removed. -/
structure Leftover where
  metadata : Bool
  exit : Bool
  notification : Bool
deriving DecidableEq, Repr

def JobFiles.without (files : JobFiles) (gone : Leftover) : JobFiles where
  directory := files.directory
  metadata := if gone.metadata then none else files.metadata
  exit := if gone.exit then none else files.exit
  notification := if gone.notification then none else files.notification

/-- What happens next: a call of the monitor, the outcome of one of its file-system calls, or a job that writes. -/
inductive Event where
  | start
  | stop
  | tick
  /-- `stop` closes the directory reader when everything it waited for is done. -/
  | closeReader
  | opened (succeeds : Bool)
  | listed (entry : Option (JsString × Bool))
  | listFails
  | read (id : JsString) (fails live : Bool)
  | acts (now : ℤ)
  /-- `rm` returns, or fails and leaves something. -/
  | removed (failed : Option Leftover)
  | scanCompleted
  | dispatches (id : JsString)
  | dispatchSettled (id : JsString) (result : Option NotificationState)
  | temporaryWritten (id : JsString) (succeeds : Bool)
  | renamed (id : JsString) (succeeds : Bool) (updatedAt : JsString)
  | temporaryRemoved (id : JsString)
  | deliverySettled (id : JsString)
  /-- A job changes its own files; the name of a directory that was removed is not used again. -/
  | jobWrites (id : JsString) (directory : Bool) (metadata exit : Option Value)
deriving DecidableEq

namespace System

def stageOf (s : System) (id : JsString) : Option DeliveryStage := (s.inFlight.find? (·.job.id = id)).map (·.stage)

def step (c : Config) (s : System) (event : Event) : System :=
  match event with
  | .start => if s.stopped then { s with stopped := false }.runScan else s
  | .stop => { s with stopped := true }
  | .tick => s.runScan
  | .closeReader => { s with directoryReader := false }
  | .opened succeeds =>
    match s.scan with
    | some ⟨owners, .listing ids count⟩ =>
      if s.directoryReader || 0 < count then s
      else if succeeds then { s with directoryReader := true }
      else s.readJobs ⟨owners, .listing ids count⟩ ids
    | _ => s
  | .listed entry =>
    match s.scan with
    | some ⟨owners, .listing ids count⟩ =>
      if !s.directoryReader then s
      else
        match entry with
        | none => { s with directoryReader := false }.readJobs ⟨owners, .listing ids count⟩ ids
        | some (name, isDirectory) =>
          let ids := if isDirectory && isJobId name && name ∉ ids then ids ++ [name] else ids
          if count + 1 < MAX_JOBS then { s with scan := some ⟨owners, .listing ids (count + 1)⟩ }
          else s.readJobs ⟨owners, .listing ids count⟩ ids
    | _ => s
  | .listFails =>
    match s.scan with
    | some ⟨owners, .listing ids count⟩ => { s with directoryReader := false }.readJobs ⟨owners, .listing ids count⟩ ids
    | _ => s
  | .read id fails live =>
    match s.scan with
    | some ⟨owners, .reading jobs⟩ =>
      { s with
        scan := some ⟨owners, .reading (jobs.map fun job =>
          if job.1 = id then (id, readJob c id (s.disk id) fails live job.2) else job)⟩ }
    | _ => s
  | .acts now =>
    match s.scan with
    | some ⟨owners, .reading jobs⟩ =>
      if jobs.all fun job => job.2 matches .done _ then
        s.act c ⟨owners, .reading jobs⟩ now (jobs.filterMap fun
          | (_, .done job) => job
          | _ => none)
      else s
    | _ => s
  | .removed failed =>
    match s.scan with
    | some ⟨owners, .pruning id rest cutoff⟩ =>
      let files := match failed with
        | none => {}
        | some gone => (s.disk id).without gone
      ((s.write id files).observe (.removed id)).pruneFinished c ⟨owners, .pruning id rest cutoff⟩ cutoff rest
    | _ => s
  | .scanCompleted =>
    match s.scan with
    | some ⟨_, .completing⟩ => { s with scan := none }
    | _ => s
  | .dispatches id => if s.stageOf id = some .queued then (s.setStage id .dispatching).observe (.dispatched id) else s
  | .dispatchSettled id result =>
    if s.stageOf id = some .dispatching then
      match result with
      | some state => (s.setStage id (.writing state)).observe (.resolved id state)
      | none => ((s.observe (.rejected id)).retry id).settle id
    else s
  | .temporaryWritten id succeeds =>
    match s.stageOf id with
    | some (.writing state) => if succeeds then s.setStage id (.publishing state) else (s.retry id).settle id
    | _ => s
  | .renamed id succeeds updatedAt =>
    match s.stageOf id with
    | some (.publishing state) =>
      if succeeds then
        ((s.write id { s.disk id with notification := some (marker id state updatedAt) }).setStage id .published).observe
          (.published id state)
      else s.setStage id .cleaning
    | _ => s
  | .temporaryRemoved id => if s.stageOf id = some .cleaning then (s.retry id).settle id else s
  | .deliverySettled id =>
    if s.stageOf id = some .published then { s with retryJobs := s.retryJobs.filter (· ≠ id) }.settle id else s
  | .jobWrites id directory metadata exit =>
    if id ∈ s.pruned then s else s.write id { s.disk id with directory, metadata, exit }

def run (c : Config) (s : System) (events : List Event) : System := events.foldl (step c) s

end System

end Monitor

end PersistentHarness.BackgroundNotifier
