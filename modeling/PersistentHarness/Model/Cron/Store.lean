import PersistentHarness.Data.Utf8
import PersistentHarness.Lib.Table
import PersistentHarness.Model.Cron.Schedule

/-! # The cron tables

Jobs and runs under their primary keys, and each operation of the store as one transaction: it returns
the new tables, or throws and leaves the old ones. A run id is the digest of what names the run, so it
is represented by these parts; `text` spells it where the code prints or sorts ids.
-/

namespace PersistentHarness.Cron

inductive JobState where
  | scheduled
  | paused
  | completed
  | removed
deriving DecidableEq, Repr

inductive ExecutionMode where
  | fresh
  | origin
deriving DecidableEq, Repr

inductive NotificationIntent where
  | result
  | conditional
  | silent
deriving DecidableEq, Repr

inductive RunSource where
  | scheduled
  | manual
deriving DecidableEq, Repr

inductive RunStatus where
  | claimed
  | running
  | completed
  | failed
  | unknown
  | skippedOverlap
deriving DecidableEq, Repr

/-- `status IN ('claimed', 'running')`. -/
def RunStatus.active : RunStatus → Bool
  | .claimed | .running => true
  | _ => false

inductive Disposition where
  | deliver
  | noFinding
deriving DecidableEq, Repr

/-- What a check wakes the agent with. -/
inductive CheckKind where
  | output
  | failure
deriving DecidableEq, Repr

structure CheckText where
  kind : CheckKind
  text : JsString
deriving DecidableEq, Repr

/-- A check result that waits for a run, with the occurrence that produced it. -/
structure PendingCheck where
  result : CheckText
  scheduledAt : ℤ
deriving DecidableEq, Repr

/-- A row of `cron_jobs`. -/
structure Job where
  name : JsString
  prompt : JsString
  schedule : Schedule
  scheduleDisplay : JsString
  timezone : JsString
  executionMode : ExecutionMode
  notificationIntent : Option NotificationIntent
  originSessionId : Option JsString
  cwd : JsString
  repositoryRoot : Option JsString
  launch : Launch
  repeatTimes : Option ℕ
  fireCount : ℕ
  enabled : Bool
  state : JobState
  nextRunAt : Option ℤ
  lastRunAt : Option ℤ
  lastStatus : Option RunStatus
  lastError : Option JsString
  createdAt : ℤ
  updatedAt : ℤ
  check : Option Check
  checkFailures : ℕ
  checkAlerted : Bool
  pendingCheck : Option PendingCheck
deriving DecidableEq, Repr

/-- A run is named by its job and occurrence, or by its job, instant and random draw. -/
inductive RunId where
  | scheduled (jobId : JsString) (scheduledAt : ℤ)
  | manual (jobId : JsString) (now : ℤ) (draw : ℕ)
deriving DecidableEq, Repr

/-- A row of `cron_runs`. -/
structure Run where
  jobId : JsString
  source : RunSource
  scheduledAt : ℤ
  status : RunStatus
  executionModeRequested : ExecutionMode
  executionModeUsed : Option ExecutionMode
  sessionId : Option JsString
  fallbackReason : Option JsString
  inputId : Option JsString
  notificationIntent : Option NotificationIntent
  notificationDisposition : Option Disposition
  notificationBody : Option JsString
  notificationEvaluatedAt : Option ℤ
  notificationRecorded : Bool
  check : Option CheckText
  output : Option JsString
  error : Option JsString
  claimedAt : ℤ
  startedAt : Option ℤ
  completedAt : Option ℤ
deriving DecidableEq, Repr

/-- A newly inserted row: what an insert does not name takes its default. -/
def Run.claim (jobId : JsString) (source : RunSource) (scheduledAt now : ℤ) (job : Job) (check : Option CheckText) : Run :=
  { jobId, source, scheduledAt, status := .claimed, executionModeRequested := job.executionMode
    executionModeUsed := none, sessionId := none, fallbackReason := none, inputId := none
    notificationIntent := job.notificationIntent, notificationDisposition := none, notificationBody := none
    notificationEvaluatedAt := none, notificationRecorded := false, check, output := none, error := none
    claimedAt := now, startedAt := none, completedAt := none }

structure Store where
  jobs : Table JsString Job
  runs : Table RunId Run

def Store.empty : Store := ⟨.empty, .empty⟩

namespace Store

variable (s : Store)

def getJob (jobId : JsString) : Option Job := s.jobs.get? jobId

def getRun (runId : RunId) : Option Run := s.runs.get? runId

/-- `UPDATE cron_jobs ... WHERE id = ?`. -/
def updateJob (jobId : JsString) (f : Job → Job) : Store := { s with jobs := s.jobs.update jobId f }

/-! ## Jobs -/

/-- A value bound to a text column that is not null. The database keeps UTF-8. -/
def textColumn (name : String) : Value → CronResult JsString
  | .str text => .ok text.toWellFormed
  | _ => .error (.column name)

def executionModeColumn (value : Value) : CronResult ExecutionMode :=
  if value = Value.text "fresh" then .ok .fresh
  else if value = Value.text "origin" then .ok .origin
  else .error (.column "execution_mode")

def notificationIntentColumn (value : Value) : CronResult (Option NotificationIntent) :=
  if value = .undefined ∨ value = .null then .ok none
  else if value = Value.text "result" then .ok (some .result)
  else if value = Value.text "conditional" then .ok (some .conditional)
  else if value = Value.text "silent" then .ok (some .silent)
  else .error (.column "notification_intent")

/-- What creations and replacements have in common. -/
structure JobParams where
  name : Value
  prompt : Value
  schedule : Schedule
  scheduleDisplay : JsString
  executionMode : Value
  notificationIntent : Value
  repeatTimes : Option ℕ
  launch : Launch
  check : Option Check

/-- The columns to which these parameters are bound. -/
structure JobColumns where
  name : JsString
  prompt : JsString
  executionMode : ExecutionMode
  notificationIntent : Option NotificationIntent

def JobParams.columns (params : JobParams) : CronResult JobColumns := do
  let name ← textColumn "name" params.name
  let prompt ← textColumn "prompt" params.prompt
  let executionMode ← executionModeColumn params.executionMode
  let notificationIntent ← notificationIntentColumn params.notificationIntent
  pure { name, prompt, executionMode, notificationIntent }

/-- Another job that is not removed has this name, in any case. -/
def liveNameTaken (jobId name : JsString) : Bool :=
  s.jobs.any fun other job => other ≠ jobId ∧ job.state ≠ .removed ∧ job.name.lower = name.lower

structure NewJob where
  jobId : JsString
  params : JobParams
  originSessionId : JsString
  cwd : JsString
  repositoryRoot : Option JsString
  nextRunAt : ℤ
  initiallyPaused : Bool

def created (new : NewJob) (columns : JobColumns) (now : ℤ) : Job :=
  { name := columns.name, prompt := columns.prompt, schedule := new.params.schedule
    scheduleDisplay := new.params.scheduleDisplay, timezone := new.params.schedule.timezone
    executionMode := columns.executionMode, notificationIntent := columns.notificationIntent
    originSessionId := some new.originSessionId, cwd := new.cwd, repositoryRoot := new.repositoryRoot
    launch := new.params.launch, repeatTimes := new.params.repeatTimes, fireCount := 0
    enabled := !new.initiallyPaused, state := if new.initiallyPaused then .paused else .scheduled
    nextRunAt := some new.nextRunAt, lastRunAt := none, lastStatus := none, lastError := none
    createdAt := now, updatedAt := now, check := new.params.check, checkFailures := 0, checkAlerted := false
    pendingCheck := none }

def createJob (new : NewJob) (now : ℤ) : CronResult (Store × Job) := do
  let columns ← new.params.columns
  let job := created new columns now
  match s.jobs.insert? new.jobId job with
  | none => .error (.unique .jobId)
  | some jobs => do
    Checked.require (s.liveNameTaken new.jobId columns.name = false) (.unique .liveName)
    pure ({ s with jobs }, job)

/-- The job that a selector names: by its id, or by a name that only one job has. -/
def resolveJob (selector : JsString) (includeRemoved : Bool) : CronResult (JsString × Job) :=
  let visible (job : Job) : Bool := includeRemoved || job.state ≠ .removed
  match (s.getJob selector).filter visible with
  | some job => .ok (selector, job)
  | none =>
    match s.jobs.rows.filter fun row => row.2.name.lower = selector.lower ∧ visible row.2 with
    | [] => .error (.error (js "cron job not found: " ++ selector))
    | [row] => .ok row
    | _ => .error (.error (js "cron job selector is ambiguous: " ++ selector))

structure Replacement where
  params : JobParams
  fireCount : ℕ
  enabled : Bool
  state : JobState
  nextRunAt : Option ℤ

/-- The row of an edited job. -/
def replaced (job : Job) (new : Replacement) (columns : JobColumns) (now : ℤ) : Job :=
  { job with
    name := columns.name, prompt := columns.prompt, schedule := new.params.schedule
    scheduleDisplay := new.params.scheduleDisplay, timezone := new.params.schedule.timezone
    executionMode := columns.executionMode, notificationIntent := columns.notificationIntent
    launch := new.params.launch, repeatTimes := new.params.repeatTimes, fireCount := new.fireCount
    enabled := new.enabled, state := new.state, nextRunAt := new.nextRunAt, lastError := none, updatedAt := now
    check := new.params.check, checkFailures := 0, checkAlerted := false }

def replaceJob (jobId : JsString) (new : Replacement) (now : ℤ) : CronResult (Store × Job) := do
  let columns ← new.params.columns
  match (s.getJob jobId).filter fun job => job.state ≠ .removed with
  | none => .error (.error (js "cron job does not exist"))
  | some job => do
    Checked.require (s.liveNameTaken jobId columns.name = false) (.unique .liveName)
    let next := replaced job new columns now
    pure (s.updateJob jobId fun _ => next, next)

/-- An update of one job in a required state, with the error thrown when no row changes. -/
def changeJob (jobId : JsString) (expected : Job → Bool) (message : String) (f : Job → Job) : CronResult (Store × Job) :=
  match (s.getJob jobId).filter expected with
  | none => .error (.error (js message))
  | some job => .ok (s.updateJob jobId fun _ => f job, f job)

def paused (now : ℤ) (job : Job) : Job := { job with enabled := false, state := .paused, updatedAt := now }

def resumed (nextRunAt now : ℤ) (job : Job) : Job :=
  { job with enabled := true, state := .scheduled, nextRunAt := some nextRunAt, lastError := none, updatedAt := now }

def removed (now : ℤ) (job : Job) : Job :=
  { job with enabled := false, state := .removed, nextRunAt := none, updatedAt := now }

def pauseJob (jobId : JsString) (now : ℤ) : CronResult (Store × Job) :=
  s.changeJob jobId (fun job => job.state = .scheduled) "cron job is not scheduled" (paused now)

/-- What a mapped job shows of its row. -/
def mapJob (job : Job) : Job := { job with checkAlerted := false }

def resumeJob (jobId : JsString) (nextRunAt now : ℤ) (expectedJob : Option (JsString × Job)) :
    CronResult (Store × Job) := do
  Checked.require (∀ expected ∈ expectedJob,
      (s.getJob jobId).map (fun job => (jobId, mapJob job)) = some (expected.1, mapJob expected.2))
    (.error (js "cron job changed before resume"))
  s.changeJob jobId (fun job => job.state = .paused) "cron job is not paused" (resumed nextRunAt now)

def removeJob (jobId : JsString) (now : ℤ) : CronResult (Store × Job) :=
  s.changeJob jobId (fun job => job.state ≠ .removed) "cron job does not exist" (removed now)

def dueAt (now : ℤ) (job : Job) : Option ℤ :=
  if job.enabled ∧ job.state = .scheduled then job.nextRunAt.filter fun next => next ≤ now else none

/-- The order `next_run_at, created_at, id`. -/
def dueLe (a b : JsString × Job) : Bool :=
  let first (job : Job) := job.nextRunAt.getD 0
  first a.2 < first b.2 ∨ first a.2 = first b.2 ∧ (a.2.createdAt < b.2.createdAt ∨
    a.2.createdAt = b.2.createdAt ∧ a.1.le b.1)

def listDueJobs (now : ℤ) (limit : ℕ) : List (JsString × Job) :=
  s.jobs.select (fun _ job => (dueAt now job).isSome) dueLe limit

def updatedLe (a b : JsString × Job) : Bool :=
  a.2.updatedAt < b.2.updatedAt ∨ a.2.updatedAt = b.2.updatedAt ∧ a.1.le b.1

def listPendingCheckJobs (limit : ℕ) : List (JsString × Job) :=
  s.jobs.select (fun _ job => job.pendingCheck.isSome ∧ job.state ≠ .removed) updatedLe limit

/-! ## Runs -/

def countActiveRuns : ℕ := s.runs.count fun _ run => run.status.active

def activeRun? (jobId : JsString) : Option RunId :=
  (s.runs.rows.find? fun row => row.2.jobId = jobId ∧ row.2.status.active).map Prod.fst

def hasActiveRun (jobId : JsString) : Bool := (s.activeRun? jobId).isSome

/-- `INSERT INTO cron_runs`, under the primary key and the two unique indexes. -/
def insertRun (runId : RunId) (run : Run) : CronResult Store :=
  match s.runs.insert? runId run with
  | none => .error (.unique .runId)
  | some runs => do
    Checked.require (run.source = .scheduled →
        s.runs.any (fun _ other => other.source = .scheduled ∧ other.jobId = run.jobId
          ∧ other.scheduledAt = run.scheduledAt) = false)
      (.unique .occurrence)
    Checked.require (run.status.active = true → s.hasActiveRun run.jobId = false) (.unique .activeRun)
    pure { s with runs }

inductive ScheduledClaim where
  | notDue
  | skipped
  | claimed (run : Run) (job : Job)

/-- The run that a due occurrence becomes: claimed, or skipped when another run of the job is active. -/
def scheduledRun (text : RunId → JsString) (jobId : JsString) (job : Job) (scheduledAt now : ℤ) : Option RunId → Run
  | none => Run.claim jobId .scheduled scheduledAt now job none
  | some active =>
    { Run.claim jobId .scheduled scheduledAt now job none with
      status := .skippedOverlap, completedAt := some now, error := some (js "overlap with active run " ++ text active) }

/-- `repeat_times != null && fire_count + 1 >= repeat_times`. -/
def exhausts (job : Job) : Bool := job.repeatTimes.any fun times => times ≤ job.fireCount + 1

/-- The job after one of its due occurrences became a run. -/
def afterOccurrence (job : Job) (run : Run) (nextRunAt : Option ℤ) (now : ℤ) : Job :=
  let finalNext := if exhausts job then none else nextRunAt
  let state := if exhausts job ∨ finalNext = none then JobState.completed else .scheduled
  { job with
    fireCount := job.fireCount + 1, enabled := state = .scheduled, state, nextRunAt := finalNext
    lastRunAt := some run.scheduledAt, lastStatus := some run.status, lastError := run.error, updatedAt := now }

def claimScheduledRun (text : RunId → JsString) (jobId : JsString) (runId : RunId) (scheduledAt : ℤ)
    (nextRunAt : Option ℤ) (now : ℤ) : CronResult (Store × ScheduledClaim) :=
  match (s.getJob jobId).filter fun job =>
      job.enabled ∧ job.state = .scheduled ∧ job.nextRunAt.getD 0 = scheduledAt with
  | none => .ok (s, .notDue)
  | some job => do
    let active := s.activeRun? jobId
    let run := scheduledRun text jobId job scheduledAt now active
    let next := afterOccurrence job run nextRunAt now
    let inserted ← s.insertRun runId run
    pure (inserted.updateJob jobId fun _ => next, if active.isSome then .skipped else .claimed run next)

def claimManualRun (text : RunId → JsString) (jobId : JsString) (runId : RunId) (scheduledAt now : ℤ) :
    CronResult (Store × Run) :=
  match (s.getJob jobId).filter fun job => job.state ≠ .removed with
  | none => .error (.error (js "cron job does not exist"))
  | some job =>
    match s.activeRun? jobId with
    | some active => .error (.error (js "cron job is already running: " ++ text active))
    | none => do
      let run := Run.claim jobId .manual scheduledAt now job none
      let next := { job with lastRunAt := some scheduledAt, lastStatus := some .claimed, lastError := none, updatedAt := now }
      let inserted ← s.insertRun runId run
      pure (inserted.updateJob jobId fun _ => next, run)

/-- Take a checked job's due occurrence for its check. -/
def deferCheckedOccurrence (jobId : JsString) (scheduledAt : ℤ) (nextRunAt : Option ℤ) (now : ℤ) : Store × Bool :=
  match (s.getJob jobId).filter fun job =>
      job.enabled ∧ job.state = .scheduled ∧ job.nextRunAt = some scheduledAt ∧ job.pendingCheck = none with
  | none => (s, false)
  | some job => (s.updateJob jobId fun _ => { job with nextRunAt, updatedAt := now }, true)

def recordCheckSuccess (jobId : JsString) (now : ℤ) : Store :=
  s.updateJob jobId fun job =>
    { job with
      checkFailures := 0, checkAlerted := false
      lastError := if 0 < job.checkFailures then none else job.lastError, updatedAt := now }

/-- Whether this failure is the one that should wake the agent, and the failures counted so far. -/
def recordCheckFailure (jobId error : JsString) (threshold : ℕ) (now : ℤ) : Store × ℕ × Bool :=
  match s.getJob jobId with
  | none => (s, 0, false)
  | some job =>
    let failures := job.checkFailures + 1
    let alert := threshold ≤ failures && !job.checkAlerted
    (s.updateJob jobId fun _ =>
      { job with
        checkFailures := failures, lastError := some (js "check failed: " ++ error), updatedAt := now
        checkAlerted := alert || job.checkAlerted },
      failures, alert)

def setPendingCheck (jobId : JsString) (pending : PendingCheck) (now : ℤ) : Store × Bool :=
  match (s.getJob jobId).filter fun job => job.state ≠ .removed ∧ job.pendingCheck = none with
  | none => (s, false)
  | some job => (s.updateJob jobId fun _ => { job with pendingCheck := some pending, updatedAt := now }, true)

/-- The job after its pending check result became a run. -/
def afterCheck (job : Job) (pending : PendingCheck) (now : ℤ) : Job :=
  { job with
    pendingCheck := none, fireCount := job.fireCount + 1
    state := if exhausts job then .completed else job.state
    enabled := if exhausts job then false else job.enabled
    nextRunAt := if exhausts job then none else job.nextRunAt
    lastRunAt := some pending.scheduledAt, lastStatus := some .claimed, updatedAt := now }

/-- Move a pending check result into a new run; wait while the job already has an active run. -/
def claimCheckedRun (jobId : JsString) (runId : RunId) (now : ℤ) : CronResult (Store × Option (Run × Job)) :=
  match (s.getJob jobId).filter fun job => job.state ≠ .removed with
  | none => .ok (s, none)
  | some job =>
    match job.pendingCheck with
    | none => .ok (s, none)
    | some pending =>
      if s.hasActiveRun jobId then .ok (s, none)
      else do
        let run := Run.claim jobId .scheduled pending.scheduledAt now job (some pending.result)
        let next := afterCheck job pending now
        let inserted ← s.insertRun runId run
        pure (inserted.updateJob jobId fun _ => next, some (run, next))

def updateRun (runId : RunId) (run : Run) (f : Job → Job) : Store :=
  { jobs := s.jobs.update run.jobId f, runs := s.runs.update runId fun _ => run }

/-- Where and how a claimed run is dispatched. -/
structure Dispatch where
  executionModeUsed : ExecutionMode
  sessionId : JsString
  fallbackReason : Option JsString
  inputId : JsString

def markRunRunning (runId : RunId) (dispatch : Dispatch) (now : ℤ) : CronResult (Store × Run) :=
  match (s.getRun runId).filter fun run => run.status = .claimed with
  | none => .error (.error (js "cron run is not claimed"))
  | some run =>
    let run :=
      { run with
        status := .running, executionModeUsed := some dispatch.executionModeUsed, sessionId := some dispatch.sessionId
        fallbackReason := dispatch.fallbackReason, inputId := some dispatch.inputId, startedAt := some now }
    .ok (s.updateRun runId run fun job =>
      { job with lastStatus := some .running, lastError := none, updatedAt := now }, run)

def finishRun (runId : RunId) (status : RunStatus) (output error : Option JsString) (now : ℤ) :
    CronResult (Store × Option Run) := do
  Checked.require (status.active = false ∧ status ≠ .skippedOverlap)
    (.error (js "unsupported cron run terminal state"))
  match (s.getRun runId).filter fun run => run.status.active with
  | none => pure (s, s.getRun runId)
  | some run =>
    let run := { run with status, output, error, completedAt := some now }
    pure (s.updateRun runId run fun job =>
      { job with lastStatus := some status, lastError := error, updatedAt := now }, some run)

def restartedMessage : JsString := js "supervisor restarted during execution; outcome is unknown"

def interrupt (now : ℤ) (run : Run) : Run :=
  if run.status.active then { run with status := .unknown, error := some restartedMessage, completedAt := some now }
  else run

def reconcileInterruptedRuns (now : ℤ) : Store :=
  let runs := s.runs.modify fun _ => interrupt now
  { runs
    jobs := s.jobs.modify fun jobId job =>
      if runs.any fun _ run => run.jobId = jobId ∧ run.status = .unknown ∧ run.completedAt = some now then
        { job with lastStatus := some .unknown, lastError := some restartedMessage, updatedAt := now }
      else job }

/-- A delivery has a body of plain text, a negative finding has none. -/
def validBody : Disposition → Option JsString → Bool
  | .deliver, some text => text.trim ≠ [] ∧ text.length ≤ 1000
  | .noFinding, none => true
  | _, _ => false

/-- Bind an exact-run disposition; repeating the same one changes nothing. -/
def reportNotification (runId : RunId) (sessionId : JsString) (disposition : Disposition) (body : Option JsString)
    (now : ℤ) : CronResult (Store × Run) := do
  Checked.require (validBody disposition body = true) (.error (js "invalid cron delivery disposition"))
  match (s.getRun runId).filter fun run => run.sessionId = some sessionId
      ∧ (run.notificationIntent = some .result ∨ run.notificationIntent = some .conditional) with
  | none => .error (.error (js "run does not accept a disposition from this actor"))
  | some run => do
    Checked.require (disposition = .noFinding → run.notificationIntent = some .conditional)
      (.error (js "result runs require a deliver disposition"))
    match run.notificationDisposition with
    | some reported => do
      Checked.require (reported = disposition ∧ run.notificationBody = body)
        (.error (js "cron run already has a different disposition"))
      pure (s, run)
    | none => do
      Checked.require (run.status = .running) (.error (js "cron run is no longer evaluating"))
      let bind (run : Run) : Run :=
        { run with notificationDisposition := some disposition, notificationBody := body, notificationEvaluatedAt := some now }
      pure ({ s with runs := s.runs.update runId bind }, bind run)

def notificationRecorded (runId : RunId) : Store :=
  { s with runs := s.runs.update runId fun run => { run with notificationRecorded := true } }

/-- The order `claimed_at DESC, id DESC`: the first run comes before the second. -/
def newer (text : RunId → JsString) (a b : RunId × Run) : Bool :=
  b.2.claimedAt < a.2.claimedAt ∨ b.2.claimedAt = a.2.claimedAt ∧ text a.1 ≠ text b.1 ∧ (text b.1).le (text a.1)

/-- Keep the newest runs of each job, and those that are active or whose notification is not recorded. -/
def pruneRuns (text : RunId → JsString) (keepPerJob : ℕ) : Store :=
  { s with
    runs := s.runs.delete fun runId run =>
      (run.notificationIntent = none ∨ run.notificationRecorded) ∧ run.status.active = false
        ∧ keepPerJob ≤ s.runs.count fun otherId other =>
          other.jobId = run.jobId ∧ newer text (otherId, other) (runId, run) }

end Store

end PersistentHarness.Cron
