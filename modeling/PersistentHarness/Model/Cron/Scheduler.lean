import PersistentHarness.Model.Cron.Store

/-! # The cron scheduler

One scheduler process over the cron tables. JavaScript runs a tick and every request to its end before
anything else, so each is one step; what they leave for later (a check command, a dispatched run) comes
back as a step of its own. The process may stop, start again or be replaced after a crash: the tables
stay, the checks in flight are lost.
-/

namespace PersistentHarness.Cron

def maxConcurrentChecks : ℕ := 4

/-- What one scheduler is given: its calendar, the spelling of run ids and its options. -/
structure Env where
  calendar : Calendar
  text : RunId → JsString
  maxParallel : ℕ
  defaultTimezone : JsString

/-- A check command in flight. It stays known until its promise settles, also once it has finished. -/
structure RunningCheck where
  jobId : JsString
  scheduledAt : ℤ
  command : Check
  cwd : JsString
  finished : Bool
deriving DecidableEq, Repr

/-- The tables, and the process memory: `#checks`, `#stopped` and the random draws taken so far. -/
structure Scheduler where
  store : Store
  checks : List RunningCheck
  stopped : Bool
  draws : ℕ

def Scheduler.initial : Scheduler := ⟨.empty, [], true, 0⟩

/-- What a request reads of its session. -/
structure Origin where
  deleted : Bool
  isRoot : Bool
  depth : ℕ
  cwd : JsString
  repositoryRoot : Option JsString

section Requests

variable (env : Env)

def requireRepeat (value : Value) (recurring : Bool) : CronResult (Option ℕ) :=
  if value = .undefined ∨ value = .null then pure (if recurring then none else some 1)
  else
    match integerIn value 1 1000000 with
    | none => .error (.typeError (js "repeat must be an integer from 1 through 1000000 or null"))
    | some times => do
      requireType (recurring = true ∨ times = 1) "one-shot schedules require repeat 1"
      pure (some times)

structure CreationParams where
  params : Store.JobParams
  originSessionId : JsString
  cwd : JsString
  repositoryRoot : Option JsString
  nextRunAt : ℤ

def creationParams (origin : Option Origin) (originSessionId : JsString) (params : Value) (createdAt : ℤ)
    (allowPastAt : Bool) : CronResult CreationParams :=
  match origin.filter fun session => !session.deleted && session.isRoot && session.depth == 0 with
  | none => .error (.error (js "cron jobs may only be created from a live root session"))
  | some session => do
    let check ← normalizeCronCheck (params.get (js "check"))
    let normalized ← normalizeCronSchedule env.calendar (params.get (js "schedule")) createdAt
      ((params.get (js "timezone")).coalesce (.str env.defaultTimezone)) allowPastAt
      (if check.isSome then minCheckedIntervalSeconds else minCronIntervalSeconds)
    requireType (check.isSome = true → normalized.schedule.recurring = true) "a check needs a recurring schedule"
    let repeatTimes ← requireRepeat (params.get (js "repeat")) normalized.schedule.recurring
    pure
      { params :=
          { name := params.get (js "name"), prompt := params.get (js "prompt"), schedule := normalized.schedule
            scheduleDisplay := normalized.display
            executionMode := (params.get (js "executionMode")).coalesce (Value.text "fresh")
            notificationIntent := (params.get (js "notificationIntent")).coalesce .null
            repeatTimes, launch := cronLaunchFromRequest params, check }
        originSessionId, cwd := session.cwd, repositoryRoot := session.repositoryRoot, nextRunAt := normalized.nextRunAt }

def executionModeValue : ExecutionMode → Value
  | .fresh => Value.text "fresh"
  | .origin => Value.text "origin"

def notificationIntentValue : Option NotificationIntent → Value
  | none => .null
  | some .result => Value.text "result"
  | some .conditional => Value.text "conditional"
  | some .silent => Value.text "silent"

/-- The first intent in which a request differs from an existing job. -/
def differingIntent (requested : CreationParams) (existing : Job) : Option String :=
  let params := requested.params
  (([("name", decide (params.name = .str existing.name)), ("prompt", decide (params.prompt = .str existing.prompt)),
    ("schedule", decide (params.schedule = existing.schedule)),
    ("timezone", decide (params.schedule.timezone = existing.timezone)),
    ("executionMode", decide (params.executionMode = executionModeValue existing.executionMode)),
    ("notificationIntent", decide (params.notificationIntent = notificationIntentValue existing.notificationIntent)),
    ("originSessionId", decide (some requested.originSessionId = existing.originSessionId)),
    ("cwd", decide (requested.cwd = existing.cwd)),
    ("repositoryRoot", decide (requested.repositoryRoot = existing.repositoryRoot)),
    ("launch", decide (params.launch = existing.launch)), ("repeat", decide (params.repeatTimes = existing.repeatTimes)),
    ("check", decide (params.check = existing.check))] : List (String × Bool)).find? fun key => !key.2).map Prod.fst

def reuseCreation (existing : Job) (origin : Option Origin) (originSessionId : JsString) (params : Value) :
    CronResult Job := do
  let requested ← creationParams env origin originSessionId params existing.createdAt true
  match differingIntent requested existing with
  | some key => .error (.error (js "cron jobId already exists with different intent: " ++ js key))
  | none => pure existing

/-- `/^[A-Za-z0-9_-]{1,128}$/`. -/
def validJobId (jobId : JsString) : Bool :=
  jobId ≠ [] ∧ jobId.length ≤ 128 ∧ jobId.all fun u =>
    Json.isDigit u ∨ (0x41 ≤ u ∧ u ≤ 0x5A) ∨ (0x61 ≤ u ∧ u ≤ 0x7A) ∨ u = 0x5F ∨ u = 0x2D

/-- Create a job. A given id that is in use is reused when it has the same intent; `draw` is the random id.
A failed insert leaves the id free within one process, so the source's second lookup finds nothing. -/
def create (store : Store) (origin : Option Origin) (originSessionId : JsString) (params : Value) (now : ℤ)
    (jobId : Option JsString) (initiallyPaused : Bool) (draw : JsString) : CronResult (Store × Job) := do
  requireType (∀ id ∈ jobId, validJobId id = true)
    "jobId must contain 1 through 128 ASCII letters, digits, underscores, or hyphens"
  match jobId.bind store.getJob with
  | some existing => do
    let job ← reuseCreation env existing origin originSessionId params
    pure (store, job)
  | none => do
    let kind := (params.get (js "schedule")).get (js "kind")
    let creation ← creationParams env origin originSessionId params now (initiallyPaused && kind = Value.text "at")
    store.createJob
      { jobId := jobId.getD draw, params := creation.params, originSessionId, cwd := creation.cwd
        repositoryRoot := creation.repositoryRoot, nextRunAt := creation.nextRunAt, initiallyPaused } now

/-- The schedule that an edit leaves, with its display and next run. -/
def editedSchedule (current : Job) (patch : Value) (check : Option Check) (now : ℤ) :
    CronResult (Schedule × JsString × Option ℤ) :=
  let schedule := patch.get (js "schedule")
  if schedule = .undefined then pure (current.schedule, current.scheduleDisplay, current.nextRunAt)
  else do
    let normalized ← normalizeCronSchedule env.calendar schedule now
      ((patch.get (js "timezone")).coalesce (.str current.timezone)) false
      (if check.isSome then minCheckedIntervalSeconds else minCronIntervalSeconds)
    pure (normalized.schedule, normalized.display, some normalized.nextRunAt)

/-- Whether an edit restarts the count: it names a schedule or a repeat. -/
def resets (patch : Value) : Bool := patch.get (js "schedule") ≠ .undefined || patch.get (js "repeat") ≠ .undefined

/-- An interval that only a checked job may have. -/
def shortInterval : Schedule → Bool
  | .every intervalSeconds _ => intervalSeconds < minCronIntervalSeconds
  | _ => false

/-- The new columns of an edited job. -/
def replacement (current : Job) (patch : Value) (now : ℤ) : CronResult Store.Replacement := do
  let patchCheck := patch.get (js "check")
  let check ← (if patchCheck = .undefined then pure current.check else normalizeCronCheck patchCheck)
  let (schedule, display, nextRunAt) ← editedSchedule env current patch check now
  requireType (check.isSome = true → schedule.recurring = true) "a check needs a recurring schedule"
  requireType (check.isSome = true ∨ shortInterval schedule = false) "a job without a check needs an interval of at least 300 seconds"
  let patchRepeat := patch.get (js "repeat")
  let currentRepeat : Value := current.repeatTimes.elim .null fun times => .num (.ofNat times)
  let repeatTimes ← requireRepeat (if patchRepeat ≠ .undefined then patchRepeat else currentRepeat) schedule.recurring
  let paused := decide (current.state = .paused)
  let completed := decide (current.state = .completed) && !resets patch
  pure
    { params :=
        { name := (patch.get (js "name")).coalesce (.str current.name)
          prompt := (patch.get (js "prompt")).coalesce (.str current.prompt)
          schedule, scheduleDisplay := display
          executionMode := (patch.get (js "executionMode")).coalesce (executionModeValue current.executionMode)
          notificationIntent :=
            (patch.get (js "notificationIntent")).coalesce (notificationIntentValue current.notificationIntent)
          repeatTimes, launch := mergeCronLaunch current.launch patch, check }
      fireCount := if resets patch then 0 else current.fireCount
      enabled := !(paused || completed)
      state := if paused then .paused else if completed then .completed else .scheduled
      nextRunAt := if resets patch then nextRunAt else current.nextRunAt }

def update (store : Store) (selector : JsString) (patch : Value) (now : ℤ) : CronResult (Store × Job) := do
  let (jobId, current) ← store.resolveJob selector false
  let new ← replacement env current patch now
  store.replaceJob jobId new now

def pause (store : Store) (selector : JsString) (now : ℤ) : CronResult (Store × Job) := do
  let (jobId, _) ← store.resolveJob selector false
  store.pauseJob jobId now

/-- When a paused job runs next. -/
def resumeTime (job : Job) (now : ℤ) : CronResult ℤ :=
  match job.schedule with
  | .once time _ => pure (max now time)
  | .every intervalSeconds _ => pure (now + intervalSeconds * 1000)
  | .cron expression timezone => do
    let normalized ← normalizeCronSchedule env.calendar
      (Value.record [("kind", Value.text "cron"), ("expression", .str expression), ("timezone", .str timezone)]) now
      (.str job.timezone) false minCronIntervalSeconds
    pure normalized.nextRunAt

def resume (store : Store) (selector : JsString) (now : ℤ) (expectedJob : Option (JsString × Job)) :
    CronResult (Store × Job) := do
  let (jobId, job) ← store.resolveJob selector false
  Checked.require (job.state = .paused) (.error (js "cron job is not paused"))
  let nextRunAt ← resumeTime env job now
  store.resumeJob jobId nextRunAt now expectedJob

def remove (store : Store) (selector : JsString) (now : ℤ) : CronResult (Store × Job) := do
  let (jobId, _) ← store.resolveJob selector false
  store.removeJob jobId now

/-- Claim a manual run; its id takes the next random draw. -/
def runNow (store : Store) (selector : JsString) (now : ℤ) (draw : ℕ) : CronResult (Store × RunId × Run) := do
  Checked.require (store.countActiveRuns < env.maxParallel) (.error (js "cron parallel-run limit is reached"))
  let (jobId, _) ← store.resolveJob selector false
  let runId := RunId.manual jobId now draw
  let (store, run) ← store.claimManualRun env.text jobId runId now now
  pure (store, runId, run)

end Requests

/-! ## Ticks -/

/-- What leaves the tables in a step: a run handed to the dispatcher, or a check result handed to its job. -/
inductive Emission where
  | launched (runId : RunId) (run : Run)
  | handed (jobId : JsString) (pending : PendingCheck) (stored : Bool)
deriving DecidableEq, Repr

/-- A tick under way: what it has done, its free run slots, and the error that ended it. -/
structure Tick where
  state : Scheduler
  capacity : ℕ
  claimed : ℕ
  skipped : ℕ
  emitted : List Emission
  thrown : Option CronError

namespace Tick

variable (env : Env) (now : ℤ)

def claim (t : Tick) (store : Store) (runId : RunId) (run : Run) : Tick :=
  { t with
    state := { t.state with store }, capacity := t.capacity - 1, claimed := t.claimed + 1
    emitted := t.emitted ++ [.launched runId run] }

/-- Hand the pending results to runs while there are free slots. -/
def pendingLoop : List (JsString × Job) → Tick → Tick
  | [], t => t
  | (jobId, job) :: rest, t =>
    if t.capacity = 0 then t
    else
      match job.pendingCheck with
      | none => { t with thrown := some (.typeError (js "Cannot read properties of null (reading 'at')")) }
      | some pending =>
        let runId := RunId.scheduled jobId pending.scheduledAt
        match t.state.store.claimCheckedRun jobId runId now with
        | .error thrown => { t with thrown := some thrown }
        | .ok (store, none) => pendingLoop rest { t with state := { t.state with store } }
        | .ok (store, some (run, _)) => pendingLoop rest (t.claim store runId run)

/-- Start the check of a due job, unless it has one in flight or a result pending. -/
def startCheck (s : Scheduler) (jobId : JsString) (job : Job) (command : Check) (scheduledAt : ℤ) : CronResult Scheduler :=
  if (s.checks.any fun check => check.jobId = jobId) ∨ job.pendingCheck.isSome ∨ maxConcurrentChecks ≤ s.checks.length then
    pure s
  else do
    let nextRunAt ← nextCronRunAfter env.calendar job.schedule scheduledAt now
    let (store, deferred) := s.store.deferCheckedOccurrence jobId scheduledAt nextRunAt now
    if deferred = false ∨ store.hasActiveRun jobId then pure { s with store }
    else pure { s with store, checks := s.checks ++ [⟨jobId, scheduledAt, command, job.cwd, false⟩] }

/-- Claim a due occurrence of a job without a check. -/
def claimDue (s : Scheduler) (jobId : JsString) (job : Job) (scheduledAt : ℤ) : CronResult (Store × Store.ScheduledClaim) := do
  let nextRunAt ← nextCronRunAfter env.calendar job.schedule scheduledAt now
  s.store.claimScheduledRun env.text jobId (.scheduled jobId scheduledAt) scheduledAt nextRunAt now

def dueLoop : List (JsString × Job) → Tick → Tick
  | [], t => t
  | (jobId, job) :: rest, t =>
    let scheduledAt := job.nextRunAt.getD 0
    match job.check with
    | some command =>
      match startCheck env now t.state jobId job command scheduledAt with
      | .error thrown => { t with thrown := some thrown }
      | .ok state => dueLoop rest { t with state }
    | none =>
      if t.capacity = 0 then t
      else
        match claimDue env now t.state jobId job scheduledAt with
        | .error thrown => { t with thrown := some thrown }
        | .ok (store, .notDue) => dueLoop rest { t with state := { t.state with store } }
        | .ok (store, .skipped) => dueLoop rest { t with state := { t.state with store }, skipped := t.skipped + 1 }
        | .ok (store, .claimed run _) => dueLoop rest (t.claim store (.scheduled jobId scheduledAt) run)

def start (s : Scheduler) : Tick := ⟨s, env.maxParallel - s.store.countActiveRuns, 0, 0, [], none⟩

/-- Pending results first, then due jobs; a tick that throws leaves what it has done and prunes nothing. -/
def run (s : Scheduler) : Tick :=
  if s.stopped then ⟨s, 0, 0, 0, [], none⟩
  else
    let pending := pendingLoop now (s.store.listPendingCheckJobs 64) (start env s)
    if pending.thrown.isSome then pending
    else
      let due := dueLoop env now (pending.state.store.listDueJobs now 64) pending
      if due.thrown.isSome then due
      else { due with state := { due.state with store := due.state.store.pruneRuns env.text 50 } }

end Tick

/-- A check command comes back: count the outcome, and hand over what should wake the agent. -/
def checkFinished (s : Scheduler) (check : RunningCheck) (result : CheckResult) (now : ℤ) : Scheduler × List Emission :=
  let checks := s.checks.map fun other => if other.jobId = check.jobId then { other with finished := true } else other
  let (store, pending) : Store × Option CheckText :=
    match result with
    | .ok output => (s.store.recordCheckSuccess check.jobId now, if output = [] then none else some ⟨.output, output⟩)
    | .failed error =>
      let (store, failures, alert) := s.store.recordCheckFailure check.jobId error cronCheckFailureAlertThreshold now
      (store, if alert then
        some ⟨.failure, js "The check command failed " ++ Json.decimal failures ++ js " times in a row. Last error: " ++ error⟩
        else none)
  match pending with
  | none => ({ s with store, checks }, [])
  | some text =>
    let pending : PendingCheck := ⟨text, check.scheduledAt⟩
    let (store, stored) := store.setPendingCheck check.jobId pending now
    ({ s with store, checks }, [.handed check.jobId pending stored])

/-! ## Steps and runs -/

inductive Op where
  | create (origin : Option Origin) (originSessionId : JsString) (params : Value) (jobId : Option JsString)
      (initiallyPaused : Bool) (draw : JsString)
  | update (selector : JsString) (patch : Value)
  | pause (selector : JsString)
  | resume (selector : JsString) (expectedJob : Option (JsString × Job))
  | remove (selector : JsString)
  | runNow (selector : JsString)
  | tick
  | checkFinished (jobId : JsString) (result : CheckResult)
  | checkSettled (jobId : JsString)
  | markRunRunning (runId : RunId) (dispatch : Store.Dispatch)
  | finishRun (runId : RunId) (status : RunStatus) (output error : Option JsString)
  | reportNotification (runId : RunId) (sessionId : JsString) (disposition : Disposition) (body : Option JsString)
  | notificationRecorded (runId : RunId)
  | start
  | stop
  | restart

/-- What a step throws and what it emits. -/
structure Effect where
  thrown : Option CronError
  emitted : List Emission

def Effect.quiet : Effect := ⟨none, []⟩

def request {α : Type} (s : Scheduler) : CronResult (Store × α) → Scheduler × Effect
  | .ok (store, _) => ({ s with store }, .quiet)
  | .error thrown => (s, ⟨some thrown, []⟩)

/-- One step at an instant of the clock. -/
def step (env : Env) (s : Scheduler) (now : ℤ) : Op → Scheduler × Effect
  | .create origin originSessionId params jobId initiallyPaused draw =>
    request s (create env s.store origin originSessionId params now jobId initiallyPaused draw)
  | .update selector patch => request s (update env s.store selector patch now)
  | .pause selector => request s (pause s.store selector now)
  | .resume selector expectedJob => request s (resume env s.store selector now expectedJob)
  | .remove selector => request s (remove s.store selector now)
  | .runNow selector =>
    match runNow env s.store selector now s.draws with
    | .ok (store, runId, run) => ({ s with store, draws := s.draws + 1 }, ⟨none, [.launched runId run]⟩)
    | .error thrown => (s, ⟨some thrown, []⟩)
  | .tick =>
    let tick := Tick.run env now s
    (tick.state, ⟨tick.thrown, tick.emitted⟩)
  | .checkFinished jobId result =>
    match s.checks.find? fun check => check.jobId = jobId ∧ check.finished = false with
    | some check =>
      let (next, emitted) := checkFinished s check result now
      (next, ⟨none, emitted⟩)
    | none => (s, .quiet)
  | .checkSettled jobId => ({ s with checks := s.checks.filter fun check => check.jobId ≠ jobId }, .quiet)
  | .markRunRunning runId dispatch => request s (s.store.markRunRunning runId dispatch now)
  | .finishRun runId status output error => request s (s.store.finishRun runId status output error now)
  | .reportNotification runId sessionId disposition body =>
    request s (s.store.reportNotification runId sessionId disposition body now)
  | .notificationRecorded runId => ({ s with store := s.store.notificationRecorded runId }, .quiet)
  | .start => if s.stopped then ({ s with store := s.store.reconcileInterruptedRuns now, stopped := false }, .quiet) else (s, .quiet)
  | .stop => ({ s with stopped := true }, .quiet)
  | .restart => ({ s with checks := [], stopped := true }, .quiet)

/-- The state after a sequence of timed steps, from an empty database. -/
def run (env : Env) (events : List (ℤ × Op)) : Scheduler :=
  events.foldl (fun s event => (step env s event.1 event.2).1) .initial

/-- A clock that never goes back. -/
def Chronological (events : List (ℤ × Op)) : Prop := (events.map Prod.fst).Pairwise (· ≤ ·)

instance (events : List (ℤ × Op)) : Decidable (Chronological events) :=
  inferInstanceAs (Decidable ((events.map Prod.fst).Pairwise (· ≤ ·)))

end PersistentHarness.Cron
