import PersistentHarness.Data.Text

/-! # Post-restart jobs

A worker asks the running supervisor to shut down, waits for it to stop, starts a new one and submits one input to the
session that asked for the restart. Every state of the job is stored before the work of that state begins, so a worker
that died is run again from there. Supervisors exit and start beside it.
-/

namespace PersistentHarness.PostRestart

open Json (decimal unit)

section Jobs

inductive JobState where
  | scheduled
  | waitingForIdle
  | stopping
  | starting
  | nudging
  | complete
  | failed
deriving DecidableEq, Repr

structure Job where
  jobId : JsString
  state : JobState
  createdAt : JsString
  resumeSessionId : JsString
  socketPath : JsString
  databasePath : JsString
  pidPath : JsString
  timeoutMs : ℕ
  oldPid : Option ℕ := none
  oldStartTime : Option JsString := none
  newPid : Option ℕ := none
  inputId : Option JsString := none
  ensured : Option Value := none
  updatedAt : Option JsString := none
  error : Option JsString := none
deriving DecidableEq

def boundedString (value : JsString) (name : String) (maxBytes : ℕ) : Except JsString Unit :=
  if value = [] ∨ 0 ∈ value ∨ 10 ∈ value ∨ maxBytes < value.utf8Length then
    .error (js name ++ js " must be a non-empty bounded single-line string")
  else .ok ()

def optional (value : Option JsString) (name : String) (maxBytes : ℕ) : Except JsString Unit :=
  match value with
  | some value => boundedString value name maxBytes
  | none => .ok ()

def boundedTimeout (value : ℕ) : Except JsString Unit :=
  if value < 10000 ∨ 1800000 < value then .error (js "timeout must be an integer from 10000 through 1800000") else .ok ()

def validateJob (job : Job) : Except JsString Job := do
  boundedString job.jobId "job id" 128
  boundedString job.createdAt "createdAt" 128
  boundedString job.resumeSessionId "resume session id" 128
  boundedString job.socketPath "socket path" 4096
  boundedString job.databasePath "database path" 4096
  boundedString job.pidPath "pid path" 4096
  boundedTimeout job.timeoutMs
  optional job.oldStartTime "old process start time" 64
  optional job.inputId "input id" 256
  optional job.updatedAt "updatedAt" 128
  pure { job with error := job.error.map (·.take 2048) }

/-- The `clientRequestId` of the nudge. -/
def requestId (job : Job) : JsString := js "post-restart-" ++ job.jobId

end Jobs

section Worker

/-- A process: PIDs are used again, but not with the same start time. -/
structure Process where
  pid : ℕ
  startTime : JsString
deriving DecidableEq

/-- The next call of the worker. -/
inductive Pc where
  | loading
  /-- `writeJsonAtomic` of the job in memory. -/
  | storing
  | waitForIdle (stable : Bool)
  /-- `processStartTime(oldPid)`. -/
  | identifying (oldPid : ℕ)
  /-- `get_status` of the stopping state. -/
  | checking
  /-- `shutdown_daemon`, after the answer of a process. -/
  | stopping (answered : Process)
  /-- `get_status` of `waitForShutdown`. -/
  | pollingSocket (socketDown processGone : Bool)
  /-- `processStartTime(pid)` of `waitForShutdown`. -/
  | pollingProcess (socketDown : Bool)
  /-- `supervisorBin ensure`. -/
  | ensuring
  /-- `get_status` of the starting state. -/
  | verifying (ensured : Value)
  /-- `get_status` of the nudging state. -/
  | finding
  | submitting (newPid : ℕ)
deriving DecidableEq

/-- The call is a status request. -/
def Pc.asks : Pc → Bool
  | .waitForIdle _ | .checking | .pollingSocket _ _ | .verifying _ | .finding => true
  | _ => false

structure Worker where
  job : Job
  pc : Pc
deriving DecidableEq

/-- How a call of the worker ends. -/
inductive Outcome where
  /-- The job file is read, valid and canonical, or not. -/
  | loaded (succeeds : Bool)
  | stored
  /-- A supervisor answers `get_status`, with its active work. -/
  | status (activeCount : ℤ)
  /-- `/proc/<pid>/stat` is read, or the process is found missing. -/
  | read
  /-- A supervisor acts on the shutdown, and its answer arrives or not. -/
  | shutdown (answers : Bool)
  | ensured (value : Value)
  /-- A supervisor accepts the input, and its answer arrives or not. -/
  | submitted (inputId : JsString) (answers : Bool)
  | fails (message : JsString)
  | timesOut
deriving DecidableEq

inductive Observation where
  | stored (job : Job)
  /-- A supervisor answers the worker, with the processes that run at that time. -/
  | answered (process : Process) (running : List Process)
  | shutdown (process : Process)
  | submitted (sessionId requestId : JsString)
deriving DecidableEq

/-- The processes, those there ever were, the one that serves the socket, the job file, the worker, the inputs of the
session by their request ids, and what was seen, the latest first. -/
structure System where
  processes : List Process
  seen : List Process
  serving : Option Process
  stored : Job
  worker : Option Worker
  inputs : List (JsString × JsString)
  log : List Observation

/-- Before the worker of a new job runs. -/
def System.initial (job : Job) (processes : List Process) (serving : Option Process) : System :=
  ⟨processes, processes, serving, job, none, [], []⟩

def alreadyClaimed : JsString := js "already claimed"

/-- `update(state, details)`: the job in memory, which is stored next. -/
def update (job : Job) (state : JobState) (now : JsString) (details : Job → Job) : Except JsString Job :=
  validateJob (details { job with state, updatedAt := some now })

/-- The handler of an error. -/
def recover (job : Job) (now message : JsString) : Option Worker :=
  if job.state = .complete ∨ alreadyClaimed <:+: message then none
  else
    match update job .failed now fun job => { job with error := some message } with
    | .ok job => some ⟨job, .storing⟩
    | .error _ => none

def proceed (job : Job) (state : JobState) (now : JsString) (details : Job → Job) : Option Worker :=
  match update job state now details with
  | .ok job => some ⟨job, .storing⟩
  | .error message => recover job now message

def enter (job : Job) (now : JsString) : Option Worker :=
  match job.state with
  | .scheduled => proceed job .waitingForIdle now id
  | .waitingForIdle => some ⟨job, .waitForIdle false⟩
  | .stopping => some ⟨job, .checking⟩
  | .starting => some ⟨job, .ensuring⟩
  | .nudging => some ⟨job, .finding⟩
  | .complete => none
  | .failed => recover job now (js "restart job previously failed: " ++ job.error.getD (js "unknown error"))

/-- The process that runs under a PID. -/
def processOf (processes : List Process) (pid : ℕ) : Option Process := processes.find? (·.pid = pid)

/-- A round of `waitForShutdown` is over. -/
def afterPoll (job : Job) (now : JsString) (socketDown processGone : Bool) : Option Worker :=
  if socketDown && processGone then proceed job .starting now id else some ⟨job, .pollingSocket socketDown processGone⟩

/-- The old process no longer runs under its PID. -/
def isGone (processes : List Process) (job : Job) : Bool :=
  match job.oldPid, job.oldStartTime with
  | some pid, some startTime =>
    match processOf processes pid with
    | some process => process.startTime ≠ startTime
    | none => true
  | none, _ => true
  | some _, none => false

/-- `waitForShutdown(socketPath, oldPid, oldStartTime)`. -/
def waitForShutdown (job : Job) : Worker := ⟨job, .pollingSocket false job.oldPid.isNone⟩

namespace System

def observe (s : System) (o : Observation) : System := { s with log := o :: s.log }

def workerIs (s : System) (worker : Option Worker) : System := { s with worker }

/-- `submit_input`, which is idempotent in the request id. -/
def submit (s : System) (sessionId requestId : JsString) : System :=
  { s with inputs := if (sessionId, requestId) ∈ s.inputs then s.inputs else s.inputs ++ [(sessionId, requestId)] }.observe
    (.submitted sessionId requestId)

/-- A supervisor answers the status request of a worker. -/
def answer (s : System) (job : Job) (now : JsString) (process : Process) (activeCount : ℤ) : Pc → System
  | .waitForIdle stable =>
    if activeCount = 0 ∧ stable then
      if process.pid = 0 then s.workerIs (recover job now (js "running supervisor did not report a valid PID"))
      else s.workerIs (some ⟨job, .identifying process.pid⟩)
    else s.workerIs (some ⟨job, .waitForIdle (activeCount = 0)⟩)
  | .checking =>
    if some process.pid = job.oldPid then s.workerIs (some ⟨job, .stopping process⟩)
    else if process.pid ≠ 0 then s.workerIs (proceed job .nudging now fun job => { job with newPid := some process.pid })
    else s.workerIs (some (waitForShutdown job))
  | .pollingSocket socketDown processGone =>
    if processGone then s.workerIs (afterPoll job now socketDown true) else s.workerIs (some ⟨job, .pollingProcess socketDown⟩)
  | .verifying ensured =>
    if process.pid = 0 ∨ some process.pid = job.oldPid then
      s.workerIs (recover job now (js "supervisor did not restart with a new PID"))
    else s.workerIs (proceed job .nudging now fun job => { job with newPid := some process.pid, ensured := some ensured })
  | .finding =>
    if process.pid = 0 ∨ some process.pid = job.oldPid then
      s.workerIs (recover job now (js "replacement supervisor is unavailable"))
    else s.workerIs (some ⟨job, .submitting process.pid⟩)
  | _ => s

def failed (s : System) (job : Job) (now message : JsString) : Pc → System
  | .loading => s.workerIs none
  | .checking => s.workerIs (some (waitForShutdown job))
  | .pollingSocket _ processGone =>
    if processGone then s.workerIs (afterPoll job now true true) else s.workerIs (some ⟨job, .pollingProcess true⟩)
  -- a failure that cannot be stored is dropped
  | .storing => s.workerIs (if job.state = JobState.failed then none else recover job now message)
  | _ => s.workerIs (recover job now message)

/-- A call of the worker ends. -/
def turn (s : System) (worker : Worker) (now : JsString) (outcome : Outcome) : System :=
  let job := worker.job
  match outcome with
  | .loaded succeeds =>
    if worker.pc = .loading then s.workerIs (if succeeds then enter s.stored now else none) else s
  | .stored =>
    if worker.pc = .storing then
      ({ s with stored := job }.observe (.stored job)).workerIs (if job.state = JobState.failed then none else enter job now)
    else s
  | .status activeCount =>
    match s.serving with
    | some process =>
      if worker.pc.asks then (s.observe (.answered process s.processes)).answer job now process activeCount worker.pc else s
    | none => s
  | .read =>
    match worker.pc with
    | .identifying oldPid =>
      match processOf s.processes oldPid with
      | some process =>
        s.workerIs (proceed job .stopping now fun job =>
          { job with oldPid := some oldPid, oldStartTime := some process.startTime })
      | none => s.workerIs (recover job now (js "ENOENT"))
    | .pollingProcess socketDown => s.workerIs (afterPoll job now socketDown (isGone s.processes job))
    | _ => s
  | .shutdown answers =>
    match worker.pc, s.serving with
    | .stopping _, some process =>
      (s.observe (.shutdown process)).workerIs
        (if answers then some (waitForShutdown job) else recover job now (js "connection closed before a response"))
    | _, _ => s
  | .ensured value => if worker.pc = .ensuring then s.workerIs (some ⟨job, .verifying value⟩) else s
  | .submitted inputId answers =>
    match worker.pc with
    | .submitting newPid =>
      (s.submit job.resumeSessionId (requestId job)).workerIs
        (if answers then
          proceed job .complete now fun job => { job with newPid := some newPid, inputId := some inputId }
        else recover job now (js "connection closed before a response"))
    | _ => s
  | .fails message => s.failed job now message worker.pc
  | .timesOut =>
    match worker.pc with
    | .waitForIdle _ => s.workerIs (recover job now (js "timed out waiting for all harness actors to settle"))
    | .pollingSocket _ _ =>
      s.workerIs (recover job now (js "old supervisor " ++ decimal (job.oldPid.getD 0) ++ js " did not fully stop"))
    | _ => s

end System

/-- What happens next: a process starts, exits, or serves the socket, or the worker is run, dies, or goes on. -/
inductive Event where
  | starts (process : Process)
  | exits (process : Process)
  | serves (process : Process)
  | closes
  | run
  | crash
  | turn (now : JsString) (outcome : Outcome)
deriving DecidableEq

namespace System

def step (s : System) : Event → System
  | .starts process =>
    if process ∈ s.seen ∨ (processOf s.processes process.pid).isSome then s
    else { s with processes := s.processes ++ [process], seen := process :: s.seen }
  | .exits process =>
    { s with
      processes := s.processes.filter (· ≠ process)
      serving := s.serving.filter (· ≠ process) }
  | .serves process => if process ∈ s.processes ∧ s.serving = none then { s with serving := some process } else s
  | .closes => { s with serving := none }
  | .run => if s.worker = none then s.workerIs (some ⟨s.stored, .loading⟩) else s
  | .crash => s.workerIs none
  | .turn now outcome =>
    match s.worker with
    | some worker => s.turn worker now outcome
    | none => s

def run (s : System) (events : List Event) : System := events.foldl step s

end System

end Worker

end PersistentHarness.PostRestart
