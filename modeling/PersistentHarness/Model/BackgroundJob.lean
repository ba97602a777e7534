import Mathlib.Logic.Function.Basic
import PersistentHarness.Data.JsString

/-! # The end of a background job

`exit.json` tells how a job has ended. A job's own process writes it: the supervisor of a launched job, or the watcher of
an adopted one, which take no lock. Operations on the store hold its lock from their start to their end; a stop writes
the record too. Each file-system call is one step.
-/

namespace PersistentHarness.BackgroundJob

/-- What `exit.json` holds. -/
structure ExitRecord where
  exitCode : Option ℤ
  signal : Option JsString
  endedAt : JsString
deriving DecidableEq, Repr

inductive Kind where
  | launched
  | adopted
deriving DecidableEq, Repr

/-- Where the supervisor or the watcher of a job is. -/
inductive Writer where
  /-- It has not been started, or it has exited. -/
  | absent
  | waiting
  /-- `_write_exit` has written its temporary file. -/
  | written (record : ExitRecord)
  /-- `os.link` has returned, or said that the file exists. -/
  | linked
deriving DecidableEq, Repr

structure Job where
  kind : Kind
  /-- `meta.json` names a process. -/
  identified : Bool
  /-- The adopted process runs. -/
  process : Bool
  writer : Writer
  exit : Option ExitRecord
deriving DecidableEq, Repr

/-- A job id is random, so that of a removed directory is not drawn again. -/
inductive Place where
  | free
  | job (job : Job)
  | removed
deriving DecidableEq, Repr

/-- What the holder of the store lock is about. -/
inductive Operation where
  /-- A launch or an adoption whose directory exists; a launch goes on when the supervisor is started. -/
  | starting (id : JsString) (spawned : Bool)
  /-- `_stop_process` of a stop, or of a forced remove. -/
  | stopping (id : JsString) (removes : Bool)
  /-- `_stop_process` has returned. -/
  | stopped (id signal : JsString)
  /-- `_read_exit` has found no record. -/
  | replacing (id signal : JsString)
  /-- `shutil.rmtree`, which may have unlinked a record. -/
  | deleting (id : JsString) (unlinked : Bool)
deriving DecidableEq, Repr

structure System where
  place : JsString → Place
  holder : Option Operation

def System.initial : System := ⟨fun _ => .free, none⟩

def System.put (s : System) (id : JsString) (place : Place) : System := { s with place := Function.update s.place id place }

def System.modify (s : System) (id : JsString) (f : Job → Job) : System :=
  match s.place id with
  | .job job => s.put id (.job (f job))
  | _ => s

section Observations

/-- `_identity_matches`: the supervisor of a launched job is its recorded process. -/
def Job.running (job : Job) : Bool :=
  job.identified && match job.kind with
    | .launched => job.writer ≠ .absent
    | .adopted => job.process

inductive JobState where
  | running
  | exited
  | vanished
deriving DecidableEq, Repr

structure Observation where
  state : JobState
  exitCode : Option ℤ
  signal : Option JsString
  endedAt : Option JsString
deriving DecidableEq, Repr

def Observation.ofRecord (record : ExitRecord) : Observation := ⟨.exited, record.exitCode, record.signal, some record.endedAt⟩

/-- `_observe`, given whether any process has the recorded number. -/
def Job.observe (job : Job) (pidExists : Bool) : Observation :=
  match job.exit with
  | some record => .ofRecord record
  | none =>
    if job.running then ⟨.running, none, none, none⟩
    else ⟨if job.kind = .adopted ∧ pidExists = false then .exited else .vanished, none, none, none⟩

end Observations

inductive Event where
  | launch (id : JsString)
  | adopt (id : JsString)
  /-- The supervisor or the watcher is started. -/
  | spawn
  /-- A launch writes the identity of the supervisor. -/
  | identify
  /-- A launch or an adoption fails and deletes its directory. -/
  | startFails
  | stop (id : JsString)
  | remove (id : JsString) (force : Bool)
  /-- `_stop_process` finds the process gone, after this signal. -/
  | gone (signal : JsString)
  | readExit
  | replaceExit (endedAt : JsString)
  | unlinkExit
  | removeDirectory
  /-- The operation fails, or its process is killed. -/
  | abort
  | processEnds (id : JsString)
  | write (id : JsString) (record : ExitRecord)
  | link (id : JsString)
  /-- The writer has unlinked its temporary file, or its write has failed; a supervisor may write once more. -/
  | settle (id : JsString) (again : Bool)
  /-- The writer is killed. -/
  | kill (id : JsString)
deriving DecidableEq, Repr

section Steps

/-- An operation that the lock is free for. -/
def System.begin (s : System) (id : JsString) : Event → System
  | .launch _ =>
    if s.place id = .free then
      { s.put id (.job ⟨.launched, false, false, .absent, none⟩) with holder := some (.starting id false) }
    else s
  | .adopt _ =>
    if s.place id = .free then
      { s.put id (.job ⟨.adopted, true, true, .absent, none⟩) with holder := some (.starting id false) }
    else s
  | .stop _ =>
    match s.place id with
    | .job job => if job.exit = none ∧ job.running = true then { s with holder := some (.stopping id false) } else s
    | _ => s
  | .remove _ force =>
    match s.place id with
    | .job job =>
      if job.exit = none ∧ job.running = true then if force then { s with holder := some (.stopping id true) } else s
      else { s with holder := some (.deleting id false) }
    | _ => s
  | _ => s

/-- The next call of the operation that holds the lock. -/
def System.proceed (s : System) (operation : Operation) (event : Event) : System :=
  match operation, event with
  | .starting id false, .spawn =>
    match s.place id with
    | .job job =>
      { s.put id (.job { job with writer := .waiting }) with
        holder := if job.kind = .adopted then none else some (.starting id true) }
    | _ => s
  | .starting id true, .identify => { s.modify id fun job => { job with identified := true } with holder := none }
  | .starting id _, .startFails => { s with holder := some (.deleting id false) }
  | .stopping id removes, .gone signal =>
    match s.place id with
    | .job job =>
      if job.running then s
      else { s with holder := some (if removes then .deleting id false else .stopped id signal) }
    | _ => s
  | .stopped id signal, .readExit =>
    match s.place id with
    | .job job => { s with holder := if job.exit = none then some (.replacing id signal) else none }
    | _ => s
  | .replacing id signal, .replaceExit endedAt =>
    { s.modify id fun job => { job with exit := some ⟨none, some signal, endedAt⟩ } with holder := none }
  | .deleting id unlinked, .unlinkExit =>
    match s.place id with
    | .job job => { s.put id (.job { job with exit := none }) with holder := some (.deleting id (unlinked || job.exit.isSome)) }
    | _ => s
  | .deleting id _, .removeDirectory =>
    match s.place id with
    | .job job => if job.exit = none then { s.put id .removed with holder := none } else s
    | _ => s
  | _, .abort => { s with holder := none }
  | _, _ => s

def Writer.record? : Writer → Option ExitRecord
  | .written record => some record
  | _ => none

/-- A step of the job's own processes, which take no lock. -/
def Job.act (job : Job) : Event → Job
  | .processEnds _ => { job with process := false }
  | .write _ record =>
    -- a watcher waits for the adopted process and knows no exit code
    if job.writer = .waiting ∧ (job.kind = .adopted → job.process = false ∧ record.exitCode = none ∧ record.signal = none) then
      { job with writer := .written record }
    else job
  | .link _ =>
    match job.writer with
    | .written record => { job with writer := .linked, exit := some (job.exit.getD record) }
    | _ => job
  | .settle _ again =>
    if job.writer = .absent then job
    else { job with writer := if again = true ∧ job.kind = .launched then .waiting else .absent }
  | .kill _ => { job with writer := .absent }
  | _ => job

def step (s : System) (event : Event) : System :=
  match event with
  | .launch id | .adopt id | .stop id | .remove id _ => if s.holder = none then s.begin id event else s
  | .processEnds id | .write id _ | .link id | .settle id _ | .kill id => s.modify id fun job => job.act event
  | _ =>
    match s.holder with
    | some operation => s.proceed operation event
    | none => s

def run (events : List Event) : System := events.foldl step .initial

end Steps

section Condition

/-- A link that makes a record readable. -/
def System.Publishes (s : System) (id : JsString) : Prop :=
  ∃ job record, s.place id = .job job ∧ job.writer = .written record ∧ job.exit = none

/-- A watcher publishes no record between a stop's look for one and its replacement, no record is published anew while a
remove is deleting the one there was, and such a remove comes to its end. -/
def Calm (s : System) : Event → Prop
  | .link id => s.Publishes id → s.holder ≠ some (.deleting id true)
      ∧ ∀ job signal, s.place id = .job job → job.kind = .adopted → s.holder ≠ some (.replacing id signal)
  | .abort => ∀ id, s.holder ≠ some (.deleting id true)
  | _ => True

/-- Every step of a run meets the condition. -/
def CalmRun : System → List Event → Prop
  | _, [] => True
  | s, event :: rest => Calm s event ∧ CalmRun (step s event) rest

end Condition

end PersistentHarness.BackgroundJob
