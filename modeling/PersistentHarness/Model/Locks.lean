import Mathlib.Logic.Function.Basic
import Mathlib.Data.Nat.Notation
import Mathlib.Tactic.Common

/-! # The lock of a restart job

A worker of a restart job creates the lock file and then writes its own record into it. One that finds a lock reads
its record, asks whether that process still runs, and removes a lock whose owner it cannot find alive. Each
file-system call is one step; steps of any number of workers interleave, and any of them may exit between two steps.
-/

namespace PersistentHarness.JobLock

/-- The file under the lock path: which of all files it is, who created it, and the owner once one is recorded in it. -/
structure LockFile where
  number : ℕ
  creator : ℕ
  owner : Option ℕ
deriving DecidableEq, Repr

/-- The next call of a worker in `acquireJobLock`. The numbers of files are not known to it. -/
inductive Pc where
  | idle
  /-- `open(lockPath, "wx")`. -/
  | opening (attempt : ℕ)
  /-- `handle.writeFile`, with the start time of the worker read before. -/
  | writing (file : ℕ)
  | holding (file : ℕ)
  /-- `readFile(lockPath)` of the lock that is in the way. -/
  | reading (attempt : ℕ)
  /-- The look at the process that the record names. -/
  | judging (attempt file owner : ℕ)
  /-- `rm(lockPath)` of the lock that was read, if any was. -/
  | removing (attempt : ℕ) (file : Option ℕ)
  /-- `rm(lockPath)` of the release. -/
  | releasing (file : ℕ)
  | failed
  | released
deriving DecidableEq, Repr

structure System where
  lock : Option LockFile
  pc : ℕ → Pc
  alive : ℕ → Bool
  /-- The number of the next file. -/
  next : ℕ

def System.initial : System := ⟨none, fun _ => .idle, fun _ => true, 0⟩

def System.goto (s : System) (i : ℕ) (pc : Pc) : System := { s with pc := Function.update s.pc i pc }

/-- The next call of worker `i`, which may fail with an error other than `EEXIST`. -/
def advance (s : System) (i : ℕ) (fails : Bool) : System :=
  match s.pc i with
  | .opening attempt =>
    if fails then s.goto i .failed
    else
      match s.lock with
      | none => { s with lock := some ⟨s.next, i, none⟩, next := s.next + 1 }.goto i (.writing s.next)
      | some _ => s.goto i (.reading attempt)
  | .writing file =>
    -- the handle stays that of the file, also when another one is under the path by now
    let write (lock : LockFile) : LockFile := if lock.number = file then { lock with owner := some i } else lock
    if fails then s.goto i .failed else { s with lock := s.lock.map write }.goto i (.holding file)
  | .reading attempt =>
    match s.lock with
    | none => s.goto i (.removing attempt none)
    | some lock =>
      match if fails then none else lock.owner with
      | none => s.goto i (.removing attempt (some lock.number))
      | some owner => s.goto i (.judging attempt lock.number owner)
  | .judging attempt file owner =>
    if s.alive owner then s.goto i .failed else s.goto i (.removing attempt (some file))
  | .removing attempt _ =>
    if fails then s.goto i .failed
    else { s with lock := none }.goto i (if attempt + 1 < 2 then .opening (attempt + 1) else .failed)
  | .releasing _ => { s with lock := if fails then s.lock else none }.goto i .released
  | .idle | .holding _ | .failed | .released => s

inductive Action where
  | start (i : ℕ)
  | advance (i : ℕ) (fails : Bool)
  /-- The worker calls what `acquireJobLock` returned. -/
  | release (i : ℕ)
  | exit (i : ℕ)
deriving DecidableEq, Repr

/-- One step; a worker that has exited takes none. -/
def step (s : System) : Action → System
  | .start i => if s.alive i ∧ s.pc i = .idle then s.goto i (.opening 0) else s
  | .advance i fails => if s.alive i then advance s i fails else s
  | .release i =>
    match s.pc i with
    | .holding file => if s.alive i then s.goto i (.releasing file) else s
    | _ => s
  | .exit i => { s with alive := Function.update s.alive i false }

def run (actions : List Action) : System := actions.foldl step .initial

end PersistentHarness.JobLock

/-! ## The instance lock of a supervisor

A supervisor claims its PID path by linking a file with its record under the lock path. One that finds a record
there asks whether its owner still runs, and removes the file of an owner that does not. Each file-system call
is one step; steps of any number of supervisors interleave, and any of them may exit between two steps.
-/

namespace PersistentHarness.InstanceLock

/-- What `lstat` tells of a file. -/
structure Stat where
  dev : ℕ
  ino : ℕ
  ctimeMs : ℕ
  birthtimeMs : ℕ
deriving DecidableEq, Repr

/-- The file under the lock path; its content names the supervisor that wrote it, by a token of its own. -/
structure LockFile where
  stat : Stat
  content : ℕ
deriving DecidableEq, Repr

/-- `fileIdentity(stat, content)`. -/
structure Identity where
  stat : Stat
  content : ℕ
deriving DecidableEq, Repr

/-- What `unlinkIfOwned` is part of. -/
inductive Caller where
  | retry (attempt : ℕ)
  | release
deriving DecidableEq, Repr

/-- The next call of a supervisor. -/
inductive Pc where
  | idle
  /-- `link(temporaryPath, lockPath)`. -/
  | linking (attempt : ℕ)
  /-- `unlink(temporaryPath)`. -/
  | linked
  /-- `lstat(lockPath)` of the new lock. -/
  | identifying
  | holding (identity : Identity)
  /-- `lstat(lockPath)` of the lock that is in the way. -/
  | inspecting (attempt : ℕ)
  /-- `readFile(lockPath)`. -/
  | reading (attempt : ℕ) (stat : Stat)
  /-- `instanceLockOwnerIsLive`. -/
  | judging (attempt : ℕ) (identity : Identity)
  /-- `lstat` of `unlinkIfOwned`. -/
  | comparing (caller : Caller) (identity : Identity)
  /-- `readFile` of `unlinkIfOwned`. -/
  | rereading (caller : Caller) (identity : Identity)
  /-- `unlink` of `unlinkIfOwned`. -/
  | removing (caller : Caller) (identity : Identity)
  | failed
  | released
deriving DecidableEq, Repr

/-- After `unlinkIfOwned` the loop makes its next attempt, of five. -/
def Caller.next : Caller → Pc
  | .retry attempt => if attempt + 1 < 5 then .linking (attempt + 1) else .failed
  | .release => .released

structure System where
  lock : Option LockFile
  pc : ℕ → Pc
  alive : ℕ → Bool

def System.initial : System := ⟨none, fun _ => .idle, fun _ => true⟩

def System.goto (s : System) (i : ℕ) (pc : Pc) : System := { s with pc := Function.update s.pc i pc }

/-- The next call of supervisor `i`; `stat` is what the file system gives to the file that the call touches. -/
def advance (s : System) (i : ℕ) (stat : Stat) : System :=
  match s.pc i with
  | .linking attempt =>
    match s.lock with
    | none => { s with lock := some ⟨stat, i⟩ }.goto i .linked
    | some _ => s.goto i (.inspecting attempt)
  | .linked =>
    -- dropping the second name of a file changes its ctime
    let changed (file : LockFile) : LockFile :=
      if file.content = i then { file with stat := { file.stat with ctimeMs := stat.ctimeMs } } else file
    { s with lock := s.lock.map changed }.goto i .identifying
  | .identifying =>
    match s.lock with
    | none => s.goto i .failed
    | some file => s.goto i (.holding ⟨file.stat, i⟩)
  | .inspecting attempt =>
    match s.lock with
    | none => s.goto i (Caller.retry attempt).next
    | some file => s.goto i (.reading attempt file.stat)
  | .reading attempt stat =>
    match s.lock with
    | none => s.goto i (Caller.retry attempt).next
    | some file => s.goto i (.judging attempt ⟨stat, file.content⟩)
  | .judging attempt identity =>
    if s.alive identity.content then s.goto i .failed else s.goto i (.comparing (.retry attempt) identity)
  | .comparing caller identity =>
    match s.lock with
    | none => s.goto i caller.next
    | some file => s.goto i (if file.stat = identity.stat then .rereading caller identity else caller.next)
  | .rereading caller identity =>
    match s.lock with
    | none => s.goto i caller.next
    | some file => s.goto i (if file.content = identity.content then .removing caller identity else caller.next)
  | .removing caller _ => { s with lock := none }.goto i caller.next
  | .idle | .holding _ | .failed | .released => s

inductive Action where
  | start (i : ℕ)
  | advance (i : ℕ) (stat : Stat)
  | stop (i : ℕ)
  | exit (i : ℕ)
deriving DecidableEq, Repr

/-- One step; a supervisor that has exited takes none. -/
def step (s : System) : Action → System
  | .start i => if s.alive i ∧ s.pc i = .idle then s.goto i (.linking 0) else s
  | .advance i stat => if s.alive i then advance s i stat else s
  | .stop i =>
    match s.pc i with
    | .holding identity => if s.alive i then s.goto i (.comparing .release identity) else s
    | _ => s
  | .exit i => { s with alive := Function.update s.alive i false }

def run (actions : List Action) : System := actions.foldl step .initial

end PersistentHarness.InstanceLock
