import PersistentHarness.Model.BackgroundNotifier

/-! # Proof that retired sessions have no background jobs

A sample keeps the jobs of the owners that retire and those whose owner is not known yet. Sessions are quiescent where
every job of theirs in the sample is seen not to run. What a call finds in the file system is given with it.
-/

namespace PersistentHarness.Retirement

open Json (unit isDigit)
open BackgroundNotifier (isJobId isSessionId safeInteger?)

section Metadata

structure JobIdentity where
  sessionId : JsString
  kind : Option JsString
  pid : Option ℤ
  starttime : Option JsString
deriving DecidableEq, Repr

/-- `/^[0-9]{1,20}$/`. -/
def isStartTime (text : JsString) : Bool := text ≠ [] && text.length ≤ 20 && text.all isDigit

/-- `#retirementJobMeta`, given the value of `meta.json` where the directory and the file can be read. -/
def retirementJobMeta (id : JsString) (metadata : Option Value) : Option JobIdentity :=
  (metadata.filter fun value => value.get (js "schema") = .text "background.job.v1" && value.get (js "id") = .str id
    && (value.get (js "session_id")).isString && isSessionId (value.get (js "session_id")).units).map fun value =>
    { sessionId := (value.get (js "session_id")).units
      kind := [js "launched", js "adopted"].find? fun kind => value.get (js "kind") = .str kind
      pid := (safeInteger? (value.get (js "pid"))).filter fun pid => 0 < pid ∧ pid ≤ 2 ^ 31 - 1
      starttime := match value.get (js "starttime") with
        | .str text => if isStartTime text then some text else none
        | _ => none }

/-- `completeRetirementIdentity`. -/
def JobIdentity.complete (identity : JobIdentity) : Bool :=
  identity.kind.isSome && identity.pid.isSome && identity.starttime.isSome

end Metadata

section Looks

/-- Which of all directories one is: `dev` and `ino`. -/
structure DirectoryId where
  dev : ℕ
  ino : ℕ
deriving DecidableEq, Repr

/-- The entries of a directory; their names are distinct. -/
structure Listing where
  names : List JsString
  unique : names.Nodup
  /-- Reading fails after these entries. -/
  fails : Bool

inductive Opened where
  /-- `ENOENT`. -/
  | missing
  | failed
  | directory (id : DirectoryId) (listing : Listing)

/-- A reading of `/proc/<pid>/stat`. -/
inductive ProcessReading where
  /-- `ENOENT` or `ESRCH`. -/
  | missing
  /-- Another error, or no bounded file. -/
  | failed
  | text (content : JsString)
deriving DecidableEq, Repr

/-- What one call finds: the jobs directory, the metadata and the process of each job, and the directory at its end. -/
structure Look where
  opened : Opened
  metadata : JsString → Option Value
  process : JsString → ProcessReading
  current : Option DirectoryId

/-- The fields behind the last `)`. -/
def statFields (content : JsString) : Option (List JsString) :=
  if unit ')' ∈ content then
    let tail := (content.reverse.takeWhile (· ≠ unit ')')).reverse
    some (((tail.drop 1).splitOnP isWhiteSpace).filter (· ≠ []))
  else none

/-- The process that an identity names is seen not to run. -/
def ProcessReading.stopped (reading : ProcessReading) (identity : JobIdentity) : Bool :=
  match reading with
  | .missing => true
  | .failed => false
  | .text content =>
    match statFields content with
    | none => false
    | some fields =>
      20 ≤ fields.length
        && !(fields[19]? = identity.starttime && (fields.head?.all fun state => state ∉ [js "Z", js "X", js "x"]))

end Looks

section Sample

structure Sample where
  owners : List JsString
  jobs : List (JsString × Option JobIdentity)
  complete : Bool
  directory : Option DirectoryId

/-- The monitor's sample, the jobs in the directory it was taken of, and every reading of metadata since. -/
structure Monitor where
  sample : Option Sample
  present : List JsString
  readings : List (JsString × Option JobIdentity)

def Monitor.initial : Monitor := ⟨none, [], []⟩

def Monitor.resetRetirementProof (_ : Monitor) : Monitor := .initial

def Look.meta_ (look : Look) (id : JsString) : Option JobIdentity := retirementJobMeta id (look.metadata id)

/-- A job that a sample keeps: its owner retires or is unknown. -/
def sampled (owners : List JsString) (identity : Option JobIdentity) : Bool :=
  identity.all fun identity => identity.sessionId ∈ owners

def MAX_ENTRIES : ℕ := 10000

def takeSample (owners : List JsString) (look : Look) : Monitor :=
  if owners = [] then ⟨some ⟨owners, [], true, none⟩, [], []⟩
  else
    match look.opened with
    | .missing => ⟨some ⟨owners, [], true, none⟩, [], []⟩
    | .failed => ⟨some ⟨owners, [], false, none⟩, [], []⟩
    | .directory id listing =>
      let readings := ((listing.names.take MAX_ENTRIES).filter isJobId).map fun name => (name, look.meta_ name)
      let complete := listing.names.length ≤ MAX_ENTRIES && !listing.fails && look.current = some id
      ⟨some ⟨owners, readings.filter fun reading => sampled owners reading.2, complete, some id⟩, listing.names.filter isJobId, readings⟩

def Monitor.prepareRetirementProof (s : Monitor) (sessionIds : List JsString) (look : Look) : Monitor :=
  match s.sample with
  | some previous =>
    if sessionIds.all (· ∈ previous.owners) then
      { s with sample := some { previous with
          owners := sessionIds, jobs := previous.jobs.filter fun job => sampled sessionIds job.2 } }
    else takeSample sessionIds look
  | none => takeSample sessionIds look

end Sample

section Quiescence

/-- What becomes of a sampled job in a call. -/
inductive Finding where
  | blocked (entry : Option JobIdentity)
  | dropped
  | kept (entry : Option JobIdentity)

/-- The call reads a job's metadata anew. -/
def rereads (owners : List JsString) (previous : Option JobIdentity) : Bool :=
  sampled owners previous && !previous.any JobIdentity.complete

def judgedBy (look : Look) (owners : List JsString) (id : JsString) (previous : Option JobIdentity) : Option JobIdentity :=
  if rereads owners previous then look.meta_ id else previous

def readingsOf (look : Look) (owners : List JsString) (id : JsString) (previous : Option JobIdentity) :
    List (JsString × Option JobIdentity) :=
  if rereads owners previous then [(id, look.meta_ id)] else []

def examine (look : Look) (sampleOwners owners : List JsString) (id : JsString) (previous : Option JobIdentity) : Finding :=
  if sampled owners previous then
    match judgedBy look owners id previous with
    | none => .blocked previous
    | some identity =>
      if previous.any (fun previous => identity.sessionId ≠ previous.sessionId) then .blocked previous
      else if identity.sessionId ∉ sampleOwners then .dropped
      else if identity.sessionId ∉ owners then .kept (some identity)
      else if identity.complete && (look.process id).stopped identity then .kept (some identity)
      else .blocked (some identity)
  else .kept previous

structure Check where
  ok : Bool
  jobs : List (JsString × Option JobIdentity)
  readings : List (JsString × Option JobIdentity)

def checkJobs (look : Look) (sampleOwners owners : List JsString) : List (JsString × Option JobIdentity) → Check
  | [] => ⟨true, [], []⟩
  | (id, previous) :: rest =>
    let read := readingsOf look owners id previous
    match examine look sampleOwners owners id previous with
    | .blocked entry => ⟨false, (id, entry) :: rest, read⟩
    | .dropped =>
      let later := checkJobs look sampleOwners owners rest
      ⟨later.ok, later.jobs, read ++ later.readings⟩
    | .kept entry =>
      let later := checkJobs look sampleOwners owners rest
      ⟨later.ok, (id, entry) :: later.jobs, read ++ later.readings⟩

def Monitor.areSessionsQuiescent (s : Monitor) (sessionIds : List JsString) (look : Look) : Bool × Monitor :=
  match s.sample with
  | none => (false, s)
  | some sample =>
    if sample.complete = false ∨ sessionIds.any (· ∉ sample.owners) = true then (false, s)
    else
      match sample.directory with
      | none => (true, s)
      | some directory =>
        match look.opened with
        | .directory id _ =>
          if id = directory then
            let check := checkJobs look sample.owners sessionIds sample.jobs
            (check.ok && look.current = some id,
              { s with sample := some { sample with jobs := check.jobs }, readings := s.readings ++ check.readings })
          else (false, s)
        | _ => (false, s)

inductive Call where
  | reset
  | prepare (sessionIds : List JsString) (look : Look)
  | quiescent (sessionIds : List JsString) (look : Look)

def step (s : Monitor) : Call → Monitor
  | .reset => s.resetRetirementProof
  | .prepare sessionIds look => s.prepareRetirementProof sessionIds look
  | .quiescent sessionIds look => (s.areSessionsQuiescent sessionIds look).2

def run (calls : List Call) : Monitor := calls.foldl step .initial

end Quiescence

end PersistentHarness.Retirement
