import PersistentHarness.Model.Compaction.Preparation

/-! # The compaction driver

The driver prepares a compaction, asks the extensions for one or has the stock service summarise, and appends the result. At
every await the session and the summary streams may change; a reply takes the driver from one await to the next.
-/

namespace PersistentHarness.Compaction

section Sessions

/-- What a compaction entry holds. -/
structure Result where
  summary : JsString
  firstKeptEntryId : JsString
  tokensBefore : ℕ
  details : Value
  usage : Value
deriving DecidableEq

/-- An entry of the session. Deep equality forgets the order of properties; a stored value is in canonical form. -/
inductive Record where
  | stored (value : Value)
  | compaction (id : JsString) (parentId : Option JsString) (result : Result) (fromExtension : Bool)
deriving DecidableEq

/-- The session manager, with what the driver reads of the session. -/
structure Session where
  sessionId : JsString
  leafId : Option JsString
  entries : List Record
  revision : ℕ
  generation : ℕ
  isIdle : Bool
  hasModel : Bool
deriving DecidableEq

/-- `snapshot.isCurrent()`: a managed session is compared by its stamps, any other one by its entries. -/
def isCurrent (managed : Bool) (snapshot now : Session) : Bool :=
  now.sessionId = snapshot.sessionId && now.leafId = snapshot.leafId &&
    if managed then
      now.revision = snapshot.revision && now.generation = snapshot.generation && now.entries.length = snapshot.entries.length
    else now.entries = snapshot.entries

/-- `manager.appendCompaction(...)`, which gives the manager new stamps. -/
def Session.append (session : Session) (id : JsString) (result : Result) (fromExtension : Bool) (revision generation : ℕ) :
    Session :=
  { session with
    leafId := some id
    entries := session.entries ++ [.compaction id session.leafId result fromExtension]
    revision, generation }

end Sessions

section Failures

/-- What the driver reads of an error. -/
structure Failure where
  code : Option JsString
  message : JsString
deriving DecidableEq

/-- `new ActorCompactionError(code)`. -/
def actorCompactionError (code : String) : Failure := ⟨some (js code), js code⟩

def Code.failure : Code → Failure
  | .staleSnapshot => actorCompactionError "ERR_COMPACTION_STALE_SNAPSHOT"
  | .pendingAlreadyPruned => actorCompactionError "ERR_COMPACTION_PENDING_ALREADY_PRUNED"
  | .keptAnchor => actorCompactionError "ERR_COMPACTION_KEPT_ANCHOR"

def abortedFailure : Failure := ⟨some (js "ERR_COMPACTION_ABORTED"), js "Compaction aborted"⟩

def cancelledFailure : Failure := ⟨some (js "ERR_COMPACTION_CANCELLED"), js "Compaction cancelled"⟩

def providerAborted : Failure := ⟨some (js "ERR_COMPACTION_ABORTED"), js "Compaction provider aborted"⟩

def summaryLength : Failure := ⟨some (js "ERR_COMPACTION_SUMMARY_LENGTH"), js "Compaction summary exceeded the output limit"⟩

def streamFailed : Failure := ⟨some (js "ERR_COMPACTION_STREAM_FAILED"), js "Compaction stream failed"⟩

def check (condition : Prop) [Decidable condition] (code : String) : Except Failure Unit :=
  if condition then .ok () else .error (actorCompactionError code)

end Failures

section Streams

/-- How `response.result()` settles. -/
inductive Ending where
  | message (stopReason : JsString)
  | error (failure : Failure)
deriving DecidableEq

/-- A request for a summary stream: its dispatch waits for the one before it, and fails or starts the stream. -/
inductive Phase where
  | queued
  | refused
  | running
  | ended (ending : Ending)
deriving DecidableEq

structure Stream where
  phase : Phase
  /-- The next request may be dispatched. -/
  released : Bool
deriving DecidableEq

def Phase.isEnded : Phase → Bool
  | .ended _ => true
  | _ => false

/-- The stream is one of `completions`. -/
def Phase.isStarted : Phase → Bool
  | .queued | .refused => false
  | .running | .ended _ => true

/-- What an ending makes of `streamFailure`. -/
def Ending.failure? : Ending → Option Failure
  | .message stopReason =>
    if stopReason = js "aborted" then some providerAborted
    else if stopReason = js "length" then some summaryLength
    else none
  | .error _ => some streamFailed

/-- The stock compaction: not asked for, at work, or resolved. One that rejected may go on in the background. -/
inductive Stock where
  | unasked
  | pending
  | resolved
deriving DecidableEq

end Streams

section Driver

inductive Reason where
  | manual
  | threshold
  | overflow
deriving DecidableEq

/-- The arguments of a call. -/
structure Options where
  reason : Reason
  willRetry : Bool
  customInstructions : Option JsString
deriving DecidableEq

/-- What the driver is created with: the SDK, the kind of session manager, and the calls and context of a branch. -/
structure Driver where
  sdk : Sdk
  managed : Bool
  outstandingOf : List Record → Option JsString → List Outstanding
  activeEntryIds : List Record → Option JsString → List JsString

/-- The prepared compaction. -/
structure Plan where
  outstanding : List Outstanding
  preparation : Preparation
deriving DecidableEq

inductive Outcome where
  | returned (result : Result)
  /-- `ERR_COMPACTION_COMMITTED`, marked committed. -/
  | committed (cause : Failure) (result : Option Result)
  | thrown (failure : Failure)
deriving DecidableEq

/-- The await that the driver is at. -/
inductive Stage where
  /-- `publish({ type: "compaction_start" })`. -/
  | announcing
  /-- `prepareActorCompaction`. -/
  | preparing (outstanding : List Outstanding)
  /-- `lifecycle.prepareCompaction`. -/
  | diagnosing (plan : Plan)
  /-- `runner.emit({ type: "session_before_compact" })`. -/
  | asking (plan : Plan)
  /-- `sdk.compact`. -/
  | compacting (plan : Plan)
  /-- `Promise.all(completions)`. -/
  | collecting (plan : Plan) (awaited : List ℕ) (result : Except Failure Value)
  /-- `publish({ type: "entry_appended" })`. -/
  | recording
  /-- `runner.emit({ type: "session_compact" })`. -/
  | emitting
  /-- `lifecycle.afterCommit`. -/
  | concluding
  /-- `publish({ type: "compaction_end" })` with the result. -/
  | publishing
  /-- `Promise.all(dispatches)` of the handler. -/
  | drainingDispatches (awaited : ℕ) (error : Failure) (aborted : Bool)
  /-- `Promise.all(completions)` of the handler. -/
  | drainingCompletions (awaited : List ℕ) (error : Failure) (aborted : Bool)
  | publishingCommitted (error : Failure)
  | publishingFailure (error : Failure) (aborted : Bool)
  | emittingFailure (error : Failure)
  | ended (outcome : Outcome)

/-- What the driver does to others, and others to the session. -/
inductive Note where
  | changed (session : Session)
  | appended (id : JsString) (result : Result) (fromExtension : Bool) (revision generation : ℕ)
  | compactionStart
  | entryAppended (id : Option JsString)
  | compactionEnd (result : Option Result) (aborted : Bool) (errorMessage : Option JsString)
  | sessionCompact (fromExtension : Bool)
  | sessionCompactFailed (aborted fromExtension : Bool) (errorMessage : Option JsString)
  /-- A request to the provider, with the instructions as its last message. -/
  | streamed (instructions : Option JsString)
deriving DecidableEq

/-- The variables of a call, with the session and what was noted, the latest first. -/
structure State where
  session : Session
  snapshot : Session
  callerAborted : Bool
  localAborted : Bool
  streams : List Stream
  streamFailure : Option Failure
  stock : Stock
  instructions : Option JsString
  fromExtension : Bool
  committed : Bool
  finalResult : Option Result
  terminalAttempted : Bool
  stage : Stage
  log : List Note

/-- How an await of the driver settles. -/
inductive Reply where
  | done
  | prepared (stock : Option Preparation) (projected : List Entry)
  /-- The instructions of the hook, where it gives any. -/
  | diagnosed (customInstructions : Option Value)
  /-- The answer of the extensions, with the detached copy of a compaction, or the error of copying it. -/
  | answered (cancel : Bool) (compaction : Option (Except Failure Value))
  /-- The result of the stock compaction, copied likewise. -/
  | compacted (result : Except Failure Value)
  | throws (failure : Failure)

/-- How the calls between two awaits end: the id of an appended entry with the stamps after it, or an error, and an error of
the refresh after the append. -/
structure Writes where
  append : Except Failure JsString
  revision : ℕ
  generation : ℕ
  refresh : Option Failure

inductive Event where
  | reply (reply : Reply) (writes : Writes)
  /-- Foreign code changes the session. -/
  | change (session : Session)
  | abort
  /-- The stock compaction asks for a stream. -/
  | request
  /-- The turn of a request comes, and `streamSimple` starts its stream or throws. -/
  | dispatch (index : ℕ) (thrown : Option Failure)
  | finish (index : ℕ) (ending : Ending)
  | release (index : ℕ)

namespace State

def note (s : State) (item : Note) : State := { s with log := item :: s.log }

def at_ (s : State) (stage : Stage) : State := { s with stage }

/-- `signal.aborted`. -/
def aborted (s : State) : Bool := s.callerAborted || s.localAborted

/-- `streamFailure ??= failure` and `localController.abort()`. -/
def failStreams (s : State) (failure : Failure) : State :=
  { s with streamFailure := s.streamFailure.or (some failure), localAborted := true }

/-- `completions`, by the positions of their requests. -/
def completions (s : State) : List ℕ :=
  (List.range s.streams.length).filter fun i => s.streams[i]?.any (·.phase.isStarted)

def hasEnded (s : State) (i : ℕ) : Bool := s.streams[i]?.any (·.phase.isEnded)

end State

def sameSnapshot (d : Driver) (s : State) : Except Failure Unit :=
  if s.aborted then .error abortedFailure
  else check (s.session.isIdle ∧ isCurrent d.managed s.snapshot s.session) "ERR_COMPACTION_STALE_SNAPSHOT"

/-- `customInstructions.length <= 4 * 1024 * 1024`. -/
def boundedInstructions (text : JsString) : Bool := text.length ≤ 4 * 1024 * 1024

/-- `validateResult(result, prepared, sdk)`, with the token count of the preparation. -/
def validateResult (result : Value) (plan : Plan) (active : List JsString) : Except Failure Result := do
  check (result.truthy ∧ (result.get (js "summary")).isString
    ∧ JsString.trim (result.get (js "summary")).units ≠ []
    ∧ (result.get (js "summary")).units.length ≤ 16 * 1024 * 1024) "ERR_COMPACTION_RESULT"
  check ((result.get (js "tokensBefore")).isNonnegative) "ERR_COMPACTION_RESULT"
  let anchor := (result.get (js "firstKeptEntryId")).units
  check ((result.get (js "firstKeptEntryId")).isString ∧ anchor ∈ active) "ERR_COMPACTION_RESULT_ANCHOR"
  let keptIds := active.drop (active.idxOf anchor)
  check (∀ call ∈ plan.outstanding, call.messageEntryId ∈ keptIds) "ERR_COMPACTION_RESULT_PRUNES_PENDING"
  pure {
    summary := (result.get (js "summary")).units
    firstKeptEntryId := anchor
    tokensBefore := plan.preparation.tokensBefore
    details := result.get (js "details")
    usage := result.get (js "usage") }

namespace State

/-- The beginning of the handler. -/
def caught (s : State) (failure : Failure) : State :=
  let error := s.streamFailure.getD failure
  let aborted := s.callerAborted || error.code = cancelledFailure.code || error.code = abortedFailure.code
  { s with localAborted := true }.at_ (.drainingDispatches s.streams.length error aborted)

/-- The state after a computation that may throw. -/
def attempt {α : Type} (s : State) (x : Except Failure α) (next : α → State) : State :=
  match x with
  | .ok a => next a
  | .error failure => s.caught failure

/-- From `compaction_start` to the preparation. -/
def prepare (d : Driver) (s : State) : State :=
  s.attempt (do sameSnapshot d s; check s.session.hasModel "ERR_COMPACTION_MODEL") fun _ =>
    let source := if d.managed then s.session else s.snapshot
    s.at_ (.preparing (d.outstandingOf source.entries source.leafId))

def planned (d : Driver) (o : Options) (s : State) (outstanding : List Outstanding) (stock : Option Preparation)
    (projected : List Entry) : Except Failure Plan := do
  let current := s.session.isIdle && isCurrent d.managed s.snapshot s.session
  let prepared ← (prepareActorCompaction d.sdk (o.reason = .manual) ⟨outstanding, stock, projected, current⟩).mapError
    Code.failure
  sameSnapshot d s
  check (prepared.outstanding = []) "ERR_COMPACTION_PENDING_CALLS"
  match prepared.preparation with
  | some preparation => pure ⟨prepared.outstanding, preparation⟩
  | none => .error (actorCompactionError "ERR_COMPACTION_NOTHING_TO_SUMMARIZE")

/-- The instructions after the lifecycle hook. -/
def diagnosed (d : Driver) (s : State) (customInstructions : Option Value) : Except Failure (Option JsString) := do
  let instructions ← match customInstructions with
    | none => pure s.instructions
    | some given =>
      check (given.isString ∧ boundedInstructions given.units) "ERR_COMPACTION_INSTRUCTIONS"
      pure (some given.units)
  sameSnapshot d s
  pure instructions

/-- From the last ownership check to the first publication, without an await. -/
def commit (d : Driver) (s : State) (plan : Plan) (result : Except Failure Value) (writes : Writes) : State :=
  s.attempt (do
    sameSnapshot d s
    let result ← result
    let finalResult ← validateResult result plan (d.activeEntryIds s.snapshot.entries s.snapshot.leafId)
    sameSnapshot d s
    let id ← writes.append
    pure (finalResult, id)) fun (finalResult, id) =>
      let s := { s with
        session := s.session.append id finalResult s.fromExtension writes.revision writes.generation
        committed := true
        finalResult := some finalResult }.note
          (.appended id finalResult s.fromExtension writes.revision writes.generation)
      match writes.refresh with
      | some failure => s.caught failure
      | none => (s.note (.entryAppended (some id))).at_ .recording

def answered (d : Driver) (s : State) (plan : Plan) (cancel : Bool) (compaction : Option (Except Failure Value))
    (writes : Writes) : State :=
  s.attempt (do sameSnapshot d s; if cancel then .error cancelledFailure else .ok ()) fun _ =>
    match compaction with
    | some result => { s with fromExtension := true }.commit d plan result writes
    | none => { s with stock := .pending }.at_ (.compacting plan)

def collected (d : Driver) (s : State) (plan : Plan) (awaited : List ℕ) (result : Except Failure Value) (writes : Writes) :
    State :=
  let endings := awaited.filterMap fun i => s.streams[i]?.bind fun stream =>
    match stream.phase with
    | .ended ending => some ending
    | _ => none
  let failed := endings.any fun
    | .error _ => true
    | .message _ => false
  if failed then s.caught (actorCompactionError "ERR_COMPACTION_STREAM_FAILED")
  else if endings.any (· = .message (js "aborted")) then s.caught providerAborted
  else s.commit d plan result writes

def publishEnd (s : State) (stage : Stage) : State :=
  { s with terminalAttempted := true }.note (.compactionEnd s.finalResult false none) |>.at_ stage

def throwCommitted (s : State) (error : Failure) : State := s.at_ (.ended (.committed error s.finalResult))

/-- The message of a failure, which an aborted compaction does not publish. -/
def errorMessage (error : Failure) (aborted : Bool) : Option JsString :=
  if aborted || error.message = [] then none else some error.message

/-- After the handler has drained the streams. -/
def drained (s : State) (error : Failure) (aborted : Bool) : State :=
  if s.committed then
    if s.terminalAttempted then s.throwCommitted error else s.publishEnd (.publishingCommitted error)
  else (s.note (.compactionEnd none aborted (errorMessage error aborted))).at_ (.publishingFailure error aborted)

/-- An awaited promise rejects. -/
def rejected (s : State) (failure : Failure) : State :=
  match s.stage with
  | .announcing | .publishingFailure _ _ | .emittingFailure _ => s.at_ (.ended (.thrown failure))
  | .publishingCommitted error => s.throwCommitted error
  | .collecting _ _ _ | .drainingDispatches _ _ _ | .drainingCompletions _ _ _ | .ended _ => s
  | _ => s.caught failure

/-- An awaited promise settles. -/
def resume (d : Driver) (o : Options) (s : State) (writes : Writes) : Reply → State
  | .throws failure => s.rejected failure
  | .prepared stock projected =>
    match s.stage with
    | .preparing outstanding => s.attempt (s.planned d o outstanding stock projected) fun plan => s.at_ (.diagnosing plan)
    | _ => s
  | .diagnosed customInstructions =>
    match s.stage with
    | .diagnosing plan =>
      s.attempt (s.diagnosed d customInstructions) fun instructions => { s with instructions }.at_ (.asking plan)
    | _ => s
  | .answered cancel compaction =>
    match s.stage with
    | .asking plan => s.answered d plan cancel compaction writes
    | _ => s
  | .compacted result =>
    match s.stage with
    | .compacting plan => { s with stock := .resolved }.at_ (.collecting plan s.completions result)
    | _ => s
  | .done =>
    match s.stage with
    | .announcing => s.prepare d
    | .collecting plan awaited result => if awaited.all s.hasEnded then s.collected d plan awaited result writes else s
    | .recording => (s.note (.sessionCompact s.fromExtension)).at_ .emitting
    | .emitting => s.at_ .concluding
    | .concluding => s.publishEnd .publishing
    | .publishing =>
      match s.finalResult with
      | some result => s.at_ (.ended (.returned result))
      | none => s
    | .drainingDispatches awaited error aborted =>
      if (s.streams.take awaited).all (·.phase ≠ .queued) then s.at_ (.drainingCompletions s.completions error aborted) else s
    | .drainingCompletions awaited error aborted => if awaited.all s.hasEnded then s.drained error aborted else s
    | .publishingCommitted error => s.throwCommitted error
    | .publishingFailure error aborted =>
      (s.note (.sessionCompactFailed aborted s.fromExtension (errorMessage error aborted))).at_ (.emittingFailure error)
    | .emittingFailure error => s.at_ (.ended (.thrown error))
    | _ => s

/-- The request before this one, if any, has released it. -/
def turnOfRequest (s : State) : ℕ → Bool
  | 0 => true
  | i + 1 => s.streams[i]?.any (·.released)

/-- The turn of a request comes. -/
def dispatch (s : State) (i : ℕ) (thrown : Option Failure) : State :=
  match if s.aborted then some abortedFailure else thrown with
  | some failure => { s.failStreams failure with streams := s.streams.set i ⟨.refused, true⟩ }
  | none => { s with streams := s.streams.set i ⟨.running, false⟩ }.note (.streamed (s.instructions.filter (· ≠ [])))

def finish (s : State) (i : ℕ) (ending : Ending) : State :=
  let s := { s with streams := s.streams.set i ⟨.ended ending, false⟩ }
  match ending.failure? with
  | some failure => s.failStreams failure
  | none => s

def step (d : Driver) (o : Options) (s : State) : Event → State
  | .reply reply writes => s.resume d o writes reply
  | .change session => { s with session }.note (.changed session)
  | .abort => { s with callerAborted := true }
  | .request => if s.stock = .unasked then s else { s with streams := s.streams ++ [⟨.queued, false⟩] }
  | .dispatch i thrown =>
    if s.streams[i]?.any (·.phase = .queued) && s.turnOfRequest i then s.dispatch i thrown else s
  | .finish i ending => if s.streams[i]?.any (·.phase = .running) then s.finish i ending else s
  | .release i =>
    match s.streams[i]? with
    | some stream => if stream.phase.isEnded then { s with streams := s.streams.set i ⟨stream.phase, true⟩ } else s
    | none => s

def call (o : Options) (session : Session) (callerAborted : Bool) : State where
  session
  snapshot := session
  callerAborted
  localAborted := false
  streams := []
  streamFailure := none
  stock := .unasked
  instructions := o.customInstructions
  fromExtension := false
  committed := false
  finalResult := none
  terminalAttempted := false
  stage := if o.customInstructions.all boundedInstructions then .announcing
    else .ended (.thrown (actorCompactionError "ERR_COMPACTION_INSTRUCTIONS"))
  log := if o.customInstructions.all boundedInstructions then [.compactionStart] else []

def run (d : Driver) (o : Options) (s : State) (events : List Event) : State := events.foldl (step d o) s

end State

end Driver

end PersistentHarness.Compaction
