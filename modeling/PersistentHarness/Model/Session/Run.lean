import PersistentHarness.Model.Session.Inputs
import PersistentHarness.Model.Session.Lifecycle

/-! # Deletion and recovery

A deletion buries a session and everything below it, and ends all the work that waits for them. A restarted
daemon queues the actors that it lost and settles what nobody can finish any more.
-/

namespace PersistentHarness.SessionStore

section Terminalization

def targetDeleted : JsString := js "target session was deleted"
def senderDeleted : JsString := js "sender session was deleted before its transcript entry was recorded"
def childDeleted : JsString := js "child session was deleted before its task completed"

def Message.reject (reason : JsString) (now : ℤ) (row : Message) : Message :=
  { row with state := .rejected, lastError := some reason, deliveredAt := row.deliveredAt.or (some now) }

/-- Reject a message that waits for a deleted target, or for the transcript of a deleted sender. -/
def Message.terminalize (gone : JsString → Bool) (now : ℤ) (row : Message) : Message :=
  let row := if gone row.targetId = true ∧ row.state.waiting = true then row.reject targetDeleted now else row
  if gone row.senderId = true ∧ row.state = .accepted then row.reject senderDeleted now else row

/-- Fail an unfinished task of a deleted child. -/
def ChildTask.terminalize (gone : JsString → Bool) (now : ℤ) (row : ChildTask) : ChildTask :=
  if gone row.childId = true ∧ row.unfinished = true then
    { row with state := .failed, completedAt := row.completedAt.or (some now), error := some childDeleted }
  else row

/-- The work of some sessions ends. -/
def terminalize (s : Store) (gone : JsString → Bool) (now : ℤ) : Store :=
  { s with
    messages := s.messages.modify fun _ row => row.terminalize gone now
    tasks := s.tasks.modify fun _ row => row.terminalize gone now }

def terminalizeSessionWork (s : Store) (sessionId : JsString) (now : ℤ) : Store :=
  terminalize s (fun id => id = sessionId) now

def terminalizeDeletedSessionWork (s : Store) (now : ℤ) : Store :=
  terminalize s (fun id => (s.sessions.get? id).any Session.deleted) now

end Terminalization

section Deletion

def tombstone (now : ℤ) (row : Session) : Session :=
  if row.deleted then row
  else
    { row with
      displayName := row.displayName ++ js "-deleted-" ++ row.shortId, lifecycle := .deleted, actorToken := []
      actorPid := none, actorIdentity := none, streaming := false, activity := .inactive, quietSince := none
      lastError := none, deletedAt := some now, stoppedAt := some now, updatedAt := now }

def bury (now : ℤ) (s : Store) (sessionId : JsString) : Store :=
  let s := { s with inputs := s.inputs.delete fun _ row => row.sessionId = sessionId }
  (terminalizeSessionWork s sessionId now).updateSession sessionId (tombstone now)

/-- The scratch of a deleted root is left to be removed. -/
def retireScratch (s : Store) (sessionId : JsString) : Result Store :=
  match (s.sessions.get? sessionId).filter fun row => row.kind = .root, getRootScratch s.sessions sessionId with
  | some _, .ok (some scratch) =>
    if scratch.get (js "state") = Value.text "ready" then
      s.setRootScratch sessionId (scratch.set (js "state") (Value.text "deleting"))
    else .ok s
  | _, _ => .ok s

def deleteSession (s : Store) (sessionId : JsString) (now : ℤ) : Result (Store × Option SessionView) := do
  let sessions ← getSessionSubtree s.sessions sessionId
  let s ← retireScratch s sessionId
  let s := (sessions.foldl (bury now) s).refreshAncestors sessionId now
  pure (s, mappedSession s.sessions sessionId)

/-- The live direct child that a selector names. -/
def resolveDirectChild (s : Store) (parentId selector : JsString) : Result JsString :=
  let rows := s.sessions.rows.filter fun row =>
    row.2.parentSessionId = some parentId ∧ row.2.deleted = false ∧ (s.children.get? row.1).isSome = true
  match rows.find? fun row => row.1 = selector ∨ row.2.shortId = selector with
  | some exact => .ok exact.1
  | none =>
    match rows.filter fun row => row.2.displayName = selector with
    | [] => .error (.text (js "no direct child matches: " ++ selector))
    | [row] => .ok row.1
    | _ => .error (.text (js "child selector is ambiguous: " ++ selector))

def deleteChild (s : Store) (parentId selector : JsString) (now : ℤ) : Result (Store × Option SessionView) := do
  let child ← resolveDirectChild s parentId selector
  deleteSession s child now

/-- Fence a subtree while its actors shut down. -/
def beginSessionDeletion (s : Store) (sessionId : JsString) : Result (Store × List JsString) := do
  let sessions ← getSessionSubtree s.sessions sessionId
  Checked.require ((sessions.any s.isSessionDeleting) = false)
    (.sessionDeleting "session subtree is already being deleted")
  pure ({ s with deleting := s.deleting ++ sessions }, sessions)

def endSessionDeletion (s : Store) (sessions : List JsString) : Store :=
  { s with deleting := s.deleting.filter (· ∉ sessions) }

end Deletion

section Recovery

/-- What a restarted daemon learns of an actor that it lost. -/
structure PreviousOwner where
  sessionId : JsString
  kind : SessionKind
  activity : Activity
  lifecycle : Lifecycle
  actorGeneration : ℕ
  actorPid : Option ℤ
  actorIdentity : Option Value
deriving DecidableEq, Repr

def previousOwners (s : Store) : List PreviousOwner :=
  s.sessions.collect fun id row =>
    if row.lifecycle = .starting ∨ row.lifecycle = .resident
        ∨ (row.lifecycle = .passivated ∧ s.inputs.any (fun _ input => input.sessionId = id) = true) then
      some ⟨id, row.kind, row.activity, row.lifecycle, row.actorGeneration, row.actorPid, row.actorIdentity⟩
    else none

def restartError (owner : PreviousOwner) : String :=
  if owner.lifecycle = .starting then "daemon restarted during actor startup"
  else if owner.activity = .working ∨ owner.activity = .delegating then
    "daemon restarted during active work; completion is unknown"
  else "daemon restarted; actor is queued for recovery"

def requeueOwner (env : Env) (now : ℤ) (s : Store) (owner : PreviousOwner) : Store :=
  { s.updateSession owner.sessionId fun row =>
      { restarting (env.uuid s.draws) row with
        stoppedAt := some now, lastError := some (js (restartError owner)), updatedAt := now } with
    draws := s.draws + 1 }

/-- The submitted tasks whose completion nobody will report. -/
def failSubmitted (now : ℤ) (row : ChildTask) : ChildTask :=
  if row.state = .submitted then
    { row with
      state := .failed, completedAt := some now
      error := some (js "daemon restarted during submitted work; completion is unknown") }
  else row

def reconcileAfterDaemonStart (env : Env) (s : Store) (now : ℤ) : Store × List PreviousOwner :=
  let owners := previousOwners s
  let s := owners.foldl (requeueOwner env now) s
  let s := { s with tasks := s.tasks.modify fun _ => failSubmitted now }
  (terminalizeDeletedSessionWork s now, owners)

/-- A new connection to the same database: only the fence of deletions is lost. -/
def reopen (s : Store) : Store := { s with deleting := [] }

end Recovery

section Diagnosis

inductive IssueCode where
  | missingSessionFile
  | residentWithoutPid
  | missingActorToken
  | foreignKeyViolation
  | messageTargetsDeletedSession
  | messageAwaitsDeletedSender
  | taskTargetsDeletedChild
deriving DecidableEq, Repr

/-- An issue and the row that it is about. -/
structure Issue where
  code : IssueCode
  subject : JsString
  sessionId : JsString
deriving DecidableEq, Repr

def issueLimit : ℕ := 256

def sessionIssues (row : JsString × Session) : List Issue :=
  if row.2.deleted then []
  else
    (if row.2.sessionFile.all (· = []) then [⟨.missingSessionFile, row.1, row.1⟩] else [])
      ++ (if row.2.lifecycle = .resident ∧ row.2.actorPid = none then [⟨.residentWithoutPid, row.1, row.1⟩] else [])
      ++ (if row.2.actorToken = [] then [⟨.missingActorToken, row.1, row.1⟩] else [])

/-- The rows of a table that belong to a deleted session and still wait. -/
def deletedSessionIssues {α : Type} (sessions : Sessions) (t : Table JsString α) (code : IssueCode) (owner : α → JsString)
    (waits : α → Bool) : List Issue :=
  (t.collect fun id row =>
    if waits row = true ∧ (sessions.get? (owner row)).any Session.deleted = true then some ⟨code, id, owner row⟩
    else none).take issueLimit

def Message.waits (row : Message) : Bool := row.state.waiting

def Message.awaitsEntry (row : Message) : Bool := row.state = .accepted

/-- The report of the store on itself; `violations` are the tables and rows that SQLite's foreign key check lists. -/
def diagnose (s : Store) (violations : List (JsString × JsString)) : List Issue :=
  (s.sessions.rows.flatMap sessionIssues
    ++ violations.map (fun violation => Issue.mk .foreignKeyViolation violation.1 violation.2)
    ++ deletedSessionIssues s.sessions s.messages .messageTargetsDeletedSession Message.targetId Message.waits
    ++ deletedSessionIssues s.sessions s.messages .messageAwaitsDeletedSender Message.senderId Message.awaitsEntry
    ++ deletedSessionIssues s.sessions s.tasks .taskTargetsDeletedChild ChildTask.childId ChildTask.unfinished).take issueLimit

end Diagnosis

end PersistentHarness.SessionStore

/-! ## Steps and runs of the session store

Every call of the store is one step: it is one transaction, or it writes once. A call that throws leaves the
store as it was.
-/

namespace PersistentHarness.SessionStore

inductive Op where
  | createRoot (params : RootParams)
  | admitRoot (params : RootParams)
  | createChild (parentId : JsString) (params : ChildParams)
  | registerActor (params : Registration)
  | prepareActorRevival (sessionId actorToken : JsString) (force : Bool) (error : Option JsString)
  | reconcileAfterDaemonStart
  | reopen
  | markActorStarted (sessionId : JsString) (generation : ℕ) (startup : Startup)
  | markActorLifecycle (sessionId : JsString) (generation : ℕ) (lifecycle : JsString) (error : Option JsString)
      (reportChildExit : Bool)
  | recordActorTurnFailure (sessionId : JsString) (generation : ℕ) (value : Value)
  | queueHomeFailureNudge (sessionId : JsString) (generation turnFailure : Value) (failedAt : ℤ)
  | setActorActivity (sessionId : JsString) (generation : ℕ) (streaming : Bool)
  | recordSessionLastError (sessionId : JsString) (generation : ℕ) (error : Option JsString)
  | setSessionName (sessionId : JsString) (name : Option JsString)
  | autoNameDefaultRoot (sessionId : JsString) (title : Option JsString)
  | setRootScratch (rootId : JsString) (record : Value)
  | beginSessionDeletion (sessionId : JsString)
  | endSessionDeletion (sessions : List JsString)
  | deleteChild (parentId selector : JsString)
  | deleteSession (sessionId : JsString)
  | markChildTaskSubmitted (taskId : JsString)
  | completeSubmittedChildTask (childId : JsString) (error : Option JsString)
  | recordChildCreationEntry (parentId : JsString) (entry : CreationEntry)
  | createActorInput (sessionId : JsString) (params : NewInput)
  | setActorInputWakeError (sessionId : JsString) (generation : Option ℕ)
  | markActorInputAccepted (inputId sessionId : JsString) (generation : ℕ)
  | completeActorInput (inputId sessionId : JsString) (entryId : Option JsString)
  | markActorInputHandled (inputId sessionId : JsString)
  | recordSessionActivity (sessionId : JsString)
  | createMessage (senderId : JsString) (params : NewMessage) (pendingLimit : ℕ)
  | recordMessageSenderEntry (senderId : JsString) (entry : SenderEntry)
  | markMessageDelivered (messageId targetId : JsString) (maxAttempts : ℕ)
  | acknowledgeMessage (messageId targetId : JsString)
  | recordResolvedSessionInference (sessionId : JsString) (generation : ℕ) (selection : Selection)
  | updateSessionFastMode (sessionId : JsString) (enabled expected : Bool)
  | queueSessionInference (sessionId : JsString) (selection activeSelection : Selection)
  | updateSessionInference (sessionId : JsString) (selection : Selection) (expectedLaunch : Option Value)
      (requestId : Option JsString)
  | recordSessionInferenceResult (sessionId : JsString) (generation : ℕ) (result : InferenceResult)
  | retargetDefaultInference (params : Retarget)

/-- What a call returns, or throws. -/
inductive Output where
  | thrown (failure : Failure)
  | done
  | flag (value : Bool)
  | session (view : Option SessionView)
  | admitted (view : Option SessionView) (created : Bool)
  | child (view : Option SessionView) (taskId : JsString)
  | owners (owners : List PreviousOwner)
  | subtree (sessions : List JsString)
  | task (view : Option TaskView) (newlyRecorded : Bool)
  | input (view : Option InputView)
  | inputs (views : List InputView)
  | message (view : MessageView) (newlyQueued : Bool)
  | delivery (attempt : Option (MessageView × Bool))
  | launch (value : Value)
  | retargeted (result : Retargeted)
deriving DecidableEq

/-- A call that throws, or returns the next store. -/
def checked (s : Store) (result : Result (Store × Output)) : Store × Output :=
  match result with
  | .ok done => done
  | .error failure => (s, .thrown failure)

def giving {α : Type} (f : α → Output) (result : Result (Store × α)) : Result (Store × Output) :=
  result.map fun done => (done.1, f done.2)

/-- A call without a result. -/
def noResult (result : Result Store) : Result (Store × Output) := result.map fun s => (s, .done)

/-- One call at an instant of the clock; `observer` is the root that hears about failed roots. -/
def step (env : Env) (observer : Option JsString) (s : Store) (now : ℤ) : Op → Store × Output
  | .createRoot params => checked s (giving .session (createRoot env s params now))
  | .admitRoot params => checked s (giving (fun (view, created) => .admitted view created) (admitRoot env s params now))
  | .createChild parentId params =>
    checked s (giving (fun (view, taskId) => .child view taskId) (createChild env s parentId params now))
  | .registerActor params => checked s (giving .session (registerActor s params now))
  | .prepareActorRevival sessionId actorToken force error =>
    checked s (giving .session (prepareActorRevival s sessionId actorToken now force error))
  | .reconcileAfterDaemonStart =>
    let (next, owners) := reconcileAfterDaemonStart env s now
    (next, .owners owners)
  | .reopen => (reopen s, .done)
  | .markActorStarted sessionId generation startup =>
    checked s (giving .session (markActorStarted s sessionId generation startup now))
  | .markActorLifecycle sessionId generation lifecycle error reportChildExit =>
    checked s (giving .flag (markActorLifecycle env observer s sessionId generation lifecycle error now reportChildExit))
  | .recordActorTurnFailure sessionId generation value =>
    checked s (noResult (recordActorTurnFailure env observer s sessionId generation value now))
  | .queueHomeFailureNudge sessionId generation turnFailure failedAt =>
    checked s (giving .flag (queueHomeFailureNudge env s sessionId generation turnFailure failedAt now))
  | .setActorActivity sessionId generation streaming =>
    checked s (giving .session (setActorActivity s sessionId generation streaming now))
  | .recordSessionLastError sessionId generation error =>
    let (next, changed) := recordSessionLastError s sessionId generation error now
    (next, .flag changed)
  | .setSessionName sessionId name => checked s (giving .session (setSessionName env s sessionId name now))
  | .autoNameDefaultRoot sessionId title => checked s (giving .flag (autoNameDefaultRoot env s sessionId title now))
  | .setRootScratch rootId record => checked s (noResult (s.setRootScratch rootId record))
  | .beginSessionDeletion sessionId => checked s (giving .subtree (beginSessionDeletion s sessionId))
  | .endSessionDeletion sessions => (endSessionDeletion s sessions, .done)
  | .deleteChild parentId selector => checked s (giving .session (deleteChild s parentId selector now))
  | .deleteSession sessionId => checked s (giving .session (deleteSession s sessionId now))
  | .markChildTaskSubmitted taskId =>
    checked s (giving (fun view => .task (some view) false) (markChildTaskSubmitted s taskId now))
  | .completeSubmittedChildTask childId error =>
    let (next, view) := completeSubmittedChildTask s childId error now
    (next, .task view false)
  | .recordChildCreationEntry parentId entry =>
    checked s (giving (fun (view, recorded) => .task (some view) recorded) (recordChildCreationEntry s parentId entry))
  | .createActorInput sessionId params => checked s (giving .input (createActorInput env s sessionId params now))
  | .setActorInputWakeError sessionId generation =>
    let (next, views) := setActorInputWakeError s sessionId generation
    (next, .inputs views)
  | .markActorInputAccepted inputId sessionId generation =>
    match markActorInputAccepted s inputId sessionId generation now with
    | (next, .ok view) => (next, .input (some view))
    | (next, .error failure) => (next, .thrown failure)
  | .completeActorInput inputId sessionId entryId =>
    checked s (giving .flag (completeActorInput s inputId sessionId now entryId))
  | .markActorInputHandled inputId sessionId => checked s (giving .input (markActorInputHandled s inputId sessionId now))
  | .recordSessionActivity sessionId => checked s (giving .flag (recordSessionActivity s sessionId now))
  | .createMessage senderId params pendingLimit =>
    checked s (giving (fun view => .message view false) (createMessage env s senderId params pendingLimit now))
  | .recordMessageSenderEntry senderId entry =>
    checked s (giving (fun (view, queued) => .message view queued) (recordMessageSenderEntry s senderId entry now))
  | .markMessageDelivered messageId targetId maxAttempts =>
    let (next, attempt) := markMessageDelivered s messageId targetId now maxAttempts
    (next, .delivery attempt)
  | .acknowledgeMessage messageId targetId =>
    checked s (giving (fun view => .message view false) (acknowledgeMessage s messageId targetId now))
  | .recordResolvedSessionInference sessionId generation selection =>
    checked s (giving .launch (recordResolvedSessionInference s sessionId generation selection now))
  | .updateSessionFastMode sessionId enabled expected =>
    checked s (noResult (updateSessionFastMode s sessionId enabled expected now))
  | .queueSessionInference sessionId selection activeSelection =>
    checked s (giving .launch (queueSessionInference env s sessionId selection activeSelection now))
  | .updateSessionInference sessionId selection expectedLaunch requestId =>
    checked s (giving .launch (updateSessionInference s sessionId selection expectedLaunch now requestId))
  | .recordSessionInferenceResult sessionId generation result =>
    checked s (giving .flag (recordSessionInferenceResult s sessionId generation result now))
  | .retargetDefaultInference params =>
    let (next, result) := retargetDefaultInference env s params now
    (next, .retargeted result)

/-- A call, with its instant and the root that hears about failed roots. -/
structure Event where
  now : ℤ
  observer : Option JsString
  op : Op

/-- The store after one more call. -/
def act (env : Env) (s : Store) (event : Event) : Store := (step env event.observer s event.now event.op).1

/-- The store after a sequence of calls on a fresh database. -/
def run (env : Env) (events : List Event) : Store := events.foldl (act env) .empty

end PersistentHarness.SessionStore
