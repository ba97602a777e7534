import PersistentHarness.Lib.Forest
import PersistentHarness.Data.Text
import PersistentHarness.Lib.Checked

/-! # Session rows

The table of sessions that the stores share. A session is a root or the child of another session; a
deleted session keeps its row. Text columns that the code writes as JSON are plain data here.
-/

namespace PersistentHarness

inductive SessionKind where
  | root
  | child
deriving DecidableEq, Repr

inductive Activity where
  | working
  | delegating
  | idle
  | inactive
deriving DecidableEq, Repr

inductive Lifecycle where
  | starting
  | resident
  | passivated
  | stopped
  | error
  | deleted
deriving DecidableEq, Repr

/-- A row of `sessions`; its id is the key of the table. -/
structure Session where
  shortId : JsString
  sessionFile : Option JsString
  cwd : JsString
  repositoryRoot : Option JsString
  displayName : JsString
  kind : SessionKind
  familyId : JsString
  parentSessionId : Option JsString
  depth : ℕ
  activity : Activity
  streaming : Bool
  lifecycle : Lifecycle
  actorToken : JsString
  actorGeneration : ℕ
  actorPid : Option ℤ
  actorIdentity : Option Value
  launch : Option Value
  scratch : Option Value
  quietSince : Option ℤ
  lastError : Option JsString
  createdAt : ℤ
  updatedAt : ℤ
  lastActivityAt : Option ℤ
  startedAt : Option ℤ
  stoppedAt : Option ℤ
  deletedAt : Option ℤ
deriving DecidableEq, Repr

abbrev Sessions := Table JsString Session

namespace Session

def deleted (row : Session) : Bool := row.lifecycle = .deleted

/-- The parent as a walk up the ancestors reads it: an empty id ends the walk. -/
def ancestor (row : Session) : Option JsString := row.parentSessionId.filter (· ≠ [])

end Session

end PersistentHarness

/-! ## The session store

The tables of sessions, child tasks, actor inputs with their receipts, and family messages, together with
the fence of sessions under deletion that lives in memory. A random id is the number of its draw; `Env.uuid`
spells it. An operation throws or returns the next store; a rolled back transaction leaves the store as it was.
-/

namespace PersistentHarness.SessionStore

/-- What a store is given for good: the hexadecimal SHA-256 of a text and the spelling of random ids. -/
structure Env where
  sha256 : JsString → JsString
  uuid : ℕ → JsString

/-- A thrown error. -/
structure Failure where
  message : JsString
  code : Option JsString
deriving DecidableEq, Repr

namespace Failure

def error (message : String) : Failure := ⟨js message, none⟩

def text (message : JsString) : Failure := ⟨message, none⟩

def sessionDeleting (message : String) : Failure := ⟨js message, some (js "session_deleting")⟩

/-- A unique index refuses a row. -/
def unique (columns : String) : Failure :=
  ⟨js "UNIQUE constraint failed: " ++ js columns, some (js "ERR_SQLITE_ERROR")⟩

end Failure

abbrev Result := Except Failure

/-! ## Rows -/

inductive TaskState where
  | queued
  | submitted
  | completed
  | failed
deriving DecidableEq, Repr

/-- A row of `child_tasks`; every task is of the one kind `initial`. -/
structure ChildTask where
  childId : JsString
  prompt : Option JsString
  state : TaskState
  createdAt : ℤ
  submittedAt : Option ℤ
  completedAt : Option ℤ
  error : Option JsString
  historyPeerName : JsString
  historyEntryId : Option JsString
deriving DecidableEq, Repr

/-- `state IN ('queued', 'submitted')`. -/
def ChildTask.unfinished (task : ChildTask) : Bool := task.state = .queued ∨ task.state = .submitted

inductive Behavior where
  | auto
  | steer
  | followUp
deriving DecidableEq, Repr

def Behavior.name : Behavior → String
  | .auto => "auto"
  | .steer => "steer"
  | .followUp => "follow_up"

inductive InputState where
  | queued
  | accepted
deriving DecidableEq, Repr

/-- A row of `actor_inputs`, an input that waits for its delivery. -/
structure ActorInput where
  sessionId : JsString
  body : JsString
  images : Value
  location : Option Value
  digest : JsString
  behavior : Behavior
  state : InputState
  createdAt : ℤ
  acceptedAt : Option ℤ
  acceptedGeneration : Option ℕ
  wakeErrorGeneration : Option ℕ
deriving DecidableEq, Repr

inductive InputSource where
  | user
  | cron
  | background
deriving DecidableEq, Repr

/-- A row of `actor_input_receipts`, which outlives its input. -/
structure Receipt where
  sessionId : JsString
  digest : JsString
  createdAt : ℤ
  sequence : ℕ
  source : Option InputSource
  origin : Option Value
  clientMessageId : Option JsString
  deliveredAt : Option ℤ
  deliveredEntryId : Option JsString
  handledAt : Option ℤ
  retryIntent : Option Value
deriving DecidableEq, Repr

inductive Relationship where
  | parent
  | child
  | sibling
deriving DecidableEq, Repr

inductive DeliveryMode where
  | auto
  | followUp
deriving DecidableEq, Repr

inductive MessageState where
  | accepted
  | queued
  | delivered
  | acknowledged
  | rejected
deriving DecidableEq, Repr

/-- `state IN ('accepted', 'queued', 'delivered')`. -/
def MessageState.waiting : MessageState → Bool
  | .accepted | .queued | .delivered => true
  | _ => false

structure Message where
  senderId : JsString
  targetId : JsString
  relationship : Relationship
  deliveryMode : DeliveryMode
  body : JsString
  state : MessageState
  attemptCount : ℕ
  acceptedAt : ℤ
  queuedAt : Option ℤ
  deliveredAt : Option ℤ
  acknowledgedAt : Option ℤ
  lastError : Option JsString
  senderEntryId : Option JsString
  childExitGeneration : Option ℕ
deriving DecidableEq, Repr

structure Store where
  sessions : Sessions
  children : Table JsString Unit
  tasks : Table JsString ChildTask
  inputs : Table JsString ActorInput
  receipts : Table JsString Receipt
  messages : Table JsString Message
  deleting : List JsString
  draws : ℕ

def Store.empty : Store := ⟨.empty, .empty, .empty, .empty, .empty, .empty, [], 0⟩

/-- What `parseJson` reads back of a written JSON column. -/
def written (value : Value) : Value := (Json.parse (Json.stringify value)).getD .null

/-! ## Sessions as the store reads them -/

def maxAncestorDepth : ℕ := 64

/-- The Fast mode of a family, and the root that decides it. -/
structure FastMode where
  fastMode : Option Bool
  rootSessionId : Option JsString
deriving DecidableEq, Repr

def FastMode.unavailable : FastMode := ⟨none, none⟩

/-- The Fast mode that a root's launch names. Retained roots from before the feature default to off. -/
def launchFastMode (launch : Option Value) : Option Bool :=
  match launch.filter Value.isObject with
  | none => none
  | some launch =>
    if launch.hasOwn (js "fastMode") then
      match launch.get (js "fastMode") with
      | .bool enabled => some enabled
      | _ => none
    else some false

/-- Walk the parent edges to the root; partial ancestry is unknown. -/
def fastModeWalk (sessions : Sessions) : ℕ → List JsString → Option ℕ → JsString → FastMode
  | 0, _, _, _ => .unavailable
  | hops + 1, seen, expectedDepth, id =>
    match (sessions.get? id).filter fun row =>
        id ∉ seen ∧ row.deleted = false ∧ row.depth ≤ maxAncestorDepth ∧ expectedDepth.all (· = row.depth) = true with
    | none => .unavailable
    | some row =>
      match row.kind, row.depth, row.parentSessionId with
      | .root, 0, none => ⟨launchFastMode row.launch, some id⟩
      | .child, depth + 1, some parent =>
        if parent = [] then .unavailable else fastModeWalk sessions hops (id :: seen) (some depth) parent
      | _, _, _ => .unavailable

def resolveFastModePreference (sessions : Sessions) (sessionId : JsString) : FastMode :=
  fastModeWalk sessions (maxAncestorDepth + 1) [] none sessionId

/-- The rows of a parent chain up to its root, or where it comes back to a row seen before. -/
def lineageNames (sessions : Sessions) : ℕ → List JsString → JsString → List JsString
  | 0, _, _ => []
  | fuel + 1, seen, id =>
    match (sessions.get? id).filter fun _ => id ∉ seen with
    | none => []
    | some row => ((row.ancestor.map (lineageNames sessions fuel (id :: seen))).getD []) ++ [row.displayName]

def sessionLineage (sessions : Sessions) (sessionId : JsString) : JsString :=
  List.intercalate (js "/") (lineageNames sessions sessions.rows.length [] sessionId)

def workingDescendantCount (sessions : Sessions) (sessionId : JsString) : ℕ :=
  let descendants := sessions.descendants Session.parentSessionId (fun row => !row.deleted) [sessionId]
  sessions.count fun id row => id ∈ descendants ∧ id ≠ sessionId ∧ row.activity = .working

/-- What clients see of a launch policy. -/
def publicLaunch (launch : Option Value) (preference : FastMode) : Value :=
  match launch.filter Value.truthy with
  | none => .null
  | some launch =>
    let supported := launch.get (js "fastModeSupported")
    let fork := launch.get (js "contextFork")
    .record ([("model", launch.get (js "model")), ("thinking", launch.get (js "thinking")),
        ("pendingInference", (launch.get (js "pendingInference")).coalesce .null),
        ("fastMode", (preference.fastMode.map Value.bool).getD .null),
        ("fastModeRootSessionId", (preference.rootSessionId.map Value.str).getD .null),
        ("fastModeSupported", if supported.isBoolean then supported else .null)]
      ++ (if fork.truthy then [("contextFork", fork)] else [])
      ++ [("capabilityIds", .arr ((launch.get (js "capabilities")).items.map fun item => item.get (js "id")))])

/-- What `mapSession` shows of a row, with its lineage. -/
structure SessionView where
  sessionId : JsString
  shortId : JsString
  sessionFile : Option JsString
  cwd : JsString
  repositoryRoot : Option JsString
  name : JsString
  kind : SessionKind
  familyId : JsString
  parentSessionId : Option JsString
  depth : ℕ
  activity : Activity
  lifecycle : Lifecycle
  actorGeneration : ℕ
  actorPid : Option ℤ
  actorIdentity : Option Value
  quietSince : Option ℤ
  lastError : Option JsString
  launch : Value
  createdAt : ℤ
  updatedAt : ℤ
  lastActivityAt : ℤ
  startedAt : Option ℤ
  stoppedAt : Option ℤ
  workingDescendantCount : ℕ
  lineage : JsString
deriving DecidableEq, Repr

def mappedSession (sessions : Sessions) (sessionId : JsString) : Option SessionView :=
  (sessions.get? sessionId).map fun row =>
    { sessionId, shortId := row.shortId, sessionFile := row.sessionFile, cwd := row.cwd
      repositoryRoot := row.repositoryRoot, name := row.displayName, kind := row.kind, familyId := row.familyId
      parentSessionId := row.parentSessionId, depth := row.depth, activity := row.activity, lifecycle := row.lifecycle
      actorGeneration := row.actorGeneration, actorPid := row.actorPid, actorIdentity := row.actorIdentity
      quietSince := row.quietSince, lastError := row.lastError
      launch := publicLaunch row.launch (resolveFastModePreference sessions sessionId)
      createdAt := row.createdAt, updatedAt := row.updatedAt, lastActivityAt := row.lastActivityAt.getD row.createdAt
      startedAt := row.startedAt, stoppedAt := row.stoppedAt
      workingDescendantCount := workingDescendantCount sessions sessionId, lineage := sessionLineage sessions sessionId }

def deeperFirst (a b : JsString × Session) : Bool := b.2.depth < a.2.depth ∨ a.2.depth = b.2.depth ∧ a.1.le b.1 = true

/-- A session and everything below it, tombstones included. -/
def subtree (sessions : Sessions) (sessionId : JsString) : List JsString :=
  let ids := sessions.descendants Session.parentSessionId (fun _ => true) [sessionId]
  (sessions.select (fun id _ => id ∈ ids) deeperFirst sessions.rows.length).map Prod.fst

def getSessionSubtree (sessions : Sessions) (sessionId : JsString) : Result (List JsString) := do
  Checked.require ((sessions.get? sessionId).isSome = true) (.error "session does not exist")
  pure (subtree sessions sessionId)

/-- Walk the parent edges to the root of a session. -/
def rootWalk (sessions : Sessions) : ℕ → List JsString → Option ℕ → JsString → Option JsString
  | 0, _, _, _ => none
  | hops + 1, seen, expectedDepth, id =>
    match (sessions.get? id).filter fun row =>
        id ∉ seen ∧ row.depth ≤ maxAncestorDepth ∧ expectedDepth.all (· = row.depth) = true with
    | none => none
    | some row =>
      match row.kind, row.depth, row.parentSessionId with
      | .root, 0, none => some id
      | .child, depth + 1, some parent =>
        if parent = [] then none else rootWalk sessions hops (id :: seen) (some depth) parent
      | _, _, _ => none

def getSessionRoot (sessions : Sessions) (sessionId : JsString) : Result JsString :=
  match rootWalk sessions (maxAncestorDepth + 1) [] none sessionId with
  | none => .error (.error "session root ancestry is invalid")
  | some root => .ok root

def getRootScratch (sessions : Sessions) (sessionId : JsString) : Result (Option Value) := do
  let root ← getSessionRoot sessions sessionId
  match (sessions.get? root).bind Session.scratch with
  | none => pure none
  | some record => do
    Checked.require ((record.get (js "version")).isNat 1 ∧ ["ready", "deleting", "removed"].any (fun state =>
        decide (record.get (js "state") = Value.text state)) = true)
      (.error "root scratch ownership is invalid")
    pure (some record)

namespace Store

def isSessionDeleting (s : Store) (sessionId : JsString) : Bool := sessionId ∈ s.deleting

def assertSessionAvailable (s : Store) (sessionId : JsString) : Result Unit := do
  Checked.require (s.isSessionDeleting sessionId = false) (.sessionDeleting "session subtree is being deleted")
  Checked.require ((s.sessions.get? sessionId).any (fun row => !row.deleted) = true) (.error "session does not exist")

def setRootScratch (s : Store) (rootId : JsString) (record : Value) : Result Store := do
  let root ← getSessionRoot s.sessions rootId
  Checked.require (root = rootId) (.error "scratch owner must be a root")
  pure { s with sessions := s.sessions.update rootId fun row => { row with scratch := some (written record) } }

def updateSession (s : Store) (sessionId : JsString) (f : Session → Session) : Store :=
  { s with sessions := s.sessions.update sessionId f }

/-- Refresh the derived columns of the sessions above one. -/
def refreshFrom (now : ℤ) : ℕ → List JsString → Sessions → JsString → Sessions
  | 0, _, sessions, _ => sessions
  | fuel + 1, seen, sessions, current =>
    match (sessions.get? current).filter fun _ => current ∉ seen with
    | none => sessions
    | some row =>
      let descendants := workingDescendantCount sessions current
      let activity :=
        if row.lifecycle = .resident then
          if row.streaming then .working else if 0 < descendants then .delegating else .idle
        else if 0 < descendants then .delegating else .inactive
      -- family display does not own the resident worker's idle interval
      let quietSince := if row.lifecycle = .resident ∧ row.streaming = false then row.quietSince.or (some now) else none
      let sessions := sessions.update current fun row => { row with activity, quietSince }
      match row.ancestor with
      | none => sessions
      | some parent => refreshFrom now fuel (current :: seen) sessions parent

def refreshAncestors (s : Store) (sessionId : JsString) (now : ℤ) : Store :=
  match (s.sessions.get? sessionId).bind Session.ancestor with
  | none => s
  | some parent => { s with sessions := refreshFrom now s.sessions.rows.length [] s.sessions parent }

end Store

end PersistentHarness.SessionStore
