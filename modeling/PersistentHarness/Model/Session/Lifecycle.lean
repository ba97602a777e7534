import Mathlib.Data.List.DropRight
import PersistentHarness.Model.Session.Messages

/-! # Sessions and their actors

Sessions are admitted as roots or as children of live sessions. Each has at most one actor, named by its
generation: the actor starts, works, ends and is revived under the next generation.
-/

namespace PersistentHarness.SessionStore

section Names

def shortSessionId (env : Env) (sessionId : JsString) : JsString := (env.sha256 sessionId).take 8

/-- `path.basename(cwd)`. -/
def basename (cwd : JsString) : JsString :=
  ((cwd.rdropWhile (· = 0x2F)).reverse.takeWhile (· ≠ 0x2F)).reverse

/-- `value || other` of strings. -/
def orElse (value other : JsString) : JsString := if value = [] then other else value

def defaultRootName (env : Env) (cwd sessionId : JsString) : JsString :=
  orElse (basename cwd) (js "root") ++ js "-" ++ shortSessionId env sessionId

/-- `name?.trim()`, with nothing as an empty name. -/
def trimmedName (name : Option JsString) : JsString := (name.map JsString.trim).getD []

/-- Cut a title at a word, without the punctuation before the cut. -/
def clipTitle (text : JsString) (max : ℕ) : JsString :=
  if text.length ≤ max then text
  else
    let sliced := text.take max
    let lastSpace := (sliced.rdropWhile (· ≠ 0x20)).length
    let clipped := if min 24 max < lastSpace then sliced.take (lastSpace - 1) else sliced
    let separators : List UInt16 := [0x2D, 0x2013, 0x2014, 0x2C, 0x3B, 0x3A]
    orElse (JsString.trim (clipped.rdropWhile (· ∈ separators))) (JsString.trim sliced)

/-- A free name near a title, if there is one. -/
def allocateUniqueRootName (base shortId : JsString) (taken : JsString → Bool) : Option JsString :=
  let name := base.trim
  let suffix := shortId.trim
  if name = [] then none
  else if taken name = false then some (clipTitle name 256)
  else if suffix = [] then none
  else
    let clipped := clipTitle name (max 8 (256 - suffix.length - 1))
    let candidate := clipped ++ js " " ++ suffix
    let numbered := (List.range' 2 31).map fun index => candidate ++ js "-" ++ Json.decimal index
    (candidate :: numbered).find? fun name => !taken name

/-- Another live session has the name of this one where names are unique: among roots, and among the children of
one parent. -/
def nameTaken (sessions : Sessions) (id : JsString) (row : Session) : Bool :=
  sessions.any fun other session =>
    other ≠ id ∧ session.deleted = false ∧ session.kind = row.kind ∧ session.displayName = row.displayName
      ∧ (row.kind = .root ∨ session.parentSessionId = row.parentSessionId)

def nameIndex : SessionKind → String
  | .root => "sessions.display_name"
  | .child => "sessions.parent_session_id, sessions.display_name"

end Names

section Admission

/-- The parameters of `createRoot` and `admitRoot`. -/
structure RootParams where
  sessionId : JsString
  sessionFile : Option JsString
  cwd : Option JsString
  repositoryRoot : Option JsString
  name : Option JsString
  actorToken : JsString
  launch : Value
deriving DecidableEq, Repr

/-- Insert a row under the unique indexes of `sessions`. -/
def insertSession (s : Store) (id : JsString) (row : Session) : Result Store :=
  match s.sessions.insert? id row with
  | none => .error (.unique "sessions.id")
  | some sessions => do
    Checked.require ((s.sessions.any fun _ other => other.shortId = row.shortId) = false) (.unique "sessions.short_id")
    Checked.require (nameTaken s.sessions id row = false) (.unique (nameIndex row.kind))
    pure { s with sessions }

/-- A session whose actor waits for its first start. -/
def newSession (env : Env) (id : JsString) (kind : SessionKind) (parentSessionId : Option JsString) (depth : ℕ)
    (familyId cwd displayName actorToken : JsString) (sessionFile repositoryRoot : Option JsString) (launch : Value)
    (now : ℤ) : Session :=
  { shortId := shortSessionId env id, sessionFile, cwd, repositoryRoot, displayName, kind, familyId, parentSessionId, depth
    activity := .inactive, streaming := false, lifecycle := .starting, actorToken, actorGeneration := 1, actorPid := none
    actorIdentity := none, launch := some (written launch), scratch := none, quietSince := none, lastError := none
    createdAt := now, updatedAt := now, lastActivityAt := some now, startedAt := none, stoppedAt := none, deletedAt := none }

def globalRootFamilyId : JsString := js "local-roots"

def insertRoot (env : Env) (s : Store) (params : RootParams) (now : ℤ) : Result Store := do
  Checked.require (params.sessionId ≠ []) (.error "root sessionId is required")
  let cwd := params.cwd.getD []
  Checked.require (cwd ≠ []) (.error "root cwd is required")
  let name := orElse (trimmedName params.name) (defaultRootName env cwd params.sessionId)
  Checked.require (params.actorToken ≠ []) (.error "root actorToken is required")
  insertSession s params.sessionId (newSession env params.sessionId .root none 0 globalRootFamilyId cwd name
    params.actorToken params.sessionFile params.repositoryRoot (params.launch.set (js "fastMode") (.bool false)) now)

def createRoot (env : Env) (s : Store) (params : RootParams) (now : ℤ) : Result (Store × Option SessionView) := do
  Checked.require (s.sessions.get? params.sessionId = none) (.error "session already exists")
  let s ← insertRoot env s params now
  pure (s, mappedSession s.sessions params.sessionId)

/-- The launch policy that a root is admitted with again: its Fast mode stays. -/
def readmittedLaunch (params : RootParams) (row : Session) : Option Value :=
  if params.launch = .null ∨ params.launch = .undefined then row.launch
  else
    let enabled := (row.launch.getD (.obj [])).get (js "fastMode") = .bool true
    some (written (params.launch.set (js "fastMode") (.bool enabled)))

/-- Create a root, or take up the one of this id again. -/
def admitRoot (env : Env) (s : Store) (params : RootParams) (now : ℤ) : Result (Store × Option SessionView × Bool) :=
  match s.sessions.get? params.sessionId with
  | none => do
    let s ← insertRoot env s params now
    pure (s, mappedSession s.sessions params.sessionId, true)
  | some row => do
    Checked.require (row.kind = .root) (.error "child Pi session cannot be admitted as a root")
    Checked.require (row.deleted = false) (.error "root was deleted")
    let readmitted :=
      { row with
        sessionFile := params.sessionFile.or row.sessionFile, cwd := params.cwd.getD row.cwd
        repositoryRoot := params.repositoryRoot.or row.repositoryRoot
        displayName := orElse (trimmedName params.name) row.displayName, launch := readmittedLaunch params row
        updatedAt := now }
    Checked.require (nameTaken s.sessions params.sessionId readmitted = false) (.unique (nameIndex .root))
    let s := s.updateSession params.sessionId fun _ => readmitted
    pure (s, mappedSession s.sessions params.sessionId, false)

/-- The parameters of `createChild`; the policy is the launch policy of the child. -/
structure ChildParams where
  sessionId : JsString
  sessionFile : Option JsString
  policy : Value
  actorToken : JsString
deriving DecidableEq, Repr

/-- A string property, with nothing when it is missing. -/
def textProperty (value : Value) (key : String) : Option JsString :=
  match value.get (js key) with
  | .str text => some text
  | _ => none

def ChildTask.initial (childId : JsString) (prompt : Option JsString) (historyPeerName : JsString) (now : ℤ) : ChildTask :=
  { childId, prompt, state := .queued, createdAt := now, submittedAt := none, completedAt := none, error := none
    historyPeerName, historyEntryId := none }

def createChild (env : Env) (s : Store) (parentId : JsString) (params : ChildParams) (now : ℤ) :
    Result (Store × Option SessionView × JsString) := do
  s.assertSessionAvailable parentId
  match (s.sessions.get? parentId).filter fun row => !row.deleted with
  | none => .error (.error "parent session does not exist")
  | some parent => do
    Checked.require (s.sessions.get? params.sessionId = none) (.error "session already exists")
    let depth := parent.depth + 1
    let given := params.policy.get (js "depth")
    Checked.require (given = .undefined ∨ given = .null ∨ given.isNat depth)
      (.error "child depth does not match its parent edge")
    let displayName := orElse (trimmedName (textProperty params.policy "name"))
      (js "subagent-" ++ shortSessionId env params.sessionId)
    Checked.require (params.actorToken ≠ []) (.error "child actorToken is required")
    let launch := (params.policy.set (js "depth") (.num (.ofNat depth))).set (js "fastMode") (.bool false)
    let s ← insertSession s params.sessionId (newSession env params.sessionId .child (some parentId) depth
      parent.familyId ((textProperty params.policy "cwd").getD parent.cwd) displayName params.actorToken params.sessionFile
      ((textProperty params.policy "repositoryRoot").or parent.repositoryRoot) launch now)
    let taskId := env.uuid s.draws
    match s.children.insert? params.sessionId (),
      s.tasks.insert? taskId (.initial params.sessionId (textProperty params.policy "prompt") displayName now) with
    | some children, some tasks => do
      let s := { s with children, tasks, draws := s.draws + 1 }
      pure (s, mappedSession s.sessions params.sessionId, taskId)
    | none, _ => .error (.unique "children.session_id")
    | some _, none => .error (.unique "child_tasks.id")

end Admission

section Actors

/-- The parameters of `registerActor`. -/
structure Registration where
  sessionId : JsString
  generation : ℕ
  actorToken : JsString
  sessionFile : Option JsString
  cwd : Option JsString
  repositoryRoot : Option JsString
deriving DecidableEq, Repr

def registerActor (s : Store) (params : Registration) (now : ℤ) : Result (Store × Option SessionView) := do
  s.assertSessionAvailable params.sessionId
  match s.sessions.get? params.sessionId with
  | none => .error (.error "actor admission does not exist")
  | some row => do
    Checked.require (row.deleted = false) (.error "actor was deleted")
    Checked.require (row.actorToken = params.actorToken ∧ row.actorGeneration = params.generation)
      (.error "actor generation or token is stale")
    let s := s.updateSession params.sessionId fun row =>
      { row with
        sessionFile := params.sessionFile.or row.sessionFile, cwd := params.cwd.getD row.cwd
        repositoryRoot := params.repositoryRoot.or row.repositoryRoot, updatedAt := now }
    pure (s, mappedSession s.sessions params.sessionId)

/-- An actor of the next generation waits for its start. -/
def restarting (actorToken : JsString) (row : Session) : Session :=
  { row with
    lifecycle := .starting, actorToken, actorGeneration := row.actorGeneration + 1, actorPid := none, actorIdentity := none
    streaming := false, activity := .inactive, quietSince := none }

def prepareActorRevival (s : Store) (sessionId actorToken : JsString) (now : ℤ) (force : Bool) (error : Option JsString) :
    Result (Store × Option SessionView) := do
  s.assertSessionAvailable sessionId
  match s.sessions.get? sessionId with
  | none => .error (.error "actor does not exist")
  | some row => do
    Checked.require (row.deleted = false) (.error "actor was deleted")
    Checked.require (actorToken ≠ []) (.error "actorToken is required for revival")
    if force = false ∧ (row.lifecycle = .resident ∨ row.lifecycle = .starting) then
      pure (s, mappedSession s.sessions sessionId)
    else do
      let s := s.updateSession sessionId fun row =>
        { restarting actorToken row with lastError := error, stoppedAt := none, updatedAt := now }
      let s := s.refreshAncestors sessionId now
      pure (s, mappedSession s.sessions sessionId)

/-- What an actor reports at its start. -/
structure Startup where
  pid : Option ℤ
  sessionFile : Option JsString
  processIdentity : Option Value
deriving DecidableEq, Repr

def markActorStarted (s : Store) (sessionId : JsString) (generation : ℕ) (startup : Startup) (now : ℤ) :
    Result (Store × Option SessionView) := do
  s.assertSessionAvailable sessionId
  Checked.require ((s.sessions.get? sessionId).any (fun row =>
    row.actorGeneration = generation ∧ row.lifecycle = .starting) = true) (.error "actor generation is stale or not starting")
  let activity := if 0 < workingDescendantCount s.sessions sessionId then Activity.delegating else .idle
  let s := s.updateSession sessionId fun row =>
    { row with
      lifecycle := .resident, actorPid := startup.pid, actorIdentity := (startup.processIdentity.filter Value.truthy).map written
      sessionFile := startup.sessionFile.or row.sessionFile, startedAt := some now, stoppedAt := none, streaming := false
      activity, quietSince := some now, lastError := none, updatedAt := now }
  let s := s.refreshAncestors sessionId now
  pure (s, mappedSession s.sessions sessionId)

/-- The lifecycles that an ended actor may leave. -/
inductive Ending where
  | passivated
  | stopped
  | error
deriving DecidableEq, Repr

def Ending.lifecycle : Ending → Lifecycle
  | .passivated => .passivated
  | .stopped => .stopped
  | .error => .error

def Ending.ofText (text : JsString) : Option Ending :=
  (([("passivated", .passivated), ("stopped", .stopped), ("error", .error)] : List (String × Ending)).find?
    fun entry => js entry.1 = text).map Prod.snd

/-- An actor ended; an exit that nobody asked for is reported. -/
def markActorLifecycle (env : Env) (observer : Option JsString) (s : Store) (sessionId : JsString) (generation : ℕ)
    (lifecycle : JsString) (error : Option JsString) (now : ℤ) (reportChildExit : Bool) : Result (Store × Bool) :=
  match Ending.ofText lifecycle with
  | none => .error (.text (js "unsupported actor lifecycle: " ++ lifecycle))
  | some ending =>
    let current := s.sessions.get? sessionId
    let reportable := current.any fun row => row.lifecycle = .resident ∨ row.lifecycle = .starting ∨ row.lifecycle = .error
    if reportChildExit && !reportable then .ok (s, false)
    else if current.any fun row => row.actorGeneration = generation ∧ row.deleted = false then
      -- a session without a worker still delegates while any descendant works
      let activity := if 0 < workingDescendantCount s.sessions sessionId then Activity.delegating else .inactive
      let ended := s.updateSession sessionId fun row =>
        { row with
          lifecycle := ending.lifecycle, actorPid := none, actorIdentity := none, streaming := false, activity
          stoppedAt := some now, quietSince := none, lastError := error, updatedAt := now }
      let reported :=
        if reportChildExit ∧ ending = .error then queueChildFailure env observer ended sessionId generation error now none
        else ended
      .ok (reported.refreshAncestors sessionId now, true)
    else .ok (s, false)

def setActorActivity (s : Store) (sessionId : JsString) (generation : ℕ) (streaming : Bool) (now : ℤ) :
    Result (Store × Option SessionView) :=
  match (s.sessions.get? sessionId).filter fun row => row.actorGeneration = generation ∧ row.lifecycle = .resident with
  | none => .error (.error "actor generation is stale or not resident")
  | some row => do
    let activity :=
      if streaming then Activity.working
      else if 0 < workingDescendantCount s.sessions sessionId then .delegating else .idle
    let changed := row.streaming ≠ streaming ∨ row.activity ≠ activity
    let s := s.updateSession sessionId fun row =>
      { row with
        streaming, activity, quietSince := if streaming then none else row.quietSince.or (some now)
        updatedAt := if changed then now else row.updatedAt }
    let s := s.refreshAncestors sessionId now
    pure (s, mappedSession s.sessions sessionId)

def recordSessionLastError (s : Store) (sessionId : JsString) (generation : ℕ) (error : Option JsString) (now : ℤ) :
    Store × Bool :=
  if error.all (· = []) then (s, false)
  else
    let current (row : Session) : Bool := row.actorGeneration = generation ∧ row.deleted = false
    (s.updateSession sessionId fun row => if current row then { row with lastError := error, updatedAt := now } else row,
      (s.sessions.get? sessionId).any current)

end Actors

section Renaming

/-- Give a session a name under the unique indexes. -/
def renameSession (s : Store) (sessionId : JsString) (row : Session) (displayName : JsString) (now : ℤ) : Result Store := do
  let renamed := { row with displayName, updatedAt := now }
  Checked.require (nameTaken s.sessions sessionId renamed = false) (.unique (nameIndex row.kind))
  pure (s.updateSession sessionId fun _ => renamed)

def setSessionName (env : Env) (s : Store) (sessionId : JsString) (name : Option JsString) (now : ℤ) :
    Result (Store × Option SessionView) :=
  match (s.sessions.get? sessionId).filter fun row => !row.deleted with
  | none => .error (.error "session does not exist")
  | some row => do
    let fallback := if row.kind = .root then defaultRootName env row.cwd sessionId else row.displayName
    let displayName := orElse (trimmedName name) fallback
    Checked.require (row.kind = .root ∨ displayName = row.displayName) (.error "child names are immutable after admission")
    let s ← renameSession s sessionId row displayName now
    pure (s, mappedSession s.sessions sessionId)

def rootNameTaken (sessions : Sessions) (name exceptSessionId : JsString) : Bool :=
  sessions.any fun id row => row.kind = .root ∧ row.deleted = false ∧ row.displayName = name ∧ id ≠ exceptSessionId

def autoNameDefaultRoot (env : Env) (s : Store) (sessionId : JsString) (title : Option JsString) (now : ℤ) :
    Result (Store × Bool) :=
  match (s.sessions.get? sessionId).filter fun row => row.deleted = false ∧ row.kind = .root
      ∧ row.displayName = defaultRootName env row.cwd sessionId,
    title with
  | some row, some title =>
    if title.trim = [] ∨ title = row.displayName then .ok (s, false)
    else
      match allocateUniqueRootName title row.shortId fun name => rootNameTaken s.sessions name sessionId with
      | none => .ok (s, false)
      | some name => do
        let s ← renameSession s sessionId row name now
        pure (s, true)
  | _, _ => .ok (s, false)

end Renaming

section Tasks

structure TaskView where
  taskId : JsString
  row : ChildTask
deriving DecidableEq, Repr

def markChildTaskSubmitted (s : Store) (taskId : JsString) (now : ℤ) : Result (Store × TaskView) :=
  match (s.tasks.get? taskId).filter fun row => row.state = .queued with
  | none => .error (.error "child task is not queued")
  | some row =>
    let submitted := { row with state := .submitted, submittedAt := some now }
    .ok ({ s with tasks := s.tasks.update taskId fun _ => submitted }, ⟨taskId, submitted⟩)

/-- `ORDER BY submitted_at, id`. -/
def submittedBefore (a b : JsString × ChildTask) : Bool :=
  let submittedAt (row : ChildTask) : ℤ := row.submittedAt.getD 0
  submittedAt a.2 < submittedAt b.2 ∨ submittedAt a.2 = submittedAt b.2 ∧ a.1.le b.1 = true

def submittedChildTask (s : Store) (childId : JsString) : Option (JsString × ChildTask) :=
  (s.tasks.select (fun _ row => row.childId = childId ∧ row.state = .submitted) submittedBefore 1).head?

def completeSubmittedChildTask (s : Store) (childId : JsString) (error : Option JsString) (now : ℤ) :
    Store × Option TaskView :=
  match submittedChildTask s childId with
  | none => (s, none)
  | some (taskId, row) =>
    let failed := error.any (· ≠ [])
    let done := { row with state := if failed then .failed else .completed, completedAt := some now, error }
    ({ s with tasks := s.tasks.update taskId fun _ => done }, some ⟨taskId, done⟩)

/-- A transcript entry of the parent, as `recordChildCreationEntry` takes it. -/
structure CreationEntry where
  taskId : JsString
  childId : JsString
  childName : JsString
  relationship : JsString
  entryId : JsString
  body : Option JsString
deriving DecidableEq, Repr

def recordChildCreationEntry (s : Store) (parentId : JsString) (entry : CreationEntry) : Result (Store × TaskView × Bool) := do
  match (s.tasks.get? entry.taskId).filter fun row => row.childId = entry.childId with
  | none => .error (.error "child creation task does not belong to this parent")
  | some row => do
    Checked.require ((s.sessions.get? entry.childId).any (fun child =>
        child.parentSessionId = some parentId ∧ child.kind = .child) = true)
      (.error "child creation task does not belong to this parent")
    Checked.require (row.prompt = entry.body ∧ row.historyPeerName = entry.childName ∧ entry.relationship = js "child")
      (.error "child creation history entry does not match its durable task")
    let saved := row.historyEntryId.filter (· ≠ [])
    Checked.require (saved.all (· = entry.entryId) = true) (.error "child creation already has a different transcript entry")
    if saved.isSome then pure (s, ⟨entry.taskId, row⟩, false)
    else do
      -- the update spares an entry that is not null
      let recorded := { row with historyEntryId := row.historyEntryId.or (some entry.entryId) }
      Checked.require (row.historyEntryId.isSome = true ∨ (s.tasks.any fun id task =>
        id ≠ entry.taskId ∧ task.historyEntryId = some entry.entryId) = false) (.unique "child_tasks.history_entry_id")
      pure ({ s with tasks := s.tasks.update entry.taskId fun _ => recorded }, ⟨entry.taskId, recorded⟩, true)

end Tasks

end PersistentHarness.SessionStore
