import Mathlib.Logic.Function.Basic
import PersistentHarness.Model.Session.Run

/-! # Skill grants

A session may use the skills of its grant. A reconciliation brings the stored grant up to its parent's, or a root's
to the catalog on disk, and then the two files beside the transcript. It stores the grant first, so a crash or a
failed write may leave the files behind.
-/

namespace PersistentHarness.SkillGrants

open SessionStore (Store Failure Result)

section Catalogs

variable (resolve : JsString → JsString)

/-- A skill of a catalog; `loadSkill` has resolved its path. -/
structure Skill where
  id : JsString
  version : JsString
  contentHash : JsString
  skillPath : { path : JsString // resolve path = path }
  pythonBacked : Bool
deriving DecidableEq

structure Capability where
  id : JsString
  version : JsString
  contentHash : JsString
  skillPath : { path : JsString // resolve path = path }
deriving DecidableEq

/-- The file `….skill-grant.json`. -/
structure GrantSidecar where
  version : ℕ
  skills : List (Skill resolve)
  capabilities : Option (List (Capability resolve))
deriving DecidableEq

/-- The file `….capabilities.json`. -/
structure CapabilitiesSidecar where
  version : ℕ
  capabilities : List (Capability resolve)
deriving DecidableEq

variable {resolve}

/-- `{ ...item, pythonBacked: true }`. -/
def Capability.backed (capability : Capability resolve) : Skill resolve :=
  ⟨capability.id, capability.version, capability.contentHash, capability.skillPath, true⟩

def sameSkill (skill other : Skill resolve) : Bool :=
  skill.id = other.id ∧ skill.version = other.version ∧ skill.contentHash = other.contentHash
    ∧ resolve skill.skillPath = resolve other.skillPath ∧ skill.pythonBacked = other.pythonBacked

def sameSkillCatalog (left right : List (Skill resolve)) : Bool :=
  left.length = right.length ∧ (left.zip right).all (fun pair => sameSkill pair.1 pair.2) = true

def executableCapabilities (skills : List (Skill resolve)) : List (Capability resolve) :=
  (skills.filter Skill.pythonBacked).map fun skill => ⟨skill.id, skill.version, skill.contentHash, skill.skillPath⟩

/-- What `#rootSkillCatalog` meets: the catalog it discovers, whether that one's runtime is ready, and whether the
retained skills still match the disk. -/
structure Disk (resolve : JsString → JsString) where
  discovered : Option (List (Skill resolve))
  runtimeReady : Bool
  retainedMatches : Bool

def rootSkillCatalog (previous : Option (List (Skill resolve))) (disk : Disk resolve) : Option (List (Skill resolve)) :=
  let retained := previous.filter fun _ => disk.retainedMatches
  match disk.discovered with
  | some skills =>
    if previous.all (fun known => sameSkillCatalog known skills) || disk.runtimeReady then some skills else retained
  | none => retained

def grantSidecarCurrent (persisted : Option (GrantSidecar resolve)) (skills : List (Skill resolve)) : Bool :=
  persisted.any fun file =>
    file.version = 1 ∧ sameSkillCatalog file.skills skills
      ∧ sameSkillCatalog ((file.capabilities.getD []).map Capability.backed)
        ((executableCapabilities skills).map Capability.backed)

end Catalogs

section Reconciliations

variable (resolve : JsString → JsString)

/-- What a reconciliation waits for. -/
inductive Stage where
  /-- `#rootSkillCatalog`. -/
  | selecting
  | inheriting (parentId : JsString)
  | reading (skills : List (Skill resolve)) (changed : Bool)
  | granting (skills : List (Skill resolve)) (changed : Bool)
  /-- The capabilities sidecar is written. -/
  | enabling (skills : List (Skill resolve))
deriving DecidableEq

/-- A run of `#reconcileSkillGrantOnce`. -/
structure Reconciliation where
  sessionId : JsString
  parentId : Option JsString
  previous : Option (List (Skill resolve))
  stage : Stage resolve
deriving DecidableEq

/-- What a reconciliation returns. -/
structure Reconciled where
  sessionId : JsString
  parentId : Option JsString
  skills : List (Skill resolve)
  capabilities : List (Capability resolve)
  changed : Bool
deriving DecidableEq

/-- Sessions with their stored grants and the files beside their transcripts, and the reconciliations in progress: in
each call the innermost first, every other one waiting for the one before it. -/
structure System where
  store : Store
  grants : Table JsString (List (Skill resolve))
  grantSidecars : JsString → Option (GrantSidecar resolve)
  capabilitiesSidecars : JsString → Option (CapabilitiesSidecar resolve)
  calls : List (List (Reconciliation resolve))

end Reconciliations

variable {resolve : JsString → JsString}

/-- No grant is stored; files may lie beside transcripts that are there already. -/
def System.initial (grantSidecars : JsString → Option (GrantSidecar resolve))
    (capabilitiesSidecars : JsString → Option (CapabilitiesSidecar resolve)) : System resolve :=
  ⟨.empty, .empty, grantSidecars, capabilitiesSidecars, []⟩

namespace System

section Grants

def getSessionSkillGrant (s : System resolve) (sessionId : JsString) : Option (List (Skill resolve)) :=
  s.grants.get? sessionId

def granted (parentGrant : List (Skill resolve)) (skill : Skill resolve) : Bool :=
  (parentGrant.reverse.find? fun other => other.id = skill.id).any fun expected =>
    expected.version = skill.version ∧ expected.contentHash = skill.contentHash ∧ expected.skillPath = skill.skillPath
      ∧ expected.pythonBacked = skill.pythonBacked

def exceedsParent (skill : Skill resolve) : Failure :=
  .text (js "child skill grant exceeds or differs from immediate parent: " ++ skill.id)

/-- A child gets no skill that its parent does not have. -/
def checkParentGrant (s : System resolve) (row : Session) (skills : List (Skill resolve)) : Result Unit :=
  if row.kind = .child then
    match row.parentSessionId.bind s.getSessionSkillGrant with
    | none => .error (.error "immediate parent skill grant is unavailable")
    | some parentGrant =>
      match skills.find? (fun skill => granted parentGrant skill = false) with
      | some skill => .error (exceedsParent skill)
      | none => .ok ()
  else .ok ()

def setSessionSkillGrant (s : System resolve) (sessionId : JsString) (skills : List (Skill resolve)) :
    Result (System resolve) :=
  match s.store.sessions.get? sessionId with
  | none => .error (.error "session does not exist")
  | some row => do
    Checked.require (row.deleted = false) (.error "session does not exist")
    Checked.require (skills.length ≤ 128) (.error "skill grant must contain at most 128 skills")
    s.checkParentGrant row skills
    pure { s with grants := s.grants.upsert sessionId skills fun _ => skills }

end Grants

/-- What a new run of `#reconcileSkillGrantOnce` does up to its first await. -/
def start (s : System resolve) (sessionId : JsString) : Result (Reconciliation resolve) :=
  match s.store.sessions.get? sessionId with
  | none => .error (.error "session does not exist")
  | some row => do
    Checked.require (row.deleted = false ∧ row.sessionFile.any (· ≠ []) = true) (.error "session does not exist")
    let previous := s.getSessionSkillGrant sessionId
    match row.kind, row.parentSessionId with
    | .root, _ => pure ⟨sessionId, none, previous, .selecting⟩
    | .child, some parentId => pure ⟨sessionId, some parentId, previous, .inheriting parentId⟩
    | .child, none => .error (.error "child session has no immediate parent")

/-- `#skillGrantPromises` has an entry for the session. -/
def reconciling (s : System resolve) (sessionId : JsString) : Bool :=
  s.calls.any fun call => call.any fun run => run.sessionId = sessionId

def setCall (s : System resolve) (n : ℕ) (call : List (Reconciliation resolve)) : System resolve :=
  { s with calls := s.calls.set n call }

def drop (s : System resolve) (n : ℕ) : System resolve := { s with calls := s.calls.eraseIdx n }

/-- The skills of a session are known: its grant is stored if they changed. -/
def settle (s : System resolve) (n : ℕ) (run : Reconciliation resolve) (rest : List (Reconciliation resolve))
    (skills : List (Skill resolve)) : System resolve :=
  let changed := run.previous.all fun previous => sameSkillCatalog previous skills = false
  if changed then
    match s.setSessionSkillGrant run.sessionId skills with
    | .ok stored => stored.setCall n ({ run with stage := .reading skills true } :: rest)
    | .error _ => s.drop n
  else s.setCall n ({ run with stage := .reading skills false } :: rest)

/-- A reconciliation returns. The one that waits for it goes on before anything else may, unless its activation has
been stopped. -/
def finish (s : System resolve) (n : ℕ) (run : Reconciliation resolve) (rest : List (Reconciliation resolve))
    (skills : List (Skill resolve)) (changed valid : Bool) : System resolve × Option (Reconciled resolve) :=
  let result : Reconciled resolve := ⟨run.sessionId, run.parentId, skills, executableCapabilities skills, changed⟩
  match rest with
  | [] => (s.drop n, some result)
  | waiting :: rest =>
    (if valid then (s.setCall n (waiting :: rest)).settle n waiting rest skills else s.drop n, some result)

end System

inductive Event (resolve : JsString → JsString) where
  | store (env : SessionStore.Env) (now : ℤ) (observer : Option JsString) (op : SessionStore.Op)
  /-- A call of `#reconcileSkillGrant` has its turn. -/
  | reconcile (sessionId : JsString)
  /-- The call for the parent has its turn. -/
  | inherit (n : ℕ)
  /-- `#rootSkillCatalog` is over. -/
  | select (n : ℕ) (disk : Disk resolve)
  /-- The grant sidecar has been read, or cannot be. -/
  | read (n : ℕ) (readable valid : Bool)
  /-- The pending write has replaced its file. -/
  | write (n : ℕ) (valid : Bool)
  /-- The activation has been stopped, or the store or a file cannot be written. -/
  | fail (n : ℕ)
  | crash

def step (s : System resolve) : Event resolve → System resolve × Option (Reconciled resolve)
  | .store env now observer op => ({ s with store := (SessionStore.step env observer s.store now op).1 }, none)
  | .reconcile sessionId =>
    if s.reconciling sessionId then (s, none)
    else
      match s.start sessionId with
      | .ok run => ({ s with calls := s.calls ++ [[run]] }, none)
      | .error _ => (s, none)
  | .inherit n =>
    match s.calls[n]? with
    | some (run :: rest) =>
      match run.stage with
      | .inheriting parentId =>
        -- An ancestor that is its own descendant is refused before it waits for itself.
        if (run :: rest).any fun other => other.sessionId = parentId then (s.drop n, none)
        else if s.reconciling parentId then (s, none)
        else
          match s.start parentId with
          | .ok parent => (s.setCall n (parent :: run :: rest), none)
          | .error _ => (s.drop n, none)
      | _ => (s, none)
    | _ => (s, none)
  | .select n disk =>
    match s.calls[n]? with
    | some (run :: rest) =>
      match run.stage with
      | .selecting =>
        match rootSkillCatalog run.previous disk with
        | some skills => (s.settle n run rest skills, none)
        | none => (s.drop n, none)
      | _ => (s, none)
    | _ => (s, none)
  | .read n readable valid =>
    match s.calls[n]? with
    | some (run :: rest) =>
      match run.stage with
      | .reading skills changed =>
        let current := readable && grantSidecarCurrent (s.grantSidecars run.sessionId) skills
        if changed || !current then (s.setCall n ({ run with stage := .granting skills changed } :: rest), none)
        else s.finish n run rest skills false valid
      | _ => (s, none)
    | _ => (s, none)
  | .write n valid =>
    match s.calls[n]? with
    | some (run :: rest) =>
      match run.stage with
      | .granting skills changed =>
        let file : GrantSidecar resolve := ⟨1, skills, some (executableCapabilities skills)⟩
        let s := { s with grantSidecars := Function.update s.grantSidecars run.sessionId (some file) }
        if changed then (s.setCall n ({ run with stage := .enabling skills } :: rest), none)
        else s.finish n run rest skills false valid
      | .enabling skills =>
        let file : CapabilitiesSidecar resolve := ⟨1, executableCapabilities skills⟩
        let s := { s with capabilitiesSidecars := Function.update s.capabilitiesSidecars run.sessionId (some file) }
        s.finish n run rest skills true valid
      | _ => (s, none)
    | _ => (s, none)
  | .fail n => (s.drop n, none)
  | .crash => ({ s with calls := [] }, none)

def run (initial : System resolve) (events : List (Event resolve)) : System resolve :=
  events.foldl (fun s event => (step s event).1) initial

end PersistentHarness.SkillGrants
