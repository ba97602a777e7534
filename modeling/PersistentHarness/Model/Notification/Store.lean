import Mathlib
import PersistentHarness.Model.Session.Store

/-! # The notification store

The tables of notifications, their deliveries to endpoints, and the attention episode of each session
family. Sessions belong to another store of the same database: every call reads them as they are then.
A random id is the number of its draw; `Env.uuid` spells it.
-/

namespace PersistentHarness.Notifications

def retryMs : List ℤ := [5000, 30000, 120000, 300000, 900000]
def leaseMs : ℤ := 60000
def claimLimit : ℕ := 8
/-- An idle notice stays until it is read or a newer episode replaces it; this only bounds forgotten ones. -/
def idleTtlMs : ℤ := 7 * 24 * 60 * 60 * 1000

/-- What a store is given for good: the digest of `notificationId`, the spelling of random ids, `Date.parse`
and the quiet time. -/
structure Env where
  digest : JsString → JsString
  uuid : ℕ → JsString
  parseDate : JsString → Option ℤ
  idleMs : ℤ

def Env.notificationId (env : Env) (key : JsString) : JsString := env.digest key

/-- What a call finds around it: the sessions, and which roots notify the user. -/
structure World where
  sessions : Sessions
  notifiesRoot : JsString → Bool

inductive Owner where
  | user
  | cron
  | unknown
deriving DecidableEq, Repr

inductive Kind where
  | idle
  | attention
  | cron
deriving DecidableEq, Repr

inductive State where
  | pending
  | resolved
  | cancelled
  | expired
  | superseded
deriving DecidableEq, Repr

inductive Closer where
  | agent
  | user
deriving DecidableEq, Repr

inductive DeliveryState where
  | pending
  | inflight
  | accepted
  | failed
  | suppressed
  | expired
deriving DecidableEq, Repr

/-- The deliveries that a claim may still lease. -/
def DeliveryState.isOpen (state : DeliveryState) : Bool := state = .pending ∨ state = .inflight

/-- What an endpoint reports about a lease. -/
inductive Status where
  | accepted
  | retry
  | gone
  | failed
  | suppressed
deriving DecidableEq, Repr

def Status.name : Status → String
  | .accepted => "accepted"
  | .retry => "retry"
  | .gone => "gone"
  | .failed => "failed"
  | .suppressed => "suppressed"

def Status.ofText (text : JsString) : Option Status :=
  [Status.accepted, .retry, .gone, .failed, .suppressed].find? fun status => js status.name = text

def State.ofTransition (text : JsString) : Option State :=
  (([("resolved", .resolved), ("cancelled", .cancelled), ("superseded", .superseded)] : List (String × State)).find?
    fun entry => js entry.1 = text).map Prod.snd

/-- Who closed a notification: the agent withdrew its request, the user dismissed it, or nobody. -/
def Closer.ofText : Option JsString → Option (Option Closer)
  | none => some none
  | some text => if text = js "agent" then some (some .agent) else if text = js "user" then some (some .user) else none

/-- A row of `notification_families`, the attention episode of a root. -/
structure Episode where
  episodeId : Option ℕ
  owner : Owner
  openedAt : Option ℤ
  quietSince : Option ℤ
  closedAt : Option ℤ
  pendingUser : Bool
  pendingOwner : Option Owner
deriving DecidableEq, Repr

/-- The defaults of the columns of a new row. -/
def Episode.initial : Episode := ⟨none, .user, none, none, none, false, none⟩

def Episode.isOpen (episode : Episode) : Bool := episode.episodeId.isSome && episode.closedAt.isNone

/-- A row of `notification_ownership`. -/
structure Checkpoint where
  rootId : JsString
  observedAt : ℤ
  owner : Owner
deriving DecidableEq, Repr

/-- A row of `notification_origins`. -/
structure Origin where
  rootId : JsString
  sessionId : JsString
  createdAt : Option ℤ
  owner : Owner
  admitted : Bool
deriving DecidableEq, Repr

/-- A row of `notifications`; its id is the key of the table and `seq` its place. -/
structure Notification where
  sourceKey : JsString
  rootId : JsString
  sessionId : JsString
  episodeId : Option ℕ
  kind : Kind
  title : JsString
  body : JsString
  createdAt : ℤ
  expiresAt : ℤ
  state : State
  readAt : Option ℤ
  updatedAt : ℤ
  closedBy : Option Closer
  source : Value
deriving DecidableEq, Repr

/-- A row of `notification_deliveries`; the notification and the endpoint are its key. -/
structure Delivery where
  state : DeliveryState
  attempts : ℕ
  dueAt : ℤ
  leaseId : Option ℕ
  leaseUntil : Option ℤ
  code : Option JsString
  acceptedAt : Option ℤ
  closeClaimedAt : Option ℤ
deriving DecidableEq, Repr

structure Store where
  families : Table JsString Episode
  ownership : List Checkpoint
  origins : Table JsString Origin
  notifications : Table JsString Notification
  deliveries : Table (JsString × JsString) Delivery
  draws : ℕ

def Store.empty : Store := ⟨.empty, [], .empty, .empty, .empty, 0⟩

/-- `clean`: control characters become spaces, and the text is trimmed and cut. -/
def clean (text : Option JsString) (max : ℕ) : JsString :=
  (JsString.trim ((text.getD []).map fun u => if u < 0x20 ∨ u = 0x7F then 0x20 else u)).take max

section Families

/-- A live member of a family. -/
structure Member where
  id : JsString
  activity : Activity
  lifecycle : Lifecycle
  streaming : Bool
deriving DecidableEq, Repr

/-- What `family` projects of the sessions. -/
structure Family where
  rootId : JsString
  title : JsString
  members : List Member
  active : Bool
  starting : Bool
deriving DecidableEq, Repr

/-- The row at the end of the parent edges, or where they come back to a row seen before. -/
def walkToRoot (sessions : Sessions) : ℕ → List JsString → JsString → Option (JsString × Session)
  | 0, _, id => (sessions.get? id).map (id, ·)
  | fuel + 1, seen, id =>
    match sessions.get? id with
    | none => none
    | some row =>
      match row.ancestor with
      | none => some (id, row)
      | some parent => if id ∈ seen then some (id, row) else walkToRoot sessions fuel (id :: seen) parent

/-- The family of a session, unless its root is deleted or not a root. Each step of the walk but the last sees
a new row. -/
def family (sessions : Sessions) (sessionId : JsString) : Option Family :=
  match walkToRoot sessions (sessions.rows.length + 1) [] sessionId with
  | none => none
  | some (rootId, root) =>
    if root.deleted || root.kind ≠ .root then none
    else
      let members := (sessions.descendants Session.parentSessionId (fun row => !row.deleted) [rootId]).filterMap fun id =>
        (sessions.get? id).map fun row => (⟨id, row.activity, row.lifecycle, row.streaming⟩ : Member)
      some
        { rootId, title := root.displayName, members
          active := members.any fun member => member.streaming || member.activity = .working
          starting := members.any fun member => member.lifecycle = .starting }

end Families

section Ownership

/-- Record a change of the owner of a root. -/
def checkpoint (s : Store) (rootId : JsString) (owner : Owner) (now : ℤ) : Store :=
  if ((s.ownership.filter fun row => row.rootId = rootId).getLast?).map (·.owner) = some owner then s
  else { s with ownership := s.ownership ++ [⟨rootId, now, owner⟩] }

def noteUserInput (world : World) (s : Store) (sessionId : JsString) (now : ℤ) : Store :=
  match family world.sessions sessionId with
  | none => s
  | some family =>
    let families := s.families.upsert family.rootId { Episode.initial with pendingUser := true } fun episode =>
      { episode with
        pendingUser := !episode.isOpen
        owner := if episode.isOpen then .user else episode.owner }
    checkpoint { s with families } family.rootId .user now

/-- The latest of some checkpoints, the later row among equals. -/
def latest (rows : List Checkpoint) : Option Checkpoint :=
  rows.foldl (fun best row => match best with
    | none => some row
    | some prior => if prior.observedAt ≤ row.observedAt then some row else some prior) none

/-- The instant that a creation time names, when it is a nonnegative safe integer. -/
def creationTime (env : Env) (createdAt : Value) : Option ℤ :=
  match createdAt with
  | .num n => n.toSafeNat?.map Int.ofNat
  | .str text => (env.parseDate text).filter fun ms => 0 ≤ ms ∧ ms ≤ 9007199254740991
  | _ => none

/-- Attribute a key to the owner before its creation; ties with another owner stay unknown. -/
def bindOrigin (env : Env) (world : World) (s : Store) (sessionId key : JsString) (createdAt : Value) :
    Store × Option Origin :=
  match family world.sessions sessionId with
  | none => (s, none)
  | some family =>
    match s.origins.get? key with
    | some saved => (s, some saved)
    | none =>
      let timestamp := creationTime env createdAt
      let rows := s.ownership.filter fun row => row.rootId = family.rootId
      let prior := timestamp.bind fun at_ => latest (rows.filter fun row => row.observedAt < at_)
      let ties := rows.filter fun row => some row.observedAt = timestamp
      let owner := match prior with
        | some prior => if ties.all fun row => row.owner = prior.owner then prior.owner else .unknown
        | none => .unknown
      let origin : Origin := ⟨family.rootId, sessionId, timestamp, owner, false⟩
      ({ s with origins := s.origins.insertOrIgnore key origin }, some origin)

/-- Admit a continuation: its owner joins an open episode, or waits for the next one. -/
def admitOrigin (s : Store) (key : JsString) (origin : Origin) : Store :=
  { s with
    origins := s.origins.update key fun row => { row with admitted := true }
    families := s.families.upsert origin.rootId { Episode.initial with pendingOwner := some origin.owner } fun episode =>
      { episode with
        pendingOwner :=
          if episode.isOpen then episode.pendingOwner
          else if episode.pendingOwner = some .user ∨ origin.owner = .user then some .user
          else some origin.owner
        owner := if episode.isOpen ∧ origin.owner = .user then .user else episode.owner } }

def noteContinuation (env : Env) (world : World) (s : Store) (sessionId key : JsString) (createdAt : Value) (now : ℤ) :
    Store :=
  match bindOrigin env world s sessionId key createdAt with
  | (s, none) => s
  | (s, some origin) =>
    if origin.admitted then s
    else
      match ((admitOrigin s key origin).families.get? origin.rootId).filter Episode.isOpen with
      | some active => checkpoint (admitOrigin s key origin) origin.rootId active.owner now
      | none => admitOrigin s key origin

end Ownership

section Notices

def expire (s : Store) (now : ℤ) : Store :=
  { s with notifications := s.notifications.modify fun _ row =>
      if row.state = .pending ∧ row.expiresAt ≤ now then { row with state := .expired, updatedAt := now } else row }

def get (s : Store) (id : JsString) (now : ℤ) : Store × Option Notification :=
  let s := expire s now
  (s, s.notifications.get? id)

/-- The parameters of `create`. -/
structure NewNotification where
  key : JsString
  rootId : JsString
  sessionId : JsString
  episodeId : Option ℕ
  kind : Kind
  title : Option JsString
  body : Option JsString
  expiresAt : ℤ
  source : Value

/-- Store a notification unless its id is taken. -/
def create (env : Env) (world : World) (s : Store) (params : NewNotification) (now : ℤ) : Store × Option Notification :=
  if world.notifiesRoot params.rootId then
    let id := env.notificationId params.key
    let episodeId := params.episodeId.or
      (((s.families.get? params.rootId).filter fun episode => episode.closedAt.isNone).bind Episode.episodeId)
    let row : Notification :=
      { sourceKey := params.key, rootId := params.rootId, sessionId := params.sessionId, episodeId, kind := params.kind
        title := clean params.title 120, body := clean params.body 1000, createdAt := now, expiresAt := params.expiresAt
        state := .pending, readAt := none, updatedAt := now, closedBy := none, source := params.source }
    get { s with notifications := s.notifications.insertOrIgnore id row } id now
  else (s, none)

/-- The parameters of an agent's request for attention. -/
structure Request where
  key : JsString
  title : JsString
  body : JsString
  expiresIn : ℤ

def attentionKey (sessionId key : JsString) : JsString := js "attention:" ++ sessionId ++ js ":" ++ key

def request (env : Env) (world : World) (s : Store) (sessionId : JsString) (params : Request) (now : ℤ)
    (actorGeneration : Value) : Store × Option Notification :=
  create env world s
    { key := attentionKey sessionId params.key, rootId := sessionId, sessionId
      episodeId := (s.families.get? sessionId).bind Episode.episodeId, kind := .attention, title := some params.title
      body := some params.body, expiresAt := now + params.expiresIn * 1000
      source := .record [("type", Value.text "explicit"), ("key", .str params.key), ("actorGeneration", actorGeneration)] } now

/-- Move a pending notification on, and record who did. -/
def transition (s : Store) (id state : JsString) (now : ℤ) (closedBy : Option JsString) :
    Except JsString (Store × Option Notification) :=
  match State.ofTransition state, Closer.ofText closedBy with
  | none, _ => .error (js "invalid notification transition")
  | some _, none => .error (js "invalid notification closer")
  | some state, some closedBy =>
    let s := expire s now
    .ok (get { s with notifications := s.notifications.update id fun row =>
      if row.state = .pending then { row with state, closedBy, updatedAt := now } else row } id now)

def resolveKey (env : Env) (s : Store) (sessionId key : JsString) (now : ℤ) : Except JsString (Store × Option Notification) :=
  transition s (env.notificationId (attentionKey sessionId key)) (js "resolved") now (some (js "agent"))

def read (s : Store) (id : JsString) (now : ℤ) : Store × Option Notification :=
  get { s with notifications := s.notifications.update id fun row =>
    { row with readAt := row.readAt.or (some now), updatedAt := now } } id now

def cancelSession (s : Store) (id : JsString) (now : ℤ) : Store :=
  { s with
    notifications := s.notifications.modify fun _ row =>
      if (row.sessionId = id ∨ row.rootId = id) ∧ row.state = .pending then { row with state := .cancelled, updatedAt := now }
      else row
    families := s.families.update id fun episode =>
      if episode.closedAt = none then { episode with closedAt := some now } else episode }

/-- A restart cannot revive a generation-bound interactive approval. -/
def cancelDialogs (s : Store) (now : ℤ) : Store :=
  { s with notifications := s.notifications.modify fun _ row =>
      if row.state = .pending ∧ row.source.get (js "type") = Value.text "extension_ui" then
        { row with state := .cancelled, updatedAt := now }
      else row }

end Notices

section Observations

structure Observation where
  owner : Option Owner
  backgroundCount : ℕ
  liveActors : List JsString
deriving DecidableEq, Repr

def Observation.live (options : Observation) (family : Family) : Bool :=
  family.members.any fun member => options.liveActors.contains member.id

/-- Whose episode opens next: a user input, then pending continuations, then the observer's word, then the
last episode decide. -/
def nextOwner (options : Observation) (episode : Option Episode) : Owner :=
  if episode.any Episode.pendingUser then .user
  else (episode.bind Episode.pendingOwner).getD
    (if options.owner = some .cron then .cron else (episode.map Episode.owner).getD .user)

def openEpisode (s : Store) (rootId : JsString) (options : Observation) (now : ℤ) : Store :=
  let owner := nextOwner options (s.families.get? rootId)
  let episode : Episode := ⟨some s.draws, owner, some now, none, none, false, none⟩
  checkpoint
    { s with
      draws := s.draws + 1
      notifications := s.notifications.modify fun _ row =>
        if row.rootId = rootId ∧ row.kind = .idle ∧ row.state = .pending then
          { row with state := .superseded, updatedAt := now }
        else row
      families := s.families.upsert rootId episode fun _ => episode } rootId owner now

def setQuiet (s : Store) (rootId : JsString) (quietSince : Option ℤ) : Store :=
  { s with families := s.families.update rootId fun episode => { episode with quietSince } }

def idleKey (env : Env) (episodeId : ℕ) : JsString := js "idle:" ++ env.uuid episodeId

/-- An episode ends, and is worth a notice when it was the user's and nothing else explains the quiet. -/
def closeEpisode (env : Env) (world : World) (s : Store) (family : Family) (episode : Episode) (episodeId : ℕ) (now : ℤ) :
    Store × Option Notification :=
  let s := { s with families := s.families.update family.rootId fun row => { row with closedAt := some now } }
  let needs := s.notifications.any fun _ row =>
    row.rootId = family.rootId ∧ row.kind = .attention ∧ row.episodeId = some episodeId ∧ row.state = .pending
      ∧ now < row.expiresAt
  if episode.owner ≠ .user ∨ needs = true then (s, none)
  else
    let title := clean (some family.title) 120
    create env world s
      { key := idleKey env episodeId, rootId := family.rootId, sessionId := family.rootId, episodeId := some episodeId
        kind := .idle, title := some (if title = [] then js "Activity stopped" else title)
        body := some (js "The conversation and its agents are now idle."), expiresAt := now + idleTtlMs
        source := .record [("type", Value.text "family_idle"), ("episodeId", .str (env.uuid episodeId))] } now

def observe (env : Env) (world : World) (s : Store) (sessionId : JsString) (options : Observation) (now : ℤ)
    (family : Option Family) : Store × Option Notification :=
  match family with
  | none => (cancelSession s sessionId now, none)
  | some family =>
    let episode := (s.families.get? family.rootId).filter Episode.isOpen
    if family.active || options.live family then
      match episode with
      | none => (openEpisode s family.rootId options now, none)
      | some _ => (setQuiet s family.rootId none, none)
    else
      match episode with
      | none => (s, none)
      | some episode =>
        -- a running background job is still the family's work, so the quiet wait starts when it ends
        if family.starting || 0 < options.backgroundCount then (setQuiet s family.rootId none, none)
        else
          match episode.quietSince, episode.episodeId with
          | some quietSince, some episodeId =>
            if now - quietSince < env.idleMs then (s, none)
            else closeEpisode env world s family episode episodeId now
          | _, _ => (setQuiet s family.rootId (some now), none)

end Observations

end PersistentHarness.Notifications
