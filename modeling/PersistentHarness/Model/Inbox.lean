import PersistentHarness.Model.Session.Run

/-! # The inbox

Registered programs post messages. A request is checked against the records of earlier ones, delivered to its
sessions as background inputs, and recorded when the delivery is over; requests overlap at each of their awaits.
-/

namespace PersistentHarness.Inbox

open SessionStore (Store NewInput)

section Tables

inductive Kind where
  | news
  | maintenance
deriving DecidableEq, Repr

def Kind.name : Kind → JsString
  | .news => js "news"
  | .maintenance => js "maintenance"

/-- A row of `inbox_senders`; its name is the key of the table. -/
structure SenderRow where
  keyHash : JsString
  kind : Kind
  ratePerHour : ℕ
deriving DecidableEq, Repr

/-- What `authenticate` tells of a sender. -/
structure Sender where
  name : JsString
  kind : Kind
  ratePerHour : ℕ
deriving DecidableEq, Repr

inductive Target where
  | session (sessionId : JsString)
  | workingRoots
deriving DecidableEq, Repr

/-- A row of `inbox_messages`; the sender and the message id are the key of the table. -/
structure MessageRow where
  route : JsString
  receivedAt : ℤ
  deliveredTo : List JsString
deriving DecidableEq, Repr

structure InboxStore where
  senders : Table JsString SenderRow
  routes : Table JsString Target
  messages : Table (JsString × JsString) MessageRow

def hourMs : ℤ := 60 * 60 * 1000

def messageRetentionMs : ℤ := 30 * 24 * hourMs

/-- What the server is given for good: the store's environment and the limit of pending inputs. -/
structure Config where
  env : SessionStore.Env
  pendingMessageLimit : ℕ

def authenticate (config : Config) (store : InboxStore) (key : JsString) : Option Sender :=
  let owned (name : JsString) (row : SenderRow) : Option Sender :=
    if row.keyHash = config.env.sha256 key then some ⟨name, row.kind, row.ratePerHour⟩ else none
  if 16 ≤ key.length ∧ key.length ≤ 256 then (store.senders.collect owned).head? else none

def recentCount (store : InboxStore) (sender : JsString) (now : ℤ) : ℕ :=
  store.messages.count fun key row => key.1 = sender ∧ now - hourMs < row.receivedAt

def previousDelivery (store : InboxStore) (sender messageId : JsString) : Option (List JsString) :=
  (store.messages.get? (sender, messageId)).map MessageRow.deliveredTo

def insertMessage (store : InboxStore) (sender messageId route : JsString) (deliveredTo : List JsString) (now : ℤ) :
    InboxStore :=
  { store with messages := store.messages.insertOrIgnore (sender, messageId) ⟨route, now, deliveredTo⟩ }

def purgeMessages (store : InboxStore) (now : ℤ) : InboxStore :=
  { store with messages := store.messages.delete fun _ row => row.receivedAt < now - messageRetentionMs }

end Tables

section Messages

/-- What `readJson` makes of a body. -/
inductive Body where
  | oversized
  | malformed
  | json (value : Value)

structure Reply where
  status : ℕ
  body : Value
deriving DecidableEq

def refuse (status : ℕ) (error : String) : Reply := ⟨status, .record [("error", .text error)]⟩

structure Message where
  route : Value
  messageId : JsString
  text : JsString
deriving DecidableEq

/-- `[A-Za-z0-9._:-]`. -/
def isMessageIdUnit (u : UInt16) : Bool :=
  (Json.unit 'A' ≤ u && u ≤ Json.unit 'Z') || (Json.unit 'a' ≤ u && u ≤ Json.unit 'z') || Json.isDigit u
    || u == Json.unit '.' || u == Json.unit '_' || u == Json.unit ':' || u == Json.unit '-'

/-- `[\x00-\x08\x0b\x0c\x0e-\x1f\x7f]`. -/
def isControl (u : UInt16) : Bool := u ≤ 0x08 || u == 0x0B || u == 0x0C || (0x0E ≤ u && u ≤ 0x1F) || u == 0x7F

def maxInboxTextBytes : ℕ := 8 * 1024

def readMessage : Body → Except Reply Message
  | .oversized => .error (refuse 413 "message too large")
  | .malformed => .error (refuse 400 "body must be JSON")
  | .json value => do
    Checked.require
      (value.isObject = true ∧ (value.fields.all fun field => field.1 ∈ [js "route", js "id", js "text"]) = true)
      (refuse 400 "body must be \x7b route, id, text \x7d")
    let id := value.get (js "id")
    Checked.require (id.isString = true ∧ 1 ≤ id.units.length ∧ id.units.length ≤ 64 ∧ id.units.all isMessageIdUnit = true)
      (refuse 400 "id must be 1-64 letters, digits, or . _ : -")
    let text := value.get (js "text")
    Checked.require
      (text.isString = true ∧ text.units.trim ≠ [] ∧ text.units.utf8Length ≤ maxInboxTextBytes
        ∧ text.units.any isControl = false)
      (refuse 400 "text must be nonblank plain text of at most 8192 bytes")
    pure ⟨value.get (js "route"), id.units, text.units⟩

end Messages

/-! ## Requests in delivery -/

/-- What a request waits for. -/
inductive Stage where
  /-- Its turn among the mutations of the next session. -/
  | creating
  /-- `#ensureActorReady`. -/
  | readying
  /-- `#log`. -/
  | logging
  /-- The delivery is over. -/
  | recording
deriving DecidableEq, Repr

structure Request where
  sender : Sender
  route : JsString
  messageId : JsString
  text : JsString
  remaining : List JsString
  delivered : List JsString
  stage : Stage
deriving DecidableEq

/-- A message that was answered with 202. -/
structure Accepted where
  sender : JsString
  messageId : JsString
  receivedAt : ℤ
deriving DecidableEq, Repr

/-- An input that a message has created in a session. -/
structure Created where
  sender : JsString
  messageId : JsString
  sessionId : JsString
deriving DecidableEq, Repr

structure System where
  inbox : InboxStore
  store : Store
  clock : ℤ
  requests : List Request
  accepted : List Accepted
  created : List Created

def System.initial (senders : Table JsString SenderRow) : System := ⟨⟨senders, .empty, .empty⟩, .empty, 0, [], [], []⟩

namespace System

section Admission

/-- The sessions that a target means at the moment. -/
def targets (store : Store) : Target → Except Reply (List JsString)
  | .workingRoots =>
    let works (_ : JsString) (row : Session) : Bool :=
      row.deleted = false ∧ row.kind = .root ∧ row.depth = 0 ∧ (row.activity = .working ∨ row.activity = .delegating)
    let older (a b : JsString × Session) : Bool :=
      a.2.createdAt < b.2.createdAt ∨ a.2.createdAt = b.2.createdAt ∧ a.1.le b.1 = true
    .ok ((store.sessions.select works older store.sessions.rows.length).map Prod.fst)
  | .session sessionId =>
    if (store.sessions.get? sessionId).any fun row => row.deleted = false then .ok [sessionId]
    else .error (refuse 409 "the route's session no longer exists")

/-- The route that a message names. -/
def routeOf (store : InboxStore) : Value → Option (JsString × Target)
  | .str route => (store.routes.get? route).map fun target => (route, target)
  | _ => none

/-- A request up to the first await of its delivery, or what it is answered. -/
def admission (config : Config) (s : System) (key : JsString) (body : Body) : Except Reply Request := do
  match authenticate config s.inbox key with
  | none => .error (refuse 401 "unknown sender key")
  | some sender =>
    let message ← readMessage body
    match previousDelivery s.inbox sender.name message.messageId with
    | some previous =>
      .error ⟨200, .record [("duplicate", .bool true), ("deliveredTo", .arr (previous.map .str))]⟩
    | none =>
      match routeOf s.inbox message.route with
      | none => .error (refuse 404 "unknown route")
      | some (route, target) => do
        Checked.require (recentCount s.inbox sender.name s.clock < sender.ratePerHour) (refuse 429 "rate limit reached")
        let sessions ← targets s.store target
        pure ⟨sender, route, message.messageId, message.text, sessions, [], if sessions = [] then .logging else .creating⟩

end Admission

section Delivery

def inboxOriginJobId (kind : Kind) (sender messageId : JsString) : JsString :=
  js "inbox:" ++ kind.name ++ js ":" ++ sender ++ js ":" ++ messageId

def inputId (config : Config) (jobId sessionId : JsString) : JsString :=
  js "inbox-" ++ (config.env.sha256 (jobId ++ [0] ++ sessionId)).take 32

def Request.jobId (request : Request) : JsString := inboxOriginJobId request.sender.kind request.sender.name request.messageId

def newInput (config : Config) (request : Request) (sessionId : JsString) : NewInput where
  inputId := some (inputId config (Request.jobId request) sessionId)
  message := request.text
  images := .arr []
  location := .undefined
  behavior := .auto
  source := js "background"
  origin := .record [("jobId", .str (Request.jobId request))]
  clientMessageId := .null
  retryIntent := .null
  pendingLimit := config.pendingMessageLimit
  pendingBytesLimit := 16 * 1024 * 1024
  globalPendingBytesLimit := 64 * 1024 * 1024

def Request.reach (request : Request) (sessionId : JsString) (remaining : List JsString) : Request :=
  { request with
    remaining, delivered := request.delivered ++ [sessionId], stage := if remaining = [] then .logging else .creating }

def setRequest (s : System) (n : ℕ) (request : Request) : System := { s with requests := s.requests.set n request }

def drop (s : System) (n : ℕ) : System := { s with requests := s.requests.eraseIdx n }

/-- The mutation of the next session: it creates the input, or finds the one that an earlier try has created. -/
def create (config : Config) (s : System) (n : ℕ) (request : Request) (sessionId : JsString) (remaining : List JsString) :
    System :=
  match SessionStore.step config.env none s.store s.clock (.createActorInput sessionId (newInput config request sessionId)) with
  | (store, .input (some view)) =>
    let fresh := (s.store.receipts.get? (inputId config (Request.jobId request) sessionId)).isNone
    let s := { s with
      store, created := if fresh then ⟨request.sender.name, request.messageId, sessionId⟩ :: s.created else s.created }
    if view.state = none then s.setRequest n (Request.reach request sessionId remaining)
    else s.setRequest n { request with stage := .readying }
  | (store, _) => { s with store }.drop n

/-- How `recordMessage` ends. -/
inductive Recording where
  | saved
  | cut
  /-- The insert throws. -/
  | lost
deriving DecidableEq, Repr

def record (s : System) (n : ℕ) (request : Request) (recording : Recording) : System :=
  let inserted := insertMessage s.inbox request.sender.name request.messageId request.route request.delivered s.clock
  match recording with
  | .saved =>
    { s with
      inbox := purgeMessages inserted s.clock
      accepted := ⟨request.sender.name, request.messageId, s.clock⟩ :: s.accepted }.drop n
  | .cut => { s with inbox := inserted }.drop n
  | .lost => s.drop n

end Delivery

end System

inductive Event where
  /-- The clock goes on. -/
  | pass (elapsed : ℕ)
  /-- What any other caller does to the sessions. -/
  | store (now : ℤ) (observer : Option JsString) (op : SessionStore.Op)
  | routes (routes : Table JsString Target)
  | post (key : JsString) (body : Body)
  | create (n : ℕ)
  | ready (n : ℕ)
  | logged (n : ℕ)
  | record (n : ℕ) (recording : System.Recording)
  /-- Whatever a request waits for fails. -/
  | fail (n : ℕ)

def step (config : Config) (s : System) : Event → System
  | .pass elapsed => { s with clock := s.clock + elapsed }
  | .store now observer op => { s with store := (SessionStore.step config.env observer s.store now op).1 }
  | .routes routes => { s with inbox := { s.inbox with routes } }
  | .post key body =>
    match s.admission config key body with
    | .ok request => { s with requests := s.requests ++ [request] }
    | .error _ => s
  | .create n =>
    match s.requests[n]? with
    | some request =>
      match request.stage, request.remaining with
      | .creating, sessionId :: remaining => s.create config n request sessionId remaining
      | _, _ => s
    | none => s
  | .ready n =>
    match s.requests[n]? with
    | some request =>
      match request.stage, request.remaining with
      | .readying, sessionId :: remaining => s.setRequest n (System.Request.reach request sessionId remaining)
      | _, _ => s
    | none => s
  | .logged n =>
    match s.requests[n]? with
    | some request => if request.stage = .logging then s.setRequest n { request with stage := .recording } else s
    | none => s
  | .record n recording =>
    match s.requests[n]? with
    | some request => if request.stage = .recording then s.record n request recording else s
    | none => s
  | .fail n => s.drop n

def run (config : Config) (senders : Table JsString SenderRow) (events : List Event) : System :=
  events.foldl (step config) (.initial senders)

end PersistentHarness.Inbox
