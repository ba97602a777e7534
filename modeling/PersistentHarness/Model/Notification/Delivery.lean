import PersistentHarness.Model.Notification.Store

/-! # Deliveries and the steps of the store

An endpoint leases the notifications that it has to show, reports what became of each lease, and fetches the
closures of what it showed. Every call of the store is one step: it is one transaction, or it writes once.
-/

namespace PersistentHarness.Notifications

section Claims

/-- A lease that `claim` returns. -/
structure Claim where
  notificationId : JsString
  endpointId : JsString
  leaseId : ℕ
  attempt : ℕ
  notification : Option Notification
deriving DecidableEq, Repr

def Delivery.offered (now : ℤ) : Delivery := ⟨.pending, 0, now, none, none, none, none, none⟩

/-- Give an endpoint a delivery of every notification that it may show. -/
def offer (now : ℤ) (s : Store) (endpoint : JsString) : Store :=
  { s with deliveries := s.notifications.rows.foldl (fun deliveries row =>
      if row.2.state = .pending ∧ row.2.readAt = none ∧ now < row.2.expiresAt then
        deliveries.insertOrIgnore (row.1, endpoint) (.offered now)
      else deliveries) s.deliveries }

/-- The deliveries of read or closed notifications expire. -/
def sweep (s : Store) : Store :=
  { s with deliveries := s.deliveries.modify fun key row =>
      if row.state.isOpen = true ∧ (s.notifications.get? key.1).any (fun notification =>
          notification.state ≠ .pending ∨ notification.readAt ≠ none) = true then
        { row with state := .expired, leaseId := none, leaseUntil := none }
      else row }

def Delivery.lapsed (row : Delivery) (now : ℤ) : Bool := row.state = .inflight ∧ row.leaseUntil.any (· ≤ now)

/-- The deliveries whose last lease is over without an outcome fail. -/
def exhaust (s : Store) (now : ℤ) : Store :=
  { s with deliveries := s.deliveries.modify fun _ row =>
      if row.lapsed now = true ∧ retryMs.length ≤ row.attempts then
        { row with state := .failed, code := some (js "attempts_exhausted"), leaseId := none, leaseUntil := none }
      else row }

/-- A claim may lease the delivery. -/
def Delivery.due (row : Delivery) (now : ℤ) : Bool :=
  row.attempts < retryMs.length ∧ ((row.state = .pending ∧ row.dueAt ≤ now) ∨ row.lapsed now = true)

/-- `ORDER BY due_at, notification_id`. -/
def dueBefore (a b : (JsString × JsString) × Delivery) : Bool :=
  a.2.dueAt < b.2.dueAt ∨ (a.2.dueAt = b.2.dueAt ∧ a.1.1.le b.1.1 = true)

def lease (now : ℤ) (progress : Store × List Claim) (row : (JsString × JsString) × Delivery) : Store × List Claim :=
  let s := progress.1
  let leased :=
    { s with
      draws := s.draws + 1
      deliveries := s.deliveries.update row.1 fun delivery =>
        { delivery with
          state := .inflight, attempts := delivery.attempts + 1, leaseId := some s.draws
          leaseUntil := some (now + leaseMs) } }
  let (next, notification) := get leased row.1.1 now
  (next, progress.2 ++ [⟨row.1.1, row.1.2, s.draws, row.2.attempts + 1, notification⟩])

def claimEndpoint (now : ℤ) (progress : Store × List Claim) (endpoint : JsString) : Store × List Claim :=
  if claimLimit ≤ progress.2.length then progress
  else (progress.1.deliveries.select (fun key row => key.2 = endpoint ∧ row.due now = true) dueBefore
    (claimLimit - progress.2.length)).foldl (lease now) progress

def claim (s : Store) (endpoints : List JsString) (now : ℤ) : Store × List Claim :=
  endpoints.foldl (claimEndpoint now) (exhaust (sweep (endpoints.foldl (offer now) (expire s now))) now, [])

end Claims

section Closures

/-- A close that `claimClosures` returns. -/
structure Closure where
  notificationId : JsString
  endpointId : JsString
  notification : Option Notification
deriving DecidableEq, Repr

/-- The endpoint accepted a request that is closed now, and has not been told. -/
def closable (s : Store) (endpoint : JsString) (key : JsString × JsString) (row : Delivery) : Bool :=
  key.2 = endpoint ∧ row.state = .accepted ∧ row.closeClaimedAt = none
    ∧ (s.notifications.get? key.1).any (fun notification =>
        notification.kind = .attention ∧ notification.state ≠ .pending) = true

/-- `ORDER BY n.updated_at`. -/
def closedBefore (s : Store) (a b : (JsString × JsString) × Delivery) : Bool :=
  let updatedAt (key : JsString) : ℤ := ((s.notifications.get? key).map Notification.updatedAt).getD 0
  updatedAt a.1.1 ≤ updatedAt b.1.1

def claimClosure (now : ℤ) (progress : Store × List Closure) (row : (JsString × JsString) × Delivery) :
    Store × List Closure :=
  let s := progress.1
  let claimed := { s with deliveries := s.deliveries.update row.1 fun delivery => { delivery with closeClaimedAt := some now } }
  let (next, notification) := get claimed row.1.1 now
  (next, progress.2 ++ [⟨row.1.1, row.1.2, notification⟩])

def claimClosuresOf (now : ℤ) (progress : Store × List Closure) (endpoint : JsString) : Store × List Closure :=
  (progress.1.deliveries.select (closable progress.1 endpoint) (closedBefore progress.1)
    (claimLimit - progress.2.length)).foldl (claimClosure now) progress

def claimClosures (s : Store) (endpoints : List JsString) (now : ℤ) : Store × List Closure :=
  endpoints.foldl (claimClosuresOf now) (expire s now, [])

end Closures

section Receipts

/-- The wait after an attempt. -/
def retryDelay : ℕ → ℤ
  | 0 => 900000
  | attempt + 1 => (retryMs[attempt]?).getD 900000

def outcomeState (status : Status) (attempts : ℕ) : DeliveryState :=
  if status = .retry ∧ attempts < retryMs.length then .pending
  else if status = .accepted then .accepted
  else if status = .suppressed then .suppressed
  else .failed

/-- Record the outcome of the current lease; `none` when the lease is not current. -/
def receipt (s : Store) (id endpointId : JsString) (leaseId : ℕ) (status : JsString) (now : ℤ) :
    Except JsString (Store × Option DeliveryState) :=
  match Status.ofText status with
  | none => .error (js "invalid notification receipt")
  | some outcome =>
    match (s.deliveries.get? (id, endpointId)).filter fun row => row.leaseId = some leaseId ∧ row.state = .inflight with
    | none => .ok (s, none)
    | some row =>
      let state := outcomeState outcome row.attempts
      .ok ({ s with deliveries := s.deliveries.update (id, endpointId) fun delivery =>
          { delivery with
            state, code := some status, dueAt := now + retryDelay row.attempts, leaseId := none, leaseUntil := none
            acceptedAt := if outcome = .accepted then some now else none } }, some state)

end Receipts

/-! ## Steps and runs -/

inductive Op where
  | noteUserInput (sessionId : JsString)
  | bindOrigin (sessionId key : JsString) (createdAt : Value)
  | noteContinuation (sessionId key : JsString) (createdAt : Value)
  | observe (sessionId : JsString) (options : Observation)
  | create (params : NewNotification)
  | request (sessionId : JsString) (params : Request) (actorGeneration : Value)
  | resolveKey (sessionId key : JsString)
  | get (id : JsString)
  | expire
  | read (id : JsString)
  | transition (id state : JsString) (closedBy : Option JsString)
  | cancelSession (id : JsString)
  | cancelDialogs
  | claim (endpoints : List JsString)
  | claimClosures (endpoints : List JsString)
  | receipt (id endpointId : JsString) (leaseId : ℕ) (status : JsString)

/-- What a call returns, or throws. -/
structure Output where
  thrown : Option JsString
  notification : Option Notification
  claims : List Claim
  closures : List Closure
  recorded : Option DeliveryState
deriving DecidableEq

def Output.quiet : Output := ⟨none, none, [], [], none⟩

def returning (result : Store × Option Notification) : Store × Output :=
  (result.1, { Output.quiet with notification := result.2 })

/-- A call that may throw before it writes. -/
def checked (s : Store) (result : Except JsString (Store × Output)) : Store × Output :=
  match result with
  | .ok done => done
  | .error thrown => (s, { Output.quiet with thrown := some thrown })

/-- One call at an instant of the clock. -/
def step (env : Env) (world : World) (s : Store) (now : ℤ) : Op → Store × Output
  | .noteUserInput sessionId => (noteUserInput world s sessionId now, .quiet)
  | .bindOrigin sessionId key createdAt => ((bindOrigin env world s sessionId key createdAt).1, .quiet)
  | .noteContinuation sessionId key createdAt => (noteContinuation env world s sessionId key createdAt now, .quiet)
  | .observe sessionId options => returning (observe env world s sessionId options now (family world.sessions sessionId))
  | .create params => returning (create env world s params now)
  | .request sessionId params actorGeneration => returning (request env world s sessionId params now actorGeneration)
  | .resolveKey sessionId key => checked s ((resolveKey env s sessionId key now).map returning)
  | .get id => returning (get s id now)
  | .expire => (expire s now, .quiet)
  | .read id => returning (read s id now)
  | .transition id state closedBy => checked s ((transition s id state now closedBy).map returning)
  | .cancelSession id => (cancelSession s id now, .quiet)
  | .cancelDialogs => (cancelDialogs s now, .quiet)
  | .claim endpoints =>
    let (next, claims) := claim s endpoints now
    (next, { Output.quiet with claims })
  | .claimClosures endpoints =>
    let (next, closures) := claimClosures s endpoints now
    (next, { Output.quiet with closures })
  | .receipt id endpointId leaseId status =>
    checked s ((receipt s id endpointId leaseId status now).map fun (next, recorded) =>
      (next, { Output.quiet with recorded }))

/-- A call, with its instant and what it finds around it. -/
structure Event where
  now : ℤ
  world : World
  op : Op

/-- The store after a sequence of calls on a fresh database. -/
def run (env : Env) (events : List Event) : Store :=
  events.foldl (fun s event => (step env event.world s event.now event.op).1) .empty

end PersistentHarness.Notifications
