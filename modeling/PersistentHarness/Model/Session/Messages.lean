import PersistentHarness.Model.Session.Store

/-! # Family messages

A message is accepted from its sender, queued once the sender's transcript records it, delivered to its
target and acknowledged. The supervisor queues reports of abnormal exits and turns by itself.
-/

namespace PersistentHarness.SessionStore

section Routing

/-- How the store calls the session `target` seen from `sender`; `none` is out of reach. -/
inductive Reach where
  | self
  | family (relationship : Relationship)
deriving DecidableEq, Repr

def relationshipBetween (sender target : JsString × Session) : Option Reach :=
  if sender.1 = target.1 then some .self
  else if sender.2.parentSessionId = some target.1 then some (.family .parent)
  else if target.2.parentSessionId = some sender.1 then some (.family .child)
  else if sender.2.kind = .root ∧ target.2.kind = .root ∧ sender.2.familyId = target.2.familyId then some (.family .sibling)
  else if sender.2.ancestor.isSome ∧ sender.2.parentSessionId = target.2.parentSessionId then some (.family .sibling)
  else none

def messageToSelf : Failure := .error "cannot send a message to the same session"

/-- The live session of the sender's family that a selector names, by id, short id or a reachable name. -/
def resolveReachableTarget (sessions : Sessions) (senderId selector : JsString) : Result (JsString × Relationship) :=
  match (sessions.get? senderId).filter fun row => !row.deleted with
  | none => .error (.error "sender session does not exist")
  | some sender =>
    let rows := sessions.rows.filter fun row => row.2.familyId = sender.familyId ∧ row.2.deleted = false
    match rows.find? fun row => row.1 = selector ∨ row.2.shortId = selector with
    | some exact =>
      match relationshipBetween (senderId, sender) exact with
      | some .self => .error messageToSelf
      | none => .error (.error "target is outside permitted family reach")
      | some (.family relationship) => .ok (exact.1, relationship)
    | none =>
      match rows.filter fun row =>
          row.2.displayName = selector ∧ (relationshipBetween (senderId, sender) row).isSome = true with
      | [] => .error (.text (js "no reachable target matches: " ++ selector))
      | [row] =>
        match relationshipBetween (senderId, sender) row with
        | some (.family relationship) => .ok (row.1, relationship)
        | _ => .error messageToSelf
      | _ => .error (.text (js "target name is ambiguous; use a stable ID: " ++ selector))

end Routing

section Delivery

structure MessageView where
  messageId : JsString
  row : Message
deriving DecidableEq, Repr

/-- The parameters of `createMessage`. -/
structure NewMessage where
  target : JsString
  body : JsString
  messageId : Option JsString
  deliveryMode : Option JsString
deriving DecidableEq, Repr

/-- A message that its sender's transcript does not hold yet. -/
def Message.accepted (senderId targetId : JsString) (relationship : Relationship) (body : JsString) (now : ℤ) : Message :=
  { senderId, targetId, relationship, deliveryMode := .auto, body, state := .accepted, attemptCount := 0
    acceptedAt := now, queuedAt := none, deliveredAt := none, acknowledgedAt := none, lastError := none
    senderEntryId := none, childExitGeneration := none }

/-- The id of a new message: the given one, or a random one. -/
def newMessageId (env : Env) (s : Store) (params : NewMessage) : JsString × Store :=
  match params.messageId with
  | some id => (id, s)
  | none => (env.uuid s.draws, { s with draws := s.draws + 1 })

def createMessage (env : Env) (s : Store) (senderId : JsString) (params : NewMessage) (pendingLimit : ℕ) (now : ℤ) :
    Result (Store × MessageView) := do
  Checked.require (params.deliveryMode.all (fun mode => mode = js "auto" ∨ mode = js "follow_up") = true)
    (.error "invalid family delivery mode")
  Checked.require (params.messageId.any (js "child-exit:").isPrefixOf = false)
    (.error "message ID is reserved for supervisor lifecycle receipts")
  let (targetId, relationship) ← resolveReachableTarget s.sessions senderId params.target
  s.assertSessionAvailable senderId
  s.assertSessionAvailable targetId
  let (id, s) := newMessageId env s params
  match s.messages.get? id with
  | some existing => do
    -- the mode of a replay is receipt metadata, not a different operation
    Checked.require (existing.senderId = senderId ∧ existing.targetId = targetId ∧ existing.body = params.body)
      (.text (js "message ID already exists with different content: " ++ id))
    pure (s, ⟨id, existing⟩)
  | none => do
    let pending := s.messages.count fun _ row => row.targetId = targetId ∧ row.state.waiting = true
    Checked.require (pending < pendingLimit)
      (.text (js "target pending-message limit reached: " ++ Json.decimal pendingLimit))
    let row := Message.accepted senderId targetId relationship params.body now
    pure ({ s with messages := s.messages.insertOrIgnore id row }, ⟨id, row⟩)

/-- A transcript entry of the sender, as `recordMessageSenderEntry` takes it. -/
structure SenderEntry where
  messageId : JsString
  entryId : JsString
  peerId : JsString
  relationship : JsString
  body : JsString
deriving DecidableEq, Repr

def Relationship.name : Relationship → String
  | .parent => "parent"
  | .child => "child"
  | .sibling => "sibling"

def MessageState.name : MessageState → String
  | .accepted => "accepted"
  | .queued => "queued"
  | .delivered => "delivered"
  | .acknowledged => "acknowledged"
  | .rejected => "rejected"

/-- The transcript entry that a message already has; an empty id counts as none. -/
def Message.entry (row : Message) : Option JsString := row.senderEntryId.filter (· ≠ [])

def Message.recordEntry (entryId : JsString) (now : ℤ) (row : Message) : Message :=
  { row with senderEntryId := some entryId, state := .queued, queuedAt := some now }

def senderEntryTaken (s : Store) (senderId entryId messageId : JsString) : Bool :=
  s.messages.any fun id row => id ≠ messageId ∧ row.senderId = senderId ∧ row.senderEntryId = some entryId

def recordMessageSenderEntry (s : Store) (senderId : JsString) (entry : SenderEntry) (now : ℤ) :
    Result (Store × MessageView × Bool) := do
  s.assertSessionAvailable senderId
  s.assertSessionAvailable entry.peerId
  match (s.messages.get? entry.messageId).filter fun row => row.senderId = senderId with
  | none => .error (.error "message does not exist for this sender")
  | some row => do
    Checked.require (row.targetId = entry.peerId ∧ js row.relationship.name = entry.relationship ∧ row.body = entry.body)
      (.error "agent message transcript entry does not match its durable message")
    Checked.require (row.entry.all (· = entry.entryId) = true) (.error "message already has a different transcript entry")
    if row.entry.isSome then pure (s, ⟨entry.messageId, row⟩, false)
    else do
      Checked.require (row.state = .accepted)
        (.text (js "message cannot record its sender entry from state " ++ js row.state.name))
      Checked.require (senderEntryTaken s senderId entry.entryId entry.messageId = false)
        (.unique "messages.sender_id, messages.sender_entry_id")
      let updated := row.recordEntry entry.entryId now
      pure ({ s with messages := s.messages.update entry.messageId fun _ => updated }, ⟨entry.messageId, updated⟩, true)

def Message.exhausted (maxAttempts : ℕ) (now : ℤ) (row : Message) : Message :=
  { row with
    state := .rejected, lastError := some (js "delivery attempt limit reached: " ++ Json.decimal maxAttempts)
    deliveredAt := some now }

def Message.deliver (now : ℤ) (row : Message) : Message :=
  { row with state := .delivered, attemptCount := row.attemptCount + 1, deliveredAt := some now, lastError := none }

/-- The message after a delivery attempt, and whether it failed for good. -/
def markMessageDelivered (s : Store) (messageId targetId : JsString) (now : ℤ) (maxAttempts : ℕ) :
    Store × Option (MessageView × Bool) :=
  match (s.messages.get? messageId).filter fun row => row.targetId = targetId with
  | none => (s, none)
  | some row =>
    match row.state with
    | .delivered => (s, some (⟨messageId, row⟩, false))
    | .queued =>
      let exhausted : Bool := maxAttempts ≤ row.attemptCount
      let updated := if exhausted then row.exhausted maxAttempts now else row.deliver now
      ({ s with messages := s.messages.update messageId fun _ => updated }, some (⟨messageId, updated⟩, exhausted))
    | _ => (s, none)

def Message.acknowledge (now : ℤ) (row : Message) : Message :=
  { row with state := .acknowledged, acknowledgedAt := some now }

def acknowledgeMessage (s : Store) (messageId targetId : JsString) (now : ℤ) : Result (Store × MessageView) :=
  match (s.messages.get? messageId).filter fun row => row.targetId = targetId with
  | none => .error (.error "message does not exist for this target")
  | some row =>
    match row.state with
    | .acknowledged => .ok (s, ⟨messageId, row⟩)
    | .delivered =>
      let updated := row.acknowledge now
      .ok ({ s with messages := s.messages.update messageId fun _ => updated }, ⟨messageId, updated⟩)
    | state => .error (.text (js "message cannot be acknowledged from state " ++ js state.name))

end Delivery

section Reports

inductive FailureClass where
  | promptPreparation
  | requestPreparation
  | compactionFailed
  | turnFailed
deriving DecidableEq, Repr

def FailureClass.name : FailureClass → String
  | .promptPreparation => "prompt_preparation"
  | .requestPreparation => "request_preparation"
  | .compactionFailed => "compaction_failed"
  | .turnFailed => "turn_failed"

inductive DispatchBoundary where
  | beforeProviderDispatch
  | providerDispatchUnknown
  | toolEffectsPossible
deriving DecidableEq, Repr

def DispatchBoundary.name : DispatchBoundary → String
  | .beforeProviderDispatch => "before_provider_dispatch"
  | .providerDispatchUnknown => "provider_dispatch_unknown"
  | .toolEffectsPossible => "tool_effects_possible"

/-- A report that `normalizeTurnFailure` accepts. -/
structure TurnFailure where
  turnId : JsString
  failureClass : FailureClass
  dispatchBoundary : DispatchBoundary
deriving DecidableEq, Repr

/-- `/^[a-zA-Z0-9-]{1,128}$/`. -/
def isPlainId (id : JsString) : Bool :=
  (1 ≤ id.length ∧ id.length ≤ 128) ∧ id.all fun u =>
    (0x61 ≤ u ∧ u ≤ 0x7A) ∨ (0x41 ≤ u ∧ u ≤ 0x5A) ∨ (0x30 ≤ u ∧ u ≤ 0x39) ∨ u = 0x2D

def normalizeTurnFailure (value : Value) : Result TurnFailure :=
  let invalid : Failure := .error "invalid actor turn failure receipt"
  let known := ["version", "turnId", "failureClass", "dispatchBoundary"]
  let classes := [FailureClass.promptPreparation, .requestPreparation, .compactionFailed, .turnFailed]
  let boundaries := [DispatchBoundary.beforeProviderDispatch, .providerDispatchUnknown, .toolEffectsPossible]
  let turnId := value.get (js "turnId")
  match classes.find? fun failureClass => value.get (js "failureClass") = Value.text failureClass.name,
    boundaries.find? fun boundary => value.get (js "dispatchBoundary") = Value.text boundary.name with
  | some failureClass, some dispatchBoundary =>
    if value.isObject = true ∧ (value.fields.all fun field => known.any fun key => js key = field.1) = true
        ∧ (value.get (js "version")).isNat 1 ∧ turnId.isString = true ∧ isPlainId turnId.units = true then
      .ok ⟨turnId.units, failureClass, dispatchBoundary⟩
    else .error invalid
  | _, _ => .error invalid

def turnFailureBoundary : DispatchBoundary → String
  | .beforeProviderDispatch =>
    "This turn stopped before provider dispatch. Local input or extension effects may already be committed."
  | .toolEffectsPossible =>
    "Tool execution was admitted or started in this turn; external effects may already have occurred. Completion is unknown."
  | .providerDispatchUnknown =>
    "Provider dispatch was attempted in this turn; completion and external effects are unknown."

/-- A report that the supervisor queues; no transcript entry of its sender is behind it. -/
def Message.report (senderId targetId : JsString) (relationship : Relationship) (body : JsString) (now : ℤ)
    (generation : ℕ) : Message :=
  { senderId, targetId, relationship, deliveryMode := .auto, body, state := .queued, attemptCount := 0
    acceptedAt := now, queuedAt := some now, deliveredAt := none, acknowledgedAt := none, lastError := none
    senderEntryId := none, childExitGeneration := some generation }

/-- Who hears about a failed session: its parent, or the root that observes the roots. -/
def failureTarget (sessions : Sessions) (observer : Option JsString) (sessionId : JsString) (row : Session) :
    Option (JsString × Session) :=
  match row.kind with
  | .child => row.parentSessionId.bind fun parent => (sessions.get? parent).map (parent, ·)
  | .root =>
    (observer.filter (· ≠ sessionId)).bind fun id =>
      ((sessions.get? id).filter fun target => target.kind = .root).map (id, ·)

/-- Exit keys are bound to a generation; turn keys survive lost acknowledgements and revival. -/
def failureReceiptId (env : Env) (sessionId : JsString) (generation : ℕ) (turnFailure : Option TurnFailure) : JsString :=
  match turnFailure with
  | some report => js "child-exit:turn:" ++ env.sha256 (sessionId ++ [0] ++ report.turnId)
  | none => js "child-exit:" ++ env.sha256 sessionId ++ js ":" ++ Json.decimal generation

def failureBody (sessionId : JsString) (kind : SessionKind) (generation : ℕ) (error : Option JsString)
    (turnFailure : Option TurnFailure) : JsString :=
  let subject := if kind = .child then "direct child" else "root session"
  let noun := if kind = .child then "child" else "session"
  let identity := if isPlainId sessionId then sessionId else js "[invalid child ID]"
  let heading := js "Harness lifecycle report (supervisor-generated, not " ++ js noun ++ js "-authored): " ++ js subject
    ++ js " " ++ identity
  let advice := js "Inspect retained " ++ js noun
    ++ js " state and saved artifacts before deciding recovery. No " ++ js noun ++ js " restart or work replay was requested."
  match turnFailure with
  | some report => heading ++ js ", turn " ++ report.turnId ++ js ", stopped abnormally. Failure class: "
      ++ js report.failureClass.name ++ js ". " ++ js (turnFailureBoundary report.dispatchBoundary) ++ js " " ++ advice
  | none =>
    let exhausted := error.any fun error => decide (js "JavaScript heap out of memory" <:+: error)
    heading ++ js ", generation " ++ Json.decimal generation ++ js ", exited unexpectedly. Failure class: "
      ++ js (if exhausted then "heap_exhausted" else "actor_exit") ++ js ". Completion is unknown. " ++ advice

/-- Queue a report of a failed session for the session that hears about it, once for each receipt id. -/
def queueChildFailure (env : Env) (observer : Option JsString) (s : Store) (sessionId : JsString) (generation : ℕ)
    (error : Option JsString) (now : ℤ) (turnFailure : Option TurnFailure) : Store :=
  match s.sessions.get? sessionId with
  | none => s
  | some session =>
    match (failureTarget s.sessions observer sessionId session).filter fun target =>
        target.2.deleted = false ∧ s.isSessionDeleting target.1 = false ∧ s.isSessionDeleting sessionId = false with
    | none => s
    | some target =>
      let relationship := if session.kind = .child then Relationship.parent else .sibling
      let body := failureBody sessionId session.kind generation error turnFailure
      let report := Message.report sessionId target.1 relationship body now generation
      { s with messages := s.messages.insertOrIgnore (failureReceiptId env sessionId generation turnFailure) report }

def recordActorTurnFailure (env : Env) (observer : Option JsString) (s : Store) (sessionId : JsString) (generation : ℕ)
    (value : Value) (now : ℤ) : Result Store := do
  let report ← normalizeTurnFailure value
  Checked.require ((s.sessions.get? sessionId).any (fun row =>
      row.actorGeneration = generation ∧ (row.lifecycle = .starting ∨ row.lifecycle = .resident)) = true
      ∧ s.isSessionDeleting sessionId = false) (.error "actor generation is stale or unavailable")
  pure (queueChildFailure env observer s sessionId generation none now (some report))

/-- The largest instant of a `Date`. -/
def maxDate : ℕ := 8640000000000000

/-- Tell a root about its own failed turn. -/
def queueHomeFailureNudge (env : Env) (s : Store) (sessionId : JsString) (generation : Value) (turnFailure : Value)
    (failedAt now : ℤ) : Result (Store × Bool) := do
  let report ← normalizeTurnFailure turnFailure
  match (s.sessions.get? sessionId).filter fun row =>
      row.kind = .root ∧ row.deleted = false ∧ s.isSessionDeleting sessionId = false, generation.safeNat?.filter (1 ≤ ·) with
  | some _, some generation => do
    let id := js "home-nudge:" ++ env.sha256 (sessionId ++ [0] ++ report.turnId)
    Checked.require (failedAt.natAbs ≤ maxDate) (.error "Invalid time value")
    let body := js "Harness lifecycle report (supervisor-generated, not session-authored): your own turn " ++ report.turnId
      ++ js " stopped abnormally at " ++ isoString failedAt ++ js ", and you have not run since. Failure class: "
      ++ js report.failureClass.name ++ js ". " ++ js (turnFailureBoundary report.dispatchBoundary)
      ++ js (" Nothing was retried. Other sessions may have stopped at the same time, and their reports may have reached you "
        ++ "inside the failed turn. Check every root session and your own work, then resume as normal. Do not replay "
        ++ "interrupted work. No restart was requested.")
    match s.messages.insert? id (.report sessionId sessionId .sibling body now generation) with
    | none => pure (s, false)
    | some messages => pure ({ s with messages }, true)
  | _, _ => pure (s, false)

end Reports

end PersistentHarness.SessionStore
