import PersistentHarness.Model.Session.Store

/-! # The inference of a session

The launch policy of a session names its model and thinking level, what was asked for and what was resolved,
and a pending selection that its actor has not applied yet. Every update reads and rewrites the whole record.
-/

namespace PersistentHarness.SessionStore

section Launch

/-- `parseJson(row.launch_json, {})`. -/
def launchOf (row : Session) : Value := row.launch.getD (.obj [])

def Store.setLaunch (s : Store) (sessionId : JsString) (launch : Value) (now : ℤ) : Store :=
  s.updateSession sessionId fun row => { row with launch := some (written launch), updatedAt := now }

def liveSession (s : Store) (sessionId : JsString) : Result Session :=
  match (s.sessions.get? sessionId).filter fun row => !row.deleted with
  | none => .error (.error "session does not exist")
  | some row => .ok row

/-- A selected model with its thinking level. -/
structure Selection where
  provider : JsString
  model : JsString
  thinkingLevel : Value
  fastModeSupported : Bool
deriving DecidableEq, Repr

/-- `{ provider: selection.provider, id: selection.model }`. -/
def Selection.resolved (selection : Selection) : Value :=
  .record [("provider", .str selection.provider), ("id", .str selection.model)]

def Selection.request (selection : Selection) (requestId : JsString) : Value :=
  .record [("requestId", .str requestId), ("provider", .str selection.provider), ("model", .str selection.model),
    ("thinkingLevel", selection.thinkingLevel)]

/-- `launch[key]?.[field]`. -/
def launchField (launch : Value) (key field : String) : Value := (launch.get (js key)).get (js field)

/-- `launch[key] = { ...launch[key], resolved }`. -/
def setResolved (launch : Value) (key : String) (resolved : Value) : Value :=
  launch.set (js key) ((launch.get (js key)).set (js "resolved") resolved)

def firstResolution (launch : Value) (key : String) (resolved : Value) : Value :=
  launch.set (js key) (.record [("requested", (launchField launch key "requested").coalesce .null), ("resolved", resolved),
    ("source", (launchField launch key "source").coalesce (Value.text "settings"))])

end Launch

section Resolution

/-- Record what the actor of a generation resolved, and return the launch policy. -/
def recordResolvedSessionInference (s : Store) (sessionId : JsString) (generation : ℕ) (selection : Selection) (now : ℤ) :
    Result (Store × Value) := do
  let row ← liveSession s sessionId
  Checked.require (row.actorGeneration = generation) (.error "actor generation does not own the session")
  let launch := launchOf row
  let currentModel := launchField launch "model" "resolved"
  let currentThinking := launchField launch "thinking" "resolved"
  Checked.require (currentModel.truthy = false ∨ (currentModel.get (js "provider") = .str selection.provider
      ∧ currentModel.get (js "id") = .str selection.model)) (.error "resolved actor model differs from its launch policy")
  Checked.require (currentThinking.truthy = false ∨ currentThinking = selection.thinkingLevel)
    (.error "resolved actor thinking level differs from its launch policy")
  let launch := if currentModel.truthy then launch else firstResolution launch "model" selection.resolved
  let launch := if currentThinking.truthy then launch else firstResolution launch "thinking" selection.thinkingLevel
  if currentModel.truthy = false ∨ currentThinking.truthy = false
      ∨ launch.get (js "fastModeSupported") ≠ .bool selection.fastModeSupported
      ∨ (launch.get (js "fastMode")).isBoolean = false then
    let enabled : Bool := launch.get (js "fastMode") = .bool true
    let launch := (launch.set (js "fastMode") (.bool enabled)).set (js "fastModeSupported") (.bool selection.fastModeSupported)
    pure (s.setLaunch sessionId launch now, written launch)
  else pure (s, launchOf row)

/-- Set the Fast mode of the family of a root. -/
def updateSessionFastMode (s : Store) (sessionId : JsString) (enabled expected : Bool) (now : ℤ) : Result Store := do
  let row ← liveSession s sessionId
  let preference := resolveFastModePreference s.sessions sessionId
  Checked.require (preference.rootSessionId = some sessionId) (.error "only the root session can change family Fast mode")
  Checked.require (preference.fastMode.isSome = true) (.error "session Fast preference is unavailable")
  Checked.require (preference.fastMode = some expected) (.error "session Fast preference changed concurrently")
  pure (s.setLaunch sessionId ((launchOf row).set (js "fastMode") (.bool enabled)) now)

end Resolution

section Selections

/-- Queue a selection; the first one keeps what was active as resolved. -/
def queueSessionInference (env : Env) (s : Store) (sessionId : JsString) (selection activeSelection : Selection) (now : ℤ) :
    Result (Store × Value) := do
  let row ← liveSession s sessionId
  let launch := launchOf row
  let launch :=
    if (launch.get (js "pendingInference")).truthy then launch
    else
      (setResolved (setResolved launch "model" activeSelection.resolved) "thinking" activeSelection.thinkingLevel).set
        (js "fastModeSupported") (.bool activeSelection.fastModeSupported)
  let pending := selection.request (env.uuid s.draws)
  pure ({ s.setLaunch sessionId (launch.set (js "pendingInference") pending) now with draws := s.draws + 1 }, pending)

/-- Make a selection the policy of a session; an applied request is no longer pending. -/
def updateSessionInference (s : Store) (sessionId : JsString) (selection : Selection) (expectedLaunch : Option Value)
    (now : ℤ) (requestId : Option JsString) : Result (Store × Value) := do
  let row ← liveSession s sessionId
  let launch := launchOf row
  Checked.require (expectedLaunch.all (fun expected => Json.stringify launch = Json.stringify expected) = true)
    (.error "session inference policy changed concurrently")
  let pending := launch.get (js "pendingInference")
  let applies : Bool := (requestId.filter (· ≠ [])).any fun id => pending.get (js "requestId") = .str id
  -- a default move leaves the session following the default
  let launch :=
    if applies ∧ (pending.get (js "followDefault")).truthy = true then
      setResolved (setResolved launch "model" selection.resolved) "thinking" selection.thinkingLevel
    else
      (launch.set (js "model") (.record [("requested", .str (selection.provider ++ js "/" ++ selection.model)),
          ("resolved", selection.resolved), ("source", Value.text "explicit")])).set (js "thinking")
        (.record [("requested", selection.thinkingLevel), ("resolved", selection.thinkingLevel),
          ("source", Value.text "explicit")])
  let launch := launch.set (js "fastModeSupported") (.bool selection.fastModeSupported)
  let launch := if applies then launch.delete (js "pendingInference") else launch
  pure (s.setLaunch sessionId launch now, written launch)

/-- What an actor reports of a selection. -/
structure InferenceResult where
  requestId : JsString
  selection : Option Selection
  error : Bool
deriving DecidableEq, Repr

def inferenceError : Value :=
  Value.text "Selection could not be applied. Choose again or retry after reconnecting."

/-- The selection that an actor kept after a failure is its policy, unless the pending one moves the default. -/
def keepSelection (s : Store) (sessionId : JsString) (launch : Value) (selection : Option Selection) (now : ℤ) :
    Result (Store × Value) :=
  match selection.filter fun _ => !(launchField launch "pendingInference" "followDefault").truthy with
  | none => .ok (s, launch)
  | some selection => updateSessionInference s sessionId selection (some launch) now none

/-- Record the result of an applied or failed selection; results of other generations are dropped. -/
def recordSessionInferenceResult (s : Store) (sessionId : JsString) (generation : ℕ) (result : InferenceResult) (now : ℤ) :
    Result (Store × Bool) :=
  match (s.sessions.get? sessionId).filter fun row => row.deleted = false ∧ row.actorGeneration = generation,
    result.selection with
  | none, _ => .ok (s, false)
  | some row, selection =>
    let launch := launchOf row
    if result.error then do
      let (s, launch) ← keepSelection s sessionId launch selection now
      let pending := launch.get (js "pendingInference")
      if pending.get (js "requestId") ≠ .str result.requestId then pure (s, false)
      else
        pure (s.setLaunch sessionId (launch.set (js "pendingInference") (pending.set (js "error") inferenceError)) now, true)
    else
      match selection with
      | none => .error (.error "Cannot read properties of undefined (reading 'provider')")
      | some selection => do
        let (s, _) ← updateSessionInference s sessionId selection (some launch) now (some result.requestId)
        pure (s, true)

end Selections

section Defaults

/-- A live session as the retargeting loop reads it. -/
structure RetargetRow where
  parent : Option JsString
  name : JsString
  launch : Value
deriving DecidableEq, Repr

/-- The parameters of `retargetDefaultInference`. -/
structure Retarget where
  fromProvider : JsString
  fromModel : JsString
  toProvider : JsString
  toModel : JsString
  fastModeSupported : Bool
  liveSessionIds : List JsString
  thinkingFor : Value → Value
  apply : Bool

/-- The sessions that a retargeting moves, and why the others stay. -/
structure Retargeted where
  moved : List (JsString × JsString × Bool)
  pinned : List (JsString × JsString)
  pending : List (JsString × JsString)
  otherModels : List (JsString × JsString × Value)
deriving DecidableEq, Repr

/-- A session follows the default when its model comes from the settings, its own or an ancestor's. -/
def followsDefault (rows : List (JsString × RetargetRow)) : ℕ → RetargetRow → Bool
  | 0, row => launchField row.launch "model" "source" = Value.text "settings"
  | depth + 1, row =>
    launchField row.launch "model" "source" = Value.text "settings"
      || (launchField row.launch "model" "source" = Value.text "parent"
        && (row.parent.bind (Assoc.lookup rows)).any (followsDefault rows depth))

structure RetargetProgress where
  store : Store
  rows : List (JsString × RetargetRow)
  result : Retargeted

/-- The launch of a moved session: a live actor gets a pending selection, another one starts with the new model. -/
def retargetedLaunch (env : Env) (params : Retarget) (live : Bool) (draw : ℕ) (launch : Value) : Value :=
  let thinkingLevel := params.thinkingFor (launchField launch "thinking" "resolved")
  if live then
    launch.set (js "pendingInference") (.record [("requestId", .str (env.uuid draw)), ("provider", .str params.toProvider),
      ("model", .str params.toModel), ("thinkingLevel", thinkingLevel), ("followDefault", .bool true)])
  else
    let launch := setResolved launch "model" (.record [("provider", .str params.toProvider), ("id", .str params.toModel)])
    let launch := if thinkingLevel.truthy then setResolved launch "thinking" thinkingLevel else launch
    launch.set (js "fastModeSupported") (.bool params.fastModeSupported)

def retargetRow (env : Env) (params : Retarget) (now : ℤ) (progress : RetargetProgress) (id : JsString) : RetargetProgress :=
  match Assoc.lookup progress.rows id with
  | none => progress
  | some row =>
    let resolved := launchField row.launch "model" "resolved"
    let current : Bool := resolved.get (js "provider") = .str params.fromProvider
      ∧ resolved.get (js "id") = .str params.fromModel
    let result := progress.result
    if followsDefault progress.rows maxAncestorDepth row = false then
      if current then { progress with result := { result with pinned := result.pinned ++ [(id, row.name)] } } else progress
    else if current = false then
      if resolved.truthy then
        let other := (id, row.name, resolved.get (js "id"))
        { progress with result := { result with otherModels := result.otherModels ++ [other] } }
      else progress
    else if (row.launch.get (js "pendingInference")).truthy then
      { progress with result := { result with pending := result.pending ++ [(id, row.name)] } }
    else
      let live : Bool := id ∈ params.liveSessionIds
      let result := { result with moved := result.moved ++ [(id, row.name, live)] }
      if params.apply then
        let launch := retargetedLaunch env params live progress.store.draws row.launch
        let store := progress.store.setLaunch id launch now
        { store := if live then { store with draws := store.draws + 1 } else store
          rows := Assoc.set progress.rows id { row with launch }
          result }
      else { progress with result }

/-- Move the sessions that follow the default to a new model. -/
def retargetDefaultInference (env : Env) (s : Store) (params : Retarget) (now : ℤ) : Store × Retargeted :=
  let rows := s.sessions.collect fun id row =>
    if row.deletedAt = none ∧ row.deleted = false then some (id, RetargetRow.mk row.parentSessionId row.displayName (launchOf row))
    else none
  let done := (rows.map Prod.fst).foldl (retargetRow env params now) ⟨s, rows, ⟨[], [], [], []⟩⟩
  (done.store, done.result)

end Defaults

end PersistentHarness.SessionStore

/-! ## Actor inputs

An input is admitted with a receipt and a pending row. The receipt stays; the pending row goes when the input
is delivered to the model or handled without a message, or with its session.
-/

namespace PersistentHarness.SessionStore

section Normalization

def InputSource.name : InputSource → String
  | .user => "user"
  | .cron => "cron"
  | .background => "background"

/-- A non-empty string of at most 128 code units. -/
def isBoundedId (value : Value) : Bool :=
  value.isString = true ∧ value.units ≠ [] ∧ value.units.length ≤ 128

/-- The fields that the origin of an internal input must have, and may have. -/
def originFields : InputSource → List String
  | .user => []
  | .cron => ["jobId", "runId"]
  | .background => ["jobId"]

def normalizeInputProvenance (source : JsString) (origin : Value) : Result (InputSource × Option Value) :=
  match [InputSource.user, .cron, .background].find? fun known => js known.name = source with
  | none => .error (.error "input source must be user, cron, or background")
  | some .user => do
    Checked.require (origin = .null) (.error "user input must not carry an internal origin")
    pure (.user, none)
  | some source => do
    let fields := originFields source
    Checked.require (origin.isObject = true ∧ (origin.fields.all fun field => fields.any fun key => js key = field.1) = true
        ∧ (fields.all fun key => isBoundedId (origin.get (js key))) = true)
      (.error "internal input requires an authenticated job origin")
    pure (source, some (.record (fields.map fun key => (key, origin.get (js key)))))

def normalizeRetryIntent (value : Value) : Result (Option Value) :=
  if value = .null then .ok none
  else do
    let targetId := value.get (js "targetId")
    let mode := value.get (js "mode")
    Checked.require (value.isObject = true
        ∧ (value.fields.all fun field => ["targetId", "mode"].any fun key => js key = field.1) = true
        ∧ isBoundedId targetId = true ∧ (targetId.units.all fun u => ¬(u ≤ 0x1F ∨ u = 0x7F)) = true
        ∧ (mode = Value.text "original" ∨ mode = Value.text "explicit"))
      (.error "retryIntent must contain a bounded targetId and original or explicit mode")
    pure (some (.record [("targetId", targetId), ("mode", mode)]))

def normalizeClientMessageId (value : Value) : Result (Option JsString) :=
  if value = .null then .ok none
  else do
    Checked.require (isBoundedId value = true) (.error "clientMessageId must be a non-empty string of at most 128 characters")
    pure (some value.units)

def magnitudeAtMost (bound : ℕ) : Value → Bool
  | .num n =>
    if 0 ≤ n.exponent then n.digits * 10 ^ n.exponent.toNat ≤ bound else n.digits ≤ bound * 10 ^ (-n.exponent).toNat
  | _ => false

/-- `value || 0` of a number. -/
def orZero (value : Value) : Value := if value.truthy then value else .num (.ofNat 0)

def maxTimestamp : ℕ := 8640000000000000

def normalizeInputLocation (value : Value) : Result (Option Value) :=
  if value = .undefined then .ok none
  else do
    Checked.require (value.isObject = true ∧ value.fields.length = 4
        ∧ (["latitude", "longitude", "accuracy", "timestamp"].all fun key => value.hasOwn (js key)) = true)
      (.error "location must contain latitude, longitude, accuracy, and timestamp")
    let latitude := value.get (js "latitude")
    let longitude := value.get (js "longitude")
    let accuracy := value.get (js "accuracy")
    let timestamp := value.get (js "timestamp")
    Checked.require (magnitudeAtMost 90 latitude = true ∧ magnitudeAtMost 180 longitude = true
        ∧ accuracy.isNonnegative = true ∧ timestamp.safeNat?.any (· ≤ maxTimestamp) = true)
      (.error "location coordinates, accuracy, or timestamp are invalid")
    pure (some (.record [("latitude", orZero latitude), ("longitude", orZero longitude), ("accuracy", orZero accuracy),
      ("timestamp", timestamp)]))

def actorInputDigest (env : Env) (message imagesJson : JsString) (behavior : Behavior) (location : Option Value) : JsString :=
  let located := (location.map fun location => [0] ++ js "location" ++ [0] ++ Json.stringify location).getD []
  env.sha256 (message ++ [0] ++ imagesJson ++ [0] ++ js behavior.name ++ located)

end Normalization

section Views

/-- What a pending input asks of its actor. -/
structure Payload where
  message : JsString
  images : Value
  behavior : Behavior
  location : Option Value
deriving DecidableEq, Repr

/-- An input as it is read; an input without a pending row has no state and is completed. -/
structure InputView where
  inputId : JsString
  receipt : Receipt
  state : Option InputState
  transportAcceptedAt : Option ℤ
  acceptedGeneration : Option ℕ
  wakeFailedGeneration : Option ℕ
  payload : Option Payload
deriving DecidableEq, Repr

def mapActorInput (inputId : JsString) (receipt : Receipt) (pending : Option ActorInput) : InputView :=
  { inputId, receipt
    state := pending.map ActorInput.state
    transportAcceptedAt := pending.bind ActorInput.acceptedAt
    acceptedGeneration := pending.bind ActorInput.acceptedGeneration
    wakeFailedGeneration := if receipt.deliveredAt = none then pending.bind ActorInput.wakeErrorGeneration else none
    payload := pending.map fun row => ⟨row.body, row.images, row.behavior, row.location⟩ }

def Store.getActorInput (s : Store) (inputId sessionId : JsString) : Option InputView :=
  ((s.receipts.get? inputId).filter fun receipt => receipt.sessionId = sessionId).map fun receipt =>
    mapActorInput inputId receipt ((s.inputs.get? inputId).filter fun row => row.sessionId = sessionId)

/-- The pending inputs of a session among some, in the order of their receipts. -/
def Store.pendingActorInputs (s : Store) (sessionId : JsString) (among : JsString → Bool) : List InputView :=
  let rows := s.inputs.collect fun id row =>
    if row.sessionId = sessionId ∧ among id = true then
      ((s.receipts.get? id).filter fun receipt => receipt.sessionId = sessionId).map fun receipt =>
        mapActorInput id receipt (some row)
    else none
  rows.mergeSort fun a b => a.receipt.sequence ≤ b.receipt.sequence

end Views

section Admission

/-- The parameters of `createActorInput`. -/
structure NewInput where
  inputId : Option JsString
  message : JsString
  images : Value
  location : Value
  behavior : Behavior
  source : JsString
  origin : Value
  clientMessageId : Value
  retryIntent : Value
  pendingLimit : ℕ
  pendingBytesLimit : ℕ
  globalPendingBytesLimit : ℕ
deriving DecidableEq, Repr

/-- The bytes that a pending input holds. -/
def payloadBytes (message : JsString) (images : Value) (location : Option Value) : ℕ :=
  message.utf8Length + (Json.stringify images).utf8Length
    + ((location.map fun location => (Json.stringify location).utf8Length).getD 0)

def ActorInput.bytes (row : ActorInput) : ℕ := payloadBytes row.body row.images row.location

def pendingBytes (inputs : Table JsString ActorInput) (among : ActorInput → Bool) : ℕ :=
  (inputs.collect fun _ row => if among row then some row.bytes else none).sum

/-- `coalesce(max(sequence), 0) + 1`. -/
def nextSequence (receipts : Table JsString Receipt) : ℕ :=
  (receipts.collect fun _ receipt => some receipt.sequence).foldl max 0 + 1

def maxSafeInteger : ℤ := 9007199254740991

/-- Move the last activity of a session forward. -/
def recordSessionActivity (s : Store) (sessionId : JsString) (now : ℤ) : Result (Store × Bool) := do
  Checked.require (0 ≤ now ∧ now ≤ maxSafeInteger) (.error "activity timestamp must be nonnegative integer milliseconds")
  let later (row : Session) : Bool := row.lastActivityAt.all (· < now)
  pure (s.updateSession sessionId fun row => if later row then { row with lastActivityAt := some now } else row,
    (s.sessions.get? sessionId).any later)

/-- The metadata of an input that its parameters fix. -/
structure InputTerms where
  source : InputSource
  origin : Option Value
  retryIntent : Option Value
  clientMessageId : Option JsString
  location : Option Value
  digest : JsString
deriving DecidableEq, Repr

def inputTerms (env : Env) (params : NewInput) : Result InputTerms := do
  let (source, origin) ← normalizeInputProvenance params.source params.origin
  let retryIntent ← normalizeRetryIntent params.retryIntent
  Checked.require (retryIntent = none ∨ params.behavior = .auto) (.error "retry input behavior must be auto")
  let clientMessageId ← normalizeClientMessageId params.clientMessageId
  let location ← normalizeInputLocation params.location
  Checked.require (location = none ∨ source = .user) (.error "location requires a genuine user input")
  pure ⟨source, origin, retryIntent, clientMessageId, location,
    actorInputDigest env params.message (Json.stringify params.images) params.behavior location⟩

/-- A receipt is the one of a replayed request. -/
def Receipt.matches (receipt : Receipt) (sessionId : JsString) (terms : InputTerms) : Bool :=
  receipt.sessionId = sessionId ∧ receipt.digest = terms.digest ∧ receipt.retryIntent = terms.retryIntent
    ∧ (receipt.source = none ∨ (receipt.source = some terms.source ∧ receipt.origin = terms.origin))
    ∧ (receipt.clientMessageId = none ∨ terms.clientMessageId = none ∨ receipt.clientMessageId = terms.clientMessageId)

/-- A replay of an internal input restores the provenance that a legacy receipt lacks, and any replay a client id. -/
def Receipt.restore (receipt : Receipt) (terms : InputTerms) : Receipt :=
  let restores : Bool := receipt.source = none ∧ terms.source ≠ .user
  { receipt with
    source := if restores then some terms.source else receipt.source
    origin := if restores then terms.origin else receipt.origin
    clientMessageId := receipt.clientMessageId.or terms.clientMessageId }

/-- A completed input is returned with the payload of its replay. -/
def withPayload (params : NewInput) (location : Option Value) (view : InputView) : InputView :=
  if view.state = none then { view with payload := some ⟨params.message, params.images, params.behavior, location⟩ } else view

def replayActorInput (s : Store) (sessionId inputId : JsString) (params : NewInput) (terms : InputTerms) (receipt : Receipt) :
    Result (Store × Option InputView) := do
  Checked.require (receipt.matches sessionId terms = true) (.error "actor input id was reused with different input")
  let s := { s with receipts := s.receipts.update inputId fun row => row.restore terms }
  pure (s, (s.getActorInput inputId sessionId).map (withPayload params terms.location))

def Receipt.admitted (sessionId : JsString) (terms : InputTerms) (sequence : ℕ) (now : ℤ) : Receipt :=
  { sessionId, digest := terms.digest, createdAt := now, sequence, source := some terms.source, origin := terms.origin
    clientMessageId := terms.clientMessageId, deliveredAt := none, deliveredEntryId := none, handledAt := none
    retryIntent := terms.retryIntent }

def ActorInput.admitted (sessionId : JsString) (params : NewInput) (terms : InputTerms) (now : ℤ) : ActorInput :=
  { sessionId, body := params.message, images := params.images, location := terms.location, digest := terms.digest
    behavior := params.behavior, state := .queued, createdAt := now, acceptedAt := none, acceptedGeneration := none
    wakeErrorGeneration := none }

def admitActorInput (s : Store) (sessionId inputId : JsString) (params : NewInput) (terms : InputTerms) (now : ℤ) :
    Result (Store × Option InputView) := do
  let here (row : ActorInput) : Bool := row.sessionId = sessionId
  let bytes := payloadBytes params.message params.images terms.location
  Checked.require (s.inputs.count (fun _ row => here row) < params.pendingLimit)
    (.error "target pending user-input limit exceeded")
  Checked.require (pendingBytes s.inputs here + bytes ≤ params.pendingBytesLimit)
    (.error "target pending user-input byte limit exceeded")
  Checked.require (pendingBytes s.inputs (fun _ => true) + bytes ≤ params.globalPendingBytesLimit)
    (.error "global pending user-input byte limit exceeded")
  match s.receipts.insert? inputId (.admitted sessionId terms (nextSequence s.receipts) now),
    s.inputs.insert? inputId (.admitted sessionId params terms now) with
  | some receipts, some inputs => do
    let (s, _) ← recordSessionActivity { s with receipts, inputs } sessionId now
    pure (s, s.getActorInput inputId sessionId)
  | none, _ => .error (.unique "actor_input_receipts.id")
  | some _, none => .error (.unique "actor_inputs.id")

/-- The id of a new input: the given one, or a random one. -/
def newInputId (env : Env) (s : Store) (params : NewInput) : JsString × Store :=
  match params.inputId with
  | some id => (id, s)
  | none => (env.uuid s.draws, { s with draws := s.draws + 1 })

def createActorInput (env : Env) (s : Store) (sessionId : JsString) (params : NewInput) (now : ℤ) :
    Result (Store × Option InputView) := do
  s.assertSessionAvailable sessionId
  let terms ← inputTerms env params
  let (inputId, s) := newInputId env s params
  match s.receipts.get? inputId with
  | some receipt => replayActorInput s sessionId inputId params terms receipt
  | none => admitActorInput s sessionId inputId params terms now

end Admission

section Outcomes

/-- Publish a failed wake to the pending inputs of a session, or withdraw it. -/
def setActorInputWakeError (s : Store) (sessionId : JsString) (generation : Option ℕ) : Store × List InputView :=
  let stale (row : ActorInput) : Bool := row.sessionId = sessionId ∧ row.wakeErrorGeneration ≠ generation
  let inputs := s.inputs.modify fun _ row => if stale row then { row with wakeErrorGeneration := generation } else row
  let next := { s with inputs }
  match generation with
  | some _ => (next, next.pendingActorInputs sessionId fun _ => true)
  | none =>
    (next, (next.pendingActorInputs sessionId fun id => (s.inputs.get? id).any stale).filter fun view =>
      view.receipt.deliveredAt = none)

def Store.updateInput (s : Store) (inputId sessionId : JsString) (f : ActorInput → ActorInput) : Store :=
  { s with inputs := s.inputs.update inputId fun row => if row.sessionId = sessionId then f row else row }

/-- The acknowledgement of a transport may come after the input is done. -/
def markActorInputAccepted (s : Store) (inputId sessionId : JsString) (generation : ℕ) (now : ℤ) : Store × Result InputView :=
  let s := s.updateInput inputId sessionId fun row =>
    { row with state := .accepted, acceptedAt := row.acceptedAt.or (some now), acceptedGeneration := some generation }
  match s.getActorInput inputId sessionId with
  | none => (s, .error (.error "actor input does not exist"))
  | some view => (s, .ok view)

/-- Write the outcome of an input into its receipt and drop its pending row. -/
def Store.settleInput (s : Store) (inputId sessionId : JsString) (f : Receipt → Receipt) : Store :=
  { s with
    receipts := s.receipts.update inputId f
    inputs := s.inputs.delete fun id row => id = inputId ∧ row.sessionId = sessionId }

def Receipt.deliver (now : ℤ) (entryId : Option JsString) (receipt : Receipt) : Receipt :=
  { receipt with
    deliveredAt := receipt.deliveredAt.or (some (max now receipt.createdAt))
    deliveredEntryId := receipt.deliveredEntryId.or entryId }

def recordOutcome (s : Store) (sessionId : JsString) (changed : Bool) (now : ℤ) : Result Store :=
  if changed then (recordSessionActivity s sessionId now).map Prod.fst else .ok s

def completeActorInput (s : Store) (inputId sessionId : JsString) (now : ℤ) (entryId : Option JsString) :
    Result (Store × Bool) :=
  match (s.receipts.get? inputId).filter fun receipt => receipt.sessionId = sessionId with
  | none => .ok (s, false)
  | some receipt => do
    Checked.require (receipt.handledAt = none) (.error "input was handled without a model message")
    let saved := receipt.deliveredEntryId.filter (· ≠ [])
    let given := entryId.filter (· ≠ [])
    Checked.require (saved = none ∨ given = none ∨ saved = given) (.error "input has a different delivered entry")
    let changed : Bool := receipt.deliveredAt = none
    let s ← recordOutcome (s.settleInput inputId sessionId (Receipt.deliver now entryId)) sessionId changed now
    pure (s, changed)

def Receipt.handle (now : ℤ) (receipt : Receipt) : Receipt :=
  { receipt with handledAt := receipt.handledAt.or (some (max now receipt.createdAt)) }

def markActorInputHandled (s : Store) (inputId sessionId : JsString) (now : ℤ) : Result (Store × Option InputView) :=
  match (s.receipts.get? inputId).filter fun receipt => receipt.sessionId = sessionId with
  | none => .error (.error "actor input does not exist")
  | some receipt => do
    Checked.require (receipt.source = none ∨ receipt.source = some .user)
      (.error "only a user control input can be handled without a model message")
    Checked.require (receipt.deliveredAt = none) (.error "input was already delivered to model context")
    let changed : Bool := receipt.handledAt = none
    let s ← recordOutcome (s.settleInput inputId sessionId (Receipt.handle now)) sessionId changed now
    pure (s, s.getActorInput inputId sessionId)

end Outcomes

end PersistentHarness.SessionStore
