import PersistentHarness.Model.Session.Run

/-! # Retries of responses

A client may ask for another response to an input. The worker first moves the session's leaf to the parent of that
input, and only then is the new input admitted. Requests of one session take turns, but everything else goes on at
each of their awaits.
-/

namespace PersistentHarness.Retry

open SessionStore (Store Receipt NewInput InputView Result)

/-- What the supervisor is given for good. -/
structure Config where
  env : SessionStore.Env
  pendingMessageLimit : ℕ

section Requests

/-- What an explicit retry sends; the protocol has normalized it. -/
structure Content where
  message : JsString
  images : Value
  location : Option Value
deriving DecidableEq

/-- An original retry sends no content: the input is read from the transcript. -/
inductive Mode where
  | original
  | explicit (content : Content)
deriving DecidableEq

/-- The parameters of a `submit_input` with `retryOf`; its behavior is `auto`. -/
structure Submission where
  sessionId : JsString
  clientRequestId : Option JsString
  clientMessageId : Option JsString
  retryOf : JsString
  mode : Mode
deriving DecidableEq

def requestInputId (config : Config) (submission : Submission) : Option JsString :=
  (submission.clientRequestId.filter (· ≠ [])).map fun clientRequestId =>
    js "client-" ++ config.env.sha256 (submission.sessionId ++ [0] ++ clientRequestId)

def clientMessageId (submission : Submission) : Option JsString :=
  submission.clientMessageId.or submission.clientRequestId

def Mode.name : Mode → String
  | .original => "original"
  | .explicit _ => "explicit"

def retryIntentForRequest (submission : Submission) : Value :=
  .record [("targetId", .str submission.retryOf), ("mode", .text submission.mode.name)]

/-- An explicit retry repeats what its receipt was made for. -/
def Mode.matches (env : SessionStore.Env) (mode : Mode) (receipt : Receipt) : Bool :=
  match mode with
  | .original => true
  | .explicit content =>
    receipt.digest = SessionStore.actorInputDigest env content.message (Json.stringify content.images) .auto content.location
      ∧ (receipt.source = none ∨ receipt.source = some .user)

def matchActorInputRequest (config : Config) (s : Store) (submission : Submission) : Result (Option InputView) := do
  let retryIntent ← SessionStore.normalizeRetryIntent (retryIntentForRequest submission)
  match requestInputId config submission with
  | none => pure none
  | some id =>
    match s.receipts.get? id with
    | none => pure none
    | some receipt => do
      Checked.require
        (receipt.sessionId = submission.sessionId ∧ receipt.retryIntent = retryIntent
          ∧ (receipt.clientMessageId = none ∨ clientMessageId submission = none
            ∨ receipt.clientMessageId = clientMessageId submission)
          ∧ submission.mode.matches config.env receipt = true)
        (.error "actor input id was reused with different input")
      pure (s.getActorInput id submission.sessionId)

end Requests

/-! ## Requests in progress -/

/-- What the transcript reader finds for a response: the input it answers, and what that input follows. -/
structure Turn where
  userId : JsString
  branchFromId : Option JsString
deriving DecidableEq, Repr

/-- The input that is admitted. -/
structure Payload where
  message : JsString
  images : Value
  location : Option Value
  source : JsString
  origin : Value
deriving DecidableEq

/-- What a request waits for. -/
inductive Stage where
  /-- `#idleActorForAction`. -/
  | readying
  /-- `resolveRetryInput` or `resolveRetryTurn`. -/
  | resolving
  /-- The prompt that moves the leaf. -/
  | branching (turn : Turn) (payload : Payload)
  /-- `get_entries`. -/
  | verifying (turn : Turn) (payload : Payload)
deriving DecidableEq

/-- A request, with the leaf as others have left it since before it and the number of times that it has moved the
leaf. -/
structure Request where
  submission : Submission
  stage : Stage
  leafBefore : Option JsString
  moves : ℕ
deriving DecidableEq

/-- How a request ended. -/
structure Answer where
  submission : Submission
  inputId : Option JsString
  accepted : Bool
  /-- A receipt of an earlier request answers it. -/
  prior : Bool
  /-- It has created an input. -/
  stored : Bool
  moves : ℕ
  leafBefore : Option JsString
  leafAfter : Option JsString
  /-- The retry branch that the leaf was seen at. -/
  branch : Option Turn
deriving DecidableEq

structure System where
  store : Store
  leaf : JsString → Option JsString
  requests : List Request
  answers : List Answer

def System.initial : System := ⟨.empty, fun _ => none, [], []⟩

namespace System

def setRequest (s : System) (n : ℕ) (request : Request) : System := { s with requests := s.requests.set n request }

/-- A request ends without an input of its own. -/
def reject (config : Config) (s : System) (n : ℕ) (request : Request) : System :=
  { s with
    requests := s.requests.eraseIdx n
    answers :=
      { submission := request.submission, inputId := requestInputId config request.submission, accepted := false, prior := false
        stored := false, moves := request.moves, leafBefore := request.leafBefore
        leafAfter := s.leaf request.submission.sessionId, branch := none } :: s.answers }

/-- An answer before the first await. -/
def reply (config : Config) (s : System) (submission : Submission) (accepted prior : Bool) : System :=
  let leaf := s.leaf submission.sessionId
  { s with
    answers :=
      { submission, inputId := requestInputId config submission, accepted, prior, stored := false, moves := 0
        leafBefore := leaf, leafAfter := leaf, branch := none } :: s.answers }

/-- A request has its turn. `available` tells that the supervisor is not stopping, and `wakes` that the session's
start can be requested. -/
def submit (config : Config) (s : System) (submission : Submission) (available wakes : Bool) : System :=
  if available = false ∨ submission.sessionId ∈ s.store.deleting then s.reply config submission false false
  else
    match matchActorInputRequest config s.store submission with
    | .error _ => s.reply config submission false false
    | .ok (some prior) => s.reply config submission (prior.state = none || wakes) true
    | .ok none =>
      { s with requests := s.requests ++ [⟨submission, .readying, s.leaf submission.sessionId, 0⟩] }

/-- The transcript has been read. -/
def resolve (config : Config) (s : System) (n : ℕ) (request : Request) (turn : Turn) (input : Payload) : System :=
  match s.store.sessions.get? request.submission.sessionId with
  | none => s.reject config n request
  | some row =>
    if row.deleted ∨ row.sessionFile.all (· = []) then s.reject config n request
    else
      let payload : Payload :=
        match request.submission.mode with
        | .original => input
        | .explicit content => ⟨content.message, content.images, content.location, js "user", .null⟩
      s.setRequest n { request with stage := .branching turn payload }

def newInput (config : Config) (submission : Submission) (payload : Payload) : NewInput where
  inputId := requestInputId config submission
  message := payload.message
  images := payload.images
  location := payload.location.getD .undefined
  behavior := .auto
  source := payload.source
  origin := payload.origin
  clientMessageId := ((clientMessageId submission).map Value.str).getD .null
  retryIntent := retryIntentForRequest submission
  pendingLimit := config.pendingMessageLimit
  pendingBytesLimit := 16 * 1024 * 1024
  globalPendingBytesLimit := 64 * 1024 * 1024

/-- The leaf is where it should be: the input is created, and the session's start requested. -/
def admitTurn (config : Config) (s : System) (n : ℕ) (request : Request) (turn : Turn) (payload : Payload) (now : ℤ)
    (wakes : Bool) : System :=
  let submission := request.submission
  let params := newInput config submission payload
  let id := (SessionStore.newInputId config.env s.store params).1
  match SessionStore.step config.env none s.store now (.createActorInput submission.sessionId params) with
  | (_, .thrown _) => s.reject config n request
  | (store, _) =>
    { s with
      store
      requests := s.requests.eraseIdx n
      answers :=
        { submission, inputId := some id, accepted := wakes, prior := false
          stored := (s.store.receipts.get? id).isNone && (store.receipts.get? id).isSome
          moves := request.moves, leafBefore := request.leafBefore
          leafAfter := s.leaf submission.sessionId, branch := some turn } :: s.answers }

end System

inductive Event where
  /-- What any other caller does to the sessions. -/
  | store (now : ℤ) (observer : Option JsString) (op : SessionStore.Op)
  /-- Anything else moves a leaf. -/
  | drift (sessionId : JsString) (leaf : Option JsString)
  | submit (submission : Submission) (available wakes : Bool)
  | ready (n : ℕ)
  | resolve (n : ℕ) (turn : Turn) (input : Payload)
  /-- The worker moves the leaf; its reply may be lost. -/
  | branch (n : ℕ) (leaf : Option JsString) (replied : Bool)
  /-- `get_entries` is answered. -/
  | verify (n : ℕ) (now : ℤ) (wakes : Bool)
  /-- Whatever a request waits for fails; a prompt that fails has not moved the leaf. -/
  | fail (n : ℕ)

/-- Another activity has moved the leaf under a request. -/
def Request.drifts (sessionId : JsString) (leaf : Option JsString) (request : Request) : Request :=
  if request.submission.sessionId = sessionId then { request with leafBefore := leaf } else request

def step (config : Config) (s : System) : Event → System
  | .store now observer op => { s with store := (SessionStore.step config.env observer s.store now op).1 }
  | .drift sessionId leaf =>
    { s with
      leaf := fun id => if id = sessionId then leaf else s.leaf id
      requests := s.requests.map (Request.drifts sessionId leaf) }
  | .submit submission available wakes =>
    if s.requests.any fun request => request.submission.sessionId = submission.sessionId then s
    else s.submit config submission available wakes
  | .ready n =>
    match s.requests[n]? with
    | some request => if request.stage = .readying then s.setRequest n { request with stage := .resolving } else s
    | none => s
  | .resolve n turn input =>
    match s.requests[n]? with
    | some request => if request.stage = .resolving then s.resolve config n request turn input else s
    | none => s
  | .branch n leaf replied =>
    match s.requests[n]? with
    | some request =>
      match request.stage with
      | .branching turn payload =>
        let moved := { request with stage := .verifying turn payload, moves := request.moves + 1 }
        let sessionId := request.submission.sessionId
        let s := { s with leaf := fun id => if id = sessionId then leaf else s.leaf id }
        if replied then s.setRequest n moved else s.reject config n moved
      | _ => s
    | none => s
  | .verify n now wakes =>
    match s.requests[n]? with
    | some request =>
      match request.stage with
      | .verifying turn payload =>
        if s.leaf request.submission.sessionId = turn.branchFromId then s.admitTurn config n request turn payload now wakes
        else s.reject config n request
      | _ => s
    | none => s
  | .fail n =>
    match s.requests[n]? with
    | some request => s.reject config n request
    | none => s

def run (config : Config) (events : List Event) : System := events.foldl (step config) .initial

end PersistentHarness.Retry
