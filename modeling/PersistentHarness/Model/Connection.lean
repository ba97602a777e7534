import PersistentHarness.Model.Framing

/-! # What a connection sends

The supervisor queues encoded frames for each connection and hands them to the socket until the socket asks
it to wait for a drain. A call of the socket's `write` is a step of its own: until it returns, other frames may
be written and drains may arrive, each with a flush of its own.
-/

namespace PersistentHarness.Connection

open Framing (encodeFrame)

def protocolVersion : ℕ := 2

def socketOutputHeadroomBytes : ℕ := 256 * 1024

/-- One full legal frame with its newline, and room for small frames. -/
def socketOutputBufferLimit (maxFrameBytes : ℕ) : ℕ := maxFrameBytes + 1 + socketOutputHeadroomBytes

/-- What an operation throws; only a `ProtocolError` shows its code in a protocol error frame. -/
structure Failure where
  code : Option JsString
  message : JsString
  isProtocolError : Bool
deriving DecidableEq, Repr

def response (id requestType : JsString) (data : Value) : Value :=
  .record [("version", .num (.ofNat protocolVersion)), ("type", .text "response"), ("id", .str id),
    ("requestType", .str requestType), ("ok", .bool true), ("data", data)]

def errorResponse (id requestType : Value) (message code : JsString) : Value :=
  .record [("version", .num (.ofNat protocolVersion)), ("type", .text "response"), ("id", id),
    ("requestType", requestType), ("ok", .bool false), ("code", .str code), ("error", .str message)]

def protocolErrorFrame (error : Failure) : Value :=
  .record [("version", .num (.ofNat protocolVersion)), ("type", .text "protocol_error"),
    ("code", .str (if error.isProtocolError then error.code.getD (js "undefined") else js "malformed_frame")),
    ("message", .str error.message)]

def event (eventName : JsString) (data : Value) : Value :=
  .record [("version", .num (.ofNat protocolVersion)), ("type", .text "event"), ("event", .str eventName), ("data", data)]

/-- What is sent in place of a frame that is too large. -/
def truncatedFrame (frame : Value) : Value :=
  if frame.get (js "type") = .text "response" then
    errorResponse (frame.get (js "id")) (frame.get (js "requestType")) (js "response exceeds protocol frame limit")
      (js "response_too_large")
  else
    event (js "frame_truncated")
      (.record [("originalType", frame.get (js "type")), ("originalEvent", frame.get (js "event"))])

/-- The bytes of a frame, or of its replacement; `none` when both are too large. -/
def encode (maxFrameBytes : ℕ) (frame : Value) : Option Bytes :=
  match encodeFrame maxFrameBytes frame with
  | .ok encoded => some encoded
  | .error _ => (encodeFrame maxFrameBytes (truncatedFrame frame)).toOption

/-- A frame to write: a value, or the bytes that were encoded for several connections. -/
inductive Frame where
  | value (frame : Value)
  | encoded (bytes : Bytes)

def Frame.encode (maxFrameBytes : ℕ) : Frame → Option Bytes
  | .value frame => Connection.encode maxFrameBytes frame
  | .encoded bytes => some bytes

/-- The socket: `received` are the frames that `write` has taken, in order. -/
structure Socket where
  destroyed : Bool
  writableEnded : Bool
  writableLength : ℕ
  received : List Bytes
deriving DecidableEq

namespace Socket

def new : Socket := ⟨false, false, 0, []⟩

def destroy (socket : Socket) : Socket := { socket with destroyed := true }

/-- `socket.end()`. -/
def finish (socket : Socket) : Socket := { socket with writableEnded := true }

/-- A destroyed socket takes nothing; a write after the end destroys it. -/
def write (socket : Socket) (encoded : Bytes) : Socket :=
  if socket.destroyed then socket
  else if socket.writableEnded then socket.destroy
  else { socket with writableLength := socket.writableLength + encoded.length, received := socket.received ++ [encoded] }

end Socket

/-- A frame that waits to be handed to the socket; the callback of its write may end the socket. -/
structure Queued where
  encoded : Bytes
  callback : Bool
deriving DecidableEq

/-- The sending half of a connection. `writing` counts the calls of `write` that have not returned, and
`accepted` are all frames that were queued. -/
structure Output where
  socket : Socket
  closing : Bool
  cleaned : Bool
  outputQueue : List (Option Queued)
  outputQueueHead : ℕ
  outputBytes : ℤ
  outputBlocked : Bool
  writing : ℕ
  accepted : List Bytes
deriving DecidableEq

namespace Output

def new : Output where
  socket := .new
  closing := false
  cleaned := false
  outputQueue := []
  outputQueueHead := 0
  outputBytes := 0
  outputBlocked := false
  writing := 0
  accepted := []

/-- The frames that wait. -/
def queued (o : Output) : List Queued := (o.outputQueue.drop o.outputQueueHead).reduceOption

/-- The end of a flush: the slots that were handed over are dropped when there are many of them. -/
def compact (o : Output) : Output :=
  if o.outputQueueHead = o.outputQueue.length then { o with outputQueue := [], outputQueueHead := 0 }
  else if 1024 ≤ o.outputQueueHead ∧ o.outputQueue.length ≤ o.outputQueueHead * 2 then
    { o with outputQueue := o.outputQueue.drop o.outputQueueHead, outputQueueHead := 0 }
  else o

/-- The loop of a flush up to its next call of `write`, or to its end. -/
def pump (o : Output) : Output :=
  if o.outputBlocked then o.compact
  else
    match o.outputQueue[o.outputQueueHead]? with
    | none => o.compact
    -- A slot that was handed over is not met again.
    | some none => o
    | some (some frame) =>
      { o with
        outputQueue := o.outputQueue.set o.outputQueueHead none
        outputQueueHead := o.outputQueueHead + 1
        outputBytes := o.outputBytes - frame.encoded.length
        socket := o.socket.write frame.encoded
        writing := o.writing + 1 }

def flushWrites (o : Output) : Output :=
  if o.cleaned ∨ o.socket.destroyed ∨ o.socket.writableEnded then o else o.pump

/-- Queue a frame and flush. The flag says whether the frame was queued. -/
def write (maxFrameBytes : ℕ) (o : Output) (frame : Frame) (callback : Bool) : Output × Bool :=
  if o.closing ∨ o.cleaned ∨ o.socket.destroyed ∨ o.socket.writableEnded then (o, false)
  else
    match frame.encode maxFrameBytes with
    | none => ({ o with socket := o.socket.destroy }, false)
    | some encoded =>
      if (socketOutputBufferLimit maxFrameBytes : ℤ) < o.outputBytes + o.socket.writableLength + encoded.length then
        ({ o with socket := o.socket.destroy }, false)
      else
        ({ o with
            outputQueue := o.outputQueue ++ [some (⟨encoded, callback⟩ : Queued)]
            outputBytes := o.outputBytes + encoded.length
            accepted := o.accepted ++ [encoded] }.flushWrites, true)

/-- `#cleanupConnection`, once the socket has closed. -/
def cleanup (o : Output) : Output :=
  { o with
    cleaned := true
    closing := true
    outputQueue := []
    outputQueueHead := 0
    outputBytes := 0
    outputBlocked := false }

/-- How a call of the socket's `write` returns. -/
inductive Answer where
  | flowing
  | full
  | threw
deriving DecidableEq

/-- The newest call of `write` returns into its flush. -/
def returned (o : Output) (answer : Answer) : Output :=
  match o.writing, answer with
  | 0, _ => o
  | writing + 1, .threw => { o with writing, socket := o.socket.destroy }
  | writing + 1, .flowing => { o with writing, outputBlocked := false }.pump
  | writing + 1, .full => { o with writing, outputBlocked := true }.pump

inductive Event where
  | write (frame : Frame) (callback : Bool)
  | returned (answer : Answer)
  | drain
  /-- The kernel has taken bytes from the socket's buffer. -/
  | sent (bytes : ℕ)
  /-- `socket.end()`, by the callback of a write or by whoever replaces the connection. -/
  | finish
  | destroy
  /-- A protocol error was written: nothing else is. -/
  | close
  | cleanup

def step (maxFrameBytes : ℕ) (o : Output) : Event → Output
  | .write frame callback => (o.write maxFrameBytes frame callback).1
  | .returned answer => o.returned answer
  | .drain => { o with outputBlocked := false }.flushWrites
  | .sent bytes => { o with socket := { o.socket with writableLength := o.socket.writableLength - bytes } }
  | .finish => { o with socket := o.socket.finish }
  | .destroy => { o with socket := o.socket.destroy }
  | .close => { o with closing := true }
  | .cleanup => if o.socket.destroyed then o.cleanup else o

def run (maxFrameBytes : ℕ) (events : List Event) : Output := events.foldl (step maxFrameBytes) .new

end Output

end PersistentHarness.Connection

/-! ## Requests of a connection

A frame is admitted and its operation is started in one step; an asynchronous operation finishes in a later one.
New work takes a slot and its bytes, and the continuation of work that is already pending takes the place of its
owner instead; both are given back when the operation finishes, unless the connection is cleaned up before.
-/

namespace PersistentHarness.Connection

open Json (unit decimal numberText)

section Validation

def stringOf : Value → JsString
  | .undefined => js "undefined"
  | .null => js "null"
  | .bool value => js (toString value)
  | .num n => numberText n
  | .str text => text
  | .arr items => [unit ','].intercalate (shown items)
  | .obj _ => js "[object Object]"
where
  /-- The parts that `join` puts together. -/
  shown : List Value → List JsString
    | [] => []
    | item :: items => (match item with | .undefined | .null => [] | item => stringOf item) :: shown items

def protocolError (code : String) (message : JsString) : Failure := ⟨some (js code), message, true⟩

def requestFailure (code message : String) : Failure := ⟨some (js code), js message, false⟩

/-- `new Error(message)`. -/
def plainError (message : String) : Failure := ⟨none, js message, false⟩

def maxIdLength : ℕ := 128

def requestTypes : List JsString :=
  ["register_actor", "register_client", "heartbeat", "set_session_name", "record_actor_turn_failure", "update_activity",
    "update_progress_heading", "record_progress_entry", "record_agent_message_entry", "record_child_creation_entry",
    "set_skill_manifest", "record_usage", "record_context_usage", "get_actor_input", "accept_actor_input",
    "record_input_delivery", "flush_actor_inputs", "get_roster", "run_reminders", "send_message", "ack_message",
    "spawn_child", "list_children", "session_history", "cron_job", "request_attention", "resolve_attention",
    "list_notifications", "get_notification", "read_notification", "dismiss_notification",
    "claim_notification_delivery", "record_notification_delivery", "stop_child", "revive_child", "delete_child",
    "create_root", "list_sessions", "rename_session", "subscribe_session", "unsubscribe_session",
    "subscribe_root_output", "unsubscribe_root_output", "submit_input", "respond_extension_ui",
    "get_session_inference", "set_session_inference", "set_default_inference", "set_session_fast_mode",
    "get_actor_state", "get_actor_entries", "get_visible_messages", "get_visible_image", "compact_session",
    "restart_kernel", "abort_session", "get_skill_runtime_plan", "provision_skill_runtime", "stop_session",
    "revive_session", "delete_session", "get_memory_diagnostics", "get_liveness", "get_status", "get_usage",
    "shutdown_daemon"].map js

def record (value : Value) (path : String) : Except Failure Unit :=
  if value.isObject then .ok () else .error (protocolError "invalid_request" (js path ++ js " must be an object"))

def exact (value : Value) (keys : List String) (path : String) : Except Failure Unit :=
  match (Assoc.keys value.fields).find? fun key => key ∉ keys.map js with
  | some key => .error (protocolError "invalid_request" (js path ++ js "." ++ key ++ js " is not supported"))
  | none => .ok ()

def string (value : Value) (path : String) (max : ℕ) : Except Failure JsString :=
  if value.isString = true ∧ value.units ≠ [] ∧ value.units.length ≤ max then .ok value.units
  else .error (protocolError "invalid_request"
    (js path ++ js " must be a non-empty string of at most " ++ decimal max ++ js " characters"))

def empty (params : Value) : Except Failure Value := do
  record params "params"
  exact params [] "params"
  pure params

structure Request where
  id : JsString
  type : JsString
  params : Value

/-- The frame limit, and the validators of the types whose requests have parameters. -/
structure Config where
  maxFrameBytes : ℕ
  validators : JsString → Option (Value → Except Failure Value)

def validateRequest (config : Config) (frame : Value) : Except Failure Request := do
  record frame "frame"
  exact frame ["version", "id", "type", "params"] "frame"
  if frame.get (js "version") ≠ .num (.ofNat protocolVersion) then
    .error (protocolError "unsupported_version"
      (js "protocol version " ++ stringOf (frame.get (js "version")) ++ js " is unsupported"))
  let id ← string (frame.get (js "id")) "frame.id" maxIdLength
  let type ← string (frame.get (js "type")) "frame.type" 64
  if type ∉ requestTypes then
    .error (protocolError "unknown_request" (js "unknown request type: " ++ type))
  let params ← (config.validators type).getD empty (frame.get (js "params"))
  pure ⟨id, type, params⟩

end Validation

def maxInFlightRequests : ℕ := 8192

def completedRequestIdCacheSize : ℕ := 4096

inductive Role where
  | client
  | actor
deriving DecidableEq, Repr

/-- What a continuation belongs to: a pending dialog, which is an object, or a key. -/
inductive Owner where
  | dialog (serial : ℕ)
  | key (text : JsString)
deriving DecidableEq, Repr

/-- A frame that passed the checks of its id, with what its handler holds until the operation finishes. `ran` and
`responses` tell whether its operation was started, and the responses that were queued for it. -/
structure Operation where
  id : JsString
  type : JsString
  admittedWork : Bool
  requestBytes : ℕ
  continuationOwner : Option Owner
  ran : Bool
  finished : Bool
  responses : List Value

structure System where
  output : Output
  role : Option Role
  sessionId : Option JsString
  generation : ℕ
  subscriptions : List JsString
  inFlightRequestIds : List JsString
  /-- Oldest first. -/
  recentCompletedRequestIds : List JsString
  inFlightWorkCount : ℤ
  inFlightRequestBytes : ℤ
  continuationOwners : List Owner
  operations : List Operation
  /-- The ids of the finished requests, in the order in which they finished. -/
  completed : List JsString

structure Dialog where
  serial : ℕ
  expiresAt : ℤ
  generation : ℕ

structure Worker where
  isRunning : Bool
  generation : ℕ

structure InputRow where
  inputId : JsString
  state : JsString
  source : JsString

structure MessageRow where
  messageId : JsString
  targetId : JsString
  state : JsString

/-- What the supervisor holds when a frame arrives, as far as it decides what continues pending work. -/
structure View where
  now : ℤ
  extensionUiRequests : JsString → Option Dialog
  actors : JsString → Option Worker
  /-- What `assertSessionAvailable` throws. -/
  unavailable : JsString → Option Failure
  getActorInput : JsString → JsString → Option InputRow
  getMessage : JsString → Option MessageRow

/-- What an operation does: it returns or throws at once, or is awaited. -/
inductive Outcome where
  | returned (data : Value)
  | threw (failure : Failure)

namespace System

def new : System where
  output := .new
  role := none
  sessionId := none
  generation := 0
  subscriptions := []
  inFlightRequestIds := []
  recentCompletedRequestIds := []
  inFlightWorkCount := 0
  inFlightRequestBytes := 0
  continuationOwners := []
  operations := []
  completed := []

section Operations

def requireActor (s : System) : Except Failure JsString :=
  match s.sessionId with
  | some sessionId =>
    if s.role = some .actor ∧ sessionId ≠ [] ∧ s.generation ≠ 0 then .ok sessionId
    else .error (plainError "actor connection is not registered")
  | none => .error (plainError "actor connection is not registered")

/-- The key that joins two parts with a NUL. -/
def joined (first second : JsString) : JsString := first ++ [0] ++ second

/-- `#requestOperation`: the owner of the pending work that the request continues, if it continues any. -/
def requestOperation (s : System) (view : View) (request : Request) : Except Failure (Option Owner) :=
  let params := request.params
  if s.role = some .client ∧ request.type = js "respond_extension_ui" then
    let sessionId := (params.get (js "sessionId")).units
    if sessionId ∉ s.subscriptions then
      .error (requestFailure "stale_ui_request" "client is not subscribed to the pending action request")
    else
      let stale := requestFailure "stale_ui_request" "the action request is no longer pending on this actor generation"
      match view.extensionUiRequests (joined sessionId (params.get (js "uiRequestId")).units), view.actors sessionId with
      | some pending, some actor =>
        if pending.expiresAt ≤ view.now ∨ actor.isRunning = false ∨ actor.generation ≠ pending.generation then .error stale
        else .ok (some (.dialog pending.serial))
      | _, _ => .error stale
  else if s.role = some .actor ∧ request.type = js "flush_actor_inputs" then do
    let sessionId ← s.requireActor
    if (view.actors sessionId).all fun actor => actor.generation ≠ s.generation then
      .error (plainError "actor generation is stale")
    pure (some (.key (joined (js "input-queue") (joined sessionId (decimal s.generation)))))
  else if s.role = some .actor ∧ request.type ∈ ["get_actor_input", "accept_actor_input", "record_input_delivery"].map js then do
    let sessionId ← s.requireActor
    if request.type ≠ js "record_input_delivery" then
      match view.unavailable sessionId with
      | some failure => .error failure
      | none => pure ()
    if (view.actors sessionId).all fun actor => actor.generation ≠ s.generation then
      .error (plainError "actor generation is stale")
    match view.getActorInput (params.get (js "inputId")).units sessionId with
    | none => if request.type = js "get_actor_input" then pure none else .error (plainError "input is not reserved for this actor")
    | some input =>
      if request.type = js "accept_actor_input" ∧ input.source ∉ ["cron", "background"].map js then
        .error (plainError "custom input requires a verified internal source")
      if input.state = js "completed" then pure none
      else
        pure (some (.key (joined sessionId (joined (decimal s.generation) (joined input.inputId request.type)))))
  else if s.role = some .actor ∧ request.type = js "ack_message" then do
    let sessionId ← s.requireActor
    match view.getMessage (params.get (js "messageId")).units with
    | some pending =>
      if pending.targetId = sessionId ∧ pending.state = js "delivered" then
        pure (some (.key (joined (js "message") pending.messageId)))
      else pure none
    | none => pure none
  else .ok none

end Operations

section Requests

variable (config : Config)

def closeForProtocolError (s : System) (error : Failure) : System :=
  if s.output.closing ∨ s.output.cleaned then s
  else
    let (output, queued) := s.output.write config.maxFrameBytes (.value (protocolErrorFrame error)) true
    { s with output := { output with socket := if queued then output.socket else output.socket.destroy, closing := true } }

/-- The response that an outcome gives its request. -/
def responseTo (operation : Operation) : Outcome → Value
  | .returned data => response operation.id operation.type data
  | .threw failure =>
    errorResponse (.str operation.id) (.str operation.type) failure.message (failure.code.getD (js "request_failed"))

/-- Answer a request, unless the connection closes. -/
def respond (s : System) (operation : Operation) (outcome : Outcome) : System × List Value :=
  if s.output.closing then (s, [])
  else
    let frame := responseTo operation outcome
    let (output, queued) := s.output.write config.maxFrameBytes (.value frame) false
    ({ s with output }, if queued then [frame] else [])

/-- What an operation gives back when it is over, if it is still registered. -/
def release (s : System) (operation : Operation) : System :=
  if operation.id ∈ s.inFlightRequestIds then
    { s with
      inFlightRequestIds := s.inFlightRequestIds.erase operation.id
      inFlightWorkCount := if operation.admittedWork then s.inFlightWorkCount - 1 else s.inFlightWorkCount
      inFlightRequestBytes :=
        if operation.admittedWork then s.inFlightRequestBytes - operation.requestBytes else s.inFlightRequestBytes
      continuationOwners :=
        match operation.continuationOwner with
        | some owner => s.continuationOwners.erase owner
        | none => s.continuationOwners }
  else s

/-- The id of a finished request is remembered among the last ones. -/
def remember (s : System) (id : JsString) : System :=
  if s.output.closing ∨ s.output.cleaned then s
  else
    let ids := if id ∈ s.recentCompletedRequestIds then s.recentCompletedRequestIds else s.recentCompletedRequestIds ++ [id]
    { s with recentCompletedRequestIds := ids.drop (ids.length - completedRequestIdCacheSize) }

/-- The end of a request: its response, and what its handler gives back. -/
def finish (s : System) (n : ℕ) (outcome : Outcome) : System :=
  match s.operations[n]? with
  | none => s
  | some operation =>
    if operation.finished then s
    else
      let (s, responses) := s.respond config operation outcome
      let s := (s.release operation).remember operation.id
      { s with
        operations := s.operations.set n { operation with finished := true, responses }
        completed := s.completed ++ [operation.id] }

/-- Take a slot for new work, or the place of the owner whose work is continued. -/
def register (s : System) (request : Request) (rawFrame : Value) (owner : Option Owner) : Except Failure (System × Operation) :=
  match owner with
  | some owner =>
    if owner ∈ s.continuationOwners then
      .error (requestFailure "continuation_in_progress" "this pending work already has an unfinished continuation")
    else
      .ok ({ s with continuationOwners := s.continuationOwners ++ [owner] },
        ⟨request.id, request.type, false, 0, some owner, true, false, []⟩)
  | none =>
    let requestBytes := (Utf8.encode (Framing.frameText rawFrame)).length
    if (maxInFlightRequests : ℤ) ≤ s.inFlightWorkCount
        ∨ 2 * (config.maxFrameBytes : ℤ) < s.inFlightRequestBytes + requestBytes then
      .error (requestFailure "request_backpressure" "connection has too much unfinished request work")
    else
      .ok ({ s with
          inFlightWorkCount := s.inFlightWorkCount + 1
          inFlightRequestBytes := s.inFlightRequestBytes + requestBytes },
        ⟨request.id, request.type, true, requestBytes, none, true, false, []⟩)

/-- `#handleFrame`. The outcome of the operation, if it is run, is given, or it is awaited. -/
def handleFrame (s : System) (rawFrame : Value) (view : View) (outcome : Option Outcome) : System :=
  if s.output.closing ∨ s.output.cleaned ∨ s.output.socket.destroyed then s
  else
    match validateRequest config rawFrame with
    | .error error => s.closeForProtocolError config error
    | .ok request =>
      if request.id ∈ s.inFlightRequestIds ∨ request.id ∈ s.recentCompletedRequestIds then
        s.closeForProtocolError config (protocolError "duplicate_request_id"
          (js "request id " ++ request.id ++ js " was already used recently on this connection"))
      else
        let s := { s with inFlightRequestIds := s.inFlightRequestIds ++ [request.id] }
        match s.requestOperation view request >>= s.register config request rawFrame with
        | .error failure =>
          let refused : Operation := ⟨request.id, request.type, false, 0, none, false, false, []⟩
          { s with operations := s.operations ++ [refused] }.finish config s.operations.length (.threw failure)
        | .ok (s, operation) =>
          let s := { s with operations := s.operations ++ [operation] }
          match outcome with
          | some outcome => s.finish config (s.operations.length - 1) outcome
          | none => s

/-- `#cleanupConnection`. -/
def cleanup (s : System) : System :=
  if s.output.cleaned then s
  else
    { s with
      output := s.output.cleanup
      inFlightRequestIds := []
      recentCompletedRequestIds := []
      inFlightWorkCount := 0
      inFlightRequestBytes := 0
      continuationOwners := [] }

end Requests

end System

inductive Event where
  /-- A frame of the peer, with what the supervisor holds and what the operation does, if it is run. -/
  | frame (rawFrame : Value) (view : View) (outcome : Option Outcome)
  /-- The decoder refuses what the peer sends. -/
  | malformed (error : Framing.FrameError)
  | finish (n : ℕ) (outcome : Outcome)
  /-- A registration or a subscription by one of the operations. -/
  | register (role : Role) (sessionId : Option JsString) (generation : ℕ)
  | subscribe (subscriptions : List JsString)
  | write (frame : Frame)
  | returned (answer : Output.Answer)
  | drain
  | sent (bytes : ℕ)
  | endSocket
  | destroySocket
  | closed

def decoderFailure (error : Framing.FrameError) : Failure := ⟨some error.code, error.message, true⟩

namespace System

def outputStep (config : Config) (s : System) (event : Output.Event) : System :=
  { s with output := s.output.step config.maxFrameBytes event }

def step (config : Config) (s : System) : Event → System
  | .frame rawFrame view outcome => s.handleFrame config rawFrame view outcome
  | .malformed error => s.closeForProtocolError config (decoderFailure error)
  | .finish n outcome => s.finish config n outcome
  | .register role sessionId generation => { s with role := some role, sessionId, generation }
  | .subscribe subscriptions => { s with subscriptions }
  | .write frame => s.outputStep config (.write frame false)
  | .returned answer => s.outputStep config (.returned answer)
  | .drain => s.outputStep config .drain
  | .sent bytes => s.outputStep config (.sent bytes)
  | .endSocket => s.outputStep config .finish
  | .destroySocket => s.outputStep config .destroy
  | .closed => if s.output.socket.destroyed then s.cleanup else s

def run (config : Config) (events : List Event) : System := events.foldl (step config) .new

end System

end PersistentHarness.Connection
