import PersistentHarness.Model.RootOutput
import PersistentHarness.Model.Stream.Planner

/-! # The events of an actor

A worker sends frames with whatever its engine reports. The supervisor projects each frame to the event that clients and root
output may see, and bounds its size. A record for each actor keeps the identity of the running message, because later frames of
that message leave it out.
-/

namespace PersistentHarness.ActorEvents

open Json (unit)

section Values

inductive Thrown where
  | typeError
deriving DecidableEq, Repr

/-- What the projection takes from the platform. -/
structure Formats where
  /-- `createHash("sha256").update(text).digest("hex")`. -/
  sha256 : JsString → JsString
  /-- `new Date(value)`, as its ISO text; an invalid date has none. -/
  date : Value → Except Thrown (Option JsString)
  /-- `String(value)`. -/
  string : Value → Except Thrown JsString
  normalizeProgressHeading : Value → Option JsString

/-- `/[\u0000-\u001f\u007f]/` on one code unit. -/
def isControl (u : UInt16) : Bool := u ≤ 0x1F || u == 0x7F

/-- A string that is not empty, within a length and without control characters. -/
def plainText? (limit : ℕ) : Value → Option JsString
  | .str s => if s ≠ [] ∧ s.length ≤ limit ∧ s.any isControl = false then some s else none
  | _ => none

/-- `content?.[index]`: the element of an array or the property of an object. -/
def contentAt (content : Value) (index : ℕ) : Value :=
  match content with
  | .arr items => items[index]?.getD .undefined
  | content => content.get (Json.decimal index)

/-- `birthOrder(value)`, as properties. -/
def birthOrder (value : Value) : List (String × Value) :=
  match Stream.conversationBirth value with
  | some birth => [("createdAt", birth.get (js "createdAt")), ("timelineSequence", birth.get (js "sequence"))]
  | none => []

end Values

section TextParts

/-- The members of `assistantTextPart` that an event shows. -/
structure TextPart where
  id : JsString
  text : Value
  createdAt : Value
  timelineSequence : Value
deriving DecidableEq

def providerId (textSignature : Value) : Option JsString :=
  match textSignature with
  | .str s =>
    if s.length ≤ 2048 then
      (Json.parse s).bind fun signature =>
        if (signature.get (js "v")).isNat 1 then plainText? 512 (signature.get (js "id")) else none
    else none
  | _ => none

/-- The name of a text: by its own id, by the provider's id, by its place in the message or by the message's time. -/
def textPartId (formats : Formats) (message part startedAt : Value) (contentIndex : ℕ) : Except Thrown (Option JsString) :=
  match plainText? 128 (part.get (js "id")), providerId (part.get (js "textSignature")) with
  | some textId, _ => .ok (some (js "assistant-" ++ formats.sha256 textId))
  | none, some providerId => do
    let provider ← formats.string (Value.orElse (message.get (js "provider")) (Value.text ""))
    return some (js "assistant-" ++ formats.sha256 (provider ++ 0 :: providerId))
  | none, none =>
    match (message.get (js "id")).nonempty? with
    | some id => .ok (some (js "assistant-" ++ formats.sha256 id ++ js "-text-" ++ Json.decimal contentIndex))
    | none => .ok (startedAt.safeNat?.map fun time =>
        js "assistant-" ++ Json.decimal time ++ js "-text-" ++ Json.decimal contentIndex)

def assistantTextPart (formats : Formats) (message : Value) (contentIndex : ℕ) (timestamp : Value) :
    Except Thrown (Option TextPart) :=
  let part := contentAt (message.get (js "content")) contentIndex
  if message.get (js "role") ≠ Value.text "assistant" ∨ part.get (js "type") ≠ Value.text "text"
      ∨ (part.get (js "text")).isString = false then .ok none
  else do
    let startedAt := Value.orElse (message.get (js "timestamp")) timestamp
    let date ← formats.date startedAt
    let base ← textPartId formats message part startedAt contentIndex
    match base, date with
    | some id, some iso =>
      let order := Value.spread (Value.record [("createdAt", .str iso)])
        (Value.record (birthOrder (part.get (js "harnessBirth"))))
      return some ⟨id, part.get (js "text"), order.get (js "createdAt"), order.get (js "timelineSequence")⟩
    | _, _ => return none

/-- `timelineSequence ? { timelineSequence } : {}`. -/
def TextPart.sequenceFields (part : TextPart) : List (String × Value) :=
  if part.timelineSequence.truthy then [("timelineSequence", part.timelineSequence)] else []

end TextParts

section Records

/-- What the supervisor keeps of an actor for its projection. -/
structure Record where
  rootOutputSession : Value
  assistantMessageIdentity : Value
  assistantTextIds : List (ℕ × JsString)
deriving DecidableEq

def Record.isRoot (record : Record) : Bool :=
  record.rootOutputSession.get (js "kind") = Value.text "root" ∧ (record.rootOutputSession.get (js "depth")).isNat 0

/-- A turn starts or has settled: no message is running. -/
def Record.clear (record : Record) : Record := { record with assistantMessageIdentity := .null, assistantTextIds := [] }

/-- `assistantTextIds.get(index)`. -/
def Record.textId (record : Record) (index : ℕ) : Value :=
  ((Assoc.lookup record.assistantTextIds index).map Value.str).getD .undefined

end Records

section Messages

/-- `Number.isSafeInteger(value) && value >= 0 && value <= 1_000_000_000 ? value : 0`, as a value and as an index. -/
def contentIndex (value : Value) : Value × ℕ :=
  match value.safeNat? with
  | some index => if index ≤ 1000000000 then (value, index) else (.num (.ofNat 0), 0)
  | none => (.num (.ofNat 0), 0)

/-- An update without a message is of the running message: its identity, and one text at the index of the update. -/
def runningMessage (record : Record) (update : Value) (index : ℕ) : Value :=
  Value.spread record.assistantMessageIdentity (Value.record [("content", .obj [(Json.decimal index, Value.record
    [("type", Value.text "text"), ("id", record.textId index),
      ("text", Value.orElse (Value.orElse (Value.orElse (update.get (js "content")) (update.get (js "text"))) (update.get (js "delta")))
        (Value.text "")),
      ("harnessBirth", update.get (js "harnessBirth"))])])])

/-- The event of a `message_update`: only the text of the assistant is shown. -/
def projectUpdate (formats : Formats) (frame : Value) (record : Record) : Record × Except Thrown (Option Value) :=
  let update := frame.get (js "assistantMessageEvent")
  let type := update.get (js "type")
  if (type ≠ Value.text "text_start" ∧ type ≠ Value.text "text_delta" ∧ type ≠ Value.text "text_end")
      ∨ type = Value.text "text_delta" ∧ (update.get (js "delta")).isString = false then (record, .ok none)
  else
    let (shown, index) := contentIndex (update.get (js "contentIndex"))
    let record :=
      if type = Value.text "text_start" then
        match plainText? 128 (update.get (js "id")) with
        | some id => { record with assistantTextIds := Assoc.set record.assistantTextIds index id }
        | none => record
      else record
    let message := Value.orElse (frame.get (js "message")) (runningMessage record update index)
    (record, do
      match ← assistantTextPart formats message index .undefined with
      | none => return none
      | some part =>
        return some (Value.record ([("type", Value.text "message_update"), ("messageId", .str part.id),
          ("createdAt", part.createdAt)] ++ part.sequenceFields ++ [("assistantMessageEvent", Value.record
            ([("type", type), ("contentIndex", shown)]
              ++ (if type = Value.text "text_delta" then [("delta", update.get (js "delta"))] else [])
              ++ (if type = Value.text "text_end" then [("text", part.text)] else [])))])))

/-- The ids of the texts of a message, by their places. -/
def startTextIds (items : List Value) : List (ℕ × JsString) :=
  items.zipIdx.filterMap fun (part, index) =>
    if part.get (js "type") = Value.text "text" then (plainText? 128 (part.get (js "id"))).map fun id => (index, id) else none

/-- The event of a `message_start`: the message of the assistant is named, and its identity kept. -/
def projectStart (now : ℕ) (frame : Value) (record : Record) : Record × Except Thrown (Option Value) :=
  let message := frame.get (js "message")
  let role := message.get (js "role")
  if role ≠ Value.text "assistant" then (record, .ok (some (Value.record [("type", Value.text "message_start")])))
  else
    let timestamp := message.get (js "timestamp")
    let timestamp := if timestamp.safeNat?.isSome then timestamp else .num (.ofNat now)
    let identity := Value.record ([("role", role), ("timestamp", timestamp)]
      ++ (match (message.get (js "id")).nonempty? with
        | some id => [("id", .str id)]
        | none => []))
    ({ record with
        assistantMessageIdentity := identity
        assistantTextIds := startTextIds (message.get (js "content")).items },
      .ok (some (Value.record [("type", Value.text "message_start"), ("message", identity)])))

/-- `content?.some(part => part?.type === "image")`: only an array can be asked. -/
def someImage (content : Value) : Except Thrown Bool :=
  match content with
  | .undefined | .null => .ok false
  | .arr items => .ok (items.any fun part => part.get (js "type") = Value.text "image")
  | _ => .error .typeError

/-- One text of an ended message, as it is shown. -/
def endText (formats : Formats) (message timestamp part : Value) (index : ℕ) : Except Thrown (Option Value) :=
  if part.get (js "type") ≠ Value.text "text" ∨ (part.get (js "text")).isString = false then .ok none
  else do
    let projected ← assistantTextPart formats message index timestamp
    return some (Value.record ([("type", Value.text "text"), ("text", part.get (js "text"))]
      ++ (match projected with
        | some shown => [("id", .str shown.id), ("createdAt", shown.createdAt)] ++ shown.sequenceFields
            ++ [("contentIndex", .num (.ofNat index))]
        | none => [])))

/-- `content.map(text).filter(Boolean)`, from an index on. -/
def endTexts (formats : Formats) (message timestamp : Value) : ℕ → List Value → Except Thrown (List Value)
  | _, [] => .ok []
  | index, part :: rest => do
    let shown ← endText formats message timestamp part index
    let others ← endTexts formats message timestamp (index + 1) rest
    return shown.toList ++ others

def stopReasons : List Value :=
  [Value.text "stop", Value.text "length", Value.text "toolUse", Value.text "error", Value.text "aborted"]

/-- The time of an ended message: a number of milliseconds, or a date in a short text. -/
def endTimestamp (formats : Formats) (timestamp : Value) : Except Thrown (Option Value) :=
  if timestamp.safeNat?.isSome then .ok (some timestamp)
  else if timestamp.isString = true ∧ timestamp.units.length ≤ 64 then do
    let iso ← formats.date timestamp
    return iso.map .str
  else .ok none

/-- The event of a `message_end`: the assistant's texts, or the note that a root's tool result has an image. -/
def projectEnd (formats : Formats) (frame : Value) (record : Record) : Except Thrown (Option Value) := do
  let message := frame.get (js "message")
  let image ← if message.get (js "role") = Value.text "toolResult" ∧ record.isRoot = true then
      someImage (message.get (js "content"))
    else .ok false
  if image then
    return some (Value.record [("type", Value.text "message_end"),
      ("message", Value.record [("role", Value.text "toolResult")])])
  else if message.get (js "role") ≠ Value.text "assistant" then
    return some (Value.record [("type", Value.text "message_end")])
  else
    let content ← endTexts formats message (record.assistantMessageIdentity.get (js "timestamp")) 0
      (message.get (js "content")).items
    let stopReason := if message.get (js "stopReason") ∈ stopReasons then message.get (js "stopReason")
      else Value.text "unknown"
    let timestamp ← endTimestamp formats (message.get (js "timestamp"))
    return some (Value.record [("type", Value.text "message_end"), ("message", Value.record
      ([("role", Value.text "assistant"), ("content", .arr content), ("stopReason", stopReason)]
        ++ (match plainText? 128 (message.get (js "id")) with
          | some id => [("id", .str id)]
          | none => [])
        ++ (match timestamp with
          | some timestamp => [("timestamp", timestamp)]
          | none => [])))])

end Messages

section Entries

/-- A property that is shown when it has the right type. -/
def fieldIf (frame : Value) (key : String) (allowed : Value → Bool) : List (String × Value) :=
  if allowed (frame.get (js key)) then [(key, frame.get (js key))] else []

/-- The event of a tool execution: neither its arguments nor its results. -/
def toolEvent (type : JsString) (frame : Value) : Value :=
  Value.record ([("type", .str type)] ++ fieldIf frame "toolCallId" Value.isString ++ fieldIf frame "toolName" Value.isString
    ++ fieldIf frame "isError" Value.isBoolean)

/-- A string that is not empty, of at most this many code units. -/
def isId (limit : ℕ) (value : Value) : Bool := value.isString && !value.units.isEmpty && value.units.length ≤ limit

/-- A string that is not empty, of at most this many bytes. -/
def isBody (bytes : ℕ) (value : Value) : Bool :=
  value.isString && !value.units.isEmpty && JsString.utf8Length value.units ≤ bytes

def isName (value : Value) : Bool := isId 256 value && JsString.utf8Length value.units ≤ 1024

def progressEntry (formats : Formats) (frame : Value) : Except Thrown (Option Value) := do
  let summary := formats.normalizeProgressHeading (frame.get (js "summary"))
  let createdAt ← formats.date (frame.get (js "createdAt"))
  match summary, createdAt with
  | some text, some iso =>
    if text ≠ [] ∧ frame.get (js "summary") = .str text ∧ isId 128 (frame.get (js "entryId")) = true then
      return some (Value.spread (Value.record [("type", Value.text "progress_entry"), ("entryId", frame.get (js "entryId")),
        ("summary", .str text), ("createdAt", .str iso)]) (Value.record (birthOrder (frame.get (js "harnessBirth")))))
    else return none
  | _, _ => return none

def agentMessageEntry (formats : Formats) (frame : Value) : Except Thrown (Option Value) := do
  let createdAt ← formats.date (frame.get (js "createdAt"))
  match createdAt with
  | some iso =>
    if isId 128 (frame.get (js "entryId")) = true ∧ isId 128 (frame.get (js "messageId")) = true
        ∧ frame.get (js "direction") ∈ [Value.text "from", Value.text "to"] ∧ isId 128 (frame.get (js "peerId")) = true
        ∧ isName (frame.get (js "peerName")) = true
        ∧ frame.get (js "relationship") ∈ [Value.text "parent", Value.text "child", Value.text "sibling"]
        ∧ isBody (16 * 1024) (frame.get (js "body")) = true then
      return some (Value.record [("type", Value.text "agent_message_entry"), ("entryId", frame.get (js "entryId")),
        ("messageId", frame.get (js "messageId")), ("direction", frame.get (js "direction")),
        ("peerId", frame.get (js "peerId")), ("peerName", frame.get (js "peerName")),
        ("relationship", frame.get (js "relationship")), ("body", frame.get (js "body")), ("createdAt", .str iso)])
    else return none
  | none => return none

def childCreationEntry (formats : Formats) (frame : Value) : Except Thrown (Option Value) := do
  let createdAt ← formats.date (frame.get (js "createdAt"))
  match createdAt with
  | some iso =>
    if isId 128 (frame.get (js "entryId")) = true ∧ isId 128 (frame.get (js "taskId")) = true
        ∧ isId 128 (frame.get (js "childId")) = true ∧ isName (frame.get (js "childName")) = true
        ∧ frame.get (js "relationship") = Value.text "child" ∧ isBody (32 * 1024) (frame.get (js "body")) = true then
      return some (Value.record [("type", Value.text "child_creation_entry"), ("entryId", frame.get (js "entryId")),
        ("taskId", frame.get (js "taskId")), ("childId", frame.get (js "childId")),
        ("childName", frame.get (js "childName")), ("relationship", Value.text "child"), ("body", frame.get (js "body")),
        ("createdAt", .str iso)])
    else return none
  | none => return none

/-- The texts that a dialog of an extension shows. -/
def dialogKeys : List String :=
  ["id", "requestId", "method", "title", "message", "placeholder", "prefill", "statusKey", "statusText", "notifyType"]

def isTimeout (value : Value) : Bool :=
  match value.safeNat? with
  | some timeout => 1 ≤ timeout && timeout ≤ 600000
  | none => false

/-- The event of an `extension_ui_request`. -/
def dialogEvent (frame : Value) : Value :=
  let options := frame.get (js "options")
  Value.record ([("type", Value.text "extension_ui_request")]
    ++ dialogKeys.flatMap (fun key => fieldIf frame key Value.isString)
    ++ fieldIf frame "timeout" isTimeout
    ++ (if options.isArray = true ∧ options.items.all Value.isString = true then [("options", .arr (options.items.take 128))]
      else []))

end Entries

section Events

/-- `typeof frame?.type === "string" ? frame.type : "unknown"`. -/
def frameType (frame : Value) : JsString :=
  match frame.get (js "type") with
  | .str type => type
  | _ => js "unknown"

def projectActorEvent (formats : Formats) (now : ℕ) (frame : Value) (record : Record) :
    Record × Except Thrown (Option Value) :=
  let type := frameType frame
  let record := if type = js "agent_start" ∨ type = js "agent_settled" then record.clear else record
  if type = js "message_update" then projectUpdate formats frame record
  else if type = js "message_start" then projectStart now frame record
  else if type = js "message_end" then (record, projectEnd formats frame record)
  else if type = js "tool_execution_start" ∨ type = js "tool_execution_update" ∨ type = js "tool_execution_end" then
    (record, .ok (some (toolEvent type frame)))
  else if type = js "progress_entry" then (record, progressEntry formats frame)
  else if type = js "agent_message_entry" then (record, agentMessageEntry formats frame)
  else if type = js "child_creation_entry" then (record, childCreationEntry formats frame)
  else if type = js "extension_ui_request" then (record, .ok (some (dialogEvent frame)))
  else (record, .ok (some (Value.record [("type", .str type)])))

/-- Empty the text of a part: `{ ...part, text: "" }`. -/
def blank (part : Value) : Value := part.set (js "text") (Value.text "")

/-- An event of at most 32 KiB is kept; of a longer one only its shape is. -/
def boundEvent (projected : Value) : Value :=
  if RootOutput.eventBytes projected ≤ 32 * 1024 then projected
  else
    let type := projected.get (js "type")
    let message := projected.get (js "message")
    let update := projected.get (js "assistantMessageEvent")
    if type = Value.text "message_end" ∧ message.get (js "role") = Value.text "assistant" then
      (projected.set (js "message") (message.set (js "content") (.arr ((message.get (js "content")).items.map blank)))).set
        (js "truncated") (.bool true)
    else if type = Value.text "message_update" ∧ update.get (js "type") = Value.text "text_end" then
      (projected.set (js "assistantMessageEvent") (blank update)).set (js "truncated") (.bool true)
    else Value.record [("type", Value.orElse type (Value.text "unknown")), ("truncated", .bool true)]

/-- What clients and root output get of a frame. -/
def boundedActorEvent (formats : Formats) (now : ℕ) (frame : Value) (record : Record) :
    Record × Except Thrown (Option Value) :=
  let (record, projected) := projectActorEvent formats now frame record
  (record, projected.map (Option.map boundEvent))

end Events

end PersistentHarness.ActorEvents
