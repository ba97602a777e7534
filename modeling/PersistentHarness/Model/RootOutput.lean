import PersistentHarness.Lib.Window
import PersistentHarness.Model.PresentationDirective

/-! # The replay of root output

While it is active the projector numbers the events it publishes and keeps the newest frames in a ring, bounded
by count and by bytes. A subscriber with a cursor gets the frames after it, or is told of a gap.
-/

namespace PersistentHarness.RootOutput

open Json (unit isDigit)

/-- A letter or digit of `[A-Za-z0-9]`. -/
def isAlphanumeric (u : UInt16) : Bool :=
  isDigit u || (unit 'A' ≤ u && u ≤ unit 'Z') || (unit 'a' ≤ u && u ≤ unit 'z')

/-- `/^[A-Za-z0-9][A-Za-z0-9._-]{0,127}$/`. -/
def isGeneration : JsString → Bool
  | [] => false
  | u :: rest =>
    isAlphanumeric u && rest.length ≤ 127 && rest.all fun v => isAlphanumeric v || v = unit '.' || v = unit '_' || v = unit '-'

/-- The options of a projector, as its constructor accepts them. -/
structure Config where
  generation : JsString
  maxEvents : ℕ
  maxBytes : ℕ
  named : isGeneration generation = true
  someEvents : 1 ≤ maxEvents
  someBytes : 1024 ≤ maxBytes

/-- A published event under its number. -/
structure Frame where
  generation : JsString
  seq : ℕ
  event : Value
deriving DecidableEq

def Frame.value (frame : Frame) : Value :=
  .record [("type", Value.text "root_output"), ("generation", .str frame.generation), ("seq", .num (.ofNat frame.seq)),
    ("event", frame.event)]

/-- `Buffer.byteLength(JSON.stringify(value), "utf8")`. -/
def eventBytes (value : Value) : ℕ := JsString.utf8Length (Json.stringify value)

structure Item where
  seq : ℕ
  bytes : ℕ
  frame : Frame
deriving DecidableEq

structure Projector where
  config : Config
  sequence : ℕ
  ring : List Item
  ringBytes : ℕ
  active : Bool

inductive GapReason where
  | invalidCursor
  | generationMismatch
  | replayOverrun
deriving DecidableEq, Repr

/-- What a subscriber is told first. -/
structure Replay where
  generation : JsString
  cursor : ℕ
  oldestSeq : Option ℕ
  gap : Bool
  gapReason : Option GapReason
  events : List Frame
deriving DecidableEq

namespace Projector

def new (config : Config) : Projector := ⟨config, 0, [], 0, false⟩

def oldestSeq (projector : Projector) : Option ℕ := projector.ring.head?.map Item.seq

/-- Number an event and keep its frame; the ring drops its oldest frames until it is within the limits. -/
def publish (projector : Projector) (event : Value) : Option (Projector × Frame) :=
  let frame : Frame := ⟨projector.config.generation, projector.sequence + 1, event⟩
  let item : Item := ⟨frame.seq, eventBytes frame.value, frame⟩
  (Window.evict Item.bytes projector.config.maxEvents projector.config.maxBytes (projector.ring ++ [item])
    (projector.ringBytes + item.bytes)).map fun (ring, ringBytes) =>
      ({ projector with sequence := frame.seq, ring, ringBytes }, frame)

/-- `Object.keys(cursor).length`. -/
def ownKeys : Value → ℕ
  | .obj fields => fields.length
  | .arr items => items.length
  | .str text => text.length
  | _ => 0

/-- Activate the projector and replay what follows a cursor. -/
def subscribe (projector : Projector) (cursor : Value) : Projector × Replay :=
  let latest := projector.sequence
  let oldest := projector.oldestSeq
  let replay (gap : Bool) (gapReason : Option GapReason) (events : List Frame) : Replay :=
    ⟨projector.config.generation, latest, oldest, gap, gapReason, events⟩
  let after : ℕ → Replay := fun afterSeq =>
    if afterSeq > latest then replay true (some .invalidCursor) []
    else if afterSeq < latest ∧ oldest = none then replay true (some .replayOverrun) []
    else if oldest.any (fun oldest => afterSeq + 1 < oldest) then replay true (some .replayOverrun) []
    else replay false none ((projector.ring.filter fun item => decide (afterSeq < item.seq)).map Item.frame)
  let answer :=
    if cursor = .undefined ∨ cursor = .null ∨ (cursor.truthy ∧ ownKeys cursor = 0) then replay false none []
    else if (cursor.get (js "invalid")).truthy ∨ (cursor.get (js "invalidCursor")).truthy
        ∨ (cursor.get (js "generation")).isString = false ∨ isGeneration (cursor.get (js "generation")).units = false then
      replay true (some .invalidCursor) []
    else
      match (cursor.get (js "afterSeq")).safeNat? with
      | none => replay true (some .invalidCursor) []
      | some afterSeq =>
        if cursor.get (js "generation") ≠ .str projector.config.generation then replay true (some .generationMismatch) []
        else after afterSeq
  ({ projector with active := true }, answer)

end Projector

/-! ## Runs -/

inductive Step where
  | publish (event : Value)
  | subscribe (cursor : Value)

/-- Nothing is published before the first subscription. -/
def step (projector : Projector) : Step → Option (Projector × List Frame)
  | .publish event =>
    if projector.active then (projector.publish event).map fun (next, frame) => (next, [frame]) else some (projector, [])
  | .subscribe cursor => some ((projector.subscribe cursor).1, [])

/-- The projector after some steps, with the frames it has published. -/
def run (config : Config) (steps : List Step) : Option (Projector × List Frame) :=
  steps.foldlM (fun (projector, frames) s => (step projector s).map fun (next, emitted) => (next, frames ++ emitted))
    (Projector.new config, [])

/-! ## Turns

`accept` follows the turn of each root session. A turn numbers its messages, a message its deltas, and what a turn
publishes names the turn.
-/

open PresentationDirective (Filter Presentation sanitizePresentationText)

def MAX_ID : ℕ := 128
def MAX_INDEX : ℕ := 1000000000

/-- `ROOT_OUTPUT_TEXT_MAX_BYTES`. -/
def TEXT_MAX_BYTES : ℕ := 32 * 1024

def boundedString (value : Value) : Option JsString :=
  if value.units ≠ [] ∧ value.units.length ≤ MAX_ID ∧ value.units.all (fun u => 0x1F < u && u != 0x7F) = true then some value.units else none

def boundedUtf8 (value : Value) : Option JsString :=
  if value.units ≠ [] ∧ value.units.utf8Length ≤ TEXT_MAX_BYTES then some value.units else none

/-- `safeIndex(value)`, and `safeIndex(value, { zero: true })` from the least index 0. -/
def safeIndex (value : Value) (least : ℕ) : Option ℕ := value.safeNat?.filter fun n => least ≤ n ∧ n ≤ MAX_INDEX

/-- The text parts of a message, unless they are too long together. -/
def rawVisibleText (message : Value) : Option JsString :=
  let text : JsString := ((message.get (js "content")).items.filter fun part =>
    part.get (js "type") = Value.text "text" ∧ (part.get (js "text")).isString = true).flatMap fun part => (part.get (js "text")).units
  if text.utf8Length ≤ TEXT_MAX_BYTES then some text else none

def stopReasons : List Value :=
  [Value.text "stop", Value.text "length", Value.text "toolUse", Value.text "error", Value.text "aborted"]

def exitReasons : List Value :=
  [Value.text "actor_exit", Value.text "error", Value.text "passivated", Value.text "stopped", Value.text "deleted",
    Value.text "unexpected_exit"]

def safeStopReason (value : Value) : JsString := if value ∈ stopReasons then value.units else js "unknown"

/-- The filter's settings, and `new Date(text).toISOString()` of a text that is a date. -/
structure Formats where
  directives : PresentationDirective.Config
  isoDate : JsString → Option JsString

def safeTimestamp (formats : Formats) (value : Value) : Option Value :=
  if value.safeNat?.isSome then some value
  else if value.isString = true ∧ value.units.length ≤ 64 then (formats.isoDate value.units).map .str
  else none

/-- What a complete message publishes at its end. -/
structure Metadata where
  stopReason : JsString
  text : JsString
  presentation : Presentation
  messageId : Option JsString
  timestamp : Option Value
deriving DecidableEq

def safeTerminalMetadata (formats : Formats) (message : Value) : Option Metadata := do
  let raw ← rawVisibleText message
  let sanitized := sanitizePresentationText formats.directives raw
  if TEXT_MAX_BYTES < sanitized.text.utf8Length then none
  else
    some ⟨safeStopReason (message.get (js "stopReason")), sanitized.text, sanitized.presentation,
      boundedString (message.get (js "id")), safeTimestamp formats (message.get (js "timestamp"))⟩

inductive TerminalStatus where
  | superseded
  | failed
  | settled
  | actorExit
deriving DecidableEq, Repr

def TerminalStatus.text : TerminalStatus → JsString
  | .superseded => js "superseded"
  | .failed => js "failed"
  | .settled => js "settled"
  | .actorExit => js "actor_exit"

/-- What is published of a turn. An assistant terminal without metadata is a truncated one. -/
inductive Payload where
  | turnStart (turnStartSeq : ℕ)
  | textDelta (messageIndex deltaSeq contentIndex : ℕ) (delta : JsString) (presentation : Option Presentation)
  | assistantTerminal (messageIndex : ℕ) (metadata : Option Metadata)
  | turnTerminal (status : TerminalStatus) (reason : Option JsString)
deriving DecidableEq

/-- A payload with the turn that it belongs to. -/
structure Event where
  payload : Payload
  sessionId : JsString
  turnId : JsString
  actorGeneration : ℕ
deriving DecidableEq

def presentationValue (presentation : Presentation) : Value :=
  .record [("schema", .str presentation.schema), ("body", .str presentation.body), ("face", .str presentation.face)]

/-- A member that is written only where it is there. -/
def optional (name : String) (value : Option Value) : List (String × Value) := (value.map fun value => (name, value)).toList

def Metadata.fields (metadata : Metadata) : List (String × Value) :=
  [("stopReason", .str metadata.stopReason), ("text", .str metadata.text),
    ("presentation", presentationValue metadata.presentation)]
    ++ optional "messageId" (metadata.messageId.map .str) ++ optional "timestamp" metadata.timestamp

def Payload.fields : Payload → List (String × Value)
  | .turnStart turnStartSeq => [("type", Value.text "turn_start"), ("turnStartSeq", .num (.ofNat turnStartSeq))]
  | .textDelta messageIndex deltaSeq contentIndex delta presentation =>
    [("type", Value.text "text_delta"), ("messageIndex", .num (.ofNat messageIndex)), ("deltaSeq", .num (.ofNat deltaSeq)),
      ("contentIndex", .num (.ofNat contentIndex)), ("delta", .str delta)]
      ++ optional "presentation" (presentation.map presentationValue)
  | .assistantTerminal messageIndex none =>
    [("type", Value.text "assistant_terminal"), ("messageIndex", .num (.ofNat messageIndex)), ("status", Value.text "truncated"),
      ("truncated", .bool true)]
  | .assistantTerminal messageIndex (some metadata) =>
    [("type", Value.text "assistant_terminal"), ("messageIndex", .num (.ofNat messageIndex)), ("status", Value.text "complete")]
      ++ metadata.fields
  | .turnTerminal status reason =>
    [("type", Value.text "turn_terminal"), ("status", .str status.text)] ++ optional "reason" (reason.map .str)

def Event.value (event : Event) : Value :=
  .record (event.payload.fields ++ [("sessionId", .str event.sessionId), ("turnId", .str event.turnId),
    ("actorGeneration", .num (.ofNat event.actorGeneration))])

def presentationEquals (c : PresentationDirective.Config) (left right : Presentation) : Bool :=
  left.schema = c.schema && right.schema = c.schema && left.body = right.body && left.face = right.face

structure Message where
  index : ℕ
  deltaSeq : ℕ
  filter : Filter
  sawTextDelta : Bool
deriving DecidableEq

structure Turn where
  sessionId : JsString
  actorGeneration : ℕ
  turnStartSeq : ℕ
  turnId : JsString
  messageIndex : ℕ
  message : Option Message
  failed : Bool
deriving DecidableEq

namespace Turn

def new (sessionId : JsString) (actorGeneration actorEventSeq : ℕ) : Turn where
  sessionId := sessionId
  actorGeneration := actorGeneration
  turnStartSeq := actorEventSeq
  turnId := sessionId ++ js ":g" ++ Json.decimal actorGeneration ++ js ":t" ++ Json.decimal actorEventSeq
  messageIndex := 0
  message := none
  failed := false

def base (turn : Turn) (payload : Payload) : Event := ⟨payload, turn.sessionId, turn.turnId, turn.actorGeneration⟩

def terminal (turn : Turn) (status : TerminalStatus) (reason : Option JsString) : Event :=
  turn.base (.turnTerminal status reason)

def newMessage (formats : Formats) (turn : Turn) : Message :=
  ⟨turn.messageIndex + 1, 0, Filter.initial formats.directives, false⟩

def startMessage (formats : Formats) (turn : Turn) : Turn :=
  { turn with messageIndex := turn.messageIndex + 1, message := some (turn.newMessage formats) }

/-- `turn.message ?? this.#startMessage(turn)`. -/
def ensureMessage (formats : Formats) (turn : Turn) : Turn × Message :=
  match turn.message with
  | some message => (turn, message)
  | none => (turn.startMessage formats, turn.newMessage formats)

/-- `#publishTruncated`. -/
def truncate (formats : Formats) (turn : Turn) : Turn × List Event :=
  let (turn, message) := turn.ensureMessage formats
  ({ turn with failed := true, message := none }, [turn.base (.assistantTerminal message.index none)])

def messageUpdate (formats : Formats) (turn : Turn) (event : Value) : Turn × List Event :=
  let update := event.get (js "assistantMessageEvent")
  if event.get (js "truncated") = .bool true then ({ turn with failed := true }, [])
  else if update.get (js "type") ≠ Value.text "text_delta" then (turn, [])
  else
    match boundedUtf8 (update.get (js "delta")), safeIndex (update.get (js "contentIndex")) 0 with
    | some delta, some contentIndex =>
      let (turn, message) := turn.ensureMessage formats
      let (filter, text) := message.filter.push formats.directives delta
      let message : Message := { message with sawTextDelta := true, filter }
      if text = [] then ({ turn with message := some message }, [])
      else if boundedUtf8 (.str text) = none then ({ turn with message := some message, failed := true }, [])
      else
        let message : Message := { message with deltaSeq := message.deltaSeq + 1 }
        ({ turn with message := some message }, [turn.base (.textDelta message.index message.deltaSeq contentIndex text
          (if message.deltaSeq = 1 then some message.filter.presentation else none))])
    | _, _ => ({ turn with failed := true }, [])

def messageEnd (formats : Formats) (turn : Turn) (event : Value) : Turn × List Event :=
  if event.get (js "truncated") = .bool true then turn.truncate formats
  else if (event.get (js "message")).get (js "role") ≠ Value.text "assistant" then (turn, [])
  else
    let (turn, message) := turn.ensureMessage formats
    let filter := (message.filter.finish formats.directives).1
    let turn := { turn with message := some { message with filter } }
    match safeTerminalMetadata formats (event.get (js "message")) with
    | none => turn.truncate formats
    | some metadata =>
      if message.sawTextDelta = true ∧ ¬presentationEquals formats.directives filter.presentation metadata.presentation then
        turn.truncate formats
      else
        let failed := turn.failed || decide (metadata.stopReason ∈ [js "error", js "aborted", js "unknown"])
        ({ turn with failed, message := none }, [turn.base (.assistantTerminal message.index (some metadata))])

/-- What an event of its own generation makes of a turn: the turn afterwards, unless it has settled, and what is
published. -/
def hear (formats : Formats) (turn : Turn) (event : Value) : Option Turn × List Event :=
  let type := event.get (js "type")
  if type = Value.text "message_start" ∧ (event.get (js "message")).get (js "role") = Value.text "assistant" then
    (some (turn.startMessage formats), [])
  else if type = Value.text "message_update" then ((turn.messageUpdate formats event).map some id)
  else if type = Value.text "message_end" then ((turn.messageEnd formats event).map some id)
  else if type = Value.text "agent_settled" then
    (none, [turn.terminal (if turn.failed then .failed else .settled)
      (if turn.failed then some (js "assistant_terminal_failed") else none)])
  else (some turn, [])

end Turn

/-- The open turn of each session. -/
abbrev Turns := List (JsString × Turn)

/-- What `accept` is given. -/
structure Input where
  session : Value
  actorGeneration : Value
  actorEventSeq : Value
  event : Value

/-- The session of an input, if it is a root session with a bounded id. -/
def Input.rootId (input : Input) : Option JsString :=
  if input.session.get (js "kind") = Value.text "root" ∧ (input.session.get (js "depth")).safeNat? = some 0 then
    boundedString (input.session.get (js "sessionId"))
  else none

def Input.isStart (input : Input) : Bool := input.event.get (js "type") = Value.text "agent_start"

/-- An event of a session: a start takes over unless it is older than the open turn, anything else is for the open turn of
the same generation. -/
def acceptEvent (formats : Formats) (turns : Turns) (sessionId : JsString) (generation seq : ℕ) (isStart : Bool)
    (event : Value) : Turns × List Event :=
  match Assoc.lookup turns sessionId with
  | none =>
    if isStart then
      let turn := Turn.new sessionId generation seq
      (Assoc.set turns sessionId turn, [turn.base (.turnStart seq)])
    else (turns, [])
  | some current =>
    if isStart then
      if generation < current.actorGeneration then (turns, [])
      else
        let turn := Turn.new sessionId generation seq
        (Assoc.set turns sessionId turn,
          [current.terminal .superseded (some (js "new_agent_start")), turn.base (.turnStart seq)])
    else if current.actorGeneration ≠ generation then (turns, [])
    else
      match current.hear formats event with
      | (some turn, events) => (Assoc.set turns sessionId turn, events)
      | (none, events) => (Assoc.erase turns sessionId, events)

/-- `accept(input)`: the turns afterwards, and what is published if the projector is active. -/
def accept (formats : Formats) (turns : Turns) (input : Input) : Turns × List Event :=
  match input.rootId, safeIndex input.actorGeneration 1, safeIndex input.actorEventSeq 1 with
  | some sessionId, some generation, some seq =>
    acceptEvent formats turns sessionId generation seq input.isStart input.event
  | _, _, _ => (turns, [])

def failSession (turns : Turns) (sessionId actorGeneration reason : Value) : Turns × List Event :=
  match boundedString sessionId, safeIndex actorGeneration 1 with
  | some sessionId, some generation =>
    match Assoc.lookup turns sessionId with
    | none => (turns, [])
    | some turn =>
      if turn.actorGeneration ≠ generation then (turns, [])
      else
        (Assoc.erase turns sessionId,
          [turn.terminal .actorExit (some (if reason ∈ exitReasons then reason.units else js "actor_exit"))])
  | _, _ => (turns, [])

inductive Call where
  | accept (input : Input)
  | failSession (sessionId actorGeneration reason : Value)
  | subscribe (cursor : Value)

def Call.act (formats : Formats) (turns : Turns) : Call → Turns × List Event
  | .accept input => RootOutput.accept formats turns input
  | .failSession sessionId actorGeneration reason => RootOutput.failSession turns sessionId actorGeneration reason
  | .subscribe _ => (turns, [])

structure TurnProjector where
  projector : Projector
  turns : Turns

namespace TurnProjector

def new (config : Config) : TurnProjector := ⟨Projector.new config, []⟩

/-- Publish events in order. -/
def publishAll (projector : Projector) : List Event → Option (Projector × List Frame)
  | [] => some (projector, [])
  | event :: rest => do
    let (projector, frame) ← projector.publish event.value
    let (projector, frames) ← publishAll projector rest
    some (projector, frame :: frames)

/-- One call; nothing is published before the first subscription. -/
def step (formats : Formats) (s : TurnProjector) (call : Call) : Option (TurnProjector × List Frame) :=
  let (turns, events) := call.act formats s.turns
  match call with
  | .subscribe cursor => some (⟨(s.projector.subscribe cursor).1, turns⟩, [])
  | _ =>
    if s.projector.active then (publishAll s.projector events).map fun (projector, frames) => (⟨projector, turns⟩, frames)
    else some (⟨s.projector, turns⟩, [])

/-- The projector after some calls, with the frames it has published meanwhile. -/
def run (formats : Formats) (s : TurnProjector) : List Call → Option (TurnProjector × List Frame)
  | [] => some (s, [])
  | call :: rest => do
    let (s, frames) ← step formats s call
    let (s, later) ← run formats s rest
    some (s, frames ++ later)

end TurnProjector

end PersistentHarness.RootOutput
