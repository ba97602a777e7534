import Mathlib.Data.List.Sort
import PersistentHarness.Data.JsonBytes
import PersistentHarness.Data.Utf8
import PersistentHarness.Lib.LastFit

/-! # The visible history

The rows that a client shows are visible messages and items of other kinds. They are ordered by the time and the sequence of
their births, and a page of them is bounded by its rows and by the bytes of its JSON text. `Date.parse` is a parameter.
-/

namespace PersistentHarness.VisibleHistory

open Json (jsonBytes)

/-- A visible message; its text is a string. -/
structure Message where
  fields : List (JsString × Value)
  textual : ((Value.obj fields).get (js "text")).isString = true
deriving DecidableEq

namespace Message

def value (m : Message) : Value := .obj m.fields

def text (m : Message) : JsString := (m.value.get (js "text")).units

theorem textual_set (fields : List (JsString × Value)) (text : JsString) :
    ((Value.obj (Assoc.set fields (js "text") (.str text))).get (js "text")).isString = true := by
  rw [Value.get, Value.fields, Assoc.lookup_set_self]
  rfl

/-- `{ ...message, text }`. -/
def withText (m : Message) (text : JsString) : Message :=
  ⟨Assoc.set m.fields (js "text") (.str text), textual_set m.fields text⟩

end Message

/-- A row of the history: a row of kind `message` holds its message, any other row is an item of its own. -/
inductive HistoryItem where
  | message (message : Message)
  | other (fields : List (JsString × Value))
deriving DecidableEq

namespace HistoryItem

/-- The message of a row of kind `message`. -/
def message? : HistoryItem → Option Message
  | .message m => some m
  | .other _ => none

/-- `item.kind === "message" ? item.message : item`. -/
def row : HistoryItem → Value
  | .message m => m.value
  | .other fields => .obj fields

/-- The text of a row that may be cut: the text of a message, or a `body` that is a string. -/
def original? : HistoryItem → Option JsString
  | .message m => some m.text
  | .other fields =>
    match (Value.obj fields).get (js "body") with
    | .str body => some body
    | _ => none

/-- The row with another text in place of the one that may be cut. -/
def withOriginal (item : HistoryItem) (text : JsString) : HistoryItem :=
  match item with
  | .message m => .message (m.withText text)
  | .other fields => .other (Assoc.set fields (js "body") (.str text))

/-- `publicHistoryItem(item)`: a message stands for itself by its id. -/
def publicFields : HistoryItem → List (JsString × Value)
  | .message m => [(js "kind", .text "message"), (js "id", m.value.get (js "id"))]
  | .other fields => fields

end HistoryItem

section Order

variable (parseDate : Value → Option ℤ)

/-- A positive safe integer, else zero. -/
def timelineSequence (value : Value) : ℕ := value.safeNat?.getD 0

/-- Two dates compare by time and then by sequence; anything else compares equal. -/
def compareBirths (a b : Option ℤ) (left right : ℕ) : ℤ :=
  match a, b with
  | some a, some b => if a - b ≠ 0 then a - b else (left : ℤ) - right
  | _, _ => 0

def compareRows (left right : HistoryItem) : ℤ :=
  compareBirths (parseDate (left.row.get (js "createdAt"))) (parseDate (right.row.get (js "createdAt")))
    (timelineSequence (left.row.get (js "timelineSequence"))) (timelineSequence (right.row.get (js "timelineSequence")))

/-- `items.sort(...)`, by stable insertion. -/
def sortVisibleHistory (items : List HistoryItem) : List HistoryItem :=
  items.insertionSort fun left right => compareRows parseDate left right ≤ 0

end Order

section Bounds

/-- `{ messages, history }` of the selected rows. -/
def historyProjection (items : List HistoryItem) : Value :=
  .obj [(js "messages", .arr ((items.filterMap HistoryItem.message?).map Message.value)),
    (js "history", .arr (items.map fun item => .obj item.publicFields))]

/-- The rows taken so far, the newest first, and what they cost. -/
structure Selection where
  selected : List HistoryItem
  bytes : ℕ
  messageCount : ℕ
  historyCount : ℕ

def Selection.start : Selection := ⟨[], jsonBytes (historyProjection []), 0, 0⟩

/-- The bytes that a row adds to the page. -/
def Selection.cost (s : Selection) (candidate : HistoryItem) : ℕ :=
  (match candidate.message? with
    | some m => jsonBytes m.value + if s.messageCount ≠ 0 then 1 else 0
    | none => 0)
    + jsonBytes (.obj candidate.publicFields) + if s.historyCount ≠ 0 then 1 else 0

def Selection.push (s : Selection) (item : HistoryItem) : Selection where
  selected := s.selected ++ [item]
  bytes := s.bytes + s.cost item
  messageCount := if item.message?.isSome then s.messageCount + 1 else s.messageCount
  historyCount := s.historyCount + 1

/-- `text.replace(/[\uD800-\uDBFF]$/, "")`. -/
def dropTrailingHigh (text : JsString) : JsString :=
  match text.getLast? with
  | some u => if isHighSurrogate u then text.dropLast else text
  | none => text

def ellipsis : JsString := [0x2026]

/-- The text cut behind `middle` units; a text that is cut ends in an ellipsis. -/
def cutText (original : JsString) (middle : ℕ) : JsString :=
  if middle < original.length then dropTrailingHigh (original.take middle) ++ ellipsis
  else dropTrailingHigh (original.take middle)

variable (maxMessages maxBytes : ℤ)

/-- The longest cut of a row that fits, by binary search. -/
def Selection.fitted (s : Selection) (item : HistoryItem) : Option HistoryItem := do
  let original ← item.original?
  let candidate := fun middle => item.withOriginal (cutText original middle)
  let middle ← lastFit (fun middle => ((s.bytes + s.cost (candidate middle) : ℕ) : ℤ) ≤ maxBytes)
    (original.length + 1) 0 original.length none
  pure (candidate middle)

/-- The row as it is taken: the newest row is cut when it does not fit whole. -/
def Selection.offer (s : Selection) (item : HistoryItem) : HistoryItem :=
  if maxBytes < (s.bytes + s.cost item : ℕ) ∧ s.selected.length = 0 then (s.fitted maxBytes item).getD item else item

/-- The loop over the rows, the newest first. -/
def selectRows : List HistoryItem → Selection → Selection
  | [], s => s
  | item :: older, s =>
    if (s.selected.length : ℤ) < maxMessages then
      let item := s.offer maxBytes item
      if maxBytes < (s.bytes + s.cost item : ℕ) then s else selectRows older (s.push item)
    else s

structure BoundedHistory where
  page : Value
  truncated : Bool
deriving DecidableEq

/-- `selected` at the end of the loop, with the byte count. -/
def selection (history : List HistoryItem) : Selection := selectRows maxMessages maxBytes history.reverse .start

/-- `{ messages, history, truncated }`, the first two as the page. -/
def boundVisibleHistory (history : List HistoryItem) : BoundedHistory :=
  let s := selection maxMessages maxBytes history
  ⟨historyProjection s.selected.reverse, decide (s.selected.length < history.length)⟩

end Bounds

end PersistentHarness.VisibleHistory

/-! ## The live conversation of an actor

Public events of a running actor are collected as rows of text until the transcript has them. All rows share one budget of
bytes and there are at most 512 of them; the first identity under which a row is seen decides its place. Which dates are valid
is a parameter, and what the functions return to their callers besides the state is left out.
-/

namespace PersistentHarness.LiveConversation

open VisibleHistory (timelineSequence)

section Order

/-- The public identity of a row, and its place in time. -/
structure Stamp where
  id : JsString
  createdAt : Value
  timelineSequence : Value
deriving DecidableEq

/-- What the order remembers of an identity. -/
structure Birth where
  createdAt : Value
  sequence : ℕ
  visible : Bool
  reported : Bool
deriving DecidableEq

abbrev ConversationOrder := List (JsString × Birth)

def maxRows : ℕ := 512

/-- Keep the first identity; an empty placeholder may still get its birth. -/
def ConversationOrder.keep (order : ConversationOrder) (incoming : Stamp) (visible : Bool) : Stamp × ConversationOrder :=
  let sequence := timelineSequence incoming.timelineSequence
  let (row, order) : Birth × ConversationOrder :=
    match Assoc.lookup order incoming.id with
    | none =>
      let row : Birth := ⟨incoming.createdAt, sequence, false, false⟩
      let order := Assoc.set order incoming.id row
      (row, order.drop (order.length - maxRows))
    | some row =>
      if sequence ≠ 0 ∧ row.sequence = 0 ∧ row.visible = false then
        ({ row with createdAt := incoming.createdAt, sequence := sequence }, order)
      else if sequence ≠ 0 ∧ (sequence ≠ row.sequence ∨ incoming.createdAt ≠ row.createdAt) ∧ row.reported = false then
        ({ row with reported := true }, order)
      else (row, order)
  let row := { row with visible := row.visible || visible }
  (⟨incoming.id, row.createdAt, if row.sequence = 0 then .undefined else .num (.ofNat row.sequence)⟩,
    Assoc.set order incoming.id row)

end Order

section Rows

structure Row where
  status : Value
  chunks : List JsString
  bytes : ℕ
  truncated : Bool
  createdAt : Value
  timelineSequence : Value
  fields : Value
deriving DecidableEq

structure Live where
  rows : List (JsString × Row)
  order : ConversationOrder
  bytes : ℤ
  truncated : Bool

def Live.empty : Live := ⟨[], [], 0, false⟩

def maxSnapshotBytes : ℕ := 256 * 1024

def complete : Value := .text "complete"

/-- The longest beginning of the bytes that decodes, and its length. -/
def keptPrefix (bytes : Bytes) : ℕ → JsString × ℕ
  | 0 => ([], 0)
  | length + 1 =>
    match Utf8.decode (bytes.take (length + 1)) with
    | some kept => (kept, length + 1)
    | none => keptPrefix bytes length

/-- `#row`: the row of an identity, a new one if need be, with its place in time. -/
def Live.row (live : Live) (stamp : Stamp) : Row :=
  { (Assoc.lookup live.rows stamp.id).getD ⟨.text "streaming", [], 0, false, .undefined, .undefined, .undefined⟩ with
    createdAt := stamp.createdAt, timelineSequence := stamp.timelineSequence }

def Live.put (live : Live) (id : JsString) (row : Row) : Live := { live with rows := Assoc.set live.rows id row }

/-- `#append`: add a text to a row, or as much of it as the budget admits. -/
def Live.append (live : Live) (id : JsString) (row : Row) (text : JsString) : Live :=
  if text = [] ∨ row.truncated = true then live.put id row
  else
    let byteLength := JsString.utf8Length text
    let available := (maxSnapshotBytes : ℤ) - live.bytes
    if (byteLength : ℤ) ≤ available then
      { live.put id { row with chunks := row.chunks ++ [text], bytes := row.bytes + byteLength } with
        bytes := live.bytes + byteLength }
    else
      let kept := keptPrefix (Utf8.encode text) available.toNat
      { live.put id { row with chunks := row.chunks ++ [kept.1], bytes := row.bytes + kept.2, truncated := true } with
        bytes := live.bytes + kept.2 }

/-- `#replace`; a text that is no string leaves the row empty. -/
def Live.replace (live : Live) (id : JsString) (row : Row) (text : Option JsString) : Live :=
  let emptied := { row with chunks := [], bytes := 0, truncated := false }
  { live with bytes := live.bytes - row.bytes }.append id emptied (text.getD [])

def Live.drop (live : Live) (id : JsString) (row : Row) : Live :=
  { live with rows := Assoc.erase live.rows id, bytes := live.bytes - row.bytes }

/-- `#trim`, over the rows from the oldest on. -/
def Live.trim : List (JsString × Row) → Live → Live
  | [], live => live
  | (id, row) :: rest, live =>
    if live.bytes ≤ maxSnapshotBytes ∧ live.rows.length ≤ maxRows then live
    else if row.status ≠ complete ∧ live.rows.length ≤ maxRows then trim rest live
    else trim rest ({ live with truncated := live.truncated || decide (row.status ≠ complete) }.drop id row)

end Rows

section Calls

inductive UpdateType where
  | textStart
  | textDelta
  | textEnd
deriving DecidableEq

/-- `assistantMessageEvent`; a missing text is `none`. -/
structure Update where
  type : UpdateType
  delta : Option JsString
  text : Option JsString

/-- A text part of a finished message. -/
structure Part where
  stamp : Stamp
  text : Option JsString

/-- The events with an effect on the state. -/
inductive Event where
  | progressEntry (stamp : Stamp)
  | agentStart
  | messageUpdate (stamp : Stamp) (update : Update) (truncated : Bool)
  | messageEnd (parts : List Part) (truncated : Bool)
  | agentSettled

/-- A message that the supervisor presents itself. -/
structure Presented where
  stamp : Stamp
  role : Value
  text : Option JsString
  status : Value
  fields : Value

/-- `Boolean(text?.trim())`. -/
def isVisible (text : Option JsString) : Bool := (text.getD []).trim ≠ []

variable (validDate : Value → Bool)

/-- The row of an identity that the order keeps. -/
def Live.kept (live : Live) (stamp : Stamp) (visible : Bool) : Stamp × Live :=
  let (stamp, order) := live.order.keep stamp visible
  (stamp, { live with order := order })

def Live.update (live : Live) (stamp : Stamp) (update : Update) (truncated : Bool) : Live :=
  let (ordered, live) := live.kept stamp (update.type ≠ .textStart ∧ isVisible (update.delta.or update.text))
  let row := live.row ordered
  let live :=
    match update.type with
    | .textStart => live.put ordered.id row
    | .textDelta => live.append ordered.id row (update.delta.getD [])
    | .textEnd =>
      let done := { row with status := complete }
      if update.text.isSome ∧ truncated = false then live.replace ordered.id done update.text else live.put ordered.id done
  live.trim live.rows

/-- One part of a finished message. -/
def Live.part (truncated : Bool) (live : Live) (part : Part) : Live :=
  if validDate part.stamp.createdAt then
    let (ordered, live) := live.kept part.stamp (isVisible part.text)
    let done := { live.row ordered with status := complete }
    if truncated then live.put ordered.id done else live.replace ordered.id done part.text
  else live

def Live.accept (live : Live) : Event → Live
  | .progressEntry stamp => (live.kept stamp true).2
  | .agentStart => { live with truncated := false }
  | .messageUpdate stamp update truncated => if validDate stamp.createdAt then live.update stamp update truncated else live
  | .messageEnd parts truncated =>
    let live := parts.foldl (Live.part validDate truncated) live
    live.trim live.rows
  | .agentSettled => { live with rows := Assoc.mapValues (fun _ row => { row with status := complete }) live.rows }

def Live.remove (live : Live) (id : JsString) : Live :=
  match Assoc.lookup live.rows id with
  | some row => live.drop id row
  | none => live

def Live.upsert (live : Live) (message : Presented) : Live :=
  let (stamp, live) :=
    if message.role = .text "assistant" ∨ message.role = .text "progress" then live.kept message.stamp (isVisible message.text)
    else (message.stamp, live)
  let row := { live.row stamp with fields := message.fields, status := message.status }
  let live := live.replace stamp.id row message.text
  live.trim live.rows

/-- The rows that are complete and that the transcript has. -/
def Live.reconcile (live : Live) (canonicalIds : List JsString) : Live :=
  live.rows.foldl (fun live entry =>
    if entry.2.status = complete ∧ entry.1 ∈ canonicalIds then live.drop entry.1 entry.2 else live) live

inductive Op where
  | accept (event : Event)
  | remove (id : JsString)
  | upsert (message : Presented)
  | reconcile (canonicalIds : List JsString)

def Live.step (live : Live) : Op → Live
  | .accept event => live.accept validDate event
  | .remove id => live.remove id
  | .upsert message => live.upsert message
  | .reconcile canonicalIds => live.reconcile canonicalIds

/-- The text that a snapshot shows of a row. -/
def Row.text (row : Row) : JsString := row.chunks.flatten ++ if row.truncated then [0x2026] else []

end Calls

end PersistentHarness.LiveConversation
