import PersistentHarness.Model.ActorEvents

/-! # An event depends on public members only

Two frames that agree on their public members give the same event and leave the same record, whatever else they carry. The
agreement names those members: the type, the execution of a tool, the identity of a message and its texts, and the fields that
entries and dialogs show of themselves.
-/

namespace PersistentHarness.ActorEvents

section Agreement

/-- What a part shows if it is a text. -/
structure TextView where
  id : Value
  text : Value
  textSignature : Value
  harnessBirth : Value
deriving DecidableEq

def textView (part : Value) : Option TextView :=
  if part.get (js "type") = Value.text "text" then
    some ⟨part.get (js "id"), part.get (js "text"), part.get (js "textSignature"), part.get (js "harnessBirth")⟩
  else none

/-- The messages have one identity and time, and show the same texts at the same places. -/
structure SameMessage (a b : Value) : Prop where
  present : a.isNullish = b.isNullish
  role : a.get (js "role") = b.get (js "role")
  id : a.get (js "id") = b.get (js "id")
  timestamp : a.get (js "timestamp") = b.get (js "timestamp")
  stopReason : a.get (js "stopReason") = b.get (js "stopReason")
  texts : ∀ index, textView (contentAt (a.get (js "content")) index) = textView (contentAt (b.get (js "content")) index)
  listed : ∀ index, textView ((a.get (js "content")).index index) = textView ((b.get (js "content")).index index)

/-- The updates stream the same text. -/
structure SameUpdate (a b : Value) : Prop where
  type : a.get (js "type") = b.get (js "type")
  contentIndex : a.get (js "contentIndex") = b.get (js "contentIndex")
  id : a.get (js "id") = b.get (js "id")
  content : a.get (js "content") = b.get (js "content")
  text : a.get (js "text") = b.get (js "text")
  delta : a.get (js "delta") = b.get (js "delta")
  harnessBirth : a.get (js "harnessBirth") = b.get (js "harnessBirth")

def hasImage (message : Value) : Bool :=
  (message.get (js "content")).items.any fun part => part.get (js "type") = Value.text "image"

/-- The content is absent or a list. -/
def isListable (message : Value) : Bool := (message.get (js "content")).isNullish || (message.get (js "content")).isArray

/-- The frames agree on the tool, the message and its texts, and for a root on whether a tool result has an image. -/
structure Agree (root : Bool) (a b : Value) : Prop where
  type : frameType a = frameType b
  toolCallId : a.get (js "toolCallId") = b.get (js "toolCallId")
  toolName : a.get (js "toolName") = b.get (js "toolName")
  isError : a.get (js "isError") = b.get (js "isError")
  message : SameMessage (a.get (js "message")) (b.get (js "message"))
  update : SameUpdate (a.get (js "assistantMessageEvent")) (b.get (js "assistantMessageEvent"))
  image : root = true → (a.get (js "message")).get (js "role") = Value.text "toolResult" →
    hasImage (a.get (js "message")) = hasImage (b.get (js "message"))

/-- The members that an entry or a dialog shows of itself. -/
def ownKeys (type : JsString) : List String :=
  if type = js "progress_entry" then ["entryId", "summary", "createdAt", "harnessBirth"]
  else if type = js "agent_message_entry" then
    ["entryId", "messageId", "direction", "peerId", "peerName", "relationship", "body", "createdAt"]
  else if type = js "child_creation_entry" then
    ["entryId", "taskId", "childId", "childName", "relationship", "body", "createdAt"]
  else if type = js "extension_ui_request" then dialogKeys ++ ["timeout", "options"]
  else []

/-- The frames also agree on the provider that names texts, on the members that an entry or a dialog shows of itself, and for a
root on whether a tool result has a list at all. -/
structure AgreePublicly (root : Bool) (a b : Value) : Prop extends Agree root a b where
  provider : (a.get (js "message")).get (js "provider") = (b.get (js "message")).get (js "provider")
  listable : root = true → (a.get (js "message")).get (js "role") = Value.text "toolResult" →
    isListable (a.get (js "message")) = isListable (b.get (js "message"))
  own : ∀ key ∈ ownKeys (frameType a), a.get (js key) = b.get (js key)

end Agreement

section Texts

variable {formats : Formats} {a b : Value}

theorem textView_eq_some {part : Value} {view : TextView} (shown : textView part = some view) :
    part.get (js "type") = Value.text "text"
      ∧ view = ⟨part.get (js "id"), part.get (js "text"), part.get (js "textSignature"), part.get (js "harnessBirth")⟩ := by
  unfold textView at shown
  split at shown
  · next text => exact ⟨text, (Option.some.inj shown).symm⟩
  · cases shown

theorem textView_eq_none {part : Value} (hidden : textView part = none) : part.get (js "type") ≠ Value.text "text" := by
  intro text
  rw [textView, if_pos text] at hidden
  cases hidden

/-- The name of a text depends on what the text shows and on the identity and provider of its message. -/
theorem textPartId_congr (formats : Formats) {p q : Value} (index : ℕ) (startedAt : Value) (id : a.get (js "id") = b.get (js "id"))
    (provider : a.get (js "provider") = b.get (js "provider")) (textId : p.get (js "id") = q.get (js "id"))
    (signature : p.get (js "textSignature") = q.get (js "textSignature")) :
    textPartId formats a p startedAt index = textPartId formats b q startedAt index := by
  unfold textPartId
  rw [id, provider, textId, signature]

theorem assistantTextPart_congr (formats : Formats) (index : ℕ) (timestamp : Value) (same : SameMessage a b)
    (provider : a.get (js "provider") = b.get (js "provider")) :
    assistantTextPart formats a index timestamp = assistantTextPart formats b index timestamp := by
  have view := same.texts index
  unfold assistantTextPart
  dsimp only
  rw [same.role, same.timestamp]
  cases shown : textView (contentAt (a.get (js "content")) index) with
  | none =>
    rw [if_pos (.inr (.inl (textView_eq_none shown))), if_pos (.inr (.inl (textView_eq_none (view ▸ shown))))]
  | some text =>
    obtain ⟨left, members⟩ := textView_eq_some shown
    obtain ⟨right, others⟩ := textView_eq_some (view ▸ shown)
    obtain ⟨id, words, signature, birth⟩ := (TextView.mk.injEq ..).mp (members.symm.trans others)
    rw [left, right, words, birth]
    simp only [fun startedAt => textPartId_congr formats index startedAt same.id provider id signature]

/-- The parts of two contents that show the same at each place. -/
def SameTexts (items others : List Value) : Prop :=
  ∀ index : ℕ, textView (items[index]?.getD .undefined) = textView (others[index]?.getD .undefined)

theorem SameTexts.tail {p q : Value} {items others : List Value} (same : SameTexts (p :: items) (q :: others)) :
    SameTexts items others := fun index => same (index + 1)

theorem SameTexts.hidden {q : Value} {others : List Value} (same : SameTexts [] (q :: others)) :
    textView q = none ∧ SameTexts [] others := by
  constructor
  · exact (same 0).symm
  · intro index
    exact same (index + 1)

theorem SameTexts.symm {items others : List Value} (same : SameTexts items others) : SameTexts others items :=
  fun index => (same index).symm

/-- What one content gives at each place, from the texts alone, another with the same texts gives too. -/
theorem SameTexts.filterMap_zipIdx {α : Type} {g : Value × ℕ → Option α}
    (hidden : ∀ part index, textView part = none → g (part, index) = none)
    (congr : ∀ p q index, textView p = textView q → g (p, index) = g (q, index)) {items others : List Value}
    (same : SameTexts items others) (from_ : ℕ) :
    (items.zipIdx from_).filterMap g = (others.zipIdx from_).filterMap g := by
  have nothing : ∀ (rest : List Value) (from_ : ℕ), SameTexts [] rest → (rest.zipIdx from_).filterMap g = [] := by
    intro rest
    induction rest with
    | nil => exact fun _ _ => rfl
    | cons q rest ih =>
      intro from_ same
      rw [List.zipIdx_cons, List.filterMap_cons, hidden q from_ same.hidden.1]
      exact ih (from_ + 1) same.hidden.2
  induction items generalizing others from_ with
  | nil => exact (nothing others from_ same).symm
  | cons p items ih =>
    cases others with
    | nil => exact nothing (p :: items) from_ same.symm
    | cons q others =>
      rw [List.zipIdx_cons, List.zipIdx_cons, List.filterMap_cons, List.filterMap_cons, congr p q from_ (same 0),
        ih same.tail (from_ + 1)]

theorem startTextIds_congr {items others : List Value} (same : SameTexts items others) :
    startTextIds items = startTextIds others := by
  refine same.filterMap_zipIdx ?_ ?_ 0
  · intro part index hidden
    exact if_neg (textView_eq_none hidden)
  · intro p q index view
    dsimp only
    cases shown : textView p with
    | none => rw [if_neg (textView_eq_none shown), if_neg (textView_eq_none (view ▸ shown))]
    | some text =>
      obtain ⟨left, members⟩ := textView_eq_some shown
      obtain ⟨right, others⟩ := textView_eq_some (view ▸ shown)
      obtain ⟨id, -⟩ := (TextView.mk.injEq ..).mp (members.symm.trans others)
      rw [if_pos left, if_pos right, id]

theorem endText_hidden {part : Value} (timestamp : Value) (index : ℕ) (hidden : textView part = none) :
    endText formats a timestamp part index = .ok none := if_pos (.inl (textView_eq_none hidden))

theorem endText_congr {p q : Value} (timestamp : Value) (index : ℕ)
    (parts : assistantTextPart formats a index timestamp = assistantTextPart formats b index timestamp)
    (view : textView p = textView q) : endText formats a timestamp p index = endText formats b timestamp q index := by
  cases shown : textView p with
  | none => rw [endText_hidden timestamp index shown, endText_hidden timestamp index (view ▸ shown)]
  | some text =>
    obtain ⟨left, members⟩ := textView_eq_some shown
    obtain ⟨right, others⟩ := textView_eq_some (view ▸ shown)
    obtain ⟨-, words, -⟩ := (TextView.mk.injEq ..).mp (members.symm.trans others)
    unfold endText
    rw [left, right, words, parts]

theorem endTexts_hidden (timestamp : Value) {items : List Value} (index : ℕ) (same : SameTexts [] items) :
    endTexts formats a timestamp index items = .ok [] := by
  induction items generalizing index with
  | nil => rfl
  | cons part rest ih =>
    rw [endTexts, endText_hidden timestamp index same.hidden.1, ih (index + 1) same.hidden.2]
    rfl

theorem endTexts_congr {items others : List Value} (timestamp : Value) (index : ℕ)
    (parts : ∀ index, assistantTextPart formats a index timestamp = assistantTextPart formats b index timestamp)
    (same : SameTexts items others) :
    endTexts formats a timestamp index items = endTexts formats b timestamp index others := by
  induction items generalizing others index with
  | nil => rw [endTexts_hidden timestamp index same, endTexts_hidden timestamp index fun _ => rfl]
  | cons p items ih =>
    cases others with
    | nil => rw [endTexts_hidden timestamp index same.symm, endTexts_hidden timestamp index fun _ => rfl]
    | cons q others =>
      have head : textView p = textView q := same 0
      rw [endTexts, endTexts, endText_congr timestamp index (parts index) head, ih (index + 1) same.tail]

end Texts

section Kinds

variable {formats : Formats} {now : ℕ} {record : Record} {root : Bool} {a b : Value}

theorem SameMessage.items (same : SameMessage a b) :
    SameTexts (a.get (js "content")).items (b.get (js "content")).items := same.listed

/-- A text update shows the part of its message, or of the running message. -/
theorem projectUpdate_congr (same : AgreePublicly root a b) :
    projectUpdate formats a record = projectUpdate formats b record := by
  have running : ∀ (record : Record) (index : ℕ), runningMessage record (a.get (js "assistantMessageEvent")) index =
      runningMessage record (b.get (js "assistantMessageEvent")) index := by
    intro record index
    unfold runningMessage
    rw [same.update.content, same.update.text, same.update.delta, same.update.harnessBirth]
  have part : ∀ (record : Record) (index : ℕ),
      assistantTextPart formats (Value.orElse (a.get (js "message")) (runningMessage record
        (b.get (js "assistantMessageEvent")) index)) index .undefined =
      assistantTextPart formats (Value.orElse (b.get (js "message")) (runningMessage record
        (b.get (js "assistantMessageEvent")) index)) index .undefined := by
    intro record index
    unfold Value.orElse
    rw [same.message.present]
    split
    · rfl
    · exact assistantTextPart_congr formats index .undefined same.message same.provider
  unfold projectUpdate
  dsimp only
  simp only [running, part]
  rw [same.update.type, same.update.delta, same.update.contentIndex, same.update.id]

theorem projectStart_congr (same : AgreePublicly root a b) : projectStart now a record = projectStart now b record := by
  unfold projectStart
  dsimp only
  rw [same.message.role, same.message.timestamp, same.message.id, startTextIds_congr same.message.items]

/-- Whether a tool result has an image is one answer for both frames, also when it cannot be asked. -/
theorem someImage_congr {message other : Value} (listable : isListable message = isListable other)
    (image : hasImage message = hasImage other) :
    someImage (message.get (js "content")) = someImage (other.get (js "content")) := by
  have answer : ∀ value : Value, someImage (value.get (js "content")) =
      if isListable value = true then .ok (hasImage value) else .error .typeError := by
    intro value
    unfold isListable hasImage
    cases value.get (js "content") <;> rfl
  rw [answer, answer, listable, image]

theorem projectEnd_congr (same : AgreePublicly record.isRoot a b) :
    projectEnd formats a record = projectEnd formats b record := by
  have parts := fun index => assistantTextPart_congr formats index
    (record.assistantMessageIdentity.get (js "timestamp")) same.message same.provider
  unfold projectEnd
  dsimp only
  rw [same.message.stopReason, same.message.id, same.message.timestamp, endTexts_congr _ 0 parts same.message.items,
    ← same.message.role]
  split
  · next asked => rw [someImage_congr (same.listable asked.2 asked.1) (same.image asked.2 asked.1)]
  · rfl

theorem toolEvent_congr (type : JsString) (same : Agree root a b) : toolEvent type a = toolEvent type b := by
  unfold toolEvent fieldIf
  rw [same.toolCallId, same.toolName, same.isError]

theorem progressEntry_congr (same : AgreePublicly root a b) (type : frameType a = js "progress_entry") :
    progressEntry formats a = progressEntry formats b := by
  have own : ∀ key ∈ ["entryId", "summary", "createdAt", "harnessBirth"], a.get (js key) = b.get (js key) := by
    intro key shown
    apply same.own
    rw [type]
    exact shown
  unfold progressEntry
  rw [own "entryId" (by decide), own "summary" (by decide), own "createdAt" (by decide), own "harnessBirth" (by decide)]

theorem agentMessageEntry_congr (same : AgreePublicly root a b) (type : frameType a = js "agent_message_entry") :
    agentMessageEntry formats a = agentMessageEntry formats b := by
  have own : ∀ key ∈ ["entryId", "messageId", "direction", "peerId", "peerName", "relationship", "body", "createdAt"],
      a.get (js key) = b.get (js key) := by
    intro key shown
    apply same.own
    rw [type]
    exact shown
  unfold agentMessageEntry
  rw [own "entryId" (by decide), own "messageId" (by decide), own "direction" (by decide), own "peerId" (by decide),
    own "peerName" (by decide), own "relationship" (by decide), own "body" (by decide), own "createdAt" (by decide)]

theorem childCreationEntry_congr (same : AgreePublicly root a b) (type : frameType a = js "child_creation_entry") :
    childCreationEntry formats a = childCreationEntry formats b := by
  have own : ∀ key ∈ ["entryId", "taskId", "childId", "childName", "relationship", "body", "createdAt"],
      a.get (js key) = b.get (js key) := by
    intro key shown
    apply same.own
    rw [type]
    exact shown
  unfold childCreationEntry
  rw [own "entryId" (by decide), own "taskId" (by decide), own "childId" (by decide), own "childName" (by decide),
    own "relationship" (by decide), own "body" (by decide), own "createdAt" (by decide)]

theorem dialogEvent_congr (same : AgreePublicly root a b) (type : frameType a = js "extension_ui_request") :
    dialogEvent a = dialogEvent b := by
  have own : ∀ key ∈ dialogKeys ++ ["timeout", "options"], a.get (js key) = b.get (js key) := by
    intro key shown
    apply same.own
    rw [type]
    exact shown
  have texts : dialogKeys.flatMap (fun key => fieldIf a key Value.isString) =
      dialogKeys.flatMap fun key => fieldIf b key Value.isString := by
    refine List.flatMap_congr fun key listed => ?_
    unfold fieldIf
    rw [own key (List.mem_append_left _ listed)]
  unfold dialogEvent
  dsimp only
  rw [texts, own "options" (by decide)]
  unfold fieldIf
  rw [own "timeout" (by decide)]

end Kinds

section Frames

variable {formats : Formats} {a b : Value}

theorem projectActorEvent_congr (formats : Formats) (now : ℕ) (record : Record) (same : AgreePublicly record.isRoot a b) :
    projectActorEvent formats now a record = projectActorEvent formats now b record := by
  unfold projectActorEvent
  dsimp only
  rw [← same.type]
  generalize started : (if frameType a = js "agent_start" ∨ frameType a = js "agent_settled" then record.clear else record) =
    after
  have root : after.isRoot = record.isRoot := by
    rw [← started]
    split <;> rfl
  rw [← root] at same
  split_ifs with update start ended tool progress message child dialog
  · exact projectUpdate_congr same
  · exact projectStart_congr same
  · rw [projectEnd_congr same]
  · rw [toolEvent_congr (frameType a) same.toAgree]
  · rw [progressEntry_congr same progress]
  · rw [agentMessageEntry_congr same message]
  · rw [childCreationEntry_congr same child]
  · rw [dialogEvent_congr same dialog]
  · rfl

end Frames

section Samples

variable {a b : Value}

def sampleFormats : Formats where
  sha256 text :=
    if text = js "openai" ++ 0 :: js "p" then js "4b6eda3a25f90f3c1ecbd1d1628cc1b88f8018edb6ba3608b3c0bc88cbacf4b4"
    else if text = js "azure" ++ 0 :: js "p" then js "4204e6e2dbab4b61fd700aa896513a9fcd4a40b525e75701cadb0ffa07d69e09"
    else []
  date value := .ok (if value = .num (.ofNat 0) ∨ value = Value.text "1970-01-01T00:00:00.000Z" then
    some (js "1970-01-01T00:00:00.000Z") else none)
  string value := .ok value.units
  normalizeProgressHeading value := if value.isString then some value.units else none

/-- The actor of a root session in which no message runs. -/
def sampleRecord : Record :=
  ⟨.record [("kind", Value.text "root"), ("depth", .num (.ofNat 0))], .null, []⟩

def sampleParts (thinking : String) : List Value :=
  [.record [("type", Value.text "thinking"), ("thinking", Value.text thinking)],
    .record [("type", Value.text "text"), ("text", Value.text "Done.")]]

/-- An ended message with one text, the thinking before it and a member that the projection does not know. -/
def sampleEnd (thinking : String) : Value :=
  .record [("type", Value.text "message_end"), ("extra", Value.text thinking), ("message", .record
    [("role", Value.text "assistant"), ("timestamp", .num (.ofNat 0)), ("stopReason", Value.text "toolUse"),
      ("content", .arr (sampleParts thinking))])]

theorem sampleEnd_agree : AgreePublicly true (sampleEnd "plan") (sampleEnd "other") := by
  have content (thinking : String) (listed : thinking ∈ ["plan", "other"]) :
      ((sampleEnd thinking).get (js "message")).get (js "content") = .arr (sampleParts thinking) := by
    revert thinking
    decide
  have parts : ∀ index : ℕ, textView ((sampleParts "plan")[index]?.getD .undefined) =
      textView ((sampleParts "other")[index]?.getD .undefined)
    | 0 | 1 => by decide
    | _ + 2 => rfl
  refine ⟨⟨by decide, by decide, by decide, by decide, ⟨by decide, by decide, by decide, by decide, by decide, ?_, ?_⟩,
    ⟨by decide, by decide, by decide, by decide, by decide, by decide, by decide⟩, fun _ => by decide⟩, by decide,
    fun _ => by decide, by decide⟩
  all_goals
    intro index
    rw [content "plan" (by decide), content "other" (by decide)]
    exact parts index

theorem SameMessage.of_content (a b : Value) (present : a.isNullish = b.isNullish)
    (role : a.get (js "role") = b.get (js "role")) (id : a.get (js "id") = b.get (js "id"))
    (timestamp : a.get (js "timestamp") = b.get (js "timestamp"))
    (stopReason : a.get (js "stopReason") = b.get (js "stopReason"))
    (content : a.get (js "content") = b.get (js "content")) : SameMessage a b where
  present := present
  role := role
  id := id
  timestamp := timestamp
  stopReason := stopReason
  texts index := by rw [content]
  listed index := by rw [content]

theorem Agree.of_message {root : Bool} (type : frameType a = frameType b)
    (toolCallId : a.get (js "toolCallId") = b.get (js "toolCallId")) (toolName : a.get (js "toolName") = b.get (js "toolName"))
    (isError : a.get (js "isError") = b.get (js "isError")) (message : a.get (js "message") = b.get (js "message"))
    (update : a.get (js "assistantMessageEvent") = b.get (js "assistantMessageEvent")) : Agree root a b where
  type := type
  toolCallId := toolCallId
  toolName := toolName
  isError := isError
  message := by
    rw [message]
    exact .of_content _ _ rfl rfl rfl rfl rfl rfl
  update := by
    rw [update]
    exact ⟨rfl, rfl, rfl, rfl, rfl, rfl, rfl⟩
  image _ _ := by rw [message]

def sampleDialog (title : String) : Value :=
  .record [("type", Value.text "extension_ui_request"), ("method", Value.text "confirm"), ("title", Value.text title)]

def sampleProgress (summary : String) : Value :=
  .record [("type", Value.text "progress_entry"), ("entryId", Value.text "e"), ("summary", Value.text summary),
    ("createdAt", Value.text "1970-01-01T00:00:00.000Z")]

def sampleAgentMessage (body : String) : Value :=
  .record [("type", Value.text "agent_message_entry"), ("entryId", Value.text "e"), ("messageId", Value.text "m"),
    ("direction", Value.text "from"), ("peerId", Value.text "s"), ("peerName", Value.text "Peer"),
    ("relationship", Value.text "child"), ("body", Value.text body), ("createdAt", Value.text "1970-01-01T00:00:00.000Z")]

def sampleChildCreation (body : String) : Value :=
  .record [("type", Value.text "child_creation_entry"), ("entryId", Value.text "e"), ("taskId", Value.text "t"),
    ("childId", Value.text "c"), ("childName", Value.text "Child"), ("relationship", Value.text "child"),
    ("body", Value.text body), ("createdAt", Value.text "1970-01-01T00:00:00.000Z")]

def sampleSigned (provider : String) : Value :=
  .record [("type", Value.text "message_update"), ("assistantMessageEvent", .record [("type", Value.text "text_end")]),
    ("message", .record [("role", Value.text "assistant"), ("timestamp", .num (.ofNat 0)),
      ("provider", Value.text provider), ("content", .arr [.record [("type", Value.text "text"), ("text", Value.text "Hi"),
        ("textSignature", Value.text "\x7b\"v\":1,\"id\":\"p\"\x7d")]])])]

/-- A tool result without an image. -/
def sampleResult (content : Value) : Value :=
  .record [("type", Value.text "message_end"),
    ("message", .record [("role", Value.text "toolResult"), ("content", content)])]

end Samples

end PersistentHarness.ActorEvents
