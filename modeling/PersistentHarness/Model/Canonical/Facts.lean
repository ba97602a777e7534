import PersistentHarness.Model.Canonical.Messages
import PersistentHarness.Data.Digest

/-! # Evidence that a call never started

Three producers can prove that a tool call of a failed response was never admitted: a fenced
transport report, the typed diagnostic of a failed ordinary stream, and a witness written by the
owner of the commit. A malformed or ambiguous report proves nothing.
-/

namespace PersistentHarness.Canonical

def separator : UInt16 := Json.unit '|'

/-- A component of a provider call id. -/
def providerPart (value : Value) : Prop :=
  identifier value ∧ JsString.includes value.units separator = false

instance (value : Value) : Decidable (providerPart value) := inferInstanceAs (Decidable (_ ∧ _))

def providerTuple (call : Value) : Option (List JsString) :=
  match JsString.split (callId call) separator with
  | [callPart, itemPart] =>
    if providerPart (.str callPart) ∧ providerPart (.str itemPart)
        ∧ (call.hasOwn (js "providerCallId") = true ∨ call.hasOwn (js "providerItemId") = true →
          call.get (js "providerCallId") = .str callPart ∧ call.get (js "providerItemId") = .str itemPart)
    then some [callPart, itemPart] else none
  | _ => none

/-! ## Transport reports -/

/-- The provider call id that a row of a report observed. -/
def rowTuple (row : Value) : JsString :=
  (row.get (js "callId")).units ++ separator :: (row.get (js "itemId")).units

def validRow (row : Value) : Prop :=
  isRecord row ∧ providerPart (row.get (js "callId")) ∧ providerPart (row.get (js "itemId"))
    ∧ (row.get (js "complete")).isBoolean = true ∧ (row.get (js "native")).isBoolean = true
    ∧ ¬(row.get (js "native") = .bool true ∧ row.get (js "complete") = .bool false)

instance (row : Value) : Decidable (validRow row) := by
  unfold validRow
  infer_instance

/-- What the attempts of a report observed so far. -/
structure Observations where
  seenAttempts : List Value
  observations : List (JsString × Bool)
  aliases : List (JsString × List JsString)

/-- One row; the second component holds the id components of the current attempt. -/
def observeRow (state : Observations × List JsString) (row : Value) : Option (Observations × List JsString) := do
  guard (validRow row)
  let call := (row.get (js "callId")).units
  let item := (row.get (js "itemId")).units
  guard (call ∉ state.2 ∧ item ∉ state.2)
  let tuple := rowTuple row
  let incomplete := (Assoc.lookup state.1.observations tuple).getD true
    && row.get (js "complete") = .bool false && row.get (js "native") = .bool false
  pure ({ state.1 with
      observations := Assoc.set state.1.observations tuple incomplete
      aliases := Multimap.add (Multimap.add state.1.aliases call tuple) item tuple },
    call :: item :: state.2)

/-- The shape of a fenced attempt. -/
def validAttempt (attempt : Value) (number : ℕ) : Prop :=
  isRecord attempt ∧ identifier (attempt.get (js "attemptId"))
    ∧ (attempt.get (js "attemptNumber")).isNat number
    ∧ oneOf (attempt.get (js "transport")) ["websocket", "sse"]
    ∧ (∀ key ∈ ["sent", "created", "providerTools", "retired", "fenced", "possibleUsage"],
        (attempt.get (js key)).isBoolean = true)
    ∧ attempt.get (js "retired") = .bool true ∧ attempt.get (js "fenced") = .bool true
    ∧ oneOf (attempt.get (js "outcome")) ["not_sent", "unknown", "rejected", "failed", "completed"]
    ∧ (attempt.get (js "responseId") = .undefined ∨ identifier (attempt.get (js "responseId")))
    ∧ (attempt.get (js "observedCalls")).isArray = true
    ∧ (attempt.get (js "observedCalls")).items.length ≤ contentBlocks

instance (attempt : Value) (number : ℕ) : Decidable (validAttempt attempt number) := by
  unfold validAttempt
  infer_instance

/-- The outcome of an attempt agrees with what it sent and saw. -/
def consistentAttempt (attempt : Value) : Prop :=
  let sent := attempt.get (js "sent") = .bool true
  let active := attempt.get (js "created") = .bool true ∨ attempt.get (js "possibleUsage") = .bool true
    ∨ (attempt.get (js "observedCalls")).items ≠ []
  let outcome := attempt.get (js "outcome")
  ¬(¬sent ∧ (¬isWord outcome "not_sent" ∨ attempt.get (js "responseId") ≠ .undefined ∨ active))
    ∧ ¬(isWord outcome "not_sent" ∧ sent) ∧ ¬(isWord outcome "rejected" ∧ active)

instance (attempt : Value) : Decidable (consistentAttempt attempt) := by
  unfold consistentAttempt
  infer_instance

def observeAttempt (state : Observations) (item : Value × ℕ) : Option Observations := do
  let attempt := item.1
  guard (validAttempt attempt (item.2 + 1) ∧ attempt.get (js "attemptId") ∉ state.seenAttempts)
  guard (consistentAttempt attempt)
  let rows := (attempt.get (js "observedCalls")).items
  guard (rows ≠ [] → attempt.get (js "sent") = .bool true)
  let started := { state with seenAttempts := attempt.get (js "attemptId") :: state.seenAttempts }
  let (observed, _) ← rows.foldlM observeRow (started, [])
  pure observed

/-- A row whose tuple stayed incomplete and shares no component with another tuple. -/
def uniquelyIncomplete (seen : Observations) (row : Value) : Prop :=
  Assoc.lookup seen.observations (rowTuple row) = some true
    ∧ (Multimap.values seen.aliases (row.get (js "callId")).units).length = 1
    ∧ (Multimap.values seen.aliases (row.get (js "itemId")).units).length = 1

instance (seen : Observations) (row : Value) : Decidable (uniquelyIncomplete seen row) :=
  inferInstanceAs (Decidable (_ ∧ _ ∧ _))

def validReport (report : Value) : Prop :=
  isRecord report ∧ (report.get (js "version")).isNat 1 ∧ identifier (report.get (js "requestId"))
    ∧ (report.get (js "attempts")).isArray = true ∧ (report.get (js "attempts")).items ≠ []
    ∧ (report.get (js "attempts")).items.length ≤ contentBlocks

instance (report : Value) : Decidable (validReport report) := by
  unfold validReport
  infer_instance

/-- `const { version, requestId, attempts, ...latest } = report`. -/
def latestOf (report : Value) : Value :=
  ((report.delete (js "version")).delete (js "requestId")).delete (js "attempts")

def incompleteObservations? (report : Value) : Option (List JsString) := do
  guard (validReport report)
  let attempts := (report.get (js "attempts")).items
  let latest := latestOf report
  let last ← attempts.getLast?
  guard (latest.equal last)
  let seen ← attempts.zipIdx.foldlM observeAttempt ⟨[], [], []⟩
  guard (latest.get (js "sent") = .bool true ∧ latest.get (js "created") = .bool true
    ∧ oneOf (latest.get (js "outcome")) ["unknown", "failed"])
  pure (((latest.get (js "observedCalls")).items.filter fun row => uniquelyIncomplete seen row).map rowTuple)

/-- The call ids that a report proves incomplete; none for a report that proves nothing. -/
def incompleteObservations (report : Value) : List JsString := (incompleteObservations? report).getD []

/-! ## Ordinary failures -/

/-- A block that no native provider produced. -/
def plainCall (block : Value) : Prop :=
  isToolCall block → block.get (js "async") ≠ .bool true
    ∧ ∀ key ∈ ["nativeProvenance", "providerCallId", "providerItemId"], block.hasOwn (js key) = false

instance (block : Value) : Decidable (plainCall block) := by
  unfold plainCall
  infer_instance

/-- `content.every(plainCall)`, which reads a property of each block it reaches. -/
def everyPlainCall : List Value → Result Bool
  | [] => .ok true
  | .undefined :: _ | .null :: _ => .error .typeError
  | block :: rest => if plainCall block then everyPlainCall rest else .ok false

/-- A diagnostic of a stream that broke after it started. -/
def transportFailure (message item : Value) : Prop :=
  let details := item.get (js "details")
  let configured := details.get (js "configuredTransport")
  isRecord item ∧ isWord (item.get (js "type")) "provider_transport_failure" ∧ isRecord details
    ∧ details.get (js "eventsEmitted") = .bool true
    ∧ isWord (details.get (js "phase")) "after_message_stream_start"
    ∧ if details.hasOwn (js "producer") = true ∨ details.hasOwn (js "transport") = true then
        isWord (details.get (js "producer")) "persistent-harness-sse-body-read-v1"
          ∧ isWord (details.get (js "transport")) "sse"
          ∧ oneOf configured ["auto", "sse", "websocket"] ∧ isWord (message.get (js "stopReason")) "error"
      else oneOf configured ["auto", "websocket"]

instance (message item : Value) : Decidable (transportFailure message item) := by
  unfold transportFailure
  infer_instance

def ordinaryFailedTerminal (message : Value) : Result Bool :=
  if isWord (message.get (js "api")) "openai-codex-responses" ∧ isWord (message.get (js "provider")) "openai-codex"
      ∧ message.hasOwn (js "nativeTransport") = false ∧ message.hasOwn (js "nativeProviderError") = false
  then do
    let plain ← everyPlainCall (contentOf message)
    pure (plain && decide (∃ item ∈ (message.get (js "diagnostics")).items, transportFailure message item))
  else .ok false

/-- A failed response stops with one of these reasons. -/
def failedStop (message : Value) : Prop := oneOf (message.get (js "stopReason")) ["error", "aborted"]

instance (message : Value) : Decidable (failedStop message) := inferInstanceAs (Decidable (oneOf _ _))

def ordinaryNonNativeFailure (message : Value) : Result Bool :=
  if hasRole message "assistant" ∧ identifier (message.get (js "id"))
      ∧ (∀ key ∈ ["api", "provider", "model"], identifier (message.get (js key))) ∧ failedStop message
      ∧ message.hasOwn (js "nativeTransport") = false ∧ message.hasOwn (js "nativeProviderError") = false
      ∧ (message.get (js "content")).isArray = true
  then everyPlainCall (contentOf message)
  else .ok false

end PersistentHarness.Canonical

/-! ## Compact message facts

What the managed index keeps of a message in place of its text: digests, roles, validated call
identities and the evidence of non-admission. The same facts decide a non-admission witness.
-/

namespace PersistentHarness.Canonical

/-- The facts of one call block. Ids and names that are no identifiers are `undefined`. -/
structure CallFacts where
  contentIndex : ℕ
  id : Value
  name : Value
  async : Value
  digest : JsString
  valid : Bool
  nativeProvenance : Bool
  tuple : Option (List JsString)
deriving DecidableEq, Repr

structure ContentFacts where
  valid : Bool
  calls : List CallFacts
deriving DecidableEq, Repr

structure MessageFacts where
  id : Value
  ordinaryNonNativeFailure : Bool
  digest : JsString
  envelopeDigest : JsString
  role : Value
  stopReason : Value
  toolCallId : Value
  toolName : Value
  excludeFromContext : Bool
  ordinaryFailed : Bool
  content : ContentFacts
  incomplete : List JsString
deriving DecidableEq, Repr

variable (sha256 : JsString → JsString)

def identifierOr (value : Value) : Value := if identifier value then value else .undefined

/-- `typeof value === "string" ? value : undefined`. -/
def stringOr (value : Value) : Value := if value.isString = true then value else .undefined

/-- String content is one text block. -/
def contentValue (content : Value) : Value :=
  match content with
  | .str text => .arr [.obj [(js "type", .str (js "text")), (js "text", .str text)]]
  | content => content

def callFacts (call : Value) (contentIndex : ℕ) : CallFacts where
  contentIndex
  id := identifierOr (call.get (js "id"))
  name := identifierOr (call.get (js "name"))
  async := if (call.get (js "async")).isBoolean = true then call.get (js "async") else .undefined
  digest := valueDigest sha256 call
  valid := decide (validCall call)
  nativeProvenance := call.hasOwn (js "nativeProvenance")
  tuple := if identifier (call.get (js "id")) then providerTuple call else none

def contentFacts (content : Value) : ContentFacts :=
  let blocks := contentValue content
  let valid := decide (validContent blocks)
  { valid
    calls := if valid then
        (blocks.items.zipIdx.filter fun item => isToolCall item.1).map fun item => callFacts sha256 item.1 item.2
      else [] }

/-- Input messages without content count as empty ones. -/
def finalizedInputMessage (message : Value) : Value :=
  let content := message.get (js "content")
  if (content = .null ∨ content = .undefined) ∧ oneOf (message.get (js "role")) ["system", "user"] then
    message.set (js "content") (if hasRole message "system" then .str [] else .arr [])
  else message

/-- `const { content, ...envelope } = message`. -/
def envelopeOf (message : Value) : Value := message.delete (js "content")

/-- `message.role === "assistant" && Array.isArray(content) && ordinaryFailedTerminal(message)`. -/
def ordinaryFailed (message : Value) : Result Bool :=
  if hasRole message "assistant" ∧ (message.get (js "content")).isArray = true then ordinaryFailedTerminal message
  else .ok false

def messageFacts (message : Value) : Result MessageFacts := do
  let nonNative ← ordinaryNonNativeFailure message
  let failed ← ordinaryFailed message
  pure
    { id := identifierOr (message.get (js "id"))
      ordinaryNonNativeFailure := nonNative
      digest := valueDigest sha256 (finalizedInputMessage message)
      envelopeDigest := valueDigest sha256 (envelopeOf message)
      role := stringOr (message.get (js "role"))
      stopReason := stringOr (message.get (js "stopReason"))
      toolCallId := identifierOr (message.get (js "toolCallId"))
      toolName := identifierOr (message.get (js "toolName"))
      excludeFromContext := decide (message.get (js "excludeFromContext") = .bool true)
      ordinaryFailed := failed
      content := contentFacts sha256 (message.get (js "content"))
      incomplete := if hasRole message "assistant" then incompleteObservations (message.get (js "nativeTransport"))
        else [] }

/-! ## Non-admission witnesses -/

/-- A call as a witness names it. -/
def nonAdmissionCall (call : CallFacts) : Value :=
  .obj [(js "contentIndex", .num (.ofNat call.contentIndex)), (js "toolCallId", call.id),
    (js "toolName", call.name), (js "callDigest", .str call.digest)]

/-- The calls that a witness of this message must name, if the message can have one. -/
def nonAdmissionCalls (info : MessageFacts) : Option (List CallFacts) :=
  if info.ordinaryNonNativeFailure = true ∧ info.content.valid = true ∧ info.content.calls ≠ []
      ∧ (∀ call ∈ info.content.calls, call.valid = true) ∧ (info.content.calls.map (·.id)).Nodup
  then some info.content.calls else none

/-- The keys of a witness, in any order. -/
def witnessKeys : List JsString :=
  [js "version", js "messageEntryId", js "messageId", js "requestId", js "attemptId", js "calls"]

/-- The call ids that a witness entry proves not admitted, against the entry it is a child of. -/
def witnessedNonAdmission (entry : Value) (target : Option (Value × Option MessageFacts)) : List JsString :=
  let data := entry.get (js "data")
  let targetId := (target.map Prod.fst).getD .undefined
  let info := target.bind Prod.snd
  if ¬isWord (entry.get (js "type")) "custom" ∨ entry.get (js "customType") ≠ .str ordinaryNonAdmissionCustomType
      ∨ ¬isRecord data ∨ ¬(data.get (js "version")).isNat 1
      ∨ ¬identifier (data.get (js "requestId")) ∨ ¬identifier (data.get (js "attemptId"))
      ∨ entry.get (js "parentId") ≠ targetId ∨ data.get (js "messageEntryId") ≠ targetId
      ∨ data.get (js "messageId") ≠ (info.map MessageFacts.id).getD .undefined
      ∨ ¬(Assoc.keys data.fields).Perm witnessKeys
  then []
  else
    match info.bind nonAdmissionCalls with
    | none => []
    | some calls =>
      if (data.get (js "calls")).equal (.arr (calls.map nonAdmissionCall)) then calls.map (·.id.units) else []

/-- One entry of `ownedNonAdmissions`: the prior entries by id, and the ids witnessed so far. -/
def ownedNonAdmission (state : List (JsString × Value) × List JsString) (entry : Value) :
    Result (List (JsString × Value) × List JsString) := do
  let prior := Assoc.set state.1 (entryId entry) entry
  if isWord (entry.get (js "type")) "custom" ∧ entry.get (js "customType") = .str ordinaryNonAdmissionCustomType then
    match Assoc.lookup state.1 (entry.get (js "parentId")).units with
    | some target =>
      if isWord (target.get (js "type")) "message" then
        let info ← messageFacts sha256 (messageOf target)
        pure (prior, (witnessedNonAdmission entry (some (target.get (js "id"), some info))).foldl
          Multimap.insertValue state.2)
      else pure (prior, state.2)
    | none => pure (prior, state.2)
  else pure (prior, state.2)

def ownedNonAdmissions (selected : List Value) : Result (List JsString) := do
  let (_, witnessed) ← selected.foldlM (ownedNonAdmission sha256) ([], [])
  pure witnessed

end PersistentHarness.Canonical
