import PersistentHarness.Model.Canonical.Basic

/-! # Messages, calls and results

`indexMessages` validates the messages of one view and indexes their tool calls and results by id.
The records keep the position of their message, so that a result is checked to follow its call.
-/

namespace PersistentHarness.Canonical

/-- A message with the id of the entry that holds it, `undefined` for a projected message. -/
structure MessageRecord where
  message : Value
  entryId : Value
deriving DecidableEq, Repr

structure CallRecord where
  call : Value
  message : Value
  entryId : Value
  contentIndex : ℕ
  order : ℕ
deriving DecidableEq, Repr

structure ResultRecord where
  message : Value
  entryId : Value
  order : ℕ
deriving DecidableEq, Repr

/-- The calls and results of a view, by id. -/
structure MessageIndex where
  calls : List (JsString × CallRecord)
  results : List (JsString × ResultRecord)
deriving DecidableEq, Repr

def hasRole (message : Value) (role : String) : Prop := isWord (message.get (js "role")) role

instance (message : Value) (role : String) : Decidable (hasRole message role) :=
  inferInstanceAs (Decidable (isWord _ _))

def isToolCall (block : Value) : Prop := isWord (block.get (js "type")) "toolCall"

instance (block : Value) : Decidable (isToolCall block) := inferInstanceAs (Decidable (isWord _ _))

/-- The id of a call as a map key. -/
def callId (call : Value) : JsString := (call.get (js "id")).units

def resultId (message : Value) : JsString := (message.get (js "toolCallId")).units

def validBlock (block : Value) : Prop := isRecord block ∧ identifier (block.get (js "type"))

instance (block : Value) : Decidable (validBlock block) := inferInstanceAs (Decidable (_ ∧ _))

/-- A content array whose elements are typed blocks. -/
def validContent (content : Value) : Prop :=
  content.isArray = true ∧ content.items.length ≤ contentBlocks ∧ ∀ block ∈ content.items, validBlock block

instance (content : Value) : Decidable (validContent content) := inferInstanceAs (Decidable (_ ∧ _ ∧ _))

def validCall (call : Value) : Prop :=
  identifier (call.get (js "id")) ∧ identifier (call.get (js "name")) ∧ isRecord (call.get (js "arguments"))
    ∧ (call.get (js "async") = .undefined ∨ (call.get (js "async")).isBoolean = true)

instance (call : Value) : Decidable (validCall call) := inferInstanceAs (Decidable (_ ∧ _ ∧ _ ∧ _))

def validResult (message : Value) : Prop :=
  identifier (message.get (js "toolCallId")) ∧ identifier (message.get (js "toolName"))
    ∧ (message.get (js "isError")).isBoolean = true

instance (message : Value) : Decidable (validResult message) := inferInstanceAs (Decidable (_ ∧ _ ∧ _))

def validateMessage (message : Value) : Result Unit := do
  requireThat (isRecord message ∧ identifier (message.get (js "role"))) .ERR_CONTEXT_MESSAGE
  requireThat (hasRole message "assistant" ∨ hasRole message "toolResult" →
    validContent (message.get (js "content"))) .ERR_CONTEXT_CONTENT
  requireThat (hasRole message "toolResult" → validResult message) .ERR_CONTEXT_RESULT

/-- Index one content block of an assistant message. -/
def indexCall (record : MessageRecord) (order : ℕ) (calls : List (JsString × CallRecord))
    (item : Value × ℕ) : Result (List (JsString × CallRecord)) :=
  if isToolCall item.1 then do
    requireThat (validCall item.1) .ERR_CONTEXT_CALL
    Checked.insertFresh .ERR_CONTEXT_DUPLICATE_CALL_ID calls (callId item.1)
      ⟨item.1, record.message, record.entryId, item.2, order⟩
  else pure calls

def indexCalls (record : MessageRecord) (order : ℕ) (calls : List (JsString × CallRecord)) :
    Result (List (JsString × CallRecord)) :=
  if hasRole record.message "assistant" then
    (contentOf record.message).zipIdx.foldlM (indexCall record order) calls
  else pure calls

def indexResult (record : MessageRecord) (order : ℕ) (results : List (JsString × ResultRecord)) :
    Result (List (JsString × ResultRecord)) :=
  if hasRole record.message "toolResult" then
    Checked.insertFresh .ERR_CONTEXT_DUPLICATE_RESULT_ID results (resultId record.message)
      ⟨record.message, record.entryId, order⟩
  else pure results

def indexMessage (index : MessageIndex) (item : MessageRecord × ℕ) : Result MessageIndex := do
  validateMessage item.1.message
  let calls ← indexCalls item.1 item.2 index.calls
  let results ← indexResult item.1 item.2 index.results
  pure ⟨calls, results⟩

/-- A result whose call is in the view has the call's name and comes after it. -/
def checkResult (calls : List (JsString × CallRecord)) (entry : JsString × ResultRecord) : Result Unit :=
  match Assoc.lookup calls entry.1 with
  | none => pure ()
  | some call => do
    requireThat (call.call.get (js "name") = entry.2.message.get (js "toolName")) .ERR_CONTEXT_RESULT_NAME
    requireThat (call.order < entry.2.order) .ERR_CONTEXT_RESULT_BEFORE_CALL

def indexMessages (records : List MessageRecord) : Result MessageIndex := do
  let index ← records.zipIdx.foldlM indexMessage ⟨[], []⟩
  index.results.forM (checkResult index.calls)
  pure index

/-- `selected.filter(entry => entry.type === "message").map(…)`. -/
def branchRecords (selected : List Value) : List MessageRecord :=
  (selected.filter fun entry => isWord (entry.get (js "type")) "message").map fun entry =>
    ⟨messageOf entry, entry.get (js "id")⟩

end PersistentHarness.Canonical

/-! ## What a successful index holds

An index is accepted exactly when every message is valid on its own and the calls and results of
the whole view fit together. It then lists them in the order of their messages, so that a longer
view only appends to it.
-/

namespace PersistentHarness.Canonical

def callBinding (record : MessageRecord) (order : ℕ) (item : Value × ℕ) : JsString × CallRecord :=
  (callId item.1, ⟨item.1, record.message, record.entryId, item.2, order⟩)

/-- The calls of one message, in content order. -/
def callsOf (record : MessageRecord) (order : ℕ) : List (JsString × CallRecord) :=
  if hasRole record.message "assistant" then
    ((contentOf record.message).zipIdx.filter fun item => isToolCall item.1).map (callBinding record order)
  else []

def resultsOf (record : MessageRecord) (order : ℕ) : List (JsString × ResultRecord) :=
  if hasRole record.message "toolResult" then
    [(resultId record.message, ⟨record.message, record.entryId, order⟩)]
  else []

def allCalls (start : ℕ) (records : List MessageRecord) : List (JsString × CallRecord) :=
  (records.zipIdx start).flatMap fun item => callsOf item.1 item.2

def allResults (start : ℕ) (records : List MessageRecord) : List (JsString × ResultRecord) :=
  (records.zipIdx start).flatMap fun item => resultsOf item.1 item.2

/-- A message that passes every check that concerns it alone. -/
structure ValidMessage (message : Value) : Prop where
  record : isRecord message
  role : identifier (message.get (js "role"))
  content : hasRole message "assistant" ∨ hasRole message "toolResult" → validContent (message.get (js "content"))
  result : hasRole message "toolResult" → validResult message
  calls : hasRole message "assistant" → ∀ call ∈ contentOf message, isToolCall call → validCall call

/-- Calls and results that fit together: distinct ids, and every answered call precedes its result. -/
structure Consistent (calls : List (JsString × CallRecord)) (results : List (JsString × ResultRecord)) :
    Prop where
  callIds : (Assoc.keys calls).Nodup
  resultIds : (Assoc.keys results).Nodup
  answered : ∀ id call result, (id, call) ∈ calls → (id, result) ∈ results →
    call.call.get (js "name") = result.message.get (js "toolName") ∧ call.order < result.order

/-- The index extended by one more message. -/
def extendIndex (index : MessageIndex) (item : MessageRecord × ℕ) : MessageIndex :=
  ⟨index.calls ++ callsOf item.1 item.2, index.results ++ resultsOf item.1 item.2⟩

/-- No id is bound twice. -/
def MessageIndex.Distinct (index : MessageIndex) : Prop :=
  (Assoc.keys index.calls).Nodup ∧ (Assoc.keys index.results).Nodup

theorem validateMessage_eq_ok {message : Value} {done : Unit} :
    validateMessage message = .ok done ↔ isRecord message ∧ identifier (message.get (js "role"))
      ∧ (hasRole message "assistant" ∨ hasRole message "toolResult" → validContent (message.get (js "content")))
      ∧ (hasRole message "toolResult" → validResult message) := by
  unfold validateMessage
  simp only [Checked.bind_eq_ok, Checked.require_eq_ok, exists_const, and_assoc]

theorem foldlM_indexCall_eq_ok (record : MessageRecord) (order : ℕ) (items : List (Value × ℕ))
    {calls next : List (JsString × CallRecord)} (unique : (Assoc.keys calls).Nodup) :
    items.foldlM (indexCall record order) calls = .ok next ↔
      (∀ item ∈ items, isToolCall item.1 → validCall item.1) ∧
        (Assoc.keys (calls ++ (items.filter fun item => isToolCall item.1).map (callBinding record order))).Nodup ∧
        next = calls ++ (items.filter fun item => isToolCall item.1).map (callBinding record order) := by
  let extend : List (JsString × CallRecord) → Value × ℕ → List (JsString × CallRecord) := fun calls item =>
    if isToolCall item.1 then calls ++ [callBinding record order item] else calls
  have folded : ∀ (items : List (Value × ℕ)) (calls : List (JsString × CallRecord)),
      items.foldl extend calls =
        calls ++ (items.filter fun item => isToolCall item.1).map (callBinding record order) := by
    intro items
    induction items with
    | nil => intro calls; simp
    | cons item rest ih =>
      intro calls
      rw [List.foldl_cons, ih]
      by_cases call : isToolCall item.1 <;> simp [extend, call]
  rw [← folded]
  refine Checked.foldlM_eq_ok _ (fun calls => (Assoc.keys calls).Nodup) extend ?_ ?_ unique
  · intro state item unique
    by_cases call : isToolCall item.1
    · simp only [extend, call, ↓reduceIte] at unique
      exact Assoc.keys_nodup_of_append unique
    · simpa only [extend, call, ↓reduceIte] using unique
  · intro state item next unique
    by_cases call : isToolCall item.1
    · simp only [indexCall, extend, call, ↓reduceIte, Checked.bind_eq_ok, Checked.require_eq_ok,
        Checked.insertFresh_eq_ok, exists_const, forall_true_left, callBinding,
        Assoc.keys_nodup_concat]
      tauto
    · simp only [indexCall, extend, call, ↓reduceIte, Checked.pure_eq_ok, false_implies, true_and, unique]
      exact eq_comm

theorem indexCalls_eq_ok {record : MessageRecord} {order : ℕ} {calls next : List (JsString × CallRecord)}
    (unique : (Assoc.keys calls).Nodup) :
    indexCalls record order calls = .ok next ↔
      (hasRole record.message "assistant" → ∀ call ∈ contentOf record.message, isToolCall call → validCall call)
        ∧ (Assoc.keys (calls ++ callsOf record order)).Nodup ∧ next = calls ++ callsOf record order := by
  unfold indexCalls callsOf
  split
  · next assistant =>
    rw [foldlM_indexCall_eq_ok record order _ unique]
    have blocks : (∀ item ∈ (contentOf record.message).zipIdx, isToolCall item.1 → validCall item.1) ↔
        ∀ call ∈ contentOf record.message, isToolCall call → validCall call := by
      constructor
      · intro valid call member
        obtain ⟨i, bound, rfl⟩ := List.getElem_of_mem member
        exact valid (_, i) (List.mem_zipIdx_iff_getElem?.mpr (List.getElem?_eq_getElem bound))
      · rintro valid ⟨call, i⟩ member
        exact valid call (List.fst_mem_of_mem_zipIdx member)
    rw [blocks]
    simp only [assistant, forall_true_left]
  · next other =>
    simp only [other, false_implies, List.append_nil, unique, true_and, Checked.pure_eq_ok]
    exact eq_comm

theorem indexResult_eq_ok {record : MessageRecord} {order : ℕ} {results next : List (JsString × ResultRecord)}
    (unique : (Assoc.keys results).Nodup) :
    indexResult record order results = .ok next ↔
      (Assoc.keys (results ++ resultsOf record order)).Nodup ∧ next = results ++ resultsOf record order := by
  unfold indexResult resultsOf
  split
  · rw [Checked.insertFresh_eq_ok, Assoc.keys_nodup_concat]
    tauto
  · simp only [List.append_nil, unique, true_and, Checked.pure_eq_ok]
    exact eq_comm

theorem indexMessage_eq_ok {index next : MessageIndex} {item : MessageRecord × ℕ} (unique : index.Distinct) :
    indexMessage index item = .ok next ↔
      ValidMessage item.1.message ∧ (extendIndex index item).Distinct ∧ next = extendIndex index item := by
  simp only [indexMessage, Checked.bind_eq_ok, validateMessage_eq_ok, indexCalls_eq_ok unique.1,
    indexResult_eq_ok unique.2, Checked.pure_eq_ok]
  constructor
  · rintro ⟨_, ⟨record, role, content, result⟩, calls, ⟨valid, callIds, rfl⟩, results, ⟨resultIds, rfl⟩, rfl⟩
    exact ⟨⟨record, role, content, result, valid⟩, ⟨callIds, resultIds⟩, rfl⟩
  · rintro ⟨valid, ⟨callIds, resultIds⟩, rfl⟩
    exact ⟨(), ⟨valid.record, valid.role, valid.content, valid.result⟩, _, ⟨valid.calls, callIds, rfl⟩,
      _, ⟨resultIds, rfl⟩, rfl⟩

theorem foldl_extendIndex (records : List MessageRecord) (start : ℕ) (index : MessageIndex) :
    (records.zipIdx start).foldl extendIndex index =
      ⟨index.calls ++ allCalls start records, index.results ++ allResults start records⟩ := by
  induction records generalizing start index with
  | nil => simp [allCalls, allResults]
  | cons record rest ih =>
    rw [List.zipIdx_cons, List.foldl_cons, ih]
    simp [extendIndex, allCalls, allResults, List.zipIdx_cons]

theorem checkResult_eq_ok {calls : List (JsString × CallRecord)} {entry : JsString × ResultRecord} :
    checkResult calls entry = .ok () ↔ ∀ call, Assoc.lookup calls entry.1 = some call →
      call.call.get (js "name") = entry.2.message.get (js "toolName") ∧ call.order < entry.2.order := by
  unfold checkResult
  split
  · next absent => simp [absent]
  · next call found =>
    simp only [Checked.bind_eq_ok, Checked.require_eq_ok, exists_const, found, Option.some.injEq, forall_eq']

theorem indexMessages_eq_ok {records : List MessageRecord} {index : MessageIndex} :
    indexMessages records = .ok index ↔ (∀ record ∈ records, ValidMessage record.message)
      ∧ Consistent (allCalls 0 records) (allResults 0 records)
      ∧ index = ⟨allCalls 0 records, allResults 0 records⟩ := by
  have folded : ∀ {next}, records.zipIdx.foldlM indexMessage ⟨[], []⟩ = .ok next ↔
      (∀ item ∈ records.zipIdx, ValidMessage item.1.message) ∧
        ((records.zipIdx).foldl extendIndex ⟨[], []⟩).Distinct ∧ next = (records.zipIdx).foldl extendIndex ⟨[], []⟩ := by
    intro next
    have empty : (⟨[], []⟩ : MessageIndex).Distinct := ⟨List.nodup_nil, List.nodup_nil⟩
    refine Checked.foldlM_eq_ok (fun item => ValidMessage item.1.message) MessageIndex.Distinct extendIndex
      ?_ (fun index item next unique => indexMessage_eq_ok unique) empty
    exact fun index item unique => ⟨Assoc.keys_nodup_of_append unique.1, Assoc.keys_nodup_of_append unique.2⟩
  have messages : (∀ item ∈ records.zipIdx, ValidMessage item.1.message) ↔
      ∀ record ∈ records, ValidMessage record.message := by
    constructor
    · intro valid record member
      obtain ⟨i, bound, rfl⟩ := List.getElem_of_mem member
      exact valid (_, i) (List.mem_zipIdx_iff_getElem?.mpr (List.getElem?_eq_getElem bound))
    · rintro valid ⟨record, i⟩ member
      exact valid record (List.fst_mem_of_mem_zipIdx member)
  rw [foldl_extendIndex, List.nil_append, List.nil_append, messages] at folded
  unfold indexMessages
  simp only [Checked.bind_eq_ok, folded, Checked.forM_eq_ok, checkResult_eq_ok, Checked.pure_eq_ok]
  constructor
  · rintro ⟨_, ⟨valid, ⟨callIds, resultIds⟩, rfl⟩, _, checked, rfl⟩
    refine ⟨valid, ⟨callIds, resultIds, ?_⟩, rfl⟩
    intro id call result issued answered
    exact checked (id, result) answered call (Assoc.lookup_of_mem callIds issued)
  · rintro ⟨valid, consistent, rfl⟩
    refine ⟨_, ⟨valid, ⟨consistent.callIds, consistent.resultIds⟩, rfl⟩, (), ?_, rfl⟩
    rintro ⟨id, result⟩ answered call found
    exact consistent.answered id call result (Assoc.mem_of_lookup found) answered

end PersistentHarness.Canonical
