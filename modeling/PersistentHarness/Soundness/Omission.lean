import PersistentHarness.Soundness.Evidence

/-! # An omitted call never ran

What is left out of a view is exactly a set of tool calls of failed responses. Each of them has
positive evidence on its own branch entry, and nothing on the branch contradicts that evidence.
-/

namespace PersistentHarness.Canonical

variable {sha256 : JsString → JsString} {selected : List Value} {canonical : MessageIndex} {facts : AliasFacts}

/-- The identifiers among the components of an id. -/
def idParts (id : JsString) : List JsString :=
  (JsString.split id separator).filter fun part => identifier (.str part)

/-- Two ids are the same or have a component in common. -/
def sharesId (a b : JsString) : Prop := a = b ∨ ∃ part ∈ idParts a, part ∈ idParts b

/-- A report row about a component of an id. -/
def mentions (row : Value) (id : JsString) : Prop :=
  ∃ part ∈ idParts id, row.get (js "callId") = .str part ∨ row.get (js "itemId") = .str part

/-- The positive evidence that a call of an entry never started. -/
inductive Evidence (sha256 : JsString → JsString) (selected : List Value) (issuer : Value) (id : JsString) : Prop
  | witness (witnessed : Witnessed sha256 selected issuer id)
  | ordinary (failed : ordinaryFailedTerminal (messageOf issuer) = .ok true)
  | incomplete (row : Value)
      (reported : row ∈ (((messageOf issuer).get (js "nativeTransport")).get (js "observedCalls")).items)
      (tuple : rowTuple row = id) (unfinished : incompleteRow row)

/-- A call that the whole branch agrees never started. -/
structure Unadmitted (sha256 : JsString → JsString) (selected : List Value) (call : Value) : Prop where
  isCall : isToolCall call
  notAsync : call.get (js "async") ≠ .bool true
  noProvenance : call.hasOwn (js "nativeProvenance") = false
  unanswered : ∀ entry ∈ messagesOf selected "toolResult", ¬sharesId (resultId (messageOf entry)) (callId call)
  unobserved : ∀ entry ∈ selected, ∀ row ∈ observedRows entry, mentions row (callId call) →
    incompleteTuple row = some (callId call)
  /-- The one call of the branch with this id or a component of it, and the evidence of its message. -/
  evidence : ∃ issuer ∈ messagesOf selected "assistant", ∃ i : ℕ,
    (∃ block, (contentOf (messageOf issuer))[i]? = some block ∧ isToolCall block ∧ callId block = callId call)
      ∧ (∀ entry ∈ messagesOf selected "assistant", ∀ (j : ℕ) other, (contentOf (messageOf entry))[j]? = some other →
        isToolCall other → sharesId (callId other) (callId call) → entry.get (js "id") = issuer.get (js "id") ∧ j = i)
      ∧ Evidence sha256 selected issuer (callId call)

/-- The facts speak for every record, observation and witness of the branch. -/
structure Covers (sha256 : JsString → JsString) (selected : List Value) (canonical : MessageIndex)
    (facts : AliasFacts) : Prop where
  owners : ∀ pair ∈ aliasPairs canonical, pair.2 ∈ Multimap.values facts.aliases pair.1
  observed : ∀ pair ∈ observedPairs selected, pair.2 ∈ Multimap.values facts.observedAliases pair.1
  witnessed : ∀ id ∈ facts.nonAdmissions, ∃ target, Witnessed sha256 selected target id

theorem covers_of_omissionFacts (success : omissionFacts sha256 canonical selected = .ok facts) :
    Covers sha256 selected canonical facts := by
  simp only [omissionFacts, Checked.bind_eq_ok, Checked.pure_eq_ok] at success
  obtain ⟨nonAdmissions, owned, rfl⟩ := success
  refine ⟨?_, ?_, fun id member => exists_witnessed_of_mem_ownedNonAdmissions owned member⟩
  · exact fun pair member => Multimap.mem_values_addAll.mpr (.inr member)
  · exact fun pair member => Multimap.mem_values_addAll.mpr (.inr member)

/-! ## One omitted call -/

private theorem omitCall_eq_some {call : Value} {record : CallRecord}
    (omitted : omitCall canonical facts call = .ok (some record)) :
    (isToolCall call ∧ call.get (js "async") ≠ .bool true ∧ call.hasOwn (js "nativeProvenance") = false)
      ∧ Assoc.has canonical.results (callId call) = false
      ∧ Assoc.lookup canonical.calls (callId call) = some record
      ∧ (∃ parts, omissionCallAliases (callId call) (providerTuple call) (decide (callId call ∈ facts.nonAdmissions))
          = some parts ∧ ∀ part ∈ parts, ¬aliasConflict facts (callId call) part)
      ∧ (callId call ∈ facts.nonAdmissions ∨ ordinaryFailedTerminal record.message = .ok true
          ∨ callId call ∈ incompleteObservations (record.message.get (js "nativeTransport"))) := by
  unfold omitCall at omitted
  split at omitted
  · cases omitted
  next shape =>
  simp only [not_or, not_not, Bool.not_eq_true] at shape
  simp only [Checked.bind_eq_ok, Checked.require_eq_ok, exists_const] at omitted
  obtain ⟨_, omitted⟩ := omitted
  split at omitted
  · cases omitted
  next parts known =>
  split at omitted
  · cases omitted
  next agreed =>
  simp only [not_or, not_exists, not_and, Bool.not_eq_true] at agreed
  split at omitted
  · cases omitted
  next other found =>
  simp only [Checked.bind_eq_ok] at omitted
  obtain ⟨failed, evidence, omitted⟩ := omitted
  split at omitted
  · next proven =>
    cases omitted
    refine ⟨shape, agreed.2, found, ⟨parts, known, agreed.1⟩, ?_⟩
    rcases proven with ordinary | incomplete
    · rw [Bool.and_eq_true] at ordinary
      by_cases owned : callId call ∈ facts.nonAdmissions
      · exact .inl owned
      · rw [ordinaryEvidence, if_neg (by simpa using owned), ordinary.1] at evidence
        exact .inr (.inl evidence)
    · exact .inr (.inr incomplete)
  · cases omitted

private theorem split_of_providerTuple {call : Value} {parts : List JsString}
    (tuple : providerTuple call = some parts) : JsString.split (callId call) separator = parts := by
  unfold providerTuple at tuple
  split at tuple
  · next first second components =>
    split at tuple
    · cases tuple
      exact components
    · cases tuple
  · cases tuple

/-- The aliases that were checked include every part of the id. -/
private theorem idParts_subset {call : Value} {owned : Bool} {parts : List JsString}
    (known : omissionCallAliases (callId call) (providerTuple call) owned = some parts)
    {part : JsString} (member : part ∈ idParts (callId call)) : part ∈ parts := by
  obtain ⟨component, valid⟩ := List.mem_filter.mp member
  cases owned with
  | true =>
    simp only [omissionCallAliases, ↓reduceIte, Option.some.injEq] at known
    rw [← known, Multimap.mem_foldl_insertValue]
    exact .inr (List.mem_filter.mpr ⟨List.mem_cons_of_mem _ component, valid⟩)
  | false =>
    rw [← split_of_providerTuple known]
    exact component

private theorem mem_aliasValues {id part : JsString} {callPart itemPart : Value} (member : part ∈ idParts id) :
    part ∈ aliasValues id callPart itemPart := by
  obtain ⟨component, valid⟩ := List.mem_filter.mp member
  refine List.mem_map.mpr ⟨.str part, List.mem_filter.mpr ⟨?_, valid⟩, rfl⟩
  exact List.mem_append_left _ (List.mem_map_of_mem (List.mem_cons_of_mem _ component))

private theorem owner_of_call {id part : JsString} {record : CallRecord} (covers : Covers sha256 selected canonical facts)
    (indexed : (id, record) ∈ canonical.calls) (member : part ∈ idParts id) :
    ⟨true, record.entryId, id⟩ ∈ Multimap.values facts.aliases part := by
  refine covers.owners (part, ⟨true, record.entryId, id⟩) (List.mem_append_left _ ?_)
  exact List.mem_flatMap.mpr ⟨_, indexed, List.mem_map.mpr ⟨part, mem_aliasValues member, rfl⟩⟩

private theorem owner_of_result {id part : JsString} {record : ResultRecord}
    (covers : Covers sha256 selected canonical facts) (indexed : (id, record) ∈ canonical.results)
    (member : part ∈ idParts id) : ⟨false, record.entryId, id⟩ ∈ Multimap.values facts.aliases part := by
  refine covers.owners (part, ⟨false, record.entryId, id⟩) (List.mem_append_right _ ?_)
  exact List.mem_flatMap.mpr ⟨_, indexed, List.mem_map.mpr ⟨part, mem_aliasValues member, rfl⟩⟩

private theorem single_owner {id part : JsString} {a b : Owner} (agreed : ¬aliasConflict facts id part)
    (first : a ∈ Multimap.values facts.aliases part) (second : b ∈ Multimap.values facts.aliases part) : a = b := by
  refine Multimap.eq_of_values_length_one ?_ first second
  by_contra several
  exact agreed (.inl several)

/-- An observation of an undisputed part names the call. -/
private theorem observed_tuple {id part : JsString} {tuple : Option JsString} (agreed : ¬aliasConflict facts id part)
    (observed : tuple ∈ Multimap.values facts.observedAliases part) : tuple = some id := by
  simp only [aliasConflict, not_or, not_and, not_not] at agreed
  have present := agreed.2 (Multimap.has_of_mem_values observed)
  exact Multimap.eq_of_values_length_one present.1 observed present.2

private theorem mem_observedPairs {entry row : Value} {part : JsString} (present : entry ∈ selected)
    (reported : row ∈ observedRows entry) (valid : identifier (.str part))
    (named : row.get (js "callId") = .str part ∨ row.get (js "itemId") = .str part) :
    (part, incompleteTuple row) ∈ observedPairs selected := by
  refine List.mem_flatMap.mpr ⟨entry, present, List.mem_flatMap.mpr ⟨row, reported, ?_⟩⟩
  refine List.mem_map.mpr ⟨.str part, List.mem_filter.mpr ⟨?_, decide_eq_true valid⟩, rfl⟩
  rcases named with same | same <;> simp [same]

section Branch

variable (indexed : indexMessages (branchRecords selected) = .ok canonical)

include indexed

private theorem canonical_eq : canonical = ⟨allCalls 0 (branchRecords selected), allResults 0 (branchRecords selected)⟩ :=
  (indexMessages_eq_ok.mp indexed).2.2

private theorem callIds_nodup : (Assoc.keys canonical.calls).Nodup := by
  rw [canonical_eq indexed]
  exact (indexMessages_eq_ok.mp indexed).2.1.callIds

private theorem exists_issuer {id : JsString} {record : CallRecord}
    (found : Assoc.lookup canonical.calls id = some record) :
    ∃ issuer ∈ messagesOf selected "assistant", record.message = messageOf issuer
      ∧ record.entryId = issuer.get (js "id")
      ∧ (contentOf (messageOf issuer))[record.contentIndex]? = some record.call
      ∧ isToolCall record.call ∧ callId record.call = id := by
  have member := Assoc.mem_of_lookup found
  rw [canonical_eq indexed] at member
  obtain ⟨source, present, order, _, assistant, isCall, same, at_index, shape⟩ := mem_allCalls.mp member
  obtain ⟨entry, selectedEntry, isMessage, rfl⟩ := mem_branchRecords.mp present
  rw [shape]
  exact ⟨entry, mem_messagesOf.mpr ⟨selectedEntry, isMessage, assistant⟩, rfl, rfl, at_index, isCall, same.symm⟩

private theorem exists_record {entry block : Value} {i : ℕ} (issuer : entry ∈ messagesOf selected "assistant")
    (present : (contentOf (messageOf entry))[i]? = some block) (isCall : isToolCall block) :
    ∃ order, (callId block, ⟨block, messageOf entry, entry.get (js "id"), i, order⟩) ∈ canonical.calls := by
  rw [canonical_eq indexed]
  exact exists_mem_allCalls issuer present isCall

/-- An omitted call is one that the whole branch agrees never started. -/
theorem unadmitted_of_omitCall {call : Value} {record : CallRecord} (covers : Covers sha256 selected canonical facts)
    (omitted : omitCall canonical facts call = .ok (some record)) : Unadmitted sha256 selected call := by
  obtain ⟨⟨isCall, notAsync, noProvenance⟩, noResult, found, ⟨parts, known, agreed⟩, evidence⟩ := omitCall_eq_some omitted
  have unique := callIds_nodup indexed
  have undisputed : ∀ part ∈ idParts (callId call), ¬aliasConflict facts (callId call) part :=
    fun part member => agreed part (idParts_subset known member)
  have sameRecord : ∀ id other, (id, other) ∈ canonical.calls → sharesId id (callId call) → other = record := by
    intro id other member shared
    have sameId : id = callId call := by
      rcases shared with same | ⟨part, theirs, ours⟩
      · exact same
      · have mine := owner_of_call covers (Assoc.mem_of_lookup found) ours
        exact congrArg Owner.id (single_owner (undisputed part ours) (owner_of_call covers member theirs) mine)
    subst sameId
    exact Option.some.inj ((Assoc.lookup_of_mem unique member).symm.trans found)
  refine ⟨isCall, notAsync, noProvenance, ?_, ?_, ?_⟩
  · intro entry answer shared
    obtain ⟨order, member⟩ := exists_mem_allResults answer
    have member' : (resultId (messageOf entry), (⟨messageOf entry, entry.get (js "id"), order⟩ : ResultRecord))
        ∈ canonical.results := by
      rw [canonical_eq indexed]
      exact member
    rcases shared with same | ⟨part, theirs, ours⟩
    · rw [Assoc.has_eq_false, Assoc.lookup_eq_none_iff] at noResult
      exact noResult (List.mem_map.mpr ⟨_, member', same⟩)
    · have mine := owner_of_call covers (Assoc.mem_of_lookup found) ours
      have kinds := single_owner (undisputed part ours) (owner_of_result covers member' theirs) mine
      exact absurd (congrArg Owner.isCall kinds) Bool.false_ne_true
  · rintro entry present row reported ⟨part, member, named⟩
    have valid := of_decide_eq_true (List.mem_filter.mp member).2
    exact observed_tuple (undisputed part member)
      (covers.observed _ (mem_observedPairs present reported valid named))
  · obtain ⟨issuer, issued, message, entryId, at_index, recordCall, recordId⟩ := exists_issuer indexed found
    have unshared : ∀ entry ∈ messagesOf selected "assistant", ∀ (j : ℕ) other,
        (contentOf (messageOf entry))[j]? = some other → isToolCall other → sharesId (callId other) (callId call) →
        entry.get (js "id") = record.entryId ∧ j = record.contentIndex := by
      intro entry source j other present otherCall shared
      obtain ⟨order, member⟩ := exists_record indexed source present otherCall
      rw [← sameRecord _ _ member shared]
      exact ⟨rfl, rfl⟩
    rcases evidence with owned | ordinary | incomplete
    · obtain ⟨target, witnessed⟩ := covers.witnessed _ owned
      obtain ⟨block, inContent, blockCall, sameId⟩ := witnessed.named
      obtain ⟨i, bound, rfl⟩ := List.getElem_of_mem inContent
      have present := List.getElem?_eq_getElem bound
      have place := unshared target witnessed.issuer i _ present blockCall (.inl sameId)
      refine ⟨target, witnessed.issuer, record.contentIndex, ⟨_, place.2 ▸ present, blockCall, sameId⟩, ?_,
        .witness witnessed⟩
      rw [place.1]
      exact unshared
    · refine ⟨issuer, issued, record.contentIndex, ⟨_, at_index, recordCall, recordId⟩, entryId ▸ unshared, ?_⟩
      exact .ordinary (message ▸ ordinary)
    · refine ⟨issuer, issued, record.contentIndex, ⟨_, at_index, recordCall, recordId⟩, entryId ▸ unshared, ?_⟩
      obtain ⟨row, reported, tuple, unfinished⟩ := exists_row_of_mem_incompleteObservations incomplete
      exact .incomplete row (message ▸ reported) tuple unfinished

end Branch

/-! ## The whole view -/

/-- One message of the view after the omission: unchanged, or a failed response without some calls
that never started. -/
inductive Omits (sha256 : JsString → JsString) (selected : List Value) (message : Value) : Value → Prop
  | unchanged : Omits sha256 selected message message
  | without (drop : Value → Bool) (failed : failedAssistant message)
      (unadmitted : ∀ block ∈ contentOf message, drop block = true → Unadmitted sha256 selected block) :
      Omits sha256 selected message
        (message.set (js "content") (.arr ((contentOf message).filter fun block => !drop block)))

private def dropped (canonical : MessageIndex) (facts : AliasFacts) (block : Value) : Bool :=
  match omitCall canonical facts block with
  | .ok (some _) => true
  | _ => false

private theorem omitBlocks_kept {blocks kept : List Value} {records : List CallRecord}
    (success : omitBlocks canonical facts blocks = .ok (kept, records)) :
    kept = blocks.filter fun block => !dropped canonical facts block := by
  induction blocks generalizing kept records with
  | nil =>
    cases success
    rfl
  | cons block rest ih =>
    simp only [omitBlocks, Checked.bind_eq_ok, Prod.exists] at success
    obtain ⟨omitted, decided, restKept, restRecords, tail, joined⟩ := success
    have later := ih tail
    cases omitted with
    | none =>
      simp only [Checked.pure_eq_ok, Prod.mk.injEq] at joined
      rw [← joined.1, later, List.filter_cons_of_pos]
      simp only [dropped, decided, Bool.not_false]
    | some record =>
      simp only [Checked.pure_eq_ok, Prod.mk.injEq] at joined
      rw [← joined.1, later, List.filter_cons_of_neg]
      simp only [dropped, decided, Bool.not_true, Bool.false_eq_true, not_false_eq_true]

private theorem omits_of_omitMessage {message next : Value} {records : List CallRecord}
    (indexed : indexMessages (branchRecords selected) = .ok canonical) (covers : Covers sha256 selected canonical facts)
    (success : omitMessage canonical facts message = .ok (next, records)) : Omits sha256 selected message next := by
  unfold omitMessage at success
  split at success
  · next failed =>
    simp only [Checked.bind_eq_ok, Checked.pure_eq_ok, Prod.exists, Prod.mk.injEq] at success
    obtain ⟨_, _, kept, _, blocks, rfl, _⟩ := success
    rw [omitBlocks_kept blocks]
    refine .without _ failed fun block _ isDropped => ?_
    unfold dropped at isDropped
    split at isDropped
    · next record omitted => exact unadmitted_of_omitCall indexed covers omitted
    · cases isDropped
  · cases success
    exact .unchanged

/-- An omission removes only calls of failed responses that the whole branch agrees never started,
and keeps every other block and message in its place. -/
theorem omitUnadmittedCalls_sound {messages kept : List Value} {diagnostics : List Diagnostic}
    (indexed : indexMessages (branchRecords selected) = .ok canonical)
    (success : omitUnadmittedCalls sha256 messages canonical selected none = .ok (kept, diagnostics)) :
    List.Forall₂ (Omits sha256 selected) messages kept := by
  simp only [omitUnadmittedCalls, Checked.bind_eq_ok] at success
  obtain ⟨facts, computed, success⟩ := success
  have covers := covers_of_omissionFacts computed
  clear computed
  induction messages generalizing kept diagnostics with
  | nil =>
    cases success
    exact .nil
  | cons message rest ih =>
    simp only [omitMessages, Checked.bind_eq_ok, Checked.pure_eq_ok, Prod.exists, Prod.mk.injEq] at success
    obtain ⟨next, _, head, restKept, _, tail, rfl, _⟩ := success
    exact .cons (omits_of_omitMessage indexed covers head) (ih tail)

/-- A call of an ordinary stream that broke, and the entry that holds it. -/
def brokenCall : Value := .record [("type", .text "toolCall"), ("id", .text "call|item"), ("name", .text "bash"),
  ("arguments", .record [])]

def brokenStream : Value := .record [("type", .text "message"), ("id", .text "e1"), ("parentId", .null),
  ("message", .record [("role", .text "assistant"), ("api", .text "openai-codex-responses"),
    ("provider", .text "openai-codex"), ("stopReason", .text "error"), ("content", .arr [brokenCall]),
    ("diagnostics", .arr [.record [("type", .text "provider_transport_failure"),
      ("details", .record [("eventsEmitted", .bool true), ("phase", .text "after_message_stream_start"),
        ("configuredTransport", .text "websocket")])]])])]

/-- The pass does omit the call of a broken stream. -/
theorem omitUnadmittedCalls_sound_brokenStream :
    List.Forall₂ (Omits (fun text => text) [brokenStream]) [messageOf brokenStream]
      [(messageOf brokenStream).set (js "content") (.arr [])] := by
  have indexed : indexMessages (branchRecords [brokenStream]) =
      .ok ⟨[(js "call|item", ⟨brokenCall, messageOf brokenStream, .text "e1", 0, 0⟩)], []⟩ := by decide +kernel
  have success : omitUnadmittedCalls (fun text => text) [messageOf brokenStream]
      ⟨[(js "call|item", ⟨brokenCall, messageOf brokenStream, .text "e1", 0, 0⟩)], []⟩ [brokenStream] none =
        .ok ([(messageOf brokenStream).set (js "content") (.arr [])],
          [.UNADMITTED_CALL_OMITTED ⟨.text "call|item", .text "bash", .text "e1", 0, true⟩]) := by decide +kernel
  exact omitUnadmittedCalls_sound indexed success

end PersistentHarness.Canonical
