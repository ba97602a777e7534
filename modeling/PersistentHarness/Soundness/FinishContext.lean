import Mathlib.Data.List.Perm.Basic
import Mathlib.Data.List.Nodup
import PersistentHarness.Model.Canonical.Omission

/-! # The order of an ordinary view

A validated view names every call and every result once. Moving the results of async calls is then a permutation, and
what is still pending when the next replayed message comes is what no result has answered before it.
-/

namespace PersistentHarness.Canonical

section Views

/-- The ids of the calls of a message, in content order. -/
def callIds (message : Value) : List JsString :=
  if hasRole message "assistant" then ((contentOf message).filter fun call => isToolCall call).map callId else []

/-- A message of a view that answers the call with the given id. -/
def resultOf (messages : List Value) (id : JsString) : Option Value :=
  messages.find? fun message => hasRole message "toolResult" ∧ resultId message = id

def asyncAnswer (messages : List Value) (call : Value) : Option Value :=
  if isToolCall call ∧ call.get (js "async") = .bool true then resultOf messages (callId call) else none

/-- The retained results of the async calls of a message, in the order of the calls. -/
def asyncAnswers (messages : List Value) (message : Value) : List Value :=
  if hasRole message "assistant" then (contentOf message).filterMap (asyncAnswer messages) else []

def IsAnswer (messages : List Value) (result : Value) : Prop := ∃ message ∈ messages, result ∈ asyncAnswers messages message

instance (messages : List Value) (result : Value) : Decidable (IsAnswer messages result) :=
  inferInstanceAs (Decidable (∃ message ∈ messages, _))

/-- No call and no result of a view is there twice. -/
structure Unique (messages : List Value) : Prop where
  calls : (messages.flatMap callIds).Nodup
  results : ((messages.filter fun message => hasRole message "toolResult").map resultId).Nodup

/-- The records of a view that is indexed again. -/
def viewRecords (messages : List Value) : List MessageRecord := messages.map fun message => ⟨message, .undefined⟩

theorem allCalls_cons (message : Value) (rest : List Value) (start : ℕ) :
    allCalls start (viewRecords (message :: rest)) =
      callsOf ⟨message, .undefined⟩ start ++ allCalls (start + 1) (viewRecords rest) := by
  rw [viewRecords, List.map_cons, allCalls, List.zipIdx_cons, List.flatMap_cons]
  rfl

theorem allResults_cons (message : Value) (rest : List Value) (start : ℕ) :
    allResults start (viewRecords (message :: rest)) =
      resultsOf ⟨message, .undefined⟩ start ++ allResults (start + 1) (viewRecords rest) := by
  rw [viewRecords, List.map_cons, allResults, List.zipIdx_cons, List.flatMap_cons]
  rfl

theorem map_filter_zipIdx (blocks : List Value) (start : ℕ) :
    ((blocks.zipIdx start).filter fun item => isToolCall item.1).map (fun item => callId item.1) =
      (blocks.filter fun call => isToolCall call).map callId := by
  induction blocks generalizing start with
  | nil => rfl
  | cons block rest ih =>
    rw [List.zipIdx_cons, List.filter_cons, List.filter_cons]
    split
    · rw [List.map_cons, List.map_cons, ih]
    · exact ih (start + 1)

theorem keys_callsOf (message : Value) (order : ℕ) : Assoc.keys (callsOf ⟨message, .undefined⟩ order) = callIds message := by
  unfold callsOf callIds
  split
  · rw [Assoc.keys, List.map_map]
    exact map_filter_zipIdx (contentOf message) 0
  · rfl

theorem keys_viewCalls (messages : List Value) (start : ℕ) :
    Assoc.keys (allCalls start (viewRecords messages)) = messages.flatMap callIds := by
  induction messages generalizing start with
  | nil => rfl
  | cons message rest ih =>
    rw [allCalls_cons, Assoc.keys, List.map_append, List.flatMap_cons, ← ih (start + 1), ← keys_callsOf message start]
    rfl

theorem keys_viewResults (messages : List Value) (start : ℕ) :
    Assoc.keys (allResults start (viewRecords messages)) =
      (messages.filter fun message => hasRole message "toolResult").map resultId := by
  induction messages generalizing start with
  | nil => rfl
  | cons message rest ih =>
    rw [allResults_cons, Assoc.keys, List.map_append, List.filter_cons, resultsOf]
    have later := ih (start + 1)
    rw [Assoc.keys] at later
    split
    · next result => rw [if_pos (decide_eq_true result), List.map_cons, later]; rfl
    · next other => rw [if_neg (by simpa using other), later]; rfl

theorem unique_of_index {messages : List Value} {retained : MessageIndex}
    (indexed : indexMessages (viewRecords messages) = .ok retained) : Unique messages := by
  obtain ⟨-, consistent, -⟩ := indexMessages_eq_ok.mp indexed
  constructor
  · rw [← keys_viewCalls messages 0]
    exact consistent.callIds
  · rw [← keys_viewResults messages 0]
    exact consistent.resultIds

/-- The index finds the result of a call where the view has it. -/
theorem lookup_viewResults (messages : List Value) (start : ℕ) (id : JsString) :
    (Assoc.lookup (allResults start (viewRecords messages)) id).map ResultRecord.message = resultOf messages id := by
  induction messages generalizing start with
  | nil => rfl
  | cons message rest ih =>
    rw [allResults_cons, resultsOf, resultOf, List.find?_cons, Assoc.lookup_append]
    split
    · next result =>
      rw [Assoc.lookup_cons]
      by_cases same : resultId message = id
      · rw [if_pos same, decide_eq_true ⟨result, same⟩]
        rfl
      · rw [if_neg same, decide_eq_false (fun both => same both.2), Assoc.lookup_nil, Option.none_or]
        exact ih (start + 1)
    · next other =>
      rw [decide_eq_false (fun both => other both.1), Assoc.lookup_nil, Option.none_or]
      exact ih (start + 1)

theorem mem_viewCalls {messages : List Value} {start : ℕ} {id : JsString} {record : CallRecord}
    (member : (id, record) ∈ allCalls start (viewRecords messages)) :
    ∃ message ∈ messages, hasRole message "assistant" ∧ record.call ∈ contentOf message ∧ isToolCall record.call
      ∧ callId record.call = id := by
  induction messages generalizing start with
  | nil => cases member
  | cons message rest ih =>
    rw [allCalls_cons] at member
    rcases List.mem_append.mp member with here | later
    · unfold callsOf at here
      split at here
      · next assistant =>
        obtain ⟨item, listed, same⟩ := List.mem_map.mp here
        obtain ⟨inside, call⟩ := List.mem_filter.mp listed
        cases same
        exact ⟨message, List.mem_cons_self .., assistant, List.fst_mem_of_mem_zipIdx inside, of_decide_eq_true call, rfl⟩
      · cases here
    · obtain ⟨other, listed, issued⟩ := ih later
      exact ⟨other, List.mem_cons_of_mem _ listed, issued⟩

theorem exists_viewCall {messages : List Value} {message call : Value} (listed : message ∈ messages)
    (assistant : hasRole message "assistant") (inside : call ∈ contentOf message) (isCall : isToolCall call) (start : ℕ) :
    ∃ record, (callId call, record) ∈ allCalls start (viewRecords messages) ∧ record.call = call := by
  induction messages generalizing start with
  | nil => cases listed
  | cons other rest ih =>
    rw [allCalls_cons]
    rcases List.mem_cons.mp listed with rfl | later
    · obtain ⟨i, bound, rfl⟩ := List.getElem_of_mem inside
      have indexed : ((contentOf message)[i], i) ∈ (contentOf message).zipIdx :=
        List.mem_zipIdx_iff_getElem?.mpr (List.getElem?_eq_getElem bound)
      have member : callBinding ⟨message, .undefined⟩ start ((contentOf message)[i], i) ∈ callsOf ⟨message, .undefined⟩ start := by
        unfold callsOf
        rw [if_pos assistant]
        exact List.mem_map.mpr ⟨_, List.mem_filter.mpr ⟨indexed, decide_eq_true isCall⟩, rfl⟩
      exact ⟨_, List.mem_append_left _ member, rfl⟩
    · obtain ⟨record, member, same⟩ := ih later (start + 1)
      exact ⟨record, List.mem_append_right _ member, same⟩

end Views

section Answers

variable {messages : List Value}

theorem resultOf_some {id : JsString} {result : Value} (found : resultOf messages id = some result) :
    result ∈ messages ∧ hasRole result "toolResult" ∧ resultId result = id := by
  unfold resultOf at found
  have holds := List.find?_some found
  rw [decide_eq_true_eq] at holds
  exact ⟨List.mem_of_find?_eq_some found, holds⟩

theorem Unique.resultOf (unique : Unique messages) {result : Value} (listed : result ∈ messages)
    (role : hasRole result "toolResult") : resultOf messages (resultId result) = some result := by
  cases found : Canonical.resultOf messages (resultId result) with
  | none =>
    have absent := List.find?_eq_none.mp found result listed
    rw [decide_eq_true ⟨role, rfl⟩] at absent
    exact absurd rfl absent
  | some other =>
    obtain ⟨listedToo, roleToo, same⟩ := resultOf_some found
    have results : ∀ m ∈ messages, hasRole m "toolResult" → m ∈ messages.filter fun m => hasRole m "toolResult" :=
      fun m listed role => List.mem_filter.mpr ⟨listed, decide_eq_true role⟩
    rw [List.inj_on_of_nodup_map unique.results (results other listedToo roleToo) (results result listed role) same]

theorem asyncAnswer_some {call result : Value} (found : asyncAnswer messages call = some result) :
    isToolCall call ∧ call.get (js "async") = .bool true ∧ resultOf messages (callId call) = some result := by
  unfold asyncAnswer at found
  split at found
  · next async => exact ⟨async.1, async.2, found⟩
  · cases found

theorem mem_asyncAnswers {message result : Value} (member : result ∈ asyncAnswers messages message) :
    hasRole message "assistant" ∧ ∃ call ∈ contentOf message, asyncAnswer messages call = some result := by
  unfold asyncAnswers at member
  split at member
  · next assistant => exact ⟨assistant, List.mem_filterMap.mp member⟩
  · cases member

theorem IsAnswer.result {result : Value} (answer : IsAnswer messages result) : result ∈ messages ∧ hasRole result "toolResult" := by
  obtain ⟨message, -, member⟩ := answer
  obtain ⟨-, call, -, found⟩ := mem_asyncAnswers member
  obtain ⟨listed, role, -⟩ := resultOf_some (asyncAnswer_some found).2.2
  exact ⟨listed, role⟩

theorem asyncAnswers_result {message : Value} (role : hasRole message "toolResult") : asyncAnswers messages message = [] := by
  unfold asyncAnswers
  rw [if_neg]
  intro assistant
  rw [hasRole, isWord, role] at assistant
  revert assistant
  decide

end Answers

section Moves

variable {messages : List Value} {retained : MessageIndex} (indexed : indexMessages (viewRecords messages) = .ok retained)

include indexed

theorem lookup_results (id : JsString) :
    (Assoc.lookup retained.results id).map ResultRecord.message = resultOf messages id := by
  obtain ⟨-, -, rfl⟩ := indexMessages_eq_ok.mp indexed
  exact lookup_viewResults messages 0 id

theorem has_results (id : JsString) : Assoc.has retained.results id = (resultOf messages id).isSome := by
  rw [Assoc.has, ← lookup_results indexed, Option.isSome_map]

theorem mem_movable {id : JsString} : id ∈ movable retained ↔ ∃ record, (id, record) ∈ retained.calls
    ∧ record.call.get (js "async") = .bool true ∧ (resultOf messages id).isSome = true := by
  unfold movable
  rw [List.mem_map]
  constructor
  · rintro ⟨⟨id, record⟩, member, rfl⟩
    obtain ⟨listed, both⟩ := List.mem_filter.mp member
    obtain ⟨async, answered⟩ := Bool.and_eq_true_iff.mp both
    rw [has_results indexed] at answered
    exact ⟨record, listed, of_decide_eq_true async, answered⟩
  · rintro ⟨record, listed, async, answered⟩
    refine ⟨(id, record), List.mem_filter.mpr ⟨listed, ?_⟩, rfl⟩
    dsimp only
    rw [has_results indexed, answered, async]
    rfl

theorem callId_mem_movable {message call : Value} (listed : message ∈ messages) (assistant : hasRole message "assistant")
    (inside : call ∈ contentOf message) (isCall : isToolCall call) :
    callId call ∈ movable retained ↔
      call.get (js "async") = .bool true ∧ (resultOf messages (callId call)).isSome = true := by
  rw [mem_movable indexed]
  obtain ⟨-, consistent, rfl⟩ := indexMessages_eq_ok.mp indexed
  obtain ⟨record, member, same⟩ := exists_viewCall listed assistant inside isCall 0
  constructor
  · rintro ⟨other, memberToo, async, answered⟩
    have found := Assoc.lookup_of_mem consistent.callIds member
    rw [Assoc.lookup_of_mem consistent.callIds memberToo] at found
    cases found
    rw [same] at async
    exact ⟨async, answered⟩
  · rintro ⟨async, answered⟩
    rw [← same] at async
    exact ⟨record, member, async, answered⟩

theorem projectedResults_eq {message : Value} (listed : message ∈ messages) :
    projectedResults retained message = asyncAnswers messages message := by
  unfold projectedResults asyncAnswers
  split
  · next assistant =>
    apply List.filterMap_congr
    intro call inside
    unfold asyncAnswer
    by_cases isCall : isToolCall call
    · have moves := callId_mem_movable indexed listed assistant inside isCall
      rw [lookup_results indexed]
      by_cases async : call.get (js "async") = .bool true
      · rw [if_pos (c := isToolCall call ∧ _) ⟨isCall, async⟩]
        split
        · rfl
        · next still =>
          cases found : resultOf messages (callId call) with
          | none => rfl
          | some result => exact absurd ⟨isCall, moves.mpr ⟨async, by rw [found]; rfl⟩⟩ still
      · rw [if_neg (mt And.right (mt moves.mp (mt And.left async))), if_neg (mt And.right async)]
    · rw [if_neg (mt And.left isCall), if_neg (mt And.left isCall)]
  · rfl

/-- The results that are left out at their place are the answers of async calls. -/
theorem moved_iff {message : Value} (listed : message ∈ messages) :
    (hasRole message "toolResult" ∧ resultId message ∈ movable retained) ↔ IsAnswer messages message := by
  have unique := unique_of_index indexed
  constructor
  · rintro ⟨role, moved⟩
    obtain ⟨record, member, async, -⟩ := (mem_movable indexed).mp moved
    obtain ⟨-, -, rfl⟩ := indexMessages_eq_ok.mp indexed
    obtain ⟨issuer, inside, assistant, call, isCall, same⟩ := mem_viewCalls member
    refine ⟨issuer, inside, ?_⟩
    unfold asyncAnswers
    rw [if_pos assistant]
    refine List.mem_filterMap.mpr ⟨record.call, call, ?_⟩
    rw [asyncAnswer, if_pos ⟨isCall, async⟩, same]
    exact unique.resultOf listed role
  · intro answer
    obtain ⟨issuer, inside, member⟩ := answer
    obtain ⟨assistant, call, block, found⟩ := mem_asyncAnswers member
    obtain ⟨isCall, async, result⟩ := asyncAnswer_some found
    obtain ⟨-, role, same⟩ := resultOf_some result
    rw [same]
    exact ⟨role, (callId_mem_movable indexed inside assistant block isCall).mpr ⟨async, by rw [result]; rfl⟩⟩

/-- The projected view: what is no answer stays in order, each message with the answers of its own calls behind it. -/
theorem moveResults_eq : moveResults retained messages =
    (messages.filter fun message => ¬IsAnswer messages message).flatMap fun message => message :: asyncAnswers messages message := by
  have parts : ∀ part : List Value, (∀ message ∈ part, message ∈ messages) → moveResults retained part =
      (part.filter fun message => ¬IsAnswer messages message).flatMap fun message => message :: asyncAnswers messages message := by
    intro part within
    induction part with
    | nil => rfl
    | cons message rest ih =>
      have listed := within message (List.mem_cons_self ..)
      have later := ih fun other member => within other (List.mem_cons_of_mem _ member)
      rw [moveResults] at later ⊢
      rw [List.flatMap_cons, later, List.filter_cons]
      by_cases answer : IsAnswer messages message
      · rw [if_pos ((moved_iff indexed listed).mpr answer), if_neg (by simpa using answer), List.nil_append]
      · rw [if_neg (mt (moved_iff indexed listed).mp answer), if_pos (decide_eq_true answer), List.flatMap_cons,
          projectedResults_eq indexed listed]
  exact parts messages fun _ listed => listed

end Moves

section Order

variable {messages : List Value}

theorem asyncAnswers_ids (message : Value) : ((asyncAnswers messages message).map resultId).Sublist (callIds message) := by
  unfold asyncAnswers callIds
  split
  · induction contentOf message with
    | nil => exact .slnil
    | cons call rest ih =>
      rw [List.filterMap_cons, List.filter_cons]
      cases found : asyncAnswer messages call with
      | none =>
        dsimp only
        split
        · exact ih.cons _
        · exact ih
      | some result =>
        obtain ⟨isCall, -, answer⟩ := asyncAnswer_some found
        obtain ⟨-, -, same⟩ := resultOf_some answer
        rw [if_pos (decide_eq_true isCall), List.map_cons, List.map_cons, same]
        exact ih.cons_cons _
  · exact .slnil

theorem answers_ids (part : List Value) :
    ((part.flatMap (asyncAnswers messages)).map resultId).Sublist (part.flatMap callIds) := by
  induction part with
  | nil => exact .slnil
  | cons message rest ih =>
    rw [List.flatMap_cons, List.flatMap_cons, List.map_append]
    exact (asyncAnswers_ids message).append ih

theorem Unique.answers_nodup (unique : Unique messages) : (messages.flatMap (asyncAnswers messages)).Nodup :=
  (unique.calls.sublist (answers_ids messages)).of_map

theorem Unique.results_nodup (unique : Unique messages) :
    (messages.filter fun message => hasRole message "toolResult").Nodup :=
  unique.results.of_map

theorem mem_answers {result : Value} : result ∈ messages.flatMap (asyncAnswers messages) ↔ IsAnswer messages result :=
  List.mem_flatMap

/-- The answers at their places are the answers behind their calls. -/
theorem Unique.answers_perm (unique : Unique messages) :
    (messages.flatMap (asyncAnswers messages)).Perm (messages.filter fun message => IsAnswer messages message) := by
  have within : (messages.filter fun message => IsAnswer messages message).Sublist
      (messages.filter fun message => hasRole message "toolResult") := by
    apply List.monotone_filter_right
    intro message answer
    exact decide_eq_true (of_decide_eq_true answer : IsAnswer messages message).result.2
  apply (List.perm_ext_iff_of_nodup unique.answers_nodup (unique.results_nodup.sublist within)).mpr
  intro result
  rw [mem_answers, List.mem_filter, decide_eq_true_eq]
  exact ⟨fun answer => ⟨answer.result.1, answer⟩, And.right⟩

theorem flatMap_cons_perm {α : Type*} (f : α → List α) (items : List α) :
    (items.flatMap fun item => item :: f item).Perm (items ++ items.flatMap f) := by
  induction items with
  | nil => exact .refl _
  | cons item rest ih =>
    rw [List.flatMap_cons, List.flatMap_cons, List.cons_append, List.cons_append]
    apply List.Perm.cons
    apply (ih.append_left (f item)).trans
    rw [← List.append_assoc, ← List.append_assoc]
    exact List.perm_append_comm.append_right _

theorem answers_of_rest : (messages.filter fun message => ¬IsAnswer messages message).flatMap (asyncAnswers messages) =
    messages.flatMap (asyncAnswers messages) := by
  have parts : ∀ part : List Value, (part.filter fun message => ¬IsAnswer messages message).flatMap (asyncAnswers messages) =
      part.flatMap (asyncAnswers messages) := by
    intro part
    induction part with
    | nil => rfl
    | cons message rest ih =>
      rw [List.filter_cons, List.flatMap_cons]
      by_cases answer : IsAnswer messages message
      · rw [if_neg (by simpa using answer), asyncAnswers_result answer.result.2, List.nil_append, ih]
      · rw [if_pos (decide_eq_true answer), List.flatMap_cons, ih]
  exact parts messages

/-- How an ordinary view lists the messages of a validated one. -/
structure OrdinaryOrder (messages projected : List Value) : Prop where
  permutation : projected.Perm messages
  once : ∀ message ∈ messages, ∀ result ∈ asyncAnswers messages message, projected.count result = 1
  placed : ∀ message ∈ messages, ¬IsAnswer messages message →
    ∃ before after, projected = before ++ message :: (asyncAnswers messages message ++ after)
  kept : (projected.filter fun message => ¬IsAnswer messages message) = messages.filter fun message => ¬IsAnswer messages message

/-- The projected list of a view. -/
def ordinaryMessages (messages : List Value) : List Value :=
  (messages.filter fun message => ¬IsAnswer messages message).flatMap fun message => message :: asyncAnswers messages message

theorem Unique.count (unique : Unique messages) {result : Value} (answer : IsAnswer messages result) :
    messages.count result = 1 := by
  obtain ⟨listed, role⟩ := answer.result
  rw [← List.count_filter (p := fun message => hasRole message "toolResult") (decide_eq_true role)]
  exact List.count_eq_one_of_mem unique.results_nodup (List.mem_filter.mpr ⟨listed, decide_eq_true role⟩)

theorem Unique.permutation (unique : Unique messages) : (ordinaryMessages messages).Perm messages := by
  apply (flatMap_cons_perm _ _).trans
  rw [answers_of_rest]
  apply (unique.answers_perm.append_left _).trans
  apply List.perm_append_comm.trans
  have halves := List.filter_append_perm (fun message => decide (IsAnswer messages message)) messages
  simpa only [decide_not] using halves

theorem ordinaryMessages_kept : (ordinaryMessages messages).filter (fun message => ¬IsAnswer messages message) =
    messages.filter fun message => ¬IsAnswer messages message := by
  have parts : ∀ part : List Value, (∀ message ∈ part, message ∈ messages ∧ ¬IsAnswer messages message) →
      (part.flatMap fun message => message :: asyncAnswers messages message).filter (fun message => ¬IsAnswer messages message) = part := by
    intro part within
    induction part with
    | nil => rfl
    | cons message rest ih =>
      have own := within message (List.mem_cons_self ..)
      have answers : (asyncAnswers messages message).filter (fun message => ¬IsAnswer messages message) = [] := by
        apply List.filter_eq_nil_iff.mpr
        intro result member
        simpa using ⟨message, own.1, member⟩
      rw [List.flatMap_cons, List.cons_append, List.filter_cons, if_pos (decide_eq_true own.2), List.filter_append, answers,
        List.nil_append, ih fun other member => within other (List.mem_cons_of_mem _ member)]
  apply parts
  intro message member
  obtain ⟨listed, rest⟩ := List.mem_filter.mp member
  exact ⟨listed, of_decide_eq_true rest⟩

theorem Unique.ordinaryOrder (unique : Unique messages) : OrdinaryOrder messages (ordinaryMessages messages) where
  permutation := unique.permutation
  once message listed result member := by
    rw [unique.permutation.count_eq]
    exact unique.count ⟨message, listed, member⟩
  placed message listed rest := by
    have member : message ∈ messages.filter fun message => ¬IsAnswer messages message :=
      List.mem_filter.mpr ⟨listed, decide_eq_true rest⟩
    obtain ⟨before, after, split⟩ := List.append_of_mem member
    let view (part : List Value) := part.flatMap fun message => message :: asyncAnswers messages message
    refine ⟨view before, view after, ?_⟩
    rw [ordinaryMessages, split, List.flatMap_append, List.flatMap_cons, List.cons_append]
  kept := ordinaryMessages_kept

end Order

section Replay

/-- The stock conversion passes the message on, and it is no result. -/
def Interrupts (message : Value) : Prop :=
  ¬(hasRole message "bashExecution" ∧ (message.get (js "excludeFromContext")).truthy = true)
    ∧ oneOf (message.get (js "role")) replayedRoles ∧ ¬hasRole message "toolResult"

instance (message : Value) : Decidable (Interrupts message) := inferInstanceAs (Decidable (_ ∧ _ ∧ _))

/-- A result for the call precedes the next replayed message that is none. -/
def Answered (after : List Value) (id : JsString) : Prop :=
  ∃ result ∈ after.takeWhile fun message => ¬Interrupts message, hasRole result "toolResult" ∧ resultId result = id

/-- A call of a response that did not fail and that nothing answers in time. -/
def Unanswered (messages : List Value) (toolCallId toolName : Value) : Prop :=
  ∃ before message after call, messages = before ++ message :: after ∧ hasRole message "assistant" ∧ ¬failedStop message
    ∧ call ∈ contentOf message ∧ isToolCall call ∧ call.get (js "id") = toolCallId ∧ call.get (js "name") = toolName
    ∧ ¬Answered after (callId call)

theorem answered_nil (id : JsString) : ¬Answered [] id := by
  rintro ⟨result, member, -⟩
  cases member

theorem not_answered_of_interrupts {message : Value} (interrupts : Interrupts message) (rest : List Value) (id : JsString) :
    ¬Answered (message :: rest) id := by
  rintro ⟨result, member, -⟩
  rw [List.takeWhile_cons_of_neg (by simpa using interrupts)] at member
  cases member

theorem answered_cons {message : Value} (passes : ¬Interrupts message) (rest : List Value) (id : JsString) :
    Answered (message :: rest) id ↔ (hasRole message "toolResult" ∧ resultId message = id) ∨ Answered rest id := by
  unfold Answered
  rw [List.takeWhile_cons_of_pos (by simpa using passes)]
  simp only [List.mem_cons, exists_eq_or_imp]

theorem unanswered_cons (message : Value) (rest : List Value) (toolCallId toolName : Value) :
    Unanswered (message :: rest) toolCallId toolName ↔
      (hasRole message "assistant" ∧ ¬failedStop message ∧ ∃ call ∈ contentOf message, isToolCall call
        ∧ call.get (js "id") = toolCallId ∧ call.get (js "name") = toolName ∧ ¬Answered rest (callId call))
      ∨ Unanswered rest toolCallId toolName := by
  constructor
  · rintro ⟨before, issuer, after, call, whole, assistant, success, inside, issued⟩
    cases before with
    | nil =>
      obtain ⟨rfl, rfl⟩ := List.cons.inj whole
      exact .inl ⟨assistant, success, call, inside, issued⟩
    | cons other before =>
      obtain ⟨rfl, later⟩ := List.cons.inj whole
      exact .inr ⟨before, issuer, after, call, later, assistant, success, inside, issued⟩
  · rintro (⟨assistant, success, call, inside, issued⟩ | ⟨before, issuer, after, call, rfl, issued⟩)
    · exact ⟨[], message, rest, call, rfl, assistant, success, inside, issued⟩
    · exact ⟨message :: before, issuer, after, call, rfl, issued⟩

theorem assistant_interrupts {message : Value} (assistant : hasRole message "assistant") : Interrupts message := by
  have role : message.get (js "role") = .str (js "assistant") := assistant
  unfold Interrupts hasRole isWord
  rw [role]
  refine ⟨?_, by decide, by decide⟩
  rintro ⟨bash, -⟩
  revert bash
  decide

theorem replayMessage_result {message : Value} (role : hasRole message "toolResult") (state : ReplayState) :
    replayMessage state message = { state with pending := Assoc.erase state.pending (resultId message) } := by
  have role_eq : message.get (js "role") = .str (js "toolResult") := role
  have replayed : oneOf (message.get (js "role")) replayedRoles := by
    rw [role_eq]
    decide
  have noBash : ¬hasRole message "bashExecution" := by
    unfold hasRole isWord
    rw [role_eq]
    decide
  unfold replayMessage
  rw [if_neg (mt And.left noBash), if_neg (not_not.mpr replayed), if_pos role]

theorem replayMessage_skip {message : Value} (passes : ¬Interrupts message) (other : ¬hasRole message "toolResult")
    (state : ReplayState) : replayMessage state message = state := by
  unfold replayMessage
  split
  · rfl
  · next included =>
    split
    · rfl
    · next replayed => exact absurd ⟨included, not_not.mp replayed, other⟩ passes

theorem replayMessage_interrupts {message : Value} (interrupts : Interrupts message) (state : ReplayState) :
    replayMessage state message =
      if hasRole message "assistant" then (contentOf message).foldl (replayCall message) (flushPending state)
      else flushPending state := by
  unfold replayMessage
  rw [if_neg interrupts.1, if_neg (not_not.mpr interrupts.2.1), if_neg interrupts.2.2]

theorem replayCalls {message : Value} (success : ¬failedStop message) (blocks : List Value) (state : ReplayState)
    (unique : (Assoc.keys state.pending ++ (blocks.filter fun call => isToolCall call).map callId).Nodup) :
    blocks.foldl (replayCall message) state =
      ⟨state.pending ++ (blocks.filter fun call => isToolCall call).map fun call => (callId call, call), state.diagnostics⟩ := by
  induction blocks generalizing state with
  | nil => rw [List.foldl_nil, List.filter_nil, List.map_nil, List.append_nil]
  | cons block rest ih =>
    rw [List.foldl_cons, List.filter_cons]
    rw [List.filter_cons] at unique
    by_cases isCall : isToolCall block
    · rw [if_pos (decide_eq_true isCall), List.map_cons] at unique ⊢
      have fresh : Assoc.lookup state.pending (callId block) = none := by
        rw [Assoc.lookup_eq_none_iff]
        intro bound
        exact List.disjoint_of_nodup_append unique bound (List.mem_cons_self ..)
      have pending : replayCall message state block = ⟨state.pending ++ [(callId block, block)], state.diagnostics⟩ := by
        rw [replayCall, if_pos isCall, if_neg success, Assoc.set_of_lookup_none fresh]
      rw [pending, ih]
      · rw [List.append_assoc, List.singleton_append]
      · rw [Assoc.keys, List.map_append, List.append_assoc]
        exact unique
    · rw [if_neg (by simpa using isCall)] at unique ⊢
      rw [replayCall, if_neg isCall]
      exact ih state unique

theorem replayCall_failed {message : Value} (failed : failedStop message) (block : Value) (state : ReplayState) :
    (replayCall message state block).pending = state.pending
      ∧ ∀ toolCallId toolName, .ORDINARY_REPLAY_BLOCKED toolCallId toolName ∈ (replayCall message state block).diagnostics
        ↔ .ORDINARY_REPLAY_BLOCKED toolCallId toolName ∈ state.diagnostics := by
  unfold replayCall
  rw [if_pos failed]
  split
  · refine ⟨rfl, fun toolCallId toolName => ?_⟩
    rw [List.mem_append]
    constructor
    · rintro (before | here)
      · exact before
      · cases List.mem_singleton.mp here
    · exact .inl
  · exact ⟨rfl, fun _ _ => .rfl⟩

/-- A response that failed leaves nothing pending and blocks nothing. -/
theorem replayCalls_failed {message : Value} (failed : failedStop message) (blocks : List Value) (state : ReplayState) :
    (blocks.foldl (replayCall message) state).pending = state.pending
      ∧ ∀ toolCallId toolName, .ORDINARY_REPLAY_BLOCKED toolCallId toolName ∈ (blocks.foldl (replayCall message) state).diagnostics
        ↔ .ORDINARY_REPLAY_BLOCKED toolCallId toolName ∈ state.diagnostics := by
  induction blocks generalizing state with
  | nil => exact ⟨rfl, fun _ _ => .rfl⟩
  | cons block rest ih =>
    obtain ⟨pending, diagnostics⟩ := ih (replayCall message state block)
    obtain ⟨here, own⟩ := replayCall_failed failed block state
    rw [List.foldl_cons]
    exact ⟨pending.trans here, fun toolCallId toolName => (diagnostics toolCallId toolName).trans (own toolCallId toolName)⟩

theorem mem_flushPending (state : ReplayState) (toolCallId toolName : Value) :
    .ORDINARY_REPLAY_BLOCKED toolCallId toolName ∈ (flushPending state).diagnostics ↔
      .ORDINARY_REPLAY_BLOCKED toolCallId toolName ∈ state.diagnostics
        ∨ ∃ entry ∈ state.pending, entry.2.get (js "id") = toolCallId ∧ entry.2.get (js "name") = toolName := by
  unfold flushPending
  rw [List.mem_append, List.mem_map]
  simp only [Diagnostic.ORDINARY_REPLAY_BLOCKED.injEq]

theorem exists_pending (blocks rest : List Value) (toolCallId toolName : Value) :
    (∃ entry ∈ (blocks.filter fun call => isToolCall call).map fun call => (callId call, call),
        entry.2.get (js "id") = toolCallId ∧ entry.2.get (js "name") = toolName ∧ ¬Answered rest entry.1)
      ↔ ∃ call ∈ blocks, isToolCall call ∧ call.get (js "id") = toolCallId ∧ call.get (js "name") = toolName
        ∧ ¬Answered rest (callId call) := by
  constructor
  · rintro ⟨entry, member, open_⟩
    obtain ⟨call, listed, rfl⟩ := List.mem_map.mp member
    obtain ⟨inside, isCall⟩ := List.mem_filter.mp listed
    exact ⟨call, inside, of_decide_eq_true isCall, open_⟩
  · rintro ⟨call, inside, isCall, open_⟩
    exact ⟨(callId call, call), List.mem_map.mpr ⟨call, List.mem_filter.mpr ⟨inside, decide_eq_true isCall⟩, rfl⟩, open_⟩

theorem mem_replay {messages : List Value} (unique : ∀ message ∈ messages, (callIds message).Nodup) (state : ReplayState)
    (toolCallId toolName : Value) :
    .ORDINARY_REPLAY_BLOCKED toolCallId toolName ∈ (flushPending (messages.foldl replayMessage state)).diagnostics ↔
      .ORDINARY_REPLAY_BLOCKED toolCallId toolName ∈ state.diagnostics
        ∨ (∃ entry ∈ state.pending, entry.2.get (js "id") = toolCallId ∧ entry.2.get (js "name") = toolName
          ∧ ¬Answered messages entry.1)
        ∨ Unanswered messages toolCallId toolName := by
  induction messages generalizing state with
  | nil =>
    have none_ : ¬Unanswered [] toolCallId toolName := by
      rintro ⟨before, message, after, call, whole, -⟩
      cases before <;> cases whole
    simp only [List.foldl_nil, mem_flushPending, answered_nil, none_, not_false_eq_true, and_true, or_false]
  | cons message rest ih =>
    have later := ih fun other member => unique other (List.mem_cons_of_mem _ member)
    rw [List.foldl_cons, later, unanswered_cons]
    by_cases interrupts : Interrupts message
    · rw [replayMessage_interrupts interrupts]
      simp only [not_answered_of_interrupts interrupts, not_false_eq_true, and_true]
      split
      · next assistant =>
        simp only [assistant, true_and]
        by_cases failed : failedStop message
        · obtain ⟨pending, diagnostics⟩ := replayCalls_failed failed (contentOf message) (flushPending state)
          rw [pending, diagnostics, mem_flushPending]
          simp only [flushPending, List.not_mem_nil, false_and, exists_false, failed, not_true_eq_false, false_or, or_assoc]
        · have ids := unique message (List.mem_cons_self ..)
          rw [callIds, if_pos assistant] at ids
          rw [replayCalls failed (contentOf message) (flushPending state) ids, mem_flushPending]
          simp only [flushPending, List.nil_append, failed, not_false_eq_true, true_and, or_assoc]
          refine or_congr_right (or_congr_right (or_congr_left ?_))
          exact exists_pending ..
      · next other =>
        rw [mem_flushPending]
        simp only [flushPending, List.not_mem_nil, false_and, exists_false, other, false_or, or_assoc]
    · have noAssistant : ¬hasRole message "assistant" := mt assistant_interrupts interrupts
      simp only [noAssistant, false_and, false_or, answered_cons interrupts]
      by_cases role : hasRole message "toolResult"
      · rw [replayMessage_result role]
        simp only [role, true_and, not_or, Assoc.erase, List.mem_filter, decide_eq_true_eq]
        refine or_congr_right (or_congr_left (exists_congr fun entry => ?_))
        constructor
        · rintro ⟨⟨pending, other⟩, id, name, open_⟩
          exact ⟨pending, id, name, other.symm, open_⟩
        · rintro ⟨pending, id, name, other, open_⟩
          exact ⟨⟨pending, Ne.symm other⟩, id, name, open_⟩
      · rw [replayMessage_skip interrupts role]
        simp only [role, false_and, false_or]

end Replay

section Projection

/-- An element that only one member of a list has is found at one place. -/
theorem split_unique {α β : Type*} {f : α → List β} {whole before before' after after' : List α} {a b : α} {x : β}
    (unique : (whole.flatMap f).Nodup) (inA : x ∈ f a) (inB : x ∈ f b) (first : whole = before ++ a :: after)
    (second : whole = before' ++ b :: after') : a = b ∧ after = after' := by
  induction before generalizing whole before' with
  | nil =>
    cases before' with
    | nil =>
      cases first.symm.trans second
      exact ⟨rfl, rfl⟩
    | cons other before' =>
      obtain ⟨rfl, rfl⟩ := List.cons.inj (first.symm.trans second)
      rw [first, List.nil_append, List.flatMap_cons] at unique
      have later : x ∈ (before' ++ b :: after').flatMap f :=
        List.mem_flatMap.mpr ⟨b, List.mem_append_right _ (List.mem_cons_self ..), inB⟩
      exact absurd later (List.disjoint_of_nodup_append unique inA)
  | cons head before ih =>
    cases before' with
    | nil =>
      obtain ⟨rfl, rfl⟩ := List.cons.inj (first.symm.trans second)
      rw [second, List.nil_append, List.flatMap_cons] at unique
      have later : x ∈ (before ++ a :: after).flatMap f :=
        List.mem_flatMap.mpr ⟨a, List.mem_append_right _ (List.mem_cons_self ..), inA⟩
      exact absurd later (List.disjoint_of_nodup_append unique inB)
    | cons other before' =>
      obtain ⟨rfl, rest⟩ := List.cons.inj (first.symm.trans second)
      rw [first, List.cons_append, List.flatMap_cons] at unique
      exact ih unique.of_append_right rfl rest

theorem mem_callIds {message call : Value} (assistant : hasRole message "assistant") (inside : call ∈ contentOf message)
    (isCall : isToolCall call) : callId call ∈ callIds message := by
  rw [callIds, if_pos assistant]
  exact List.mem_map_of_mem (List.mem_filter.mpr ⟨inside, decide_eq_true isCall⟩)

theorem unanswered_iff {messages before after : List Value} {message call : Value} (unique : (messages.flatMap callIds).Nodup)
    (place : messages = before ++ message :: after) (assistant : hasRole message "assistant")
    (inside : call ∈ contentOf message) (isCall : isToolCall call) :
    Unanswered messages (call.get (js "id")) (call.get (js "name")) ↔ ¬failedStop message ∧ ¬Answered after (callId call) := by
  constructor
  · rintro ⟨before', issuer, after', other, placeToo, assistantToo, success, insideToo, isCallToo, id, -, open_⟩
    have same : callId other = callId call := congrArg Value.units id
    have memberToo := mem_callIds assistantToo insideToo isCallToo
    rw [same] at memberToo open_
    obtain ⟨rfl, rfl⟩ := split_unique unique (mem_callIds assistant inside isCall) memberToo place placeToo
    exact ⟨success, open_⟩
  · rintro ⟨success, open_⟩
    exact ⟨before, message, after, call, place, assistant, success, inside, isCall, rfl, rfl, open_⟩

/-- The calls that an ordinary view blocks, besides what was diagnosed before. -/
structure OrdinaryReplay (projected : List Value) (earlier diagnostics : List Diagnostic) : Prop where
  exact_ : ∀ before message after, projected = before ++ message :: after → hasRole message "assistant" →
    ∀ call ∈ contentOf message, isToolCall call →
      (.ORDINARY_REPLAY_BLOCKED (call.get (js "id")) (call.get (js "name")) ∈ diagnostics ↔
        .ORDINARY_REPLAY_BLOCKED (call.get (js "id")) (call.get (js "name")) ∈ earlier
          ∨ ¬failedStop message ∧ ¬Answered after (callId call))
  only : ∀ toolCallId toolName, .ORDINARY_REPLAY_BLOCKED toolCallId toolName ∈ diagnostics →
    .ORDINARY_REPLAY_BLOCKED toolCallId toolName ∈ earlier ∨ Unanswered projected toolCallId toolName

theorem Unique.ordinaryReplay {messages projected : List Value} (unique : Unique messages) (perm : projected.Perm messages)
    (diagnostics : List Diagnostic) : OrdinaryReplay projected diagnostics (ordinaryDiagnostics projected diagnostics) := by
  have calls : (projected.flatMap callIds).Nodup := (perm.flatMap_right callIds).nodup_iff.mpr unique.calls
  have each : ∀ message ∈ projected, (callIds message).Nodup := fun message listed =>
    calls.sublist (List.sublist_flatten_of_mem (List.mem_map_of_mem listed))
  have replay := mem_replay each ⟨[], diagnostics⟩
  simp only [List.not_mem_nil, false_and, exists_false, false_or] at replay
  constructor
  · intro before message after place assistant call inside isCall
    rw [ordinaryDiagnostics, replay, unanswered_iff calls place assistant inside isCall]
  · exact fun toolCallId toolName => (replay toolCallId toolName).mp

theorem not_blocked_of_severity (canonical retained : MessageIndex) (mode : Mode) (toolCallId toolName : Value) :
    .ORDINARY_REPLAY_BLOCKED toolCallId toolName ∉ prunedResults canonical retained mode
      ∧ .ORDINARY_REPLAY_BLOCKED toolCallId toolName ∉ prunedCalls canonical retained := by
  constructor
  · intro member
    obtain ⟨entry, -, made⟩ := List.mem_filterMap.mp member
    dsimp only at made
    split at made <;> cases made
  · intro member
    obtain ⟨entry, -, made⟩ := List.mem_filterMap.mp member
    dsimp only at made
    split at made
    · cases made
    · split at made <;> cases made

theorem not_blocked_of_omitted {canonical : MessageIndex} {facts : AliasFacts} {messages kept : List Value}
    {omitted : List Diagnostic} (success : omitMessages canonical facts messages = .ok (kept, omitted)) (toolCallId toolName : Value) :
    .ORDINARY_REPLAY_BLOCKED toolCallId toolName ∉ omitted := by
  induction messages generalizing kept omitted with
  | nil =>
    cases success
    exact List.not_mem_nil
  | cons message rest ih =>
    simp only [omitMessages, Checked.bind_eq_ok, Checked.pure_eq_ok, Prod.exists, Prod.mk.injEq] at success
    obtain ⟨next, records, -, restKept, later, tail, -, rfl⟩ := success
    intro member
    rcases List.mem_append.mp member with here | there
    · obtain ⟨record, -, made⟩ := List.mem_map.mp here
      cases made
    · exact ih tail there

theorem earlier_iff {sha256 : JsString → JsString} {messages kept : List Value} {canonical retained : MessageIndex}
    {selected : List Value} {diagnostics omitted : List Diagnostic} {aliasFacts : Option AliasFacts} {mode : Mode}
    (success : omitUnadmittedCalls sha256 messages canonical selected aliasFacts = .ok (kept, omitted))
    (toolCallId toolName : Value) :
    .ORDINARY_REPLAY_BLOCKED toolCallId toolName
        ∈ diagnostics ++ omitted ++ prunedResults canonical retained mode ++ prunedCalls canonical retained
      ↔ .ORDINARY_REPLAY_BLOCKED toolCallId toolName ∈ diagnostics := by
  obtain ⟨facts, passed⟩ : ∃ facts, omitMessages canonical facts messages = .ok (kept, omitted) := by
    cases aliasFacts with
    | none =>
      obtain ⟨facts, -, passed⟩ := Checked.bind_eq_ok.mp success
      exact ⟨facts, passed⟩
    | some facts => exact ⟨facts, success⟩
  obtain ⟨noResult, noCall⟩ := not_blocked_of_severity canonical retained mode toolCallId toolName
  have noOmitted := not_blocked_of_omitted passed toolCallId toolName
  simp only [List.mem_append, noOmitted, noResult, noCall, or_false]

/-- The ordinary projection of a validated list of messages. -/
theorem finishContext_ordinary (sha256 : JsString → JsString) (messages : List Value) (canonical : MessageIndex)
    (selected : List Value) (diagnostics : List Diagnostic) (aliasFacts : Option AliasFacts) {kept : List Value}
    {omitted : List Diagnostic} {retained : MessageIndex}
    (admitted : omitUnadmittedCalls sha256 messages canonical selected aliasFacts = .ok (kept, omitted))
    (validated : indexMessages (kept.map fun message => ⟨message, .undefined⟩) = .ok retained) :
    ∃ view, finishContext sha256 messages canonical selected diagnostics .ordinary aliasFacts = .ok view
      ∧ OrdinaryOrder kept view.messages ∧ OrdinaryReplay view.messages diagnostics view.diagnostics := by
  have unique := unique_of_index validated
  have order := unique.ordinaryOrder
  have listed : moveResults retained kept = ordinaryMessages kept := moveResults_eq validated
  let earlier := diagnostics ++ omitted ++ prunedResults canonical retained .ordinary ++ prunedCalls canonical retained
  refine ⟨⟨ordinaryMessages kept, outstandingCalls canonical retained, ordinaryDiagnostics (ordinaryMessages kept) earlier⟩,
    ?_, order, ?_⟩
  · rw [finishContext, admitted, Checked.ok_bind]
    dsimp only
    rw [validated, Checked.ok_bind, listed]
    rfl
  · have replay := unique.ordinaryReplay order.permutation earlier
    constructor
    · intro before message after place assistant call inside isCall
      rw [replay.exact_ before message after place assistant call inside isCall, earlier_iff admitted]
    · intro toolCallId toolName blocked
      rw [← earlier_iff admitted]
      exact replay.only toolCallId toolName blocked

/-- Two async calls whose results come in the other order behind a later message, and a call without a result. -/
def sampleView : List Value :=
  let call (id : String) (async : Bool) : Value := .record [("type", .text "toolCall"), ("id", .text id), ("name", .text "bash"),
    ("arguments", .record []), ("async", .bool async)]
  let result (id : String) : Value := .record [("role", .text "toolResult"), ("toolCallId", .text id), ("toolName", .text "bash"),
    ("isError", .bool false), ("content", .arr [])]
  [.record [("role", .text "assistant"), ("content", .arr [call "a" true, call "b" true, call "c" false])],
    .record [("role", .text "user"), ("content", .text "go on")], result "b", result "a"]

theorem finishContext_ordinary_sampleView :
    ∃ view, finishContext (fun text => text) sampleView ⟨[], []⟩ [] [] .ordinary none = .ok view
      ∧ OrdinaryOrder sampleView view.messages ∧ OrdinaryReplay view.messages [] view.diagnostics := by
  have admitted : omitUnadmittedCalls (fun text => text) sampleView ⟨[], []⟩ [] none = .ok (sampleView, []) := by decide +kernel
  have validated : indexMessages (sampleView.map fun message => ⟨message, .undefined⟩) =
      .ok ⟨allCalls 0 (viewRecords sampleView), allResults 0 (viewRecords sampleView)⟩ := by decide +kernel
  exact finishContext_ordinary (fun text => text) sampleView ⟨[], []⟩ [] [] none admitted validated

end Projection

end PersistentHarness.Canonical
