import Mathlib.Data.List.Perm.Basic
import PersistentHarness.Model.Retry
import PersistentHarness.Soundness.Session.Inputs

/-! # Retries of responses

A request moves the leaf at most once, and stores its input last. So a request that is refused before the move has
changed nothing, one that is refused later leaves the leaf on the retry branch, and one that is accepted has done
both. A receipt outlives its request, and answers every repetition of it.
-/

namespace PersistentHarness.Retry

open SessionStore (Store Receipt NewInput InputView)

structure Answer.Kept (config : Config) (answer : Answer) : Prop where
  given : ∀ id, requestInputId config answer.submission = some id → answer.inputId = some id
  once : answer.moves ≤ 1
  unmoved : answer.moves = 0 → answer.leafAfter = answer.leafBefore ∧ answer.stored = false
  unstored : answer.accepted = false → answer.branch = none → answer.stored = false
  prior : answer.prior = true → answer.moves = 0
  branched : ∀ turn, answer.branch = some turn → answer.moves = 1 ∧ answer.leafAfter = turn.branchFromId
  accepted : answer.accepted = true → answer.prior = true ∨ ∃ turn, answer.branch = some turn

/-- The input of a request has a receipt with the request's session and retry intent. -/
def Named (s : Store) (answer : Answer) : Prop :=
  ∃ id receipt, answer.inputId = some id ∧ s.receipts.get? id = some receipt
    ∧ receipt.sessionId = answer.submission.sessionId
    ∧ receipt.retryIntent = some (retryIntentForRequest answer.submission)

def Answer.lasting (answer : Answer) : Prop := answer.accepted = true ∨ answer.stored = true

def Same (config : Config) (first second : Submission) : Prop :=
  first.sessionId = second.sessionId ∧ requestInputId config first ≠ none ∧ requestInputId config first = requestInputId config second

/-- A client request that has left a receipt is not carried out again. -/
def Repeats (config : Config) (later earlier : Answer) : Prop :=
  earlier.lasting → Same config later.submission earlier.submission → later.moves = 0 ∧ later.stored = false

/-- What holds of the answered requests. -/
structure Retried (config : Config) (s : System) : Prop where
  kept : ∀ answer ∈ s.answers, answer.Kept config
  named : ∀ answer ∈ s.answers, answer.lasting → Named s.store answer
  once : ∀ id, s.answers.countP (fun answer => answer.stored = true ∧ answer.inputId = some id) ≤ 1
  repeats : s.answers.Pairwise (Repeats config)

section Store

variable {env : SessionStore.Env} {s next : Store}

theorem normalizeRetryIntent_request {submission : Submission} {intent : Option Value}
    (normal : SessionStore.normalizeRetryIntent (retryIntentForRequest submission) = .ok intent) :
    intent = some (retryIntentForRequest submission) := by
  unfold SessionStore.normalizeRetryIntent at normal
  split at normal
  next absent => cases absent
  next =>
    obtain ⟨_, _, done⟩ := Checked.bind_eq_ok.mp normal
    rw [← Checked.pure_eq_ok.mp done]
    simp [retryIntentForRequest, Value.record, Value.get, Value.fields, Assoc.lookup_cons]

theorem matchActorInputRequest_cases {config : Config} {submission : Submission} {prior : Option InputView}
    (done : matchActorInputRequest config s submission = .ok prior) :
    (prior = none ∧ ∀ id, requestInputId config submission = some id → s.receipts.get? id = none)
      ∨ prior ≠ none ∧ ∃ id receipt, requestInputId config submission = some id ∧ s.receipts.get? id = some receipt
        ∧ receipt.sessionId = submission.sessionId
        ∧ receipt.retryIntent = some (retryIntentForRequest submission) := by
  unfold matchActorInputRequest at done
  obtain ⟨intent, normal, done⟩ := Checked.bind_eq_ok.mp done
  have given := normalizeRetryIntent_request normal
  cases named : requestInputId config submission with
  | none =>
    rw [named] at done
    exact .inl ⟨(Checked.pure_eq_ok.mp done).symm, nofun⟩
  | some id =>
    rw [named] at done
    dsimp only at done
    cases found : s.receipts.get? id with
    | none =>
      rw [found] at done
      refine .inl ⟨(Checked.pure_eq_ok.mp done).symm, fun other same => ?_⟩
      cases same
      exact found
    | some receipt =>
      rw [found] at done
      obtain ⟨_, matched, view⟩ := Checked.bind_eq_ok.mp done
      obtain ⟨sameSession, sameIntent, _⟩ := Checked.require_eq_ok.mp matched
      have read : prior ≠ none := by
        rw [← Checked.pure_eq_ok.mp view, SessionStore.Store.getActorInput, found, Option.filter_some,
          if_pos (decide_eq_true sameSession)]
        exact Option.some_ne_none _
      exact .inr ⟨read, id, receipt, rfl, found, sameSession, sameIntent.trans given⟩

theorem replayActorInput_named {sessionId id : JsString} {params : NewInput} {terms : SessionStore.InputTerms}
    {view : Option InputView} {receipt : Receipt} (found : s.receipts.get? id = some receipt)
    (done : SessionStore.replayActorInput s sessionId id params terms receipt = .ok (next, view)) :
    ∃ receipt, next.receipts.get? id = some receipt ∧ receipt.sessionId = sessionId
      ∧ receipt.retryIntent = terms.retryIntent := by
  unfold SessionStore.replayActorInput at done
  obtain ⟨_, matched, done⟩ := Checked.bind_eq_ok.mp done
  cases Checked.pure_eq_ok.mp done
  refine ⟨receipt.restore terms, ?_, ?_⟩
  · change (s.receipts.update id _).get? id = _
    rw [Table.get?_update_of found, if_pos rfl]
  · have same := Checked.require_eq_ok.mp matched
    unfold SessionStore.Receipt.matches at same
    obtain ⟨sameSession, _, sameIntent, _⟩ := of_decide_eq_true same
    exact ⟨sameSession, sameIntent⟩

theorem admitActorInput_named {sessionId id : JsString} {params : NewInput} {terms : SessionStore.InputTerms}
    {now : ℤ} {view : Option InputView}
    (done : SessionStore.admitActorInput s sessionId id params terms now = .ok (next, view)) :
    ∃ receipt, next.receipts.get? id = some receipt ∧ receipt.sessionId = sessionId
      ∧ receipt.retryIntent = terms.retryIntent := by
  unfold SessionStore.admitActorInput at done
  obtain ⟨_, _, done⟩ := Checked.bind_eq_ok.mp done
  obtain ⟨_, _, done⟩ := Checked.bind_eq_ok.mp done
  obtain ⟨_, _, done⟩ := Checked.bind_eq_ok.mp done
  split at done
  next receipts inputs recorded queued =>
    obtain ⟨touched, active, done⟩ := Checked.bind_eq_ok.mp done
    cases Checked.pure_eq_ok.mp done
    unfold SessionStore.recordSessionActivity at active
    obtain ⟨_, _, active⟩ := Checked.bind_eq_ok.mp active
    cases Checked.pure_eq_ok.mp active
    refine ⟨SessionStore.Receipt.admitted sessionId terms (SessionStore.nextSequence s.receipts) now, ?_, rfl, rfl⟩
    change receipts.get? id = _
    rw [Table.get?_insert recorded, if_pos rfl]
  · cases done
  · cases done

theorem createActorInput_named {sessionId : JsString} {params : NewInput} {now : ℤ} {view : Option InputView}
    (intent : Value) (normal : ∀ given, SessionStore.normalizeRetryIntent params.retryIntent = .ok given → given = some intent)
    (done : SessionStore.createActorInput env s sessionId params now = .ok (next, view)) :
    ∃ receipt, next.receipts.get? (SessionStore.newInputId env s params).1 = some receipt
      ∧ receipt.sessionId = sessionId ∧ receipt.retryIntent = some intent := by
  unfold SessionStore.createActorInput at done
  obtain ⟨_, _, done⟩ := Checked.bind_eq_ok.mp done
  obtain ⟨terms, known, done⟩ := Checked.bind_eq_ok.mp done
  have intended : terms.retryIntent = some intent := by
    unfold SessionStore.inputTerms at known
    obtain ⟨_, _, known⟩ := Checked.bind_eq_ok.mp known
    obtain ⟨given, normal', known⟩ := Checked.bind_eq_ok.mp known
    obtain ⟨_, _, known⟩ := Checked.bind_eq_ok.mp known
    obtain ⟨_, _, known⟩ := Checked.bind_eq_ok.mp known
    obtain ⟨_, _, known⟩ := Checked.bind_eq_ok.mp known
    obtain ⟨_, _, known⟩ := Checked.bind_eq_ok.mp known
    rw [← Checked.pure_eq_ok.mp known]
    exact normal given normal'
  rw [← intended]
  obtain ⟨⟨id, drawn⟩, named⟩ : ∃ drawn, SessionStore.newInputId env s params = drawn := ⟨_, rfl⟩
  rw [named] at done ⊢
  dsimp only at done
  split at done
  next receipt found => exact replayActorInput_named found done
  next => exact admitActorInput_named done

end Store

/-! ## The invariant -/

/-- A request has moved the leaf exactly when it waits for the entries. -/
def Waiting (s : System) (request : Request) : Prop :=
  match request.stage with
  | .verifying _ _ => request.moves = 1
  | _ => request.moves = 0 ∧ request.leafBefore = s.leaf request.submission.sessionId

/-- No receipt answers a request in progress. -/
def Unanswered (config : Config) (answers : List Answer) (submission : Submission) : Prop :=
  ∀ answer ∈ answers, answer.lasting → ¬ Same config submission answer.submission

structure Sound (config : Config) (s : System) : Prop extends Retried config s where
  single : (s.requests.map fun request => request.submission.sessionId).Nodup
  waiting : ∀ request ∈ s.requests, Waiting s request
  unanswered : ∀ request ∈ s.requests, Unanswered config s.answers request.submission

section Steps

variable {config : Config} {s : System} {n : ℕ} {request : Request}

theorem Named.kept {store : Store} {answer : Answer} (named : Named s.store answer)
    (kept : SessionStore.IntentsKept s.store store) : Named store answer := by
  obtain ⟨id, receipt, given, found, sameSession, sameIntent⟩ := named
  obtain ⟨later, found', session, intent⟩ := kept id receipt found
  exact ⟨id, later, given, found', session.trans sameSession, intent.trans sameIntent⟩

theorem Named.answered {submission : Submission} (unanswered : ∀ id, requestInputId config submission = some id →
    s.store.receipts.get? id = none) (sound : Retried config s) : Unanswered config s.answers submission := by
  intro answer within lasting ⟨_, known, same⟩
  obtain ⟨id, named⟩ := Option.ne_none_iff_exists'.mp known
  obtain ⟨other, receipt, given, found, _⟩ := sound.named answer within lasting
  rw [(sound.kept answer within).given id (same ▸ named)] at given
  cases given
  rw [unanswered id named] at found
  cases found

theorem Sound.stored {store : Store} (sound : Sound config s) (kept : SessionStore.IntentsKept s.store store) :
    Sound config { s with store } where
  kept := sound.kept
  named answer within lasting := (sound.named answer within lasting).kept kept
  once := sound.once
  repeats := sound.repeats
  single := sound.single
  waiting := sound.waiting
  unanswered := sound.unanswered

theorem requests_perm (found : s.requests[n]? = some request) :
    s.requests.Perm (request :: s.requests.eraseIdx n) := by
  obtain ⟨here, rfl⟩ := List.getElem?_eq_some_iff.mp found
  exact (List.getElem_cons_eraseIdx_perm here).symm

theorem setRequest_perm (found : s.requests[n]? = some request) (next : Request) :
    (s.requests.set n next).Perm (next :: s.requests.eraseIdx n) :=
  List.set_perm_cons_eraseIdx (List.getElem?_eq_some_iff.mp found).1 next

theorem Sound.alone (sound : Sound config s) (found : s.requests[n]? = some request) {other : Request}
    (within : other ∈ s.requests.eraseIdx n) : other.submission.sessionId ≠ request.submission.sessionId := by
  have single := ((requests_perm found).map fun request => request.submission.sessionId).nodup_iff.mp sound.single
  rw [List.map_cons, List.nodup_cons] at single
  intro same
  exact single.1 (List.mem_map.mpr ⟨other, within, same⟩)

theorem Waiting.elsewhere {leaf : JsString → Option JsString} (waiting : Waiting s request)
    (same : leaf request.submission.sessionId = s.leaf request.submission.sessionId) : Waiting { s with leaf } request := by
  unfold Waiting at *
  split at waiting
  · exact waiting
  · exact ⟨waiting.1, waiting.2.trans same.symm⟩

theorem Retried.answered {answer : Answer} (sound : Retried config s) (kept : answer.Kept config)
    (named : answer.lasting → Named s.store answer)
    (fresh : answer.stored = true → ∀ id, answer.inputId = some id →
      ∀ other ∈ s.answers, other.stored = true → other.inputId ≠ some id)
    (repeats : ∀ other ∈ s.answers, Repeats config answer other) :
    Retried config { s with answers := answer :: s.answers } where
  kept other within := by
    rcases List.mem_cons.mp within with rfl | earlier
    · exact kept
    · exact sound.kept other earlier
  named other within lasting := by
    rcases List.mem_cons.mp within with rfl | earlier
    · exact named lasting
    · exact sound.named other earlier lasting
  once id := by
    rw [List.countP_cons]
    split
    next here =>
      obtain ⟨stored, given⟩ := of_decide_eq_true here
      have none_before : s.answers.countP (fun answer => answer.stored = true ∧ answer.inputId = some id) = 0 := by
        rw [List.countP_eq_zero]
        intro other within counted
        obtain ⟨stored', given'⟩ := of_decide_eq_true counted
        exact fresh stored id given other within stored' given'
      omega
    next => exact sound.once id
  repeats := List.pairwise_cons.mpr ⟨repeats, sound.repeats⟩

theorem Sound.proceeds (sound : Sound config s) (found : s.requests[n]? = some request) {next : Request}
    {leaf : JsString → Option JsString} (same : next.submission = request.submission)
    (elsewhere : ∀ id, id ≠ request.submission.sessionId → leaf id = s.leaf id)
    (waiting : Waiting { s with leaf } next) : Sound config ({ s with leaf }.setRequest n next) where
  kept := sound.kept
  named := sound.named
  once := sound.once
  repeats := sound.repeats
  single := by
    have before := (requests_perm found).map fun request => request.submission.sessionId
    have after := (setRequest_perm found next).map fun request => request.submission.sessionId
    rw [List.map_cons, ← same, ← List.map_cons (f := fun request : Request => request.submission.sessionId)] at before
    exact after.nodup_iff.mpr (before.nodup_iff.mp sound.single)
  waiting other within := by
    rcases List.mem_cons.mp ((setRequest_perm found next).mem_iff.mp within) with rfl | others
    · exact waiting
    · have earlier : Waiting s other := sound.waiting other (List.mem_of_mem_eraseIdx others)
      exact earlier.elsewhere (elsewhere _ (sound.alone found others))
  unanswered other within := by
    rcases List.mem_cons.mp ((setRequest_perm found next).mem_iff.mp within) with rfl | others
    · rw [same]
      exact sound.unanswered request (List.mem_of_getElem? found)
    · exact sound.unanswered other (List.mem_of_mem_eraseIdx others)

theorem Sound.ends (sound : Sound config s) (found : s.requests[n]? = some request) {answer : Answer}
    {leaf : JsString → Option JsString} (same : answer.submission = request.submission)
    (elsewhere : ∀ id, id ≠ request.submission.sessionId → leaf id = s.leaf id) (kept : answer.Kept config)
    (named : answer.lasting → Named s.store answer)
    (fresh : answer.stored = true → ∀ id, answer.inputId = some id →
      ∀ other ∈ s.answers, other.stored = true → other.inputId ≠ some id) :
    Sound config { s with leaf, requests := s.requests.eraseIdx n, answers := answer :: s.answers } where
  toRetried := by
    have retried := sound.toRetried.answered kept named fresh fun other within lasting again => by
      rw [same] at again
      exact absurd again (sound.unanswered request (List.mem_of_getElem? found) other within lasting)
    exact ⟨retried.kept, retried.named, retried.once, retried.repeats⟩
  single := by
    have single := ((requests_perm found).map fun request => request.submission.sessionId).nodup_iff.mp sound.single
    exact (List.nodup_cons.mp single).2
  waiting other within := by
    have earlier : Waiting s other := sound.waiting other (List.mem_of_mem_eraseIdx within)
    exact earlier.elsewhere (elsewhere _ (sound.alone found within))
  unanswered other within earlier earlier_mem lasting again := by
    rcases List.mem_cons.mp earlier_mem with rfl | before
    · rw [same] at again
      exact sound.alone found within again.1
    · exact sound.unanswered other (List.mem_of_mem_eraseIdx within) earlier before lasting again

theorem Sound.rejected (sound : Sound config s) (found : s.requests[n]? = some request) (moved : Request)
    {leaf : JsString → Option JsString} (same : moved.submission = request.submission)
    (elsewhere : ∀ id, id ≠ request.submission.sessionId → leaf id = s.leaf id)
    (waiting : Waiting { s with leaf } moved) : Sound config ({ s with leaf }.reject config n moved) := by
  refine sound.ends found same elsewhere ?_ ?_ nofun
  · have counted : moved.moves ≤ 1 ∧ (moved.moves = 0 → leaf moved.submission.sessionId = moved.leafBefore) := by
      unfold Waiting at waiting
      split at waiting
      · exact ⟨waiting.le, fun none => by omega⟩
      · exact ⟨by omega, fun _ => waiting.2.symm⟩
    exact ⟨fun _ => id, counted.1, fun unmoved => ⟨counted.2 unmoved, rfl⟩, fun _ _ => rfl, nofun, nofun, nofun⟩
  · rintro (accepted | stored)
    · cases accepted
    · cases stored

theorem newInputId_given {submission : Submission} {payload : Payload} {store : Store} {id : JsString}
    (given : requestInputId config submission = some id) :
    (SessionStore.newInputId config.env store (System.newInput config submission payload)).1 = id := by
  unfold SessionStore.newInputId System.newInput
  rw [given]

theorem Sound.admitted (sound : Sound config s) (found : s.requests[n]? = some request) {turn : Turn}
    {payload : Payload} (verifying : request.stage = .verifying turn payload)
    (here : s.leaf request.submission.sessionId = turn.branchFromId) (now : ℤ) (wakes : Bool) :
    Sound config (s.admitTurn config n request turn payload now wakes) := by
  have waiting := sound.waiting request (List.mem_of_getElem? found)
  have moved : request.moves = 1 := by
    unfold Waiting at waiting
    rw [verifying] at waiting
    exact waiting
  unfold System.admitTurn
  dsimp only
  split
  · exact sound.rejected found request rfl (fun _ _ => rfl) waiting
  next store output thrown done =>
    have created : ∃ view, SessionStore.createActorInput config.env s.store request.submission.sessionId
        (System.newInput config request.submission payload) now = .ok (store, view) := by
      rw [SessionStore.step] at done
      generalize SessionStore.createActorInput config.env s.store request.submission.sessionId
        (System.newInput config request.submission payload) now = result at done
      cases result with
      | error failure =>
        cases done
        exact absurd rfl (thrown failure)
      | ok next =>
        cases done
        exact ⟨next.2, rfl⟩
    obtain ⟨view, created⟩ := created
    obtain ⟨receipt, recorded, sameSession, sameIntent⟩ :=
      createActorInput_named (retryIntentForRequest request.submission)
        (fun _ normal => normalizeRetryIntent_request normal) created
    have intents : SessionStore.IntentsKept s.store store := by
      have kept : SessionStore.IntentsKept s.store (SessionStore.step config.env none s.store now
          (.createActorInput request.submission.sessionId (System.newInput config request.submission payload))).1 :=
        SessionStore.step_intents none s.store now _
      rwa [done] at kept
    have stored := sound.stored intents
    refine stored.ends (s := { s with store }) found rfl (fun _ _ => rfl) ?_ ?_ ?_
    · refine ⟨fun id given => ?_, moved.le, fun unmoved => ?_, fun _ => nofun, nofun, ?_, fun _ => .inr ⟨turn, rfl⟩⟩
      · rw [newInputId_given given]
      · exact absurd (moved.symm.trans unmoved) (by decide)
      · rintro _ ⟨⟩
        exact ⟨moved, here⟩
    · exact fun _ => ⟨_, receipt, rfl, recorded, sameSession, sameIntent⟩
    · intro fresh id given other within stored' same
      cases given
      obtain ⟨id, old, named, before, _⟩ := sound.named other within (.inr stored')
      rw [named] at same
      cases same
      simp only [before, Option.isNone_some, Bool.false_and] at fresh
      cases fresh

theorem Sound.replied (sound : Sound config s) {submission : Submission} {accepted prior : Bool}
    (idle : ∀ request ∈ s.requests, request.submission.sessionId ≠ submission.sessionId)
    (answered : accepted = true → prior = true) (named : accepted = true →
      ∃ id receipt, requestInputId config submission = some id ∧ s.store.receipts.get? id = some receipt
        ∧ receipt.sessionId = submission.sessionId
        ∧ receipt.retryIntent = some (retryIntentForRequest submission)) :
    Sound config (s.reply config submission accepted prior) where
  toRetried := by
    refine sound.toRetried.answered ?_ ?_ nofun fun _ _ _ _ => ⟨rfl, rfl⟩
    · exact ⟨fun _ => id, Nat.zero_le 1, fun _ => ⟨rfl, rfl⟩, fun _ _ => rfl, fun _ => rfl, nofun,
        fun accepted => .inl (answered accepted)⟩
    · rintro (accepted | stored)
      · exact named accepted
      · cases stored
  single := sound.single
  waiting := sound.waiting
  unanswered request within earlier earlier_mem lasting again := by
    rcases List.mem_cons.mp earlier_mem with rfl | before
    · exact idle request within again.1
    · exact sound.unanswered request within earlier before lasting again

theorem Sound.begins (sound : Sound config s) {submission : Submission}
    (idle : ∀ request ∈ s.requests, request.submission.sessionId ≠ submission.sessionId)
    (unanswered : Unanswered config s.answers submission) :
    Sound config { s with requests := s.requests ++ [⟨submission, .readying, s.leaf submission.sessionId, 0⟩] } where
  kept := sound.kept
  named := sound.named
  once := sound.once
  repeats := sound.repeats
  single := by
    rw [List.map_append, List.map_singleton, List.nodup_append]
    refine ⟨sound.single, List.nodup_singleton _, ?_⟩
    intro sessionId within other only
    obtain ⟨request, request_mem, rfl⟩ := List.mem_map.mp within
    obtain rfl := List.mem_singleton.mp only
    exact idle request request_mem
  waiting request within := by
    rcases List.mem_append.mp within with earlier | only
    · exact sound.waiting request earlier
    · obtain rfl := List.mem_singleton.mp only
      exact ⟨rfl, rfl⟩
  unanswered request within := by
    rcases List.mem_append.mp within with earlier | only
    · exact sound.unanswered request earlier
    · obtain rfl := List.mem_singleton.mp only
      exact unanswered

theorem Sound.submitted (sound : Sound config s) {submission : Submission} (available wakes : Bool)
    (idle : ∀ request ∈ s.requests, request.submission.sessionId ≠ submission.sessionId) :
    Sound config (s.submit config submission available wakes) := by
  unfold System.submit
  split
  · exact sound.replied idle nofun nofun
  · split
    · exact sound.replied idle nofun nofun
    next view matched =>
      rcases matchActorInputRequest_cases matched with ⟨none, _⟩ | ⟨_, named⟩
      · cases none
      · exact sound.replied idle (fun _ => rfl) fun _ => named
    next matched =>
      rcases matchActorInputRequest_cases matched with ⟨_, absent⟩ | ⟨found, _⟩
      · exact sound.begins idle (Named.answered absent sound.toRetried)
      · exact absurd rfl found

theorem Sound.resolved (sound : Sound config s) (found : s.requests[n]? = some request)
    (resolving : request.stage = .resolving) (turn : Turn) (input : Payload) :
    Sound config (s.resolve config n request turn input) := by
  have waiting := sound.waiting request (List.mem_of_getElem? found)
  have unmoved : request.moves = 0 ∧ request.leafBefore = s.leaf request.submission.sessionId := by
    unfold Waiting at waiting
    rw [resolving] at waiting
    exact waiting
  unfold System.resolve
  split
  · exact sound.rejected found request rfl (fun _ _ => rfl) waiting
  · split
    · exact sound.rejected found request rfl (fun _ _ => rfl) waiting
    · exact sound.proceeds found rfl (fun _ _ => rfl) unmoved

/-- Something else moves the leaf of a session. -/
theorem Sound.drifted (sound : Sound config s) (sessionId : JsString) (leaf : Option JsString) :
    Sound config (step config s (.drift sessionId leaf)) := by
  have same (request : Request) : (request.drifts sessionId leaf).submission = request.submission := by
    unfold Request.drifts
    split <;> rfl
  refine ⟨⟨sound.kept, sound.named, sound.once, sound.repeats⟩, ?_, ?_, ?_⟩
  · have sessions : (s.requests.map (Request.drifts sessionId leaf)).map (fun request => request.submission.sessionId)
        = s.requests.map fun request => request.submission.sessionId := by
      rw [List.map_map]
      exact List.map_congr_left fun request _ => congrArg Submission.sessionId (same request)
    exact (congrArg List.Nodup sessions).mpr sound.single
  · intro drifted within
    obtain ⟨request, request_mem, rfl⟩ := List.mem_map.mp within
    have waiting : Waiting s request := sound.waiting request request_mem
    unfold Request.drifts
    split
    next here =>
      unfold Waiting at *
      dsimp only
      split at waiting
      · exact waiting
      · exact ⟨waiting.1, (if_pos here).symm⟩
    next elsewhere => exact waiting.elsewhere (if_neg elsewhere)
  · intro drifted within
    obtain ⟨request, request_mem, rfl⟩ := List.mem_map.mp within
    rw [same]
    exact sound.unanswered request request_mem

theorem step_sound (event : Event) (sound : Sound config s) : Sound config (step config s event) := by
  cases event with
  | store now observer op => exact sound.stored (SessionStore.step_intents observer s.store now op)
  | drift sessionId leaf => exact sound.drifted sessionId leaf
  | submit submission available wakes =>
    simp only [step]
    split
    · exact sound
    next idle =>
      refine sound.submitted available wakes fun request within same => idle ?_
      exact List.any_eq_true.mpr ⟨request, within, decide_eq_true same⟩
  | ready n =>
    simp only [step]
    split
    next request found =>
      split
      next readying =>
        have waiting := sound.waiting request (List.mem_of_getElem? found)
        unfold Waiting at waiting
        rw [readying] at waiting
        exact sound.proceeds found rfl (fun _ _ => rfl) waiting
      · exact sound
    · exact sound
  | resolve n turn input =>
    simp only [step]
    split
    next request found =>
      split
      next resolving => exact sound.resolved found resolving turn input
      · exact sound
    · exact sound
  | branch n leaf replied =>
    simp only [step]
    split
    next request found =>
      split
      next turn payload branching =>
        have waiting := sound.waiting request (List.mem_of_getElem? found)
        unfold Waiting at waiting
        rw [branching] at waiting
        have moved : request.moves + 1 = 1 := by omega
        split
        · exact sound.proceeds found rfl (fun _ other => if_neg other) moved
        · exact sound.rejected found { request with stage := .verifying turn payload, moves := request.moves + 1 } rfl
            (fun _ other => if_neg other) moved
      · exact sound
    · exact sound
  | verify n now wakes =>
    simp only [step]
    split
    next request found =>
      split
      next turn payload verifying =>
        split
        next here => exact sound.admitted found verifying here now wakes
        · exact sound.rejected found request rfl (fun _ _ => rfl) (sound.waiting request (List.mem_of_getElem? found))
      · exact sound
    · exact sound
  | fail n =>
    simp only [step]
    split
    next request found =>
      exact sound.rejected found request rfl (fun _ _ => rfl) (sound.waiting request (List.mem_of_getElem? found))
    · exact sound

end Steps

/-! ## Runs -/

theorem run_concat (config : Config) (events : List Event) (event : Event) :
    run config (events ++ [event]) = step config (run config events) event := by
  rw [run, run, List.foldl_append, List.foldl_cons, List.foldl_nil]

theorem initial_sound (config : Config) : Sound config .initial where
  kept := by rintro _ ⟨⟩
  named := by rintro _ ⟨⟩
  once id := by
    rw [System.initial, List.countP_nil]
    omega
  repeats := .nil
  single := .nil
  waiting := by rintro _ ⟨⟩
  unanswered := by rintro _ ⟨⟩

theorem run_sound (config : Config) (events : List Event) : Sound config (run config events) := by
  induction events using List.reverseRecOn with
  | nil => exact initial_sound config
  | append_singleton events event ih =>
    rw [run_concat]
    exact step_sound event ih

/-- A request that is refused before the worker has moved the leaf has changed nothing; one that is refused later has
moved it once, and has stored no input unless only the session's start was refused. A request that is accepted has
moved the leaf once, to the retry branch, or repeats an earlier one; its input is the only one under its id. -/
theorem run_retries (config : Config) (events : List Event) : Retried config (run config events) :=
  (run_sound config events).toRetried

section Samples

/-- A session may have one pending input. -/
def sampleConfig : Config := ⟨⟨id, fun _ => []⟩, 1⟩

def sampleSubmission : Submission :=
  ⟨js "root", some (js "retry-1"), none, js "a1", .explicit ⟨js "hello", .arr [], none⟩⟩

/-- The leaf has moved when the limit of pending inputs refuses the new one. -/
def limitReached : List Event :=
  [.store 1 none
    (.createRoot ⟨js "root", some (js "/w/root.jsonl"), some (js "/w"), none, some (js "root"), js "token", .obj []⟩),
    .store 2 none (.createActorInput (js "root") ⟨some (js "waiting"), js "later", .arr [], .undefined, .auto, js "user",
      .null, .null, .null, 1, 16 * 1024 * 1024, 64 * 1024 * 1024⟩),
    .drift (js "root") (some (js "a1")), .submit sampleSubmission true true, .ready 0,
    .resolve 0 ⟨js "u1", none⟩ ⟨[], .arr [], none, js "user", .null⟩, .branch 0 none true, .verify 0 3 true]

theorem limitReached_not_atomic :
    ¬ ∀ answer ∈ (run sampleConfig limitReached).answers,
      answer.accepted = false → answer.leafAfter = answer.leafBefore := by
  intro atomic
  have answered : (run sampleConfig limitReached).answers =
      [⟨sampleSubmission, requestInputId sampleConfig sampleSubmission, false, false, false, 1, some (js "a1"), none,
        none⟩] := by decide
  have same := atomic _ (answered ▸ List.mem_singleton_self _) rfl
  cases same

end Samples

end PersistentHarness.Retry
