import PersistentHarness.Soundness.Session.Inputs

/-! # Admission of inputs

A call of `createActorInput` throws, replays a known input or admits a new one. The limits of an admission bound
the pending rows until the next one: no other call adds a row or makes one larger.
-/

namespace PersistentHarness.SessionStore

section Outcomes

variable {env : Env} {observer : Option JsString} {s : Store} {sessionId : JsString} {params : NewInput} {now : ℤ}
  {done : Store × Output}

/-- The call throws and leaves the store. -/
def Refused (s : Store) (done : Store × Output) : Prop := ∃ failure, done = (s, .thrown failure)

/-- A receipt with the provenance and the client id that it lacked. -/
structure Completes (terms : InputTerms) (a b : Receipt) : Prop where
  rest : b = { a with source := b.source, origin := b.origin, clientMessageId := b.clientMessageId }
  provenance : b.source = a.source ∧ b.origin = a.origin
    ∨ a.source = none ∧ b.source = some terms.source ∧ b.origin = terms.origin
  client : b.clientMessageId = a.clientMessageId.or terms.clientMessageId

/-- The id is known with the same terms, and its receipt is returned. -/
inductive Replayed (env : Env) (s : Store) (sessionId : JsString) (params : NewInput) : Store × Output → Prop
  | intro {terms : InputTerms} {receipt : Receipt} {view : InputView} (draws : ℕ)
      (agreed : inputTerms env params = .ok terms)
      (known : s.receipts.get? (newInputId env s params).1 = some receipt)
      (session : receipt.sessionId = sessionId) (digest : receipt.digest = terms.digest)
      (intent : receipt.retryIntent = terms.retryIntent)
      (provenance : receipt.source = none ∨ receipt.source = some terms.source ∧ receipt.origin = terms.origin)
      (client : receipt.clientMessageId = none ∨ terms.clientMessageId = none
        ∨ receipt.clientMessageId = terms.clientMessageId)
      (returned : view.inputId = (newInputId env s params).1) (completes : Completes terms receipt view.receipt) :
      Replayed env s sessionId params
        ({ s with receipts := s.receipts.update (newInputId env s params).1 fun _ => view.receipt, draws }, .input (some view))

/-- One receipt with the next sequence number and one pending row are added, within the limits of the call. -/
inductive Admitted (env : Env) (s : Store) (sessionId : JsString) (params : NewInput) (now : ℤ) : Store × Output → Prop
  | intro {terms : InputTerms} {receipts : Table JsString Receipt} {inputs : Table JsString ActorInput} {sessions : Sessions}
      (draws : ℕ) (agreed : inputTerms env params = .ok terms)
      (recorded : s.receipts.insert? (newInputId env s params).1 (.admitted sessionId terms (nextSequence s.receipts) now) =
        some receipts)
      (queued : s.inputs.insert? (newInputId env s params).1 (.admitted sessionId params terms now) = some inputs)
      (room : (s.inputs.count fun _ row => row.sessionId = sessionId) < params.pendingLimit)
      (fits : (pendingBytes s.inputs fun row => row.sessionId = sessionId)
        + payloadBytes params.message params.images terms.location ≤ params.pendingBytesLimit)
      (fitsAll : (pendingBytes s.inputs fun _ => true) + payloadBytes params.message params.images terms.location
        ≤ params.globalPendingBytesLimit)
      (touched : s.sessions.Evolves (fun a b => b = { a with lastActivityAt := b.lastActivityAt }) sessions) :
      Admitted env s sessionId params now ({ s with receipts, inputs, sessions, draws },
        .input (some (mapActorInput (newInputId env s params).1 (.admitted sessionId terms (nextSequence s.receipts) now)
          (some (.admitted sessionId params terms now)))))

theorem newInputId_eq (env : Env) (s : Store) (params : NewInput) :
    ∃ draws, (newInputId env s params).2 = { s with draws } := by
  unfold newInputId
  split
  · exact ⟨s.draws, rfl⟩
  · exact ⟨s.draws + 1, rfl⟩

theorem restore_completes {receipt : Receipt} {terms : InputTerms} : Completes terms receipt (receipt.restore terms) := by
  refine ⟨rfl, ?_, rfl⟩
  unfold Receipt.restore
  dsimp only
  split
  · next restores => exact .inr ⟨(of_decide_eq_true restores).1, rfl, rfl⟩
  · exact .inl ⟨rfl, rfl⟩

theorem getActorInput_of {id : JsString} {receipt : Receipt} (stored : s.receipts.get? id = some receipt)
    (session : receipt.sessionId = sessionId) :
    s.getActorInput id sessionId =
      some (mapActorInput id receipt ((s.inputs.get? id).filter fun row => row.sessionId = sessionId)) := by
  rw [Store.getActorInput, stored, Option.filter_some, if_pos (decide_eq_true session), Option.map_some]

theorem withPayload_kept (params : NewInput) (location : Option Value) (view : InputView) :
    (withPayload params location view).inputId = view.inputId ∧ (withPayload params location view).receipt = view.receipt := by
  unfold withPayload
  split <;> exact ⟨rfl, rfl⟩

theorem replayed_of_replay {terms : InputTerms} {receipt : Receipt} {next : Store} {view : Option InputView} {draws : ℕ}
    (agreed : inputTerms env params = .ok terms) (known : s.receipts.get? (newInputId env s params).1 = some receipt)
    (success : replayActorInput { s with draws } sessionId (newInputId env s params).1 params terms receipt = .ok (next, view)) :
    Replayed env s sessionId params (next, .input view) := by
  unfold replayActorInput at success
  obtain ⟨_, matching, success⟩ := Checked.bind_eq_ok.mp success
  obtain ⟨session, digest, intent, provenance, client⟩ := of_decide_eq_true (Checked.require_eq_ok.mp matching)
  simp only [Checked.pure_eq_ok, Prod.mk.injEq] at success
  obtain ⟨rfl, rfl⟩ := success
  have same : (s.receipts.update (newInputId env s params).1 fun row => row.restore terms) =
      s.receipts.update (newInputId env s params).1 fun _ => receipt.restore terms :=
    Table.update_congr fun row found => congrArg (Receipt.restore · terms) (Option.some.inj (found.symm.trans known))
  have stored : (s.receipts.update (newInputId env s params).1 fun row => row.restore terms).get? (newInputId env s params).1 =
      some (receipt.restore terms) := by
    rw [Table.get?_update_of known, if_pos rfl]
  rw [getActorInput_of (s := { s with draws, receipts := s.receipts.update _ fun row => row.restore terms }) stored session,
    Option.map_some]
  dsimp only
  generalize viewed : mapActorInput _ _ _ = view
  obtain ⟨sameId, sameReceipt⟩ := withPayload_kept params terms.location view
  have returned : view.receipt = receipt.restore terms := by rw [← viewed]; rfl
  rw [same, ← returned, ← sameReceipt]
  refine .intro draws agreed known session digest intent provenance client ?_ ?_
  · rw [sameId, ← viewed]
    rfl
  · rw [sameReceipt, returned]
    exact restore_completes

theorem recordSessionActivity_touches {next : Store} {moved : Bool}
    (success : recordSessionActivity s sessionId now = .ok (next, moved)) :
    ∃ sessions, next = { s with sessions }
      ∧ s.sessions.Evolves (fun a b => b = { a with lastActivityAt := b.lastActivityAt }) sessions := by
  unfold recordSessionActivity at success
  obtain ⟨_, _, success⟩ := Checked.bind_eq_ok.mp success
  simp only [Checked.pure_eq_ok, Prod.mk.injEq] at success
  refine ⟨_, success.1.symm, .update (fun _ => rfl) fun row _ => ?_⟩
  split <;> rfl

theorem admitted_of_result {terms : InputTerms} {next : Store} {view : Option InputView} {draws : ℕ}
    (agreed : inputTerms env params = .ok terms)
    (success : admitActorInput { s with draws } sessionId (newInputId env s params).1 params terms now = .ok (next, view)) :
    Admitted env s sessionId params now (next, .input view) := by
  unfold admitActorInput at success
  obtain ⟨_, room, success⟩ := Checked.bind_eq_ok.mp success
  obtain ⟨_, fits, success⟩ := Checked.bind_eq_ok.mp success
  obtain ⟨_, fitsAll, success⟩ := Checked.bind_eq_ok.mp success
  have room := Checked.require_eq_ok.mp room
  have fits := Checked.require_eq_ok.mp fits
  have fitsAll := Checked.require_eq_ok.mp fitsAll
  split at success
  · next receipts inputs recorded queued =>
    obtain ⟨⟨active, moved⟩, activity, success⟩ := Checked.bind_eq_ok.mp success
    simp only [Checked.pure_eq_ok, Prod.mk.injEq] at success
    obtain ⟨rfl, rfl⟩ := success
    obtain ⟨sessions, rfl, touched⟩ := recordSessionActivity_touches activity
    have stored : receipts.get? (newInputId env s params).1 = some (.admitted sessionId terms (nextSequence s.receipts) now) := by
      rw [Table.get?_insert recorded, if_pos rfl]
    have pending : inputs.get? (newInputId env s params).1 = some (.admitted sessionId params terms now) := by
      rw [Table.get?_insert queued, if_pos rfl]
    rw [@getActorInput_of { s with sessions, receipts, inputs, draws } sessionId _ _ stored rfl]
    have own : decide ((ActorInput.admitted sessionId params terms now).sessionId = sessionId) = true := decide_eq_true rfl
    dsimp only
    rw [pending, Option.filter_some, if_pos own]
    exact .intro draws agreed recorded queued room fits fitsAll touched
  · cases success
  · cases success

theorem createActorInput_cases :
    Refused s (step env observer s now (.createActorInput sessionId params))
      ∨ Replayed env s sessionId params (step env observer s now (.createActorInput sessionId params))
      ∨ Admitted env s sessionId params now (step env observer s now (.createActorInput sessionId params)) := by
  dsimp only [step]
  cases result : createActorInput env s sessionId params now with
  | error failure => exact .inl ⟨failure, rfl⟩
  | ok done =>
    apply Or.inr
    change Replayed env s sessionId params (done.1, .input done.2) ∨ Admitted env s sessionId params now (done.1, .input done.2)
    unfold createActorInput at result
    obtain ⟨_, _, result⟩ := Checked.bind_eq_ok.mp result
    obtain ⟨terms, agreed, result⟩ := Checked.bind_eq_ok.mp result
    obtain ⟨draws, same⟩ := newInputId_eq env s params
    dsimp only at result
    rw [same] at result
    split at result
    · next receipt known => exact .inl (replayed_of_replay agreed known result)
    · exact .inr (admitted_of_result agreed result)

theorem Refused.not_returned (refused : Refused s done) (view : Option InputView) : done.2 ≠ .input view := by
  obtain ⟨failure, rfl⟩ := refused
  exact Output.noConfusion

theorem Replayed.known (replayed : Replayed env s sessionId params done) :
    s.receipts.get? (newInputId env s params).1 ≠ none := by
  cases replayed with
  | intro _ _ known => rw [known]; exact Option.some_ne_none _

theorem Admitted.new (admitted : Admitted env s sessionId params now done) :
    s.receipts.get? (newInputId env s params).1 = none := by
  cases admitted with
  | intro _ _ recorded => exact Table.fresh_of_insert? recorded

theorem Replayed.returned (replayed : Replayed env s sessionId params done) : ∃ view, done.2 = .input view := by
  cases replayed
  exact ⟨_, rfl⟩

theorem Admitted.returned (admitted : Admitted env s sessionId params now done) : ∃ view, done.2 = .input view := by
  cases admitted
  exact ⟨_, rfl⟩

/-- Exactly one of the three things happens. -/
def Decided (env : Env) (s : Store) (sessionId : JsString) (params : NewInput) (now : ℤ) (done : Store × Output) : Prop :=
  (Refused s done ∧ ¬Replayed env s sessionId params done ∧ ¬Admitted env s sessionId params now done)
    ∨ (¬Refused s done ∧ Replayed env s sessionId params done ∧ ¬Admitted env s sessionId params now done)
    ∨ (¬Refused s done ∧ ¬Replayed env s sessionId params done ∧ Admitted env s sessionId params now done)

theorem createActorInput_decided :
    Decided env s sessionId params now (step env observer s now (.createActorInput sessionId params)) := by
  generalize same : step env observer s now (.createActorInput sessionId params) = done
  have apart : Refused s done → ¬Replayed env s sessionId params done ∧ ¬Admitted env s sessionId params now done := by
    intro refused
    constructor
    · intro replayed
      obtain ⟨view, returned⟩ := replayed.returned
      exact refused.not_returned view returned
    · intro admitted
      obtain ⟨view, returned⟩ := admitted.returned
      exact refused.not_returned view returned
  rcases same ▸ @createActorInput_cases env observer s sessionId params now with refused | replayed | admitted
  · exact .inl ⟨refused, apart refused⟩
  · exact .inr (.inl ⟨fun refused => (apart refused).1 replayed, replayed, fun admitted => replayed.known admitted.new⟩)
  · exact .inr (.inr ⟨fun refused => (apart refused).2 admitted, fun replayed => replayed.known admitted.new, admitted⟩)

end Outcomes

section Limits

structure Limits where
  pending : JsString → ℕ
  bytes : JsString → ℕ
  allBytes : ℕ

/-- An admission gives the limits of its session and the global one. -/
def Limits.admitting (limits : Limits) (sessionId : JsString) (params : NewInput) : Limits where
  pending id := if id = sessionId then params.pendingLimit else limits.pending id
  bytes id := if id = sessionId then params.pendingBytesLimit else limits.bytes id
  allBytes := params.globalPendingBytesLimit

/-- The limits in force after a call: those of the call when it adds a pending row. -/
def Limits.after (env : Env) (limits : Limits) (s : Store) (event : Event) : Limits :=
  match event.op with
  | .createActorInput sessionId params =>
    if (s.inputs.count fun _ _ => true) < (act env s event).inputs.count fun _ _ => true then limits.admitting sessionId params
    else limits
  | _ => limits

/-- The store after a run with the limits that the last admissions gave. -/
def runLimited (env : Env) (events : List Event) : Store × Limits :=
  events.foldl (fun (s, limits) event => (act env s event, limits.after env s event)) (.empty, ⟨fun _ => 0, fun _ => 0, 0⟩)

/-- The pending rows stay within the limits. -/
structure Limits.Hold (limits : Limits) (s : Store) : Prop where
  pending : ∀ id, (s.inputs.count fun _ row => row.sessionId = id) ≤ limits.pending id
  bytes : ∀ id, (pendingBytes s.inputs fun row => row.sessionId = id) ≤ limits.bytes id
  allBytes : (pendingBytes s.inputs fun _ => true) ≤ limits.allBytes

variable {env : Env} {w : Writes} {s t : Store} {limits : Limits}

/-- No row is added, and none gets heavier. -/
def Lightens (s t : Store) : Prop :=
  ∀ id row, t.inputs.get? id = some row → ∃ old, s.inputs.get? id = some old ∧ InputKept old row

theorem Lightens.refl (s : Store) : Lightens s s := fun _ row stored => ⟨row, stored, .refl row⟩

theorem InputKept.trans {a b c : ActorInput} (first : InputKept a b) (second : InputKept b c) : InputKept a c :=
  ⟨second.sessionId.trans first.sessionId, second.digest.trans first.digest, second.body.trans first.body,
    second.images.trans first.images, second.location.trans first.location⟩

theorem Lightens.trans {u : Store} (first : Lightens s t) (second : Lightens t u) : Lightens s u := by
  intro id row stored
  obtain ⟨middle, between, later⟩ := second id row stored
  obtain ⟨old, found, earlier⟩ := first id middle between
  exact ⟨old, found, earlier.trans later⟩

/-- Only the call that admits inputs adds a row. -/
theorem Move.lightens {emission : Option Unit} (move : Move w s emission t) (closed : w.receives = false) : Lightens s t := by
  cases move with
  | receive _ _ _ written => exact absurd (closed.symm.trans written) Bool.false_ne_true
  | rewrite kept => exact fun _ _ stored => kept.before stored
  | settle found =>
    intro id row stored
    rw [Store.settleInput, Table.get?_delete] at stored
    exact Lightens.refl s id row (Option.filter_eq_some_iff.mp stored).1
  | bury _ buries =>
    intro id row stored
    rw [buries.inputs] at stored
    exact Lightens.refl s id row (Option.filter_eq_some_iff.mp stored).1
  | clear unchanged =>
    rw [unchanged]
    exact .refl s
  | _ => exact .refl s

theorem Acts.lightens (acts : Acts w s t) (closed : w.receives = false) : Lightens s t := by
  obtain ⟨emitted, trace, _⟩ := acts
  exact trace.relates Lightens.refl (fun _ _ _ => Lightens.trans) fun _ _ _ move => move.lightens closed

theorem pendingBytes_eq (inputs : Table JsString ActorInput) (among : ActorInput → Bool) :
    pendingBytes inputs among = inputs.weigh fun _ row => if among row then row.bytes else 0 := by
  rw [pendingBytes, Table.sum_collect]
  congr 1
  funext _ row
  split <;> rfl

theorem Lightens.weigh (lightens : Lightens s t) {f : ActorInput → ℕ} (steady : ∀ a b, InputKept a b → f b = f a) :
    (t.inputs.weigh fun _ => f) ≤ s.inputs.weigh fun _ => f := by
  apply Table.weigh_le
  intro id row stored
  obtain ⟨old, found, kept⟩ := lightens id row stored
  exact ⟨old, found, (steady old row kept).le⟩

theorem InputKept.bytes {a b : ActorInput} (kept : InputKept a b) : b.bytes = a.bytes := by
  rw [ActorInput.bytes, ActorInput.bytes, kept.body, kept.images, kept.location]

theorem Limits.Hold.lighten (hold : limits.Hold s) (lightens : Lightens s t) : limits.Hold t := by
  constructor
  · intro id
    refine le_trans ?_ (hold.pending id)
    rw [Table.count_eq_weigh, Table.count_eq_weigh]
    exact lightens.weigh fun a b kept => by rw [kept.sessionId]
  · intro id
    refine le_trans ?_ (hold.bytes id)
    rw [pendingBytes_eq, pendingBytes_eq]
    exact lightens.weigh fun a b kept => by rw [kept.sessionId, kept.bytes]
  · refine le_trans ?_ hold.allBytes
    rw [pendingBytes_eq, pendingBytes_eq]
    exact lightens.weigh fun a b kept => by rw [kept.bytes]

theorem Limits.Hold.admit (hold : limits.Hold s) {sessionId : JsString} {params : NewInput} {now : ℤ} {done : Store × Output}
    (admitted : Admitted env s sessionId params now done) : (limits.admitting sessionId params).Hold done.1 := by
  cases admitted with
  | @intro terms receipts inputs sessions draws _ _ queued room fits fitsAll =>
    have heavier (among : ActorInput → Bool) : pendingBytes inputs among = pendingBytes s.inputs among
        + if among (.admitted sessionId params terms now) then payloadBytes params.message params.images terms.location else 0 := by
      rw [pendingBytes_eq, pendingBytes_eq, Table.weigh_insert queued]
      rfl
    constructor
    · intro id
      dsimp only [Limits.admitting]
      rw [Table.count_insert queued]
      by_cases same : id = sessionId
      · subst same
        rw [if_pos rfl]
        split <;> omega
      · rw [if_neg same, if_neg fun mine => same (of_decide_eq_true mine).symm]
        exact hold.pending id
    · intro id
      dsimp only [Limits.admitting]
      rw [heavier]
      by_cases same : id = sessionId
      · subst same
        rw [if_pos rfl]
        split <;> omega
      · rw [if_neg same, if_neg fun mine => same (of_decide_eq_true mine).symm]
        exact hold.bytes id
    · dsimp only [Limits.admitting]
      rw [heavier, if_pos rfl]
      exact fitsAll

/-- An admission adds a pending row, and the other calls of `createActorInput` leave them. -/
theorem Limits.Hold.create (hold : limits.Hold s) {observer : Option JsString} {now : ℤ} {sessionId : JsString}
    {params : NewInput} : (limits.after env s ⟨now, observer, .createActorInput sessionId params⟩).Hold
      (act env s ⟨now, observer, .createActorInput sessionId params⟩) := by
  unfold Limits.after act
  dsimp only
  rcases @createActorInput_cases env observer s sessionId params now with refused | replayed | admitted
  · obtain ⟨failure, same⟩ := refused
    rw [same, if_neg (lt_irrefl _)]
    exact hold
  · generalize step env observer s now (.createActorInput sessionId params) = done at replayed ⊢
    cases replayed with
    | intro =>
      rw [if_neg (lt_irrefl _)]
      exact ⟨hold.pending, hold.bytes, hold.allBytes⟩
  · have holds := hold.admit admitted
    generalize step env observer s now (.createActorInput sessionId params) = done at admitted holds ⊢
    have more : (s.inputs.count fun _ _ => true) < done.1.inputs.count fun _ _ => true := by
      cases admitted with
      | intro _ _ _ queued =>
        rw [Table.count_insert queued, if_pos rfl]
        exact Nat.lt_succ_self _
    rw [if_pos more]
    exact holds

theorem Limits.Hold.act (hold : limits.Hold s) (event : Event) : (limits.after env s event).Hold (act env s event) := by
  obtain ⟨now, observer, op⟩ := event
  have acts : Acts op.writes s (step env observer s now op).1 := step_acts op
  cases op with
  | createActorInput => exact hold.create
  | _ => exact hold.lighten (acts.lightens rfl)

theorem runLimited_store (events : List Event) : (runLimited env events).1 = run env events := by
  unfold runLimited run
  generalize Store.empty = s
  generalize (⟨fun _ => 0, fun _ => 0, 0⟩ : Limits) = limits
  induction events generalizing s limits with
  | nil => rfl
  | cons event rest ih => exact ih _ _

theorem runLimited_hold (events : List Event) : (runLimited env events).2.Hold (run env events) := by
  rw [← runLimited_store]
  unfold runLimited
  have start : (⟨fun _ => 0, fun _ => 0, 0⟩ : Limits).Hold .empty := ⟨fun _ => le_rfl, fun _ => le_rfl, le_rfl⟩
  generalize Store.empty = s at start ⊢
  generalize (⟨fun _ => 0, fun _ => 0, 0⟩ : Limits) = limits at start ⊢
  induction events generalizing s limits with
  | nil => exact start
  | cons event rest ih => exact ih _ _ (start.act event)

/-- In every state a call of `createActorInput` throws, replays or admits, and in every reachable state the pending rows are
within the limits of the last admissions. -/
theorem createActorInput_admission (env : Env) :
    (∀ observer s sessionId params now,
      Decided env s sessionId params now (step env observer s now (.createActorInput sessionId params)))
      ∧ ∀ events, (runLimited env events).2.Hold (run env events) :=
  ⟨fun _ _ _ _ _ => createActorInput_decided, runLimited_hold⟩

end Limits

end PersistentHarness.SessionStore
