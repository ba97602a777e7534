import PersistentHarness.Soundness.Session.Deleted

/-! # Inputs and receipts

A pending input has a receipt without an outcome, and an outcome is final. The two tables are followed together
through every move, and from there through every run.
-/

namespace PersistentHarness.SessionStore

/-- A receipt keeps its identity, and what became of its input stays. -/
structure ReceiptLater (a b : Receipt) : Prop where
  sessionId : b.sessionId = a.sessionId
  digest : b.digest = a.digest
  createdAt : b.createdAt = a.createdAt
  sequence : b.sequence = a.sequence
  deliveredAt : ∀ time, a.deliveredAt = some time → b.deliveredAt = some time
  deliveredEntryId : ∀ entryId, a.deliveredEntryId = some entryId → b.deliveredEntryId = some entryId
  handledAt : ∀ time, a.handledAt = some time → b.handledAt = some time

/-- The receipt of a pending input: of the same session and digest, and without an outcome. -/
structure Awaits (receipt : Receipt) (input : ActorInput) : Prop where
  sessionId : receipt.sessionId = input.sessionId
  digest : receipt.digest = input.digest
  undelivered : receipt.deliveredAt = none
  unhandled : receipt.handledAt = none

structure InputsSound (s : Store) : Prop where
  pending : ∀ id input, s.inputs.get? id = some input → ∃ receipt, s.receipts.get? id = some receipt ∧ Awaits receipt input
  once : ∀ id receipt, s.receipts.get? id = some receipt → receipt.deliveredAt = none ∨ receipt.handledAt = none
  accepted : ∀ id receipt time, s.receipts.get? id = some receipt → receipt.deliveredAt = some time → receipt.createdAt ≤ time
  sequences : ∀ id other receipt receipt', s.receipts.get? id = some receipt → s.receipts.get? other = some receipt' →
    receipt.sequence = receipt'.sequence → id = other

/-- What holds between a store and a later one. -/
structure InputsLater (s t : Store) : Prop where
  kept : ∀ id receipt, s.receipts.get? id = some receipt → ∃ later, t.receipts.get? id = some later ∧ ReceiptLater receipt later
  admitted : ∀ id receipt, s.receipts.get? id = none → t.receipts.get? id = some receipt →
    ∀ other earlier, s.receipts.get? other = some earlier → earlier.sequence < receipt.sequence
  closed : ∀ id receipt, s.receipts.get? id = some receipt →
    receipt.deliveredAt ≠ none ∨ receipt.handledAt ≠ none ∨ s.Deleted receipt.sessionId → t.inputs.get? id = none

section Rows

theorem ReceiptLater.refl (a : Receipt) : ReceiptLater a a := ⟨rfl, rfl, rfl, rfl, fun _ => id, fun _ => id, fun _ => id⟩

theorem ReceiptLater.trans {a b c : Receipt} (first : ReceiptLater a b) (second : ReceiptLater b c) : ReceiptLater a c :=
  ⟨second.sessionId.trans first.sessionId, second.digest.trans first.digest, second.createdAt.trans first.createdAt,
    second.sequence.trans first.sequence, fun time set => second.deliveredAt time (first.deliveredAt time set),
    fun entryId set => second.deliveredEntryId entryId (first.deliveredEntryId entryId set),
    fun time set => second.handledAt time (first.handledAt time set)⟩

theorem ReceiptKept.later {a b : Receipt} (kept : ReceiptKept a b) : ReceiptLater a b :=
  ⟨kept.sessionId, kept.digest, kept.createdAt, kept.sequence, fun _ set => kept.deliveredAt.trans set,
    fun _ set => kept.deliveredEntryId.trans set, fun _ set => kept.handledAt.trans set⟩

theorem Settles.later {a b : Receipt} (settles : Settles a b) : ReceiptLater a b := by
  cases settles with
  | delivered now entryId _ =>
    refine ⟨rfl, rfl, rfl, rfl, fun time set => ?_, fun entryId set => ?_, fun _ => id⟩
    · rw [Receipt.deliver, set, Option.some_or]
    · rw [Receipt.deliver, set, Option.some_or]
  | handled now _ =>
    refine ⟨rfl, rfl, rfl, rfl, fun _ => id, fun _ => id, fun time set => ?_⟩
    rw [Receipt.handle, set, Option.some_or]

theorem Settles.once {a b : Receipt} (settles : Settles a b) : b.deliveredAt = none ∨ b.handledAt = none := by
  cases settles with
  | delivered _ _ unhandled => exact .inr unhandled
  | handled _ undelivered => exact .inl undelivered

/-- An input is delivered no earlier than it was accepted. -/
theorem Settles.accepted {a b : Receipt} (settles : Settles a b)
    (before : ∀ time, a.deliveredAt = some time → a.createdAt ≤ time) {time : ℤ} (set : b.deliveredAt = some time) :
    b.createdAt ≤ time := by
  cases settles with
  | delivered now entryId _ =>
    simp only [Receipt.deliver] at set
    rcases Option.or_eq_some_iff.mp set with earlier | ⟨_, here⟩
    · exact before time earlier
    · cases here
      exact le_max_right _ _
  | handled now undelivered => exact before time set

theorem le_foldl_max (sequences : List ℕ) (start : ℕ) :
    start ≤ sequences.foldl max start ∧ ∀ sequence ∈ sequences, sequence ≤ sequences.foldl max start := by
  induction sequences generalizing start with
  | nil => exact ⟨Nat.le_refl _, by rintro sequence ⟨⟩⟩
  | cons first rest ih =>
    obtain ⟨grows, bounds⟩ := ih (max start first)
    refine ⟨(Nat.le_max_left ..).trans grows, fun sequence member => ?_⟩
    rcases List.mem_cons.mp member with rfl | later
    · exact (Nat.le_max_right ..).trans grows
    · exact bounds sequence later

/-- A new sequence number is above all others. -/
theorem lt_nextSequence {receipts : Table JsString Receipt} {id : JsString} {receipt : Receipt}
    (stored : receipts.get? id = some receipt) : receipt.sequence < nextSequence receipts :=
  Nat.lt_succ_of_le ((le_foldl_max _ 0).2 _ (Table.mem_collect.mpr ⟨id, receipt, stored, rfl⟩))

end Rows

section Moves

variable {w : Writes} {s t : Store}

structure ReceiptsMove (s t : Store) : Prop where
  kept : ∀ id receipt, s.receipts.get? id = some receipt → ∃ later, t.receipts.get? id = some later ∧ ReceiptLater receipt later
  admitted : ∀ id receipt, s.receipts.get? id = none → t.receipts.get? id = some receipt →
    ∀ other earlier, s.receipts.get? other = some earlier → earlier.sequence < receipt.sequence

theorem ReceiptsMove.refl (s : Store) : ReceiptsMove s s where
  kept _ receipt stored := ⟨receipt, stored, .refl receipt⟩
  admitted _ _ fresh stored := by
    rw [fresh] at stored
    cases stored

theorem ReceiptsMove.trans {u : Store} (first : ReceiptsMove s t) (second : ReceiptsMove t u) : ReceiptsMove s u where
  kept id receipt stored := by
    obtain ⟨middle, found, later⟩ := first.kept id receipt stored
    obtain ⟨last, found', later'⟩ := second.kept id middle found
    exact ⟨last, found', later.trans later'⟩
  admitted id receipt fresh stored other earlier old := by
    obtain ⟨middle, found, later⟩ := first.kept other earlier old
    cases here : t.receipts.get? id with
    | none =>
      rw [← later.sequence]
      exact second.admitted id receipt here stored other middle found
    | some between =>
      obtain ⟨last, found', later'⟩ := second.kept id between here
      cases found'.symm.trans stored
      rw [later'.sequence]
      exact first.admitted id between fresh here other earlier old

/-- A rewrite of receipts admits none. -/
theorem receiptsMove_of_evolves {receipts : Table JsString Receipt} (kept : s.receipts.Evolves ReceiptLater receipts) :
    ReceiptsMove s { s with receipts } where
  kept _ _ stored := kept.after stored
  admitted id receipt fresh stored := by
    obtain ⟨old, found, _⟩ := kept.before stored
    rw [fresh] at found
    cases found

theorem settle_evolves {id : JsString} {receipt : Receipt} {f : Receipt → Receipt}
    (found : s.receipts.get? id = some receipt) (settles : Settles receipt (f receipt)) :
    s.receipts.Evolves ReceiptLater (s.receipts.update id f) := by
  refine .update ReceiptLater.refl fun stored here => ?_
  cases found.symm.trans here
  exact settles.later

theorem Move.receipts {emission : Option Unit} (move : Move w s emission t) : ReceiptsMove s t := by
  cases move with
  | @receive new receipt input receipts inputs recorded queued admits =>
    refine ⟨fun id old stored => ⟨old, ?_, .refl old⟩, fun id old fresh stored other earlier before => ?_⟩
    · rw [Table.get?_insert recorded, if_neg, stored]
      rintro rfl
      rw [Table.fresh_of_insert? recorded] at stored
      cases stored
    · rw [Table.get?_insert recorded] at stored
      split at stored
      · cases stored
        rw [admits.sequence]
        exact lt_nextSequence before
      · rw [fresh] at stored
        cases stored
  | annotate kept => exact receiptsMove_of_evolves (kept.mono fun _ _ => ReceiptKept.later)
  | settle found settles =>
    have moved := receiptsMove_of_evolves (settle_evolves found settles)
    exact ⟨moved.kept, moved.admitted⟩
  | clear same =>
    rw [same]
    exact ⟨(ReceiptsMove.refl s).kept, (ReceiptsMove.refl s).admitted⟩
  | bury _ buries =>
    refine ⟨fun id receipt stored => ⟨receipt, buries.receipts ▸ stored, .refl receipt⟩, fun id receipt fresh stored => ?_⟩
    rw [buries.receipts, fresh] at stored
    cases stored
  | _ => exact ⟨(ReceiptsMove.refl s).kept, (ReceiptsMove.refl s).admitted⟩

/-- Receipts stay, with the session and the retry intent that they were made with. -/
def IntentsKept (s t : Store) : Prop :=
  ∀ id receipt, s.receipts.get? id = some receipt →
    ∃ later, t.receipts.get? id = some later ∧ later.sessionId = receipt.sessionId
      ∧ later.retryIntent = receipt.retryIntent

theorem IntentsKept.refl (s : Store) : IntentsKept s s := fun _ receipt stored => ⟨receipt, stored, rfl, rfl⟩

theorem IntentsKept.trans {u : Store} (first : IntentsKept s t) (second : IntentsKept t u) : IntentsKept s u := by
  intro id receipt stored
  obtain ⟨middle, found, sameSession, sameIntent⟩ := first id receipt stored
  obtain ⟨last, found', sameSession', sameIntent'⟩ := second id middle found
  exact ⟨last, found', sameSession'.trans sameSession, sameIntent'.trans sameIntent⟩

theorem Settles.retryIntent {a b : Receipt} (settles : Settles a b) : b.retryIntent = a.retryIntent := by
  cases settles <;> rfl

theorem Move.intents {emission : Option Unit} (move : Move w s emission t) : IntentsKept s t := by
  cases move with
  | @receive new receipt input receipts inputs recorded queued admits =>
    intro id old stored
    refine ⟨old, ?_, rfl, rfl⟩
    rw [Table.get?_insert recorded, if_neg, stored]
    rintro rfl
    rw [Table.fresh_of_insert? recorded] at stored
    cases stored
  | annotate kept =>
    intro id old stored
    obtain ⟨later, found, kept⟩ := kept.after stored
    exact ⟨later, found, kept.sessionId, kept.retryIntent⟩
  | @settle id receipt f found settles =>
    intro other old stored
    refine ⟨if other = id then f old else old, ?_, ?_⟩
    · change (s.receipts.update id f).get? other = _
      rw [Table.get?_update, stored]
      split <;> rfl
    · split
      next same =>
        subst same
        cases found.symm.trans stored
        exact ⟨settles.later.sessionId, settles.retryIntent⟩
      next => exact ⟨rfl, rfl⟩
  | clear same =>
    rw [same]
    exact IntentsKept.refl s
  | bury _ buries => exact fun id receipt stored => ⟨receipt, buries.receipts ▸ stored, rfl, rfl⟩
  | _ => exact IntentsKept.refl s

theorem inputsSound_empty : InputsSound .empty where
  pending := by rintro id input ⟨⟩
  once := by rintro id receipt ⟨⟩
  accepted := by rintro id receipt time ⟨⟩
  sequences := by rintro id other receipt receipt' ⟨⟩

/-- A rewrite of receipts that leaves pending ones without an outcome. -/
theorem InputsSound.annotate (sound : InputsSound s) {receipts : Table JsString Receipt}
    (kept : s.receipts.Evolves ReceiptKept receipts) : InputsSound { s with receipts } where
  pending id input stored := by
    obtain ⟨receipt, found, awaits⟩ := sound.pending id input stored
    obtain ⟨next, found', same⟩ := kept.after found
    exact ⟨next, found', same.sessionId.trans awaits.sessionId, same.digest.trans awaits.digest,
      same.deliveredAt.trans awaits.undelivered, same.handledAt.trans awaits.unhandled⟩
  once id receipt stored := by
    obtain ⟨old, found, same⟩ := kept.before stored
    rw [same.deliveredAt, same.handledAt]
    exact sound.once id old found
  accepted id receipt time stored set := by
    obtain ⟨old, found, same⟩ := kept.before stored
    rw [same.createdAt]
    exact sound.accepted id old time found (same.deliveredAt ▸ set)
  sequences id other receipt receipt' stored stored' equal := by
    obtain ⟨old, found, same⟩ := kept.before stored
    obtain ⟨old', found', same'⟩ := kept.before stored'
    exact sound.sequences id other old old' found found' (by rw [← same.sequence, ← same'.sequence, equal])

theorem InputsSound.receive (sound : InputsSound s) {new : JsString} {receipt : Receipt} {input : ActorInput}
    {receipts : Table JsString Receipt} {inputs : Table JsString ActorInput}
    (recorded : s.receipts.insert? new receipt = some receipts) (queued : s.inputs.insert? new input = some inputs)
    (admits : Admits s receipt input) : InputsSound { s with receipts, inputs } where
  pending id row stored := by
    rw [Table.get?_insert queued] at stored
    split at stored
    · next here =>
      cases stored
      exact ⟨receipt, (Table.get?_insert recorded id).trans (if_pos here), admits.sessionId.symm, admits.digest.symm,
        admits.undelivered, admits.unhandled⟩
    · next other =>
      obtain ⟨old, found, awaits⟩ := sound.pending id row stored
      exact ⟨old, ((Table.get?_insert recorded id).trans (if_neg other)).trans found, awaits⟩
  once id row stored := by
    rw [Table.get?_insert recorded] at stored
    split at stored
    · cases stored
      exact .inl admits.undelivered
    · exact sound.once id row stored
  accepted id row time stored set := by
    rw [Table.get?_insert recorded] at stored
    split at stored
    · cases stored
      rw [admits.undelivered] at set
      cases set
    · exact sound.accepted id row time stored set
  sequences id other row row' stored stored' equal := by
    rw [Table.get?_insert recorded] at stored stored'
    split at stored <;> split at stored'
    · next here here' => exact here.symm.trans here'
    · cases stored
      have := lt_nextSequence stored'
      rw [admits.sequence] at equal
      omega
    · cases stored'
      have := lt_nextSequence stored
      rw [admits.sequence] at equal
      omega
    · exact sound.sequences id other row row' stored stored' equal

theorem InputsSound.settle (sound : InputsSound s) {done : JsString} {receipt : Receipt} {f : Receipt → Receipt}
    (found : s.receipts.get? done = some receipt) (settles : Settles receipt (f receipt)) :
    InputsSound (s.settleInput done receipt.sessionId f) where
  pending id row stored := by
    obtain ⟨old, keeps⟩ := Option.filter_eq_some_iff.mp ((Table.get?_delete ..).symm.trans stored)
    obtain ⟨waiting, recorded, awaits⟩ := sound.pending id row old
    have other : id ≠ done := by
      rintro rfl
      cases found.symm.trans recorded
      simp [awaits.sessionId] at keeps
    exact ⟨waiting, ((Table.get?_update_of found f id).trans (if_neg other)).trans recorded, awaits⟩
  once id row stored := by
    rw [Store.settleInput, Table.get?_update_of found] at stored
    split at stored
    · cases stored
      exact settles.once
    · exact sound.once id row stored
  accepted id row time stored set := by
    rw [Store.settleInput, Table.get?_update_of found] at stored
    split at stored
    · cases stored
      exact settles.accepted (fun time => sound.accepted done receipt time found) set
    · exact sound.accepted id row time stored set
  sequences id other row row' stored stored' equal := by
    obtain ⟨old, recorded, same⟩ := (settle_evolves found settles).before stored
    obtain ⟨old', recorded', same'⟩ := (settle_evolves found settles).before stored'
    exact sound.sequences id other old old' recorded recorded' (by rw [← same.sequence, ← same'.sequence, equal])

theorem InputsSound.rewrite (sound : InputsSound s) (receipts : t.receipts = s.receipts)
    (inputs : ∀ id row, t.inputs.get? id = some row → ∃ old, s.inputs.get? id = some old ∧ InputKept old row) :
    InputsSound t where
  pending id row stored := by
    obtain ⟨old, found, same⟩ := inputs id row stored
    obtain ⟨receipt, recorded, awaits⟩ := sound.pending id old found
    exact ⟨receipt, receipts ▸ recorded, awaits.sessionId.trans same.sessionId.symm, awaits.digest.trans same.digest.symm,
      awaits.undelivered, awaits.unhandled⟩
  once := receipts ▸ sound.once
  accepted := receipts ▸ sound.accepted
  sequences := receipts ▸ sound.sequences

theorem Move.inputsSound {emission : Option Unit} (move : Move w s emission t) (sound : InputsSound s) : InputsSound t := by
  have same : ∀ id row, s.inputs.get? id = some row → ∃ old, s.inputs.get? id = some old ∧ InputKept old row :=
    fun _ row stored => ⟨row, stored, .refl row⟩
  cases move with
  | receive recorded queued admits => exact sound.receive recorded queued admits
  | rewrite kept => exact sound.rewrite rfl fun _ _ => kept.before
  | annotate kept => exact sound.annotate kept
  | settle found settles => exact sound.settle found settles
  | clear unchanged =>
    rw [unchanged]
    exact sound.rewrite rfl same
  | bury _ buries =>
    refine sound.rewrite buries.receipts fun id row stored => ?_
    rw [buries.inputs] at stored
    exact same id row (Option.filter_eq_some_iff.mp stored).1
  | _ => exact sound.rewrite rfl same

end Moves

section Runs

variable {env : Env} {w : Writes} {s t : Store}

theorem Acts.inputsSound (acts : Acts w s t) (sound : InputsSound s) : InputsSound t := by
  obtain ⟨emitted, trace, _⟩ := acts
  exact trace.preserves (fun _ _ _ move => move.inputsSound) sound

theorem Acts.receipts (acts : Acts w s t) : ReceiptsMove s t := by
  obtain ⟨emitted, trace, _⟩ := acts
  exact trace.relates ReceiptsMove.refl (fun _ _ _ => ReceiptsMove.trans) fun _ _ _ move => move.receipts

theorem step_intents (observer : Option JsString) (store : Store) (now : ℤ) (op : Op) :
    IntentsKept store (step env observer store now op).1 := by
  have acts : Acts op.writes store (step env observer store now op).1 := step_acts op
  obtain ⟨emitted, trace, _⟩ := acts
  exact trace.relates IntentsKept.refl (fun _ _ _ => IntentsKept.trans) fun _ _ _ move => move.intents

theorem run_inputsSound (events : List Event) : InputsSound (run env events) :=
  run_induction inputsSound_empty (fun _ _ _ acts => acts.inputsSound) events

/-- Inputs and receipts agree after any calls, and no later call undoes an outcome or brings a done input back. -/
theorem run_inputs (env : Env) (events more : List Event) :
    InputsSound (run env events) ∧ InputsLater (run env events) (run env (events ++ more)) := by
  have moved : ReceiptsMove (run env events) (run env (events ++ more)) :=
    run_relates ReceiptsMove.refl (fun _ _ _ => ReceiptsMove.trans) (fun _ _ _ acts => acts.receipts) events more
  refine ⟨run_inputsSound events, moved.kept, moved.admitted, fun id receipt stored closed => ?_⟩
  obtain ⟨later, found, kept⟩ := moved.kept id receipt stored
  apply Option.eq_none_iff_forall_ne_some.mpr
  intro input pending
  obtain ⟨_, recorded, awaits⟩ := (run_inputsSound (events ++ more)).pending id input pending
  cases found.symm.trans recorded
  rcases closed with delivered | handled | deleted
  · obtain ⟨time, set⟩ := Option.ne_none_iff_exists'.mp delivered
    have undelivered := awaits.undelivered
    rw [kept.deliveredAt time set] at undelivered
    cases undelivered
  · obtain ⟨time, set⟩ := Option.ne_none_iff_exists'.mp handled
    have unhandled := awaits.unhandled
    rw [kept.handledAt time set] at unhandled
    cases unhandled
  · have gone := (run_cleared env events).2 more receipt.sessionId deleted
    rw [← kept.sessionId, awaits.sessionId] at gone
    exact (run_cleared env (events ++ more)).1.inputs id input pending gone

end Runs

end PersistentHarness.SessionStore
