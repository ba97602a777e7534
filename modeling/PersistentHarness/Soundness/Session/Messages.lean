import PersistentHarness.Soundness.Session.Deleted

/-! # Family messages over runs

A call moves a message at most one state on, and no state comes back. The transcript entry of a message is what
queues it, so an accepted message has none and the entry of a queued one stays.
-/

namespace PersistentHarness.SessionStore

/-- Messages that the target is to see or has seen. -/
def MessageState.sent : MessageState → Bool
  | .queued | .delivered | .acknowledged => true
  | .accepted | .rejected => false

/-- How far a message has come. -/
def MessageState.rank : MessageState → ℕ
  | .accepted => 0
  | .queued => 1
  | .delivered => 2
  | .acknowledged => 3
  | .rejected => 4

structure MessagesSound (s : Store) : Prop where
  accepted : ∀ id row, s.messages.get? id = some row → row.state = .accepted → row.senderEntryId = none
  sent : ∀ id row, s.messages.get? id = some row → row.state.sent = true →
    row.senderEntryId.isSome = true ∨ row.childExitGeneration.isSome = true
  entries : ∀ id other row row' entryId, s.messages.get? id = some row → s.messages.get? other = some row' →
    row.senderId = row'.senderId → row.senderEntryId = some entryId → row'.senderEntryId = some entryId → id = other

/-- What a message keeps, whatever its state becomes. -/
structure MessageKept (a b : Message) : Prop where
  senderId : b.senderId = a.senderId
  targetId : b.targetId = a.targetId
  relationship : b.relationship = a.relationship
  body : b.body = a.body
  entry : ∀ entryId, a.senderEntryId = some entryId → b.senderEntryId = some entryId

structure MessageMoved (a b : Message) : Prop extends MessageKept a b where
  state : b.state = a.state ∨ a.state.Next b.state

structure MessageLater (a b : Message) : Prop extends MessageKept a b where
  state : Relation.ReflTransGen MessageState.Next a.state b.state

/-- The messages of a store are still there, each related to what it was. -/
def MessagesKept (R : Message → Message → Prop) (s t : Store) : Prop :=
  ∀ id row, s.messages.get? id = some row → ∃ later, t.messages.get? id = some later ∧ R row later

section Rows

theorem MessageKept.refl (a : Message) : MessageKept a a := ⟨rfl, rfl, rfl, rfl, fun _ => id⟩

theorem MessageKept.trans {a b c : Message} (first : MessageKept a b) (second : MessageKept b c) : MessageKept a c :=
  ⟨second.senderId.trans first.senderId, second.targetId.trans first.targetId, second.relationship.trans first.relationship,
    second.body.trans first.body, fun entryId set => second.entry entryId (first.entry entryId set)⟩

theorem MessageMoved.refl (a : Message) : MessageMoved a a := ⟨.refl a, .inl rfl⟩

theorem MessageLater.refl (a : Message) : MessageLater a a := ⟨.refl a, .refl⟩

theorem MessageLater.trans {a b c : Message} (first : MessageLater a b) (second : MessageLater b c) : MessageLater a c :=
  ⟨first.toMessageKept.trans second.toMessageKept, first.state.trans second.state⟩

theorem MessageMoved.later {a b : Message} (moved : MessageMoved a b) : MessageLater a b := by
  refine ⟨moved.toMessageKept, ?_⟩
  rcases moved.state with same | next
  · rw [same]
  · exact .single next

theorem MessageStep.moved {a b : Message} (step : MessageStep a b) (unrecorded : a.state = .accepted → a.senderEntryId = none) :
    MessageMoved a b := by
  refine ⟨⟨step.senderId, step.targetId, step.relationship, step.body, fun entryId set => ?_⟩, step.state⟩
  rcases step.entry with same | accepted
  · rw [same, set]
  · rw [unrecorded accepted] at set
    cases set

theorem MessageState.Next.rank_lt {a b : MessageState} (next : a.Next b) : a.rank < b.rank := by
  cases next with
  | reject waiting => cases a <;> first | decide | cases waiting
  | _ => decide

theorem rank_le {a b : MessageState} (later : Relation.ReflTransGen MessageState.Next a b) : a.rank ≤ b.rank := by
  induction later with
  | refl => exact Nat.le_refl _
  | tail _ next ih => exact ih.trans next.rank_lt.le

theorem eq_of_final {a b : MessageState} (later : Relation.ReflTransGen MessageState.Next a b)
    (final : a = .acknowledged ∨ a = .rejected) : b = a := by
  induction later with
  | refl => rfl
  | tail _ next ih =>
    subst ih
    rcases final with rfl | rfl
    · cases next with
      | reject waiting => cases waiting
    · cases next with
      | reject waiting => cases waiting

end Rows

section Moves

variable {w : Writes} {s t : Store}

theorem messagesSound_empty : MessagesSound .empty where
  accepted := by rintro id row ⟨⟩
  sent := by rintro id row ⟨⟩
  entries := by rintro id other row row' entryId ⟨⟩

theorem MessagesSound.step (sound : MessagesSound s) {id : JsString} {row next : Message}
    (found : s.messages.get? id = some row) (step : MessageStep row next) :
    (next.state = .accepted → next.senderEntryId = none)
      ∧ (next.state.sent = true → next.senderEntryId.isSome = true ∨ next.childExitGeneration.isSome = true) := by
  refine ⟨fun accepted => ?_, fun sent => ?_⟩
  · rw [step.unrecorded accepted]
    exact sound.accepted id row found (step.accepted accepted)
  · by_cases waited : row.state = .accepted
    · have queued : next.state = .queued := by
        rcases step.state with same | gone
        · rw [same, waited] at sent
          cases sent
        · generalize next.state = later at gone sent
          rw [waited] at gone
          cases gone with
          | queue => rfl
          | reject => cases sent
      exact .inl (step.recorded waited queued)
    · have before : row.state.sent = true := by
        rcases step.state with same | gone
        · rwa [same] at sent
        · generalize next.state = later at gone sent
          generalize row.state = earlier at gone waited
          cases gone with
          | queue => exact absurd rfl waited
          | reject => cases sent
          | _ => rfl
      have kept : next.senderEntryId = row.senderEntryId := step.entry.resolve_right waited
      rw [kept, step.childExitGeneration]
      exact sound.sent id row found before

/-- Messages that waited are rejected; no entry changes. -/
theorem MessagesSound.drop (sound : MessagesSound s) (drops : s.messages.Evolves MessageDrops t.messages) :
    MessagesSound t where
  accepted id row stored accepted := by
    obtain ⟨old, found, drop⟩ := drops.before stored
    exact (sound.step found drop.step).1 accepted
  sent id row stored sent := by
    obtain ⟨old, found, drop⟩ := drops.before stored
    exact (sound.step found drop.step).2 sent
  entries id other row row' entryId stored stored' sender entry entry' := by
    obtain ⟨old, found, drop⟩ := drops.before stored
    obtain ⟨old', found', drop'⟩ := drops.before stored'
    exact sound.entries id other old old' entryId found found'
      (drop.parties.1.symm.trans (sender.trans drop'.parties.1)) (drop.entry ▸ entry) (drop'.entry ▸ entry')

theorem MessagesSound.post (sound : MessagesSound s) {new : JsString} {message : Message} {messages : Table JsString Message}
    (inserted : s.messages.insert? new message = some messages) (opened : Opened s message) :
    MessagesSound { s with messages } where
  accepted id row stored accepted := by
    rw [Table.get?_insert inserted] at stored
    split at stored
    · cases stored
      exact opened.entry
    · exact sound.accepted id row stored accepted
  sent id row stored sent := by
    rw [Table.get?_insert inserted] at stored
    split at stored
    · cases stored
      rcases opened.opened with ⟨accepted, _, _⟩ | ⟨_, generation⟩
      · rw [accepted] at sent
        cases sent
      · exact .inr generation
    · exact sound.sent id row stored sent
  entries id other row row' entryId stored stored' sender entry entry' := by
    rw [Table.get?_insert inserted] at stored stored'
    split at stored
    · cases stored
      rw [opened.entry] at entry
      cases entry
    · split at stored'
      · cases stored'
        rw [opened.entry] at entry'
        cases entry'
      · exact sound.entries id other row row' entryId stored stored' sender entry entry'

theorem MessagesSound.advance (sound : MessagesSound s) {moved : JsString} {message next : Message}
    (found : s.messages.get? moved = some message) (step : MessageStep message next)
    (fresh : next.senderEntryId = message.senderEntryId ∨ ∀ entryId, next.senderEntryId = some entryId →
      senderEntryTaken s next.senderId entryId moved = false) :
    MessagesSound { s with messages := s.messages.update moved fun _ => next } := by
  -- the entry of the message that moves is no other message's
  have alone : ∀ id row entryId, id ≠ moved → s.messages.get? id = some row → row.senderId = next.senderId →
      row.senderEntryId = some entryId → next.senderEntryId = some entryId → False := by
    intro id row entryId other stored sender entry here
    rcases fresh with same | free
    · exact other (sound.entries id moved row message entryId stored found (sender.trans step.senderId) entry (same ▸ here))
    · have untaken := Table.any_eq_false.mp (free entryId here) id row stored
      simp [other, sender, entry] at untaken
  refine ⟨fun id row stored accepted => ?_, fun id row stored sent => ?_, ?_⟩
  · rw [Table.get?_update_of found] at stored
    split at stored
    · cases stored
      exact (sound.step found step).1 accepted
    · exact sound.accepted id row stored accepted
  · rw [Table.get?_update_of found] at stored
    split at stored
    · cases stored
      exact (sound.step found step).2 sent
    · exact sound.sent id row stored sent
  · intro id other row row' entryId stored stored' sender entry entry'
    rw [Table.get?_update_of found] at stored stored'
    split at stored <;> split at stored'
    · next here here' => exact here.trans here'.symm
    · next different =>
      cases stored
      exact (alone other row' entryId different stored' sender.symm entry' entry).elim
    · next different _ =>
      cases stored'
      exact (alone id row entryId different stored sender entry entry').elim
    · exact sound.entries id other row row' entryId stored stored' sender entry entry'

theorem Move.messagesSound {emission : Option Unit} (move : Move w s emission t) (sound : MessagesSound s) : MessagesSound t := by
  cases move with
  | post inserted opened => exact sound.post inserted opened
  | advance found step fresh => exact sound.advance found step fresh
  | clear same tasks messages => exact sound.drop (messages.mono fun _ _ ends => ends.toMessageDrops)
  | bury _ buries => exact sound.drop (buries.messages.mono fun _ _ ends => ends.toMessageDrops)
  | _ => exact ⟨sound.accepted, sound.sent, sound.entries⟩

theorem Move.moved {emission : Option Unit} (move : Move w s emission t) (sound : MessagesSound s) :
    MessagesKept MessageMoved s t := by
  intro id row stored
  have step : ∀ next, MessageStep row next → MessageMoved row next := fun _ step => step.moved (sound.accepted id row stored)
  cases move with
  | @post new message messages inserted =>
    refine ⟨row, ?_, .refl row⟩
    rw [Table.get?_insert inserted, if_neg, stored]
    rintro rfl
    rw [Table.fresh_of_insert? inserted] at stored
    cases stored
  | @advance moved message next found advance =>
    by_cases here : id = moved
    · subst here
      cases found.symm.trans stored
      exact ⟨next, by rw [Table.get?_update_of found, if_pos rfl], step next advance⟩
    · exact ⟨row, by rw [Table.get?_update_of found, if_neg here, stored], .refl row⟩
  | clear same tasks messages =>
    obtain ⟨next, found, ends⟩ := messages.after stored
    exact ⟨next, found, step next ends.step⟩
  | bury _ buries =>
    obtain ⟨next, found, ends⟩ := buries.messages.after stored
    exact ⟨next, found, step next ends.step⟩
  | _ => exact ⟨row, stored, .refl row⟩

/-- Moves that emit nothing leave the messages alone. -/
theorem Move.messages (move : Move w s none t) : t.messages = s.messages := by
  cases move <;> rfl

end Moves

section Calls

variable {env : Env} {w : Writes} {s t : Store}

theorem Acts.messagesSound (acts : Acts w s t) (sound : MessagesSound s) : MessagesSound t := by
  obtain ⟨emitted, trace, _⟩ := acts
  exact trace.preserves (fun _ _ _ move => move.messagesSound) sound

theorem Acts.moved (acts : Acts w s t) (sound : MessagesSound s) : MessagesKept MessageMoved s t := by
  obtain ⟨emitted, trace, once⟩ := acts
  refine trace.at_most_one_step (R := fun s t => MessagesSound s → MessagesKept MessageMoved s t) ?_ ?_ ?_ ?_ once sound
  · exact fun s _ id row stored => ⟨row, stored, .refl row⟩
  · intro s t u move rest sound id row stored
    exact rest (move.messagesSound sound) id row (move.messages ▸ stored)
  · intro s t u first move sound id row stored
    rw [move.messages]
    exact first sound id row stored
  · exact fun s e t move sound => move.moved sound

theorem createMessage_replay {params : NewMessage} {id : JsString} {existing : Message} (replayed : params.messageId = some id)
    (stored : s.messages.get? id = some existing) (senderId : JsString) (pendingLimit : ℕ) (now : ℤ) :
    Checked.Ensures (createMessage env s senderId params pendingLimit now) fun done => done = (s, ⟨id, existing⟩) := by
  unfold createMessage
  refine .bind (.any _) fun _ _ => .bind (.any _) fun _ _ => .bind (.any _) fun target _ => ?_
  refine .bind (.any _) fun _ _ => .bind (.any _) fun _ _ => ?_
  rw [newMessageId, replayed]
  dsimp only
  rw [stored]
  exact .bind (.any _) fun _ _ => .pure rfl

end Calls

section Runs

variable {env : Env}

theorem run_messagesSound (events : List Event) : MessagesSound (run env events) :=
  run_induction messagesSound_empty (fun _ _ _ acts => acts.messagesSound) events

theorem run_messagesKept (events more : List Event) :
    MessagesKept MessageLater (run env events) (run env (events ++ more)) := by
  refine run_relates (R := fun s t => MessagesSound s → MessagesSound t ∧ MessagesKept MessageLater s t) ?_ ?_ ?_ events more
    (run_messagesSound events) |>.2
  · exact fun s sound => ⟨sound, fun id row stored => ⟨row, stored, .refl row⟩⟩
  · intro s t u first second sound
    obtain ⟨between, kept⟩ := first sound
    obtain ⟨last, kept'⟩ := second between
    refine ⟨last, fun id row stored => ?_⟩
    obtain ⟨middle, found, later⟩ := kept id row stored
    obtain ⟨final, found', later'⟩ := kept' id middle found
    exact ⟨final, found', later.trans later'⟩
  · intro w s t acts sound
    refine ⟨acts.messagesSound sound, fun id row stored => ?_⟩
    obtain ⟨next, found, moved⟩ := acts.moved sound id row stored
    exact ⟨next, found, moved.later⟩

/-- A message is queued after `n` calls and delivered after the next one. -/
def Delivers (env : Env) (events : List Event) (id : JsString) (n : ℕ) : Prop :=
  (∃ row, (run env (events.take n)).messages.get? id = some row ∧ row.state = .queued)
    ∧ ∃ row, (run env (events.take (n + 1))).messages.get? id = some row ∧ row.state = .delivered

/-- What is delivered once does not wait in a queue later. -/
theorem delivers_not_lt {events : List Event} {id : JsString} {m n : ℕ} (first : Delivers env events id m)
    (second : Delivers env events id n) : ¬m < n := by
  intro before
  obtain ⟨_, row, stored, delivered⟩ := first
  obtain ⟨⟨queued, found, waits⟩, _⟩ := second
  obtain ⟨rest, split⟩ := List.take_prefix_take_left (l := events) (show m + 1 ≤ n from before)
  rw [← split] at found
  obtain ⟨later, found', kept⟩ := run_messagesKept (events.take (m + 1)) rest id row stored
  cases found'.symm.trans found
  have grows := rank_le kept.state
  rw [delivered, waits] at grows
  simp [MessageState.rank] at grows

/-- Messages move forward only, a call at most one state, and are delivered at most once; a replay changes nothing. -/
theorem run_messages (env : Env) (events : List Event) :
    MessagesSound (run env events)
      ∧ (∀ event, MessagesKept MessageMoved (run env events) (run env (events ++ [event])))
      ∧ (∀ more, MessagesKept MessageLater (run env events) (run env (events ++ more)))
      ∧ (∀ more id row, (run env events).messages.get? id = some row → row.state = .acknowledged ∨ row.state = .rejected →
        ∃ later, (run env (events ++ more)).messages.get? id = some later ∧ later.state = row.state)
      ∧ (∀ id m n, Delivers env events id m → Delivers env events id n → m = n)
      ∧ ∀ observer now senderId (params : NewMessage) limit id existing, params.messageId = some id →
        (run env events).messages.get? id = some existing →
        step env observer (run env events) now (.createMessage senderId params limit)
            = (run env events, .message ⟨id, existing⟩ false)
          ∨ ∃ failure, step env observer (run env events) now (.createMessage senderId params limit)
            = (run env events, .thrown failure) := by
  refine ⟨run_messagesSound events, fun event => ?_, run_messagesKept events, fun more id row stored final => ?_,
    fun id m n first second => ?_, ?_⟩
  · rw [run, run, List.foldl_append]
    exact (step_acts event.op).moved (run_messagesSound events)
  · obtain ⟨later, found, kept⟩ := run_messagesKept events more id row stored
    exact ⟨later, found, eq_of_final kept.state final⟩
  · rcases Nat.lt_trichotomy m n with before | same | after
    · exact (delivers_not_lt first second before).elim
    · exact same
    · exact (delivers_not_lt second first after).elim
  · intro observer now senderId params limit id existing replayed stored
    have outcome := @createMessage_replay env _ _ _ _ replayed stored senderId limit now
    rw [step]
    generalize createMessage env (run env events) senderId params limit now = result at outcome
    cases result with
    | error failure => exact .inr ⟨failure, rfl⟩
    | ok done =>
      cases outcome done rfl
      exact .inl rfl

end Runs

end PersistentHarness.SessionStore
