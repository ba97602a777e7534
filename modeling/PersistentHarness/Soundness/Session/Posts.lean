import PersistentHarness.Soundness.Session.Moves

/-! # Calls on tasks and inputs

A task only moves on to its end. An input is admitted with its receipt, and an outcome is written into the
receipt as its pending row goes.
-/

namespace PersistentHarness.SessionStore

open Checked (Ensures)

variable {env : Env} {w : Writes} {s : Store}

section Tasks

theorem task_quiet {taskId : JsString} {row next : ChildTask} (found : s.tasks.get? taskId = some row)
    (kept : TaskKept row next) : Quiet w s { s with tasks := s.tasks.update taskId fun _ => next } := by
  refine .move (.work (.update TaskKept.refl fun stored here => ?_))
  cases found.symm.trans here
  exact kept

theorem markChildTaskSubmitted_quiet (taskId : JsString) (now : ℤ) :
    Ensures (markChildTaskSubmitted s taskId now) fun done => Quiet w s done.1 := by
  unfold markChildTaskSubmitted
  split
  · exact .error _
  · next row found =>
    obtain ⟨stored, queued⟩ := Option.filter_eq_some_iff.mp found
    refine .ok (task_quiet stored ⟨rfl, fun _ => ?_⟩)
    simp only [ChildTask.unfinished, of_decide_eq_true queued, true_or, decide_true]

theorem completeSubmittedChildTask_quiet (childId : JsString) (error : Option JsString) (now : ℤ) :
    Quiet w s (completeSubmittedChildTask s childId error now).1 := by
  unfold completeSubmittedChildTask
  split
  · exact .refl s
  · next taskId row submitted =>
    have member := List.mem_of_mem_head? (Option.mem_def.mpr submitted)
    refine task_quiet (Table.mem_of_mem_select member).1 ⟨rfl, fun unfinished => ?_⟩
    simp only [ChildTask.unfinished, decide_eq_true_eq] at unfinished
    split at unfinished <;> simp at unfinished

theorem recordChildCreationEntry_quiet (parentId : JsString) (entry : CreationEntry) :
    Ensures (recordChildCreationEntry s parentId entry) fun done => Quiet w s done.1 := by
  unfold recordChildCreationEntry
  split
  · exact .error _
  · next row found =>
    refine .bind (.any _) fun _ _ => .bind (.any _) fun _ _ => .bind (.any _) fun _ _ => .ite (fun _ => .pure (.refl s)) fun _ => ?_
    exact .bind (.any _) fun _ _ => .pure (task_quiet (Option.filter_eq_some_iff.mp found).1 ⟨rfl, id⟩)

end Tasks

section Inputs

theorem recordSessionActivity_quiet (sessionId : JsString) (now : ℤ) :
    Ensures (recordSessionActivity s sessionId now) fun done => Quiet w s done.1 := by
  unfold recordSessionActivity
  refine .bind (.any _) fun _ _ => .pure (touch_quiet fun row => ?_)
  split
  · exact ⟨rfl, rfl, rfl, rfl, rfl, fun _ => ⟨rfl, rfl, rfl, rfl, rfl⟩, .inl rfl⟩
  · exact .refl row

theorem replayActorInput_quiet (sessionId inputId : JsString) (params : NewInput) (terms : InputTerms) (receipt : Receipt) :
    Ensures (replayActorInput s sessionId inputId params terms receipt) fun done => Quiet w s done.1 := by
  unfold replayActorInput
  refine .bind (.any _) fun _ _ => .pure (.move (.annotate (.update ReceiptKept.refl fun row _ => ?_)))
  refine ⟨rfl, rfl, rfl, rfl, rfl, rfl, rfl, rfl, ?_⟩
  cases stored : row.source with
  | none => exact .inl rfl
  | some source => exact .inr (by simp [Receipt.restore, stored])

theorem admitActorInput_quiet (written : w.receives = true) (sessionId inputId : JsString) (params : NewInput)
    (terms : InputTerms) (now : ℤ) (live : s.Live sessionId) : Ensures (admitActorInput s sessionId inputId params terms now) fun done => Quiet w s done.1 := by
  unfold admitActorInput
  refine .bind (.any _) fun _ _ => .bind (.any _) fun _ _ => .bind (.any _) fun _ _ => ?_
  split
  · next receipts inputs recorded queued =>
    refine .bind (recordSessionActivity_quiet (w := w) sessionId now) fun done activity => .pure ?_
    exact .trans (.move (.receive recorded queued ⟨live, rfl, rfl, rfl, rfl, rfl, nofun, rfl⟩ written)) activity
  · exact .error _
  · exact .error _

theorem newInputId_quiet (params : NewInput) : Quiet w s (newInputId env s params).2 := by
  unfold newInputId
  split
  · exact .refl s
  · exact draws_quiet s _

theorem newInputId_sessions (params : NewInput) : (newInputId env s params).2.sessions = s.sessions := by
  unfold newInputId
  split <;> rfl

theorem createActorInput_quiet (written : w.receives = true) (sessionId : JsString) (params : NewInput) (now : ℤ) :
    Ensures (createActorInput env s sessionId params now) fun done => Quiet w s done.1 := by
  unfold createActorInput
  refine .bind (assertSessionAvailable_live s sessionId) fun _ live => .bind (.any _) fun terms _ => ?_
  dsimp only
  have quiet := @newInputId_quiet env w s params
  split
  · exact .weaken (replayActorInput_quiet _ _ _ _ _) fun _ rest => quiet.trans rest
  · refine .weaken (admitActorInput_quiet written _ _ _ _ _ ?_) fun _ rest => quiet.trans rest
    obtain ⟨row, found, alive⟩ := live
    exact ⟨row, by rw [newInputId_sessions, found], alive⟩

theorem setActorInputWakeError_quiet (sessionId : JsString) (generation : Option ℕ) :
    Quiet w s (setActorInputWakeError s sessionId generation).1 := by
  have kept (stale : Bool) (row : ActorInput) :
      InputKept row (if stale then { row with wakeErrorGeneration := generation } else row) := by
    split
    · exact ⟨rfl, rfl, rfl, rfl, rfl⟩
    · exact .refl row
  unfold setActorInputWakeError
  dsimp only
  split <;> exact .move (.rewrite (.modify fun _ row _ => kept _ row))

theorem updateInput_quiet (inputId sessionId : JsString) {f : ActorInput → ActorInput} (kept : ∀ row, InputKept row (f row)) :
    Quiet w s (s.updateInput inputId sessionId f) := by
  refine .move (.rewrite (.update InputKept.refl fun row _ => ?_))
  split
  · exact kept row
  · exact .refl row

theorem markActorInputAccepted_quiet (inputId sessionId : JsString) (generation : ℕ) (now : ℤ) :
    Quiet w s (markActorInputAccepted s inputId sessionId generation now).1 := by
  unfold markActorInputAccepted
  dsimp only
  split <;> exact updateInput_quiet _ _ fun _ => ⟨rfl, rfl, rfl, rfl, rfl⟩

theorem recordOutcome_quiet (sessionId : JsString) (changed : Bool) (now : ℤ) :
    Ensures (recordOutcome s sessionId changed now) (Quiet w s) := by
  unfold recordOutcome
  exact .ite (fun _ => .map (recordSessionActivity_quiet (w := w) sessionId now)) fun _ => .ok (.refl s)

theorem receipt_of_filter {inputId sessionId : JsString} {receipt : Receipt}
    (found : ((s.receipts.get? inputId).filter fun receipt => receipt.sessionId = sessionId) = some receipt) :
    s.receipts.get? inputId = some receipt ∧ receipt.sessionId = sessionId := by
  obtain ⟨stored, here⟩ := Option.filter_eq_some_iff.mp found
  exact ⟨stored, of_decide_eq_true here⟩

theorem completeActorInput_quiet (written : w.delivers = true) (inputId sessionId : JsString) (now : ℤ) (entryId : Option JsString) :
    Ensures (completeActorInput s inputId sessionId now entryId) fun done => Quiet w s done.1 := by
  unfold completeActorInput
  split
  · exact .ok (.refl s)
  · next receipt found =>
    obtain ⟨stored, rfl⟩ := receipt_of_filter found
    refine .bind (.require _ _) fun _ unhandled => .bind (.any _) fun _ _ => ?_
    refine .bind (recordOutcome_quiet (w := w) _ _ now) fun _ activity => .pure (.trans ?_ activity)
    exact .move (.settle stored (.delivered now entryId unhandled) (.inl written))

theorem markActorInputHandled_quiet (inputId sessionId : JsString) (now : ℤ) :
    Ensures (markActorInputHandled s inputId sessionId now) fun done => Quiet w s done.1 := by
  unfold markActorInputHandled
  split
  · exact .error _
  · next receipt found =>
    obtain ⟨stored, rfl⟩ := receipt_of_filter found
    refine .bind (.require _ _) fun _ control => .bind (.require _ _) fun _ undelivered => ?_
    refine .bind (recordOutcome_quiet (w := w) _ _ now) fun _ activity => .pure (.trans ?_ activity)
    exact .move (.settle stored (.handled now undelivered control) (.inr rfl))

end Inputs

end PersistentHarness.SessionStore

/-! ## Calls on messages

A call posts one message or moves one message a state on. A message is posted to a live session only, by a live
sender or by the supervisor.
-/

namespace PersistentHarness.SessionStore

open Checked (Ensures)

variable {env : Env} {w : Writes} {s : Store}

section Delivery

theorem post_acts {id : JsString} {row : Message} (opened : Opened s row) :
    Acts w s { s with messages := s.messages.insertOrIgnore id row } := by
  unfold Table.insertOrIgnore
  cases inserted : s.messages.insert? id row with
  | none => exact .refl s
  | some messages => exact .move (.post inserted opened)

theorem newMessageId_quiet (params : NewMessage) : Quiet w s (newMessageId env s params).2 := by
  unfold newMessageId
  split
  · exact .refl s
  · exact draws_quiet s _

theorem newMessageId_sessions (params : NewMessage) : (newMessageId env s params).2.sessions = s.sessions := by
  unfold newMessageId
  split <;> rfl

theorem createMessage_acts (senderId : JsString) (params : NewMessage) (pendingLimit : ℕ) (now : ℤ) :
    Ensures (createMessage env s senderId params pendingLimit now) fun done => Acts w s done.1 := by
  unfold createMessage
  refine .bind (.any _) fun _ _ => .bind (.any _) fun _ _ => .bind (.any _) fun target _ => ?_
  refine .bind (assertSessionAvailable_live s _) fun _ sender => .bind (assertSessionAvailable_live s _) fun _ receiver => ?_
  dsimp only
  have quiet := @newMessageId_quiet env w s params
  have sessions := @newMessageId_sessions env s params
  split
  · exact .bind (.any _) fun _ _ => .pure quiet.acts
  · refine .bind (.any _) fun _ _ => .pure (quiet.andThen (post_acts ⟨?_, rfl, .inl ⟨rfl, rfl, ?_⟩⟩))
    · rw [Store.Live, sessions]
      exact receiver
    · rw [Store.Live, sessions]
      exact sender

theorem recordEntry_step {row : Message} (entryId : JsString) (now : ℤ) (accepted : row.state = .accepted) :
    MessageStep row (row.recordEntry entryId now) where
  senderId := rfl
  targetId := rfl
  relationship := rfl
  body := rfl
  childExitGeneration := rfl
  state := .inr (accepted ▸ .queue)
  entry := .inr accepted
  recorded _ _ := rfl
  unrecorded := by rintro ⟨⟩

theorem recordMessageSenderEntry_acts (senderId : JsString) (entry : SenderEntry) (now : ℤ) :
    Ensures (recordMessageSenderEntry s senderId entry now) fun done => Acts w s done.1 := by
  unfold recordMessageSenderEntry
  refine .bind (.any _) fun _ _ => .bind (.any _) fun _ _ => ?_
  split
  · exact .error _
  · next row found =>
    obtain ⟨stored, sent⟩ := Option.filter_eq_some_iff.mp found
    refine .bind (.any _) fun _ _ => .bind (.any _) fun _ _ => .ite (fun _ => .pure (.refl s)) fun _ => ?_
    refine .bind (.require _ _) fun _ accepted => .bind (.require _ _) fun _ free => .pure ?_
    refine .move (.advance stored (recordEntry_step entry.entryId now accepted) (.inr ?_))
    rintro _ ⟨⟩
    rw [show (row.recordEntry entry.entryId now).senderId = senderId from of_decide_eq_true sent]
    exact free

theorem rejected_step {a b : Message} (parties : b.senderId = a.senderId ∧ b.targetId = a.targetId
    ∧ b.relationship = a.relationship ∧ b.body = a.body ∧ b.childExitGeneration = a.childExitGeneration)
    (entry : b.senderEntryId = a.senderEntryId) (waiting : a.state.waiting = true) (rejected : b.state = .rejected) :
    MessageStep a b where
  senderId := parties.1
  targetId := parties.2.1
  relationship := parties.2.2.1
  body := parties.2.2.2.1
  childExitGeneration := parties.2.2.2.2
  state := .inr (rejected ▸ .reject waiting)
  entry := .inl entry
  recorded _ queued := by rw [rejected] at queued; cases queued
  unrecorded _ := entry

theorem deliver_step {row : Message} (now : ℤ) (queued : row.state = .queued) : MessageStep row (row.deliver now) where
  senderId := rfl
  targetId := rfl
  relationship := rfl
  body := rfl
  childExitGeneration := rfl
  state := .inr (queued ▸ .deliver)
  entry := .inl rfl
  recorded _ := by rintro ⟨⟩
  unrecorded _ := rfl

theorem acknowledge_step {row : Message} (now : ℤ) (delivered : row.state = .delivered) :
    MessageStep row (row.acknowledge now) where
  senderId := rfl
  targetId := rfl
  relationship := rfl
  body := rfl
  childExitGeneration := rfl
  state := .inr (delivered ▸ .acknowledge)
  entry := .inl rfl
  recorded _ := by rintro ⟨⟩
  unrecorded _ := rfl

theorem markMessageDelivered_acts (messageId targetId : JsString) (now : ℤ) (maxAttempts : ℕ) :
    Acts w s (markMessageDelivered s messageId targetId now maxAttempts).1 := by
  unfold markMessageDelivered
  split
  · exact .refl s
  · next row found =>
    have stored := (Option.filter_eq_some_iff.mp found).1
    split
    · exact .refl s
    · next queued =>
      refine .move (.advance stored ?_ (.inl ?_))
      · split
        · exact rejected_step ⟨rfl, rfl, rfl, rfl, rfl⟩ rfl (by rw [queued]; rfl) rfl
        · exact deliver_step now queued
      · split <;> rfl
    · exact .refl s

theorem acknowledgeMessage_acts (messageId targetId : JsString) (now : ℤ) :
    Ensures (acknowledgeMessage s messageId targetId now) fun done => Acts w s done.1 := by
  unfold acknowledgeMessage
  split
  · exact .error _
  · next row found =>
    have stored := (Option.filter_eq_some_iff.mp found).1
    split
    · exact .ok (.refl s)
    · next delivered => exact .ok (.move (.advance stored (acknowledge_step now delivered) (.inl rfl)))
    · exact .error _

end Delivery

section Reports

variable {observer : Option JsString}

theorem failureTarget_stored {sessions : Sessions} {sessionId : JsString} {row : Session} {target : JsString × Session}
    (found : failureTarget sessions observer sessionId row = some target) : sessions.get? target.1 = some target.2 := by
  unfold failureTarget at found
  split at found
  · obtain ⟨parent, _, found⟩ := Option.bind_eq_some_iff.mp found
    obtain ⟨stored, here, rfl⟩ := Option.map_eq_some_iff.mp found
    exact here
  · obtain ⟨id, _, found⟩ := Option.bind_eq_some_iff.mp found
    obtain ⟨stored, here, rfl⟩ := Option.map_eq_some_iff.mp found
    exact (Option.filter_eq_some_iff.mp here).1

theorem queueChildFailure_acts (sessionId : JsString) (generation : ℕ) (error : Option JsString) (now : ℤ)
    (turnFailure : Option TurnFailure) :
    Acts w s (queueChildFailure env observer s sessionId generation error now turnFailure) := by
  unfold queueChildFailure
  split
  · exact .refl s
  · split
    · exact .refl s
    · next target found =>
      obtain ⟨heard, live⟩ := Option.filter_eq_some_iff.mp found
      exact post_acts ⟨⟨_, failureTarget_stored heard, (of_decide_eq_true live).1⟩, rfl, .inr ⟨rfl, rfl⟩⟩

theorem recordActorTurnFailure_acts (sessionId : JsString) (generation : ℕ) (value : Value) (now : ℤ) :
    Ensures (recordActorTurnFailure env observer s sessionId generation value now) (Acts w s) := by
  unfold recordActorTurnFailure
  exact .bind (.any _) fun _ _ => .bind (.any _) fun _ _ => .pure (queueChildFailure_acts _ _ _ _ _)

theorem queueHomeFailureNudge_acts (sessionId : JsString) (generation turnFailure : Value) (failedAt now : ℤ) :
    Ensures (queueHomeFailureNudge env s sessionId generation turnFailure failedAt now) fun done => Acts w s done.1 := by
  unfold queueHomeFailureNudge
  refine .bind (.any _) fun _ _ => ?_
  split
  · next row generation found _ =>
    refine .bind (.any _) fun _ _ => ?_
    dsimp only
    split
    · exact .pure (.refl s)
    · next messages inserted =>
      obtain ⟨stored, root⟩ := Option.filter_eq_some_iff.mp found
      have live : s.Live sessionId := ⟨row, stored, (of_decide_eq_true root).2.1⟩
      exact .pure (.move (.post inserted ⟨live, rfl, .inr ⟨rfl, rfl⟩⟩))
  · exact .pure (.refl s)

theorem markActorLifecycle_acts (written : w.actors = true) (sessionId : JsString) (generation : ℕ) (lifecycle : JsString)
    (error : Option JsString) (now : ℤ) (reportChildExit : Bool) :
    Ensures (markActorLifecycle env observer s sessionId generation lifecycle error now reportChildExit)
      fun done => Acts w s done.1 := by
  unfold markActorLifecycle
  split
  · exact .error _
  · next ending _ =>
    refine .ite (fun _ => .ok (.refl s)) fun _ => .ite (fun current => ?_) fun _ => .ok (.refl s)
    refine .ok (.quiet ?_ (refreshAncestors_quiet written _ _ _))
    obtain ⟨row, found, matched⟩ := Option.any_eq_true .. |>.mp current
    have live := (of_decide_eq_true matched).2
    have ended := @updateSession_quiet w s sessionId (fun row =>
      { row with
        lifecycle := ending.lifecycle, actorPid := none, actorIdentity := none, streaming := false
        activity := if 0 < workingDescendantCount s.sessions sessionId then .delegating else .inactive
        stoppedAt := some now, quietSince := none, lastError := error, updatedAt := now }) (by
      intro stored here
      cases found.symm.trans here
      refine kept_of_actors written ⟨rfl, rfl, rfl, rfl⟩ (Eq.trans ?_ live.symm) rfl
      cases ending <;> rfl)
    split
    · exact ended.andThen (queueChildFailure_acts _ _ _ _ _)
    · exact ended.acts

end Reports

end PersistentHarness.SessionStore
