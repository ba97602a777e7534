import PersistentHarness.Soundness.Session.Posts

/-! # Deletions

A deletion goes through a subtree session by session. Each row of the tables is followed through this loop on
its own: what becomes of it depends only on whether its sessions are in the subtree.
-/

namespace PersistentHarness.SessionStore

open Checked (Ensures)

section Rows

theorem MessageDrops.refl (a : Message) : MessageDrops a a := ⟨⟨rfl, rfl, rfl, rfl, rfl⟩, rfl, .inl rfl⟩

theorem MessageDrops.trans {a b c : Message} (first : MessageDrops a b) (second : MessageDrops b c) : MessageDrops a c := by
  obtain ⟨⟨sender, target, relationship, body, generation⟩, entry, state⟩ := first
  obtain ⟨⟨sender', target', relationship', body', generation'⟩, entry', state'⟩ := second
  refine ⟨⟨sender'.trans sender, target'.trans target, relationship'.trans relationship, body'.trans body,
    generation'.trans generation⟩, entry'.trans entry, ?_⟩
  rcases state' with same | ⟨waiting, rejected⟩
  · rw [same]
    exact state
  · rcases state with same | ⟨waited, _⟩
    · exact .inr ⟨same ▸ waiting, rejected⟩
    · exact .inr ⟨waited, rejected⟩

theorem MessageDrops.step {a b : Message} (drops : MessageDrops a b) : MessageStep a b := by
  obtain ⟨parties, entry, same | ⟨waiting, rejected⟩⟩ := drops
  · refine ⟨parties.1, parties.2.1, parties.2.2.1, parties.2.2.2.1, parties.2.2.2.2, .inl same, .inl entry, ?_, fun _ => entry⟩
    intro accepted queued
    rw [same, accepted] at queued
    cases queued
  · exact rejected_step parties entry waiting rejected

theorem MessageDrops.waiting {a b : Message} (drops : MessageDrops a b) (ended : a.state.waiting = false) :
    b.state.waiting = false := by
  rcases drops.state with same | ⟨_, rejected⟩
  · rw [same, ended]
  · rw [rejected]
    rfl

theorem MessageDrops.accepted {a b : Message} (drops : MessageDrops a b) (later : a.state ≠ .accepted) :
    b.state ≠ .accepted := by
  rcases drops.state with same | ⟨_, rejected⟩
  · rwa [same]
  · rw [rejected]
    rintro ⟨⟩

variable {gone : JsString → Bool} {now : ℤ}

theorem reject_drops {row : Message} {condition : Prop} [Decidable condition] {reason : JsString}
    (waits : condition → row.state.waiting = true) : MessageDrops row (if condition then row.reject reason now else row) := by
  split
  · next holds => exact ⟨⟨rfl, rfl, rfl, rfl, rfl⟩, rfl, .inr ⟨waits holds, rfl⟩⟩
  · exact .refl row

/-- The first update of a terminalization, for deleted targets. -/
theorem target_drops (row : Message) : MessageDrops row
    (if gone row.targetId = true ∧ row.state.waiting = true then row.reject targetDeleted now else row) :=
  reject_drops And.right

/-- The second update of a terminalization, for deleted senders. -/
theorem sender_drops (row : Message) : MessageDrops row
    (if gone row.senderId = true ∧ row.state = .accepted then row.reject senderDeleted now else row) :=
  reject_drops fun accepted => congrArg MessageState.waiting accepted.2

theorem terminalize_drops (row : Message) : MessageDrops row (row.terminalize gone now) :=
  (target_drops row).trans (sender_drops _)

theorem terminalize_target {row : Message} (target : gone row.targetId = true) :
    (row.terminalize gone now).state.waiting = false := by
  have ended : (if gone row.targetId = true ∧ row.state.waiting = true then
      row.reject targetDeleted now else row).state.waiting = false := by
    split
    · rfl
    · next waits => simpa [target] using waits
  exact (sender_drops _).waiting ended

theorem reject_sender {row : Message} (sender : gone row.senderId = true) :
    (if gone row.senderId = true ∧ row.state = .accepted then row.reject senderDeleted now else row).state ≠ .accepted := by
  split
  · rintro ⟨⟩
  · next other => exact fun accepted => other ⟨sender, accepted⟩

theorem terminalize_sender {row : Message} (sender : gone row.senderId = true) :
    (row.terminalize gone now).state ≠ .accepted :=
  reject_sender ((target_drops row).parties.1 ▸ sender)

theorem terminalize_kept (row : ChildTask) : TaskKept row (row.terminalize gone now) := by
  unfold ChildTask.terminalize
  split
  · refine ⟨rfl, fun unfinished => ?_⟩
    simp [ChildTask.unfinished] at unfinished
  · exact .refl row

theorem terminalize_ended {row : ChildTask} (child : gone row.childId = true) :
    (row.terminalize gone now).unfinished = false := by
  unfold ChildTask.terminalize
  split
  · rfl
  · next unfinished => simpa [child] using unfinished

end Rows

section Loop

variable {now : ℤ}

theorem TaskKept.trans {a b c : ChildTask} (first : TaskKept a b) (second : TaskKept b c) : TaskKept a c :=
  ⟨second.childId.trans first.childId, fun unfinished => first.unfinished (second.unfinished unfinished)⟩

theorem foldl_task_ends (ids : List JsString) (row : ChildTask) :
    TaskEnds (· ∈ ids) row (ids.foldl (fun row id => row.terminalize (fun other => other = id) now) row) := by
  induction ids generalizing row with
  | nil => exact ⟨.refl row, by rintro ⟨⟩⟩
  | cons id ids ih =>
    have first : TaskKept row (row.terminalize (fun other => other = id) now) := terminalize_kept row
    have rest := ih (row.terminalize (fun other => other = id) now)
    refine ⟨first.trans rest.toTaskKept, fun member => ?_⟩
    rcases List.mem_cons.mp member with here | later
    · have same : row.childId = id := (first.childId.symm.trans rest.childId.symm).trans here
      have ended : (row.terminalize (fun other => other = id) now).unfinished = false :=
        terminalize_ended (decide_eq_true same)
      rw [Bool.eq_false_iff] at ended ⊢
      exact fun unfinished => ended (rest.unfinished unfinished)
    · exact rest.ended later

theorem foldl_message_drops (ids : List JsString) (row : Message) :
    MessageDrops row (ids.foldl (fun row id => row.terminalize (fun other => other = id) now) row)
      ∧ (row.targetId ∈ ids →
        (ids.foldl (fun row id => row.terminalize (fun other => other = id) now) row).state.waiting = false)
      ∧ (row.senderId ∈ ids →
        (ids.foldl (fun row id => row.terminalize (fun other => other = id) now) row).state ≠ .accepted) := by
  induction ids generalizing row with
  | nil => exact ⟨.refl row, by rintro ⟨⟩, by rintro ⟨⟩⟩
  | cons id ids ih =>
    have first : MessageDrops row (row.terminalize (fun other => other = id) now) := terminalize_drops row
    obtain ⟨drops, target, sender⟩ := ih (row.terminalize (fun other => other = id) now)
    refine ⟨first.trans drops, fun member => ?_, fun member => ?_⟩
    · rcases List.mem_cons.mp member with here | later
      · exact drops.waiting (terminalize_target (decide_eq_true here))
      · exact target (first.parties.2.1 ▸ later)
    · rcases List.mem_cons.mp member with here | later
      · exact drops.accepted (terminalize_sender (decide_eq_true here))
      · exact sender (first.parties.1 ▸ later)

theorem foldl_message_ends (ids : List JsString) (row : Message) :
    MessageEnds (· ∈ ids) row (ids.foldl (fun row id => row.terminalize (fun other => other = id) now) row) := by
  obtain ⟨drops, target, sender⟩ := @foldl_message_drops now ids row
  exact ⟨drops, fun member => target (drops.parties.2.1 ▸ member), fun member => sender (drops.parties.1 ▸ member)⟩

theorem tombstone_deleted (now : ℤ) (row : Session) : (tombstone now row).deleted = true := by
  unfold tombstone
  split
  · next deleted => exact deleted
  · rfl

theorem tombstone_of_deleted {row : Session} (deleted : row.deleted = true) : tombstone now row = row := if_pos deleted

theorem foldl_tombstone (ids : List JsString) (id : JsString) (row : Session) :
    ids.foldl (fun row other => if id = other then tombstone now row else row) row =
      if id ∈ ids then tombstone now row else row := by
  induction ids generalizing row with
  | nil => rfl
  | cons other ids ih =>
    rw [List.foldl_cons, ih]
    by_cases here : id = other
    · subst here
      rw [if_pos rfl, if_pos (List.mem_cons_self ..), tombstone_of_deleted (tombstone_deleted now row), ite_self]
    · rw [if_neg here]
      simp only [List.mem_cons, here, false_or]

/-- The pending inputs through the loop. -/
theorem get?_foldl_delete (ids : List JsString) (inputs : Table JsString ActorInput) (k : JsString) :
    (ids.foldl (fun inputs id => inputs.delete fun _ row => row.sessionId = id) inputs).get? k =
      (inputs.get? k).filter fun row => decide (row.sessionId ∉ ids) := by
  induction ids generalizing inputs with
  | nil =>
    rw [List.foldl_nil]
    cases inputs.get? k with
    | none => rfl
    | some row => rfl
  | cons id ids ih =>
    rw [List.foldl_cons, ih, Table.get?_delete, Option.filter_filter]
    congr 1
    funext row
    simp [not_or]

variable (s : Store) (ids : List JsString)

theorem foldl_bury_sessions : (ids.foldl (bury now) s).sessions =
    ids.foldl (fun sessions id => sessions.modify fun other row => if other = id then tombstone now row else row) s.sessions :=
  (List.foldl_hom Store.sessions fun _ _ => rfl).symm

theorem foldl_bury_inputs : (ids.foldl (bury now) s).inputs =
    ids.foldl (fun inputs id => inputs.delete fun _ row => row.sessionId = id) s.inputs :=
  (List.foldl_hom Store.inputs fun _ _ => rfl).symm

theorem foldl_bury_tasks : (ids.foldl (bury now) s).tasks =
    ids.foldl (fun tasks id => tasks.modify fun _ row => row.terminalize (fun other => other = id) now) s.tasks :=
  (List.foldl_hom Store.tasks fun _ _ => rfl).symm

theorem foldl_bury_messages : (ids.foldl (bury now) s).messages =
    ids.foldl (fun messages id => messages.modify fun _ row => row.terminalize (fun other => other = id) now) s.messages :=
  (List.foldl_hom Store.messages fun _ _ => rfl).symm

theorem foldl_bury_receipts : (ids.foldl (bury now) s).receipts = s.receipts :=
  foldl_keeps Store.receipts (bury now) (fun _ _ => rfl) ids s

variable {s ids}

/-- The loop over a subtree buries it. -/
theorem foldl_bury (now : ℤ) (closed : s.sessions.Closed Session.parentSessionId (fun _ => true) ids) :
    Buries s (ids.foldl (bury now) s) ids now where
  closed := closed
  sessions id := by
    rw [foldl_bury_sessions, Table.get?_foldl_modify]
    simp only [foldl_tombstone]
  inputs id := by rw [foldl_bury_inputs, get?_foldl_delete]
  tasks := by
    rw [foldl_bury_tasks]
    exact .of_map (fun k => Table.get?_foldl_modify ids s.tasks k) fun _ row _ => foldl_task_ends ids row
  messages := by
    rw [foldl_bury_messages]
    exact .of_map (fun k => Table.get?_foldl_modify ids s.messages k) fun _ row _ => foldl_message_ends ids row
  receipts := foldl_bury_receipts s ids

end Loop

section Calls

variable {env : Env} {w : Writes} {s : Store}

theorem mem_subtree {sessions : Sessions} {sessionId id : JsString} : id ∈ subtree sessions sessionId ↔
    id ∈ sessions.descendants Session.parentSessionId (fun _ => true) [sessionId] ∧ ∃ row, sessions.get? id = some row := by
  unfold subtree
  constructor
  · intro member
    obtain ⟨row, listed, rfl⟩ := List.mem_map.mp member
    obtain ⟨stored, below⟩ := Table.mem_of_mem_select listed
    exact ⟨of_decide_eq_true below, row.2, stored⟩
  · rintro ⟨below, row, stored⟩
    exact List.mem_map.mpr ⟨(id, row), Table.mem_select_of_length_le stored (decide_eq_true below) (Nat.le_refl _), rfl⟩

theorem subtree_closed (sessions : Sessions) (sessionId : JsString) :
    sessions.Closed Session.parentSessionId (fun _ => true) (subtree sessions sessionId) := by
  intro id row parent stored _ edge above
  exact mem_subtree.mpr ⟨Table.closed_descendants id row parent stored rfl edge (mem_subtree.mp above).1, row, stored⟩

/-- A closed set stays closed when the edges stay. -/
theorem closed_of_evolves {sessions next : Sessions} {ids : List JsString} (kept : sessions.Evolves (SessionKept w) next)
    (closed : sessions.Closed Session.parentSessionId (fun _ => true) ids) :
    next.Closed Session.parentSessionId (fun _ => true) ids := by
  intro id row parent stored all edge above
  obtain ⟨old, found, same⟩ := kept.before stored
  exact closed id old parent found all (same.parent ▸ edge) above

theorem retireScratch_kept (sessionId : JsString) : Ensures (retireScratch s sessionId) fun t =>
    ∃ sessions, s.sessions.Evolves (SessionKept w) sessions ∧ t = { s with sessions } := by
  have still : ∃ sessions, s.sessions.Evolves (SessionKept w) sessions ∧ s = { s with sessions } :=
    ⟨_, .refl SessionKept.refl _, rfl⟩
  unfold retireScratch
  split
  · refine .ite (fun _ => ?_) fun _ => .ok still
    unfold Store.setRootScratch
    refine .bind (.any _) fun _ _ => .bind (.any _) fun _ _ => .pure ⟨_, ?_, rfl⟩
    exact evolves_update fun _ _ => ⟨rfl, rfl, rfl, rfl, rfl, fun _ => ⟨rfl, rfl, rfl, rfl, rfl⟩, .inl rfl⟩
  · exact .ok still

theorem getSessionSubtree_eq (sessions : Sessions) (sessionId : JsString) : Ensures (getSessionSubtree sessions sessionId)
    fun ids => ids = subtree sessions sessionId ∧ ∃ row, sessions.get? sessionId = some row := by
  unfold getSessionSubtree
  exact .bind (.require _ _) fun _ known => .pure ⟨rfl, Option.isSome_iff_exists.mp known⟩

theorem deleteSession_acts (written : w.actors = true) (sessionId : JsString) (now : ℤ) :
    Ensures (deleteSession s sessionId now) fun done => Acts w s done.1 := by
  unfold deleteSession
  refine .bind (getSessionSubtree_eq s.sessions sessionId) fun ids found => ?_
  obtain ⟨rfl, _⟩ := found
  refine .bind (retireScratch_kept (w := w) sessionId) fun t retired => .pure ?_
  obtain ⟨sessions, kept, rfl⟩ := retired
  have closed := closed_of_evolves kept (subtree_closed s.sessions sessionId)
  have buried : Acts w { s with sessions } _ := .move (.bury written (foldl_bury now closed))
  exact (Quiet.move (.touch kept)).andThen (buried.quiet (refreshAncestors_quiet written _ _ _))

theorem deleteChild_acts (written : w.actors = true) (parentId selector : JsString) (now : ℤ) :
    Ensures (deleteChild s parentId selector now) fun done => Acts w s done.1 := by
  unfold deleteChild
  exact .bind (.any _) fun _ _ => deleteSession_acts written _ now

theorem beginSessionDeletion_quiet (sessionId : JsString) :
    Ensures (beginSessionDeletion s sessionId) fun done => Quiet w s done.1 := by
  unfold beginSessionDeletion
  exact .bind (.any _) fun _ _ => .bind (.any _) fun _ _ => .pure (.move (.memory s.children _ s.draws))

theorem requeueOwner_quiet (written : w.actors = true) (env : Env) (now : ℤ) (s : Store) (owner : PreviousOwner)
    (live : ∀ row, s.sessions.get? owner.sessionId = some row → row.deleted = false) :
    Quiet w s (requeueOwner env now s owner) := by
  refine .trans ?_ (draws_quiet _ _)
  exact updateSession_quiet fun row here => kept_of_actors written ⟨rfl, rfl, rfl, rfl⟩ (live row here).symm rfl

theorem previousOwners_live {owner : PreviousOwner} (member : owner ∈ previousOwners s) : s.Live owner.sessionId := by
  obtain ⟨id, row, stored, listed⟩ := Table.mem_collect.mp member
  split at listed
  · next lost =>
    cases listed
    refine ⟨row, stored, ?_⟩
    rcases lost with starting | resident | ⟨passivated, _⟩
    · simp [Session.deleted, starting]
    · simp [Session.deleted, resident]
    · simp [Session.deleted, passivated]
  · cases listed

theorem requeueOwner_live {now : ℤ} {owner : PreviousOwner} {id : JsString}
    (live : s.Live id) : (requeueOwner env now s owner).Live id := by
  obtain ⟨row, stored, alive⟩ := live
  by_cases here : id = owner.sessionId
  · exact ⟨_, (Table.get?_update_of (here ▸ stored) _ id).trans (if_pos here), rfl⟩
  · exact ⟨row, by rw [← stored]; exact (Table.get?_update ..).trans (if_neg here), alive⟩

theorem requeue_quiet (written : w.actors = true) (env : Env) (now : ℤ) (owners : List PreviousOwner) (s : Store)
    (live : ∀ owner ∈ owners, s.Live owner.sessionId) : Quiet w s (owners.foldl (requeueOwner env now) s) := by
  induction owners generalizing s with
  | nil => exact .refl s
  | cons owner owners ih =>
    have here := live owner (List.mem_cons_self ..)
    have first : Quiet w s (requeueOwner env now s owner) := by
      refine requeueOwner_quiet written env now s owner fun row stored => ?_
      obtain ⟨other, found, alive⟩ := here
      cases found.symm.trans stored
      exact alive
    exact first.trans (ih _ fun other member => requeueOwner_live (live other (List.mem_cons_of_mem _ member)))

theorem failSubmitted_kept (now : ℤ) (row : ChildTask) : TaskKept row (failSubmitted now row) := by
  unfold failSubmitted
  split
  · exact ⟨rfl, fun unfinished => by simp [ChildTask.unfinished] at unfinished⟩
  · exact .refl row

theorem isDeleted_iff {id : JsString} : ((s.sessions.get? id).any Session.deleted) = true ↔ s.Deleted id := by
  simp only [Option.any_eq_true, Store.Deleted]

theorem terminalizeDeletedSessionWork_acts (s : Store) (now : ℤ) : Acts w s (terminalizeDeletedSessionWork s now) := by
  refine .move (.clear rfl (.modify fun _ row _ => ?_) (.modify fun _ row _ => ?_))
  · exact ⟨terminalize_kept row, fun gone => terminalize_ended (isDeleted_iff.mpr ((terminalize_kept row).childId ▸ gone))⟩
  · have drops := @terminalize_drops (fun id => (s.sessions.get? id).any Session.deleted) now row
    exact ⟨drops, fun gone => terminalize_target (isDeleted_iff.mpr (drops.parties.2.1 ▸ gone)),
      fun gone => terminalize_sender (isDeleted_iff.mpr (drops.parties.1 ▸ gone))⟩

theorem reconcileAfterDaemonStart_acts (written : w.actors = true) (now : ℤ) : Acts w s (reconcileAfterDaemonStart env s now).1 := by
  have requeued := requeue_quiet written env now (previousOwners s) s fun _ => previousOwners_live
  unfold reconcileAfterDaemonStart
  dsimp only
  refine (requeued.trans ?_).andThen (terminalizeDeletedSessionWork_acts _ now)
  exact .move (.work (.modify fun _ row _ => failSubmitted_kept now row))

end Calls

/-! ## Every call -/

section Steps

variable {env : Env} {observer : Option JsString} {w : Writes} {s : Store} {now : ℤ}

theorem checked_acts {result : Result (Store × Output)} (done : Ensures result fun done => Acts w s done.1) :
    Acts w s (checked s result).1 := by
  cases result with
  | error failure => exact .refl s
  | ok next => exact done next rfl

theorem giving_acts {α : Type} {f : α → Output} {result : Result (Store × α)}
    (done : Ensures result fun done => Acts w s done.1) : Acts w s (checked s (giving f result)).1 :=
  checked_acts (.map done)

theorem giving_quiet {α : Type} {f : α → Output} {result : Result (Store × α)}
    (done : Ensures result fun done => Quiet w s done.1) : Acts w s (checked s (giving f result)).1 :=
  giving_acts (done.weaken fun _ quiet => quiet.acts)

theorem noResult_acts {result : Result Store} (done : Ensures result (Acts w s)) : Acts w s (checked s (noResult result)).1 :=
  checked_acts (.map done)

theorem noResult_quiet {result : Result Store} (done : Ensures result (Quiet w s)) : Acts w s (checked s (noResult result)).1 :=
  noResult_acts (done.weaken fun _ quiet => quiet.acts)

/-- Every call makes moves, at most one of them a move of messages. -/
theorem step_acts (op : Op) : Acts op.writes s (step env observer s now op).1 := by
  cases op with
  | createRoot => exact giving_quiet (createRoot_quiet _ rfl _)
  | admitRoot => exact giving_quiet (admitRoot_quiet _ rfl rfl _)
  | createChild => exact giving_quiet (createChild_quiet _ _ rfl _)
  | registerActor => exact giving_quiet (registerActor_quiet _ _)
  | prepareActorRevival => exact giving_quiet (prepareActorRevival_quiet rfl _ _ _ _ _)
  | reconcileAfterDaemonStart => exact reconcileAfterDaemonStart_acts rfl now
  | reopen => exact (Quiet.move (.memory s.children [] s.draws)).acts
  | markActorStarted => exact giving_quiet (markActorStarted_quiet rfl _ _ _ _)
  | markActorLifecycle => exact giving_acts (markActorLifecycle_acts rfl _ _ _ _ _ _)
  | recordActorTurnFailure => exact noResult_acts (recordActorTurnFailure_acts _ _ _ _)
  | queueHomeFailureNudge => exact giving_acts (queueHomeFailureNudge_acts _ _ _ _ _)
  | setActorActivity => exact giving_quiet (setActorActivity_quiet rfl _ _ _ _)
  | recordSessionLastError => exact (recordSessionLastError_quiet _ _ _ _).acts
  | setSessionName => exact giving_quiet (setSessionName_quiet _ _ _)
  | autoNameDefaultRoot => exact giving_quiet (autoNameDefaultRoot_quiet _ _ _)
  | setRootScratch => exact noResult_quiet (setRootScratch_quiet _ _)
  | beginSessionDeletion => exact giving_quiet (beginSessionDeletion_quiet _)
  | endSessionDeletion => exact (Quiet.move (.memory s.children _ s.draws)).acts
  | deleteChild => exact giving_acts (deleteChild_acts rfl _ _ _)
  | deleteSession => exact giving_acts (deleteSession_acts rfl _ _)
  | markChildTaskSubmitted => exact giving_quiet (markChildTaskSubmitted_quiet _ _)
  | completeSubmittedChildTask => exact (completeSubmittedChildTask_quiet _ _ _).acts
  | recordChildCreationEntry => exact giving_quiet (recordChildCreationEntry_quiet _ _)
  | createActorInput => exact giving_quiet (createActorInput_quiet rfl _ _ _)
  | setActorInputWakeError => exact (setActorInputWakeError_quiet _ _).acts
  | markActorInputAccepted inputId sessionId generation =>
    have quiet := markActorInputAccepted_quiet (w := ⟨false, false, none, false, false⟩) (s := s) inputId sessionId generation now
    dsimp only [step]
    split
    · next same =>
      rw [same] at quiet
      exact quiet.acts
    · next same =>
      rw [same] at quiet
      exact quiet.acts
  | completeActorInput => exact giving_quiet (completeActorInput_quiet rfl _ _ _ _)
  | markActorInputHandled => exact giving_quiet (markActorInputHandled_quiet _ _ _)
  | recordSessionActivity => exact giving_quiet (recordSessionActivity_quiet _ _)
  | createMessage => exact giving_acts (createMessage_acts _ _ _ _)
  | recordMessageSenderEntry => exact giving_acts (recordMessageSenderEntry_acts _ _ _)
  | markMessageDelivered => exact markMessageDelivered_acts _ _ _ _
  | acknowledgeMessage => exact giving_acts (acknowledgeMessage_acts _ _ _)
  | recordResolvedSessionInference => exact giving_quiet (recordResolvedSessionInference_quiet rfl _ _ _ _)
  | updateSessionFastMode => exact noResult_quiet (updateSessionFastMode_quiet rfl _ _ _ _)
  | queueSessionInference => exact giving_quiet (queueSessionInference_quiet rfl _ _ _ _)
  | updateSessionInference => exact giving_quiet (updateSessionInference_quiet rfl _ _ _ _ _)
  | recordSessionInferenceResult => exact giving_quiet (recordSessionInferenceResult_quiet rfl _ _ _ _)
  | retargetDefaultInference => exact (retargetDefaultInference_quiet rfl _ _).acts

end Steps

end PersistentHarness.SessionStore
