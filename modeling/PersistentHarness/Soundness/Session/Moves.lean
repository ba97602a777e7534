import PersistentHarness.Lib.Trace
import PersistentHarness.Model.Session.Run

/-! # The moves of the session store

Every call makes a few small moves: it touches, admits or buries sessions, advances tasks, admits, rewrites or
settles inputs, and posts or advances messages. A move says what it leaves of each row. The moves of messages
emit, since a call makes at most one of them.
-/

namespace PersistentHarness.SessionStore

/-! ## What becomes of a row -/

/-- What a call may write in the table of sessions. -/
structure Writes where
  /-- The columns that follow the actors. -/
  actors : Bool
  launch : Bool
  admits : Option (SessionKind × JsString)
  delivers : Bool
  /-- A new input. -/
  receives : Bool

def Op.writes : Op → Writes
  | .createRoot params => ⟨false, false, some (.root, params.sessionId), false, false⟩
  | .admitRoot params => ⟨false, true, some (.root, params.sessionId), false, false⟩
  | .createChild _ params => ⟨false, false, some (.child, params.sessionId), false, false⟩
  | .prepareActorRevival .. | .reconcileAfterDaemonStart | .markActorStarted .. | .markActorLifecycle ..
  | .setActorActivity .. | .deleteChild .. | .deleteSession .. => ⟨true, false, none, false, false⟩
  | .recordResolvedSessionInference .. | .updateSessionFastMode .. | .queueSessionInference ..
  | .updateSessionInference .. | .recordSessionInferenceResult .. | .retargetDefaultInference .. =>
    ⟨false, true, none, false, false⟩
  | .completeActorInput .. => ⟨false, false, none, true, false⟩
  | .createActorInput .. => ⟨false, false, none, false, true⟩
  | _ => ⟨false, false, none, false, false⟩

/-- The columns that follow the actor of a session. -/
structure ActorKept (a b : Session) : Prop where
  lifecycle : b.lifecycle = a.lifecycle
  generation : b.actorGeneration = a.actorGeneration
  streaming : b.streaming = a.streaming
  activity : b.activity = a.activity
  quietSince : b.quietSince = a.quietSince

/-- A session keeps its place in the forest, it stays live or deleted, and only what the call writes changes. -/
structure SessionKept (w : Writes) (a b : Session) : Prop where
  kind : b.kind = a.kind
  familyId : b.familyId = a.familyId
  parent : b.parentSessionId = a.parentSessionId
  depth : b.depth = a.depth
  deleted : b.deleted = a.deleted
  actor : w.actors = false → ActorKept a b
  launch : b.launch = a.launch ∨ w.launch = true ∧ ∃ launch, b.launch = some (written launch)

/-- A finished task stays finished. -/
structure TaskKept (a b : ChildTask) : Prop where
  childId : b.childId = a.childId
  unfinished : b.unfinished = true → a.unfinished = true

/-- A pending input keeps its session and content. -/
structure InputKept (a b : ActorInput) : Prop where
  sessionId : b.sessionId = a.sessionId
  digest : b.digest = a.digest
  body : b.body = a.body
  images : b.images = a.images
  location : b.location = a.location

/-- A receipt keeps its identity and outcome, and a provenance that it has. -/
structure ReceiptKept (a b : Receipt) : Prop where
  sessionId : b.sessionId = a.sessionId
  digest : b.digest = a.digest
  createdAt : b.createdAt = a.createdAt
  sequence : b.sequence = a.sequence
  deliveredAt : b.deliveredAt = a.deliveredAt
  deliveredEntryId : b.deliveredEntryId = a.deliveredEntryId
  handledAt : b.handledAt = a.handledAt
  retryIntent : b.retryIntent = a.retryIntent
  provenance : a.source = none ∨ b.source = a.source ∧ b.origin = a.origin

/-- The outcome of an input that has no other outcome. -/
inductive Settles (a : Receipt) : Receipt → Prop
  | delivered (now : ℤ) (entryId : Option JsString) (unhandled : a.handledAt = none) : Settles a (a.deliver now entryId)
  | handled (now : ℤ) (undelivered : a.deliveredAt = none) (control : a.source = none ∨ a.source = some .user) :
      Settles a (a.handle now)

inductive MessageState.Next : MessageState → MessageState → Prop
  | queue : Next .accepted .queued
  | deliver : Next .queued .delivered
  | acknowledge : Next .delivered .acknowledged
  | reject {state : MessageState} (waiting : state.waiting = true) : Next state .rejected

/-- A message stays as it is or goes one state on; recording its transcript entry queues it. -/
structure MessageStep (a b : Message) : Prop where
  senderId : b.senderId = a.senderId
  targetId : b.targetId = a.targetId
  relationship : b.relationship = a.relationship
  body : b.body = a.body
  childExitGeneration : b.childExitGeneration = a.childExitGeneration
  state : b.state = a.state ∨ a.state.Next b.state
  entry : b.senderEntryId = a.senderEntryId ∨ a.state = .accepted
  recorded : a.state = .accepted → b.state = .queued → b.senderEntryId.isSome = true
  unrecorded : b.state = .accepted → b.senderEntryId = a.senderEntryId

structure TaskEnds (gone : JsString → Prop) (a b : ChildTask) : Prop extends TaskKept a b where
  ended : gone b.childId → b.unfinished = false

/-- A message stays as it is, or it waited and is rejected. -/
structure MessageDrops (a b : Message) : Prop where
  parties : b.senderId = a.senderId ∧ b.targetId = a.targetId ∧ b.relationship = a.relationship ∧ b.body = a.body
    ∧ b.childExitGeneration = a.childExitGeneration
  entry : b.senderEntryId = a.senderEntryId
  state : b.state = a.state ∨ (a.state.waiting = true ∧ b.state = .rejected)

/-- A message does not wait for a gone target or for the transcript of a gone sender. -/
structure MessageEnds (gone : JsString → Prop) (a b : Message) : Prop extends MessageDrops a b where
  target : gone b.targetId → b.state.waiting = false
  sender : gone b.senderId → b.state ≠ .accepted

theorem ActorKept.refl (a : Session) : ActorKept a a := ⟨rfl, rfl, rfl, rfl, rfl⟩

theorem ActorKept.trans {a b c : Session} (first : ActorKept a b) (second : ActorKept b c) : ActorKept a c :=
  ⟨second.lifecycle.trans first.lifecycle, second.generation.trans first.generation, second.streaming.trans first.streaming,
    second.activity.trans first.activity, second.quietSince.trans first.quietSince⟩

theorem SessionKept.refl {w : Writes} (a : Session) : SessionKept w a a :=
  ⟨rfl, rfl, rfl, rfl, rfl, fun _ => .refl a, .inl rfl⟩

theorem SessionKept.trans {w : Writes} {a b c : Session} (first : SessionKept w a b) (second : SessionKept w b c) :
    SessionKept w a c :=
  ⟨second.kind.trans first.kind, second.familyId.trans first.familyId, second.parent.trans first.parent,
    second.depth.trans first.depth, second.deleted.trans first.deleted,
    fun steady => (first.actor steady).trans (second.actor steady),
    second.launch.elim (fun same => same ▸ first.launch) .inr⟩

theorem SessionKept.launch_eq {w : Writes} {a b : Session} (kept : SessionKept w a b) (steady : w.launch = false) :
    b.launch = a.launch := kept.launch.resolve_right fun writes => by simp [steady] at writes

theorem TaskKept.refl (a : ChildTask) : TaskKept a a := ⟨rfl, id⟩

theorem InputKept.refl (a : ActorInput) : InputKept a a := ⟨rfl, rfl, rfl, rfl, rfl⟩

theorem ReceiptKept.refl (a : Receipt) : ReceiptKept a a :=
  ⟨rfl, rfl, rfl, rfl, rfl, rfl, rfl, rfl, .inr ⟨rfl, rfl⟩⟩

def Store.Live (s : Store) (id : JsString) : Prop := ∃ row, s.sessions.get? id = some row ∧ row.deleted = false

def Store.Deleted (s : Store) (id : JsString) : Prop := ∃ row, s.sessions.get? id = some row ∧ row.deleted = true

/-- A new session waits for the start of its actor below a live parent. -/
structure Fresh (s : Store) (id : JsString) (row : Session) : Prop where
  lifecycle : row.lifecycle = .starting
  streaming : row.streaming = false
  activity : row.activity = .inactive
  quietSince : row.quietSince = none
  launch : ∃ launch, row.launch = some (written launch)
  named : row.kind = .root → id ≠ []
  parent : ∀ parent, row.parentSessionId = some parent →
    s.Live parent ∧ ∀ above, s.sessions.get? parent = some above → row.depth = above.depth + 1

/-- A new message waits for its live sender's transcript, or the supervisor queued it. -/
structure Opened (s : Store) (row : Message) : Prop where
  target : s.Live row.targetId
  entry : row.senderEntryId = none
  opened : (row.state = .accepted ∧ row.childExitGeneration = none ∧ s.Live row.senderId)
    ∨ (row.state = .queued ∧ row.childExitGeneration.isSome = true)

/-- The rows of a new input agree, and nothing has become of it yet. -/
structure Admits (s : Store) (receipt : Receipt) (input : ActorInput) : Prop where
  live : s.Live receipt.sessionId
  sessionId : input.sessionId = receipt.sessionId
  digest : input.digest = receipt.digest
  undelivered : receipt.deliveredAt = none
  unhandled : receipt.handledAt = none
  sequence : receipt.sequence = nextSequence s.receipts
  source : receipt.source ≠ none
  entry : receipt.deliveredEntryId = none

/-- Everything below some sessions goes with them, and their work ends. -/
structure Buries (s t : Store) (ids : List JsString) (now : ℤ) : Prop where
  closed : s.sessions.Closed Session.parentSessionId (fun _ => true) ids
  sessions : ∀ id, t.sessions.get? id = (s.sessions.get? id).map fun row => if id ∈ ids then tombstone now row else row
  inputs : ∀ id, t.inputs.get? id = (s.inputs.get? id).filter fun row => decide (row.sessionId ∉ ids)
  tasks : s.tasks.Evolves (TaskEnds (· ∈ ids)) t.tasks
  messages : s.messages.Evolves (MessageEnds (· ∈ ids)) t.messages
  receipts : t.receipts = s.receipts

/-- One move of a call; the moves of messages emit. -/
inductive Move (w : Writes) : Store → Option Unit → Store → Prop
  | memory {s : Store} (children : Table JsString Unit) (deleting : List JsString) (draws : ℕ) :
      Move w s none { s with children, deleting, draws }
  | touch {s : Store} {sessions : Sessions} (kept : s.sessions.Evolves (SessionKept w) sessions) :
      Move w s none { s with sessions }
  | enroll {s : Store} {id : JsString} {row : Session} {sessions : Sessions}
      (inserted : s.sessions.insert? id row = some sessions) (admitted : w.admits = some (row.kind, id)) (fresh : Fresh s id row) :
      Move w s none { s with sessions }
  | assign {s : Store} {id : JsString} {task : ChildTask} {tasks : Table JsString ChildTask}
      (inserted : s.tasks.insert? id task = some tasks) (live : s.Live task.childId) : Move w s none { s with tasks }
  | work {s : Store} {tasks : Table JsString ChildTask} (kept : s.tasks.Evolves TaskKept tasks) : Move w s none { s with tasks }
  | receive {s : Store} {id : JsString} {receipt : Receipt} {input : ActorInput} {receipts : Table JsString Receipt}
      {inputs : Table JsString ActorInput} (recorded : s.receipts.insert? id receipt = some receipts)
      (queued : s.inputs.insert? id input = some inputs) (admits : Admits s receipt input) (written : w.receives = true) :
      Move w s none { s with receipts, inputs }
  | rewrite {s : Store} {inputs : Table JsString ActorInput} (kept : s.inputs.Evolves InputKept inputs) :
      Move w s none { s with inputs }
  | annotate {s : Store} {receipts : Table JsString Receipt} (kept : s.receipts.Evolves ReceiptKept receipts) :
      Move w s none { s with receipts }
  | settle {s : Store} {id : JsString} {receipt : Receipt} {f : Receipt → Receipt}
      (found : s.receipts.get? id = some receipt) (settles : Settles receipt (f receipt))
      (written : w.delivers = true ∨ (f receipt).deliveredAt = receipt.deliveredAt) :
      Move w s none (s.settleInput id receipt.sessionId f)
  | post {s : Store} {id : JsString} {row : Message} {messages : Table JsString Message}
      (inserted : s.messages.insert? id row = some messages) (opened : Opened s row) : Move w s (some ()) { s with messages }
  | advance {s : Store} {id : JsString} {row next : Message} (found : s.messages.get? id = some row)
      (step : MessageStep row next)
      (fresh : next.senderEntryId = row.senderEntryId ∨ ∀ entryId, next.senderEntryId = some entryId →
        senderEntryTaken s next.senderId entryId id = false) :
      Move w s (some ()) { s with messages := s.messages.update id fun _ => next }
  | clear {s t : Store} (same : t = { s with tasks := t.tasks, messages := t.messages })
      (tasks : s.tasks.Evolves (TaskEnds s.Deleted) t.tasks)
      (messages : s.messages.Evolves (MessageEnds s.Deleted) t.messages) : Move w s (some ()) t
  | bury {s t : Store} {ids : List JsString} {now : ℤ} (written : w.actors = true) (buries : Buries s t ids now) :
      Move w s (some ()) t

/-- The moves of a call, at most one of them a move of messages. -/
def Acts (w : Writes) (s t : Store) : Prop := ∃ emitted, Trace (Move w) s emitted t ∧ emitted.length ≤ 1

/-- Moves that leave the messages alone. -/
def Quiet (w : Writes) (s t : Store) : Prop := Trace (Move w) s [] t

variable {w : Writes}

namespace Quiet

theorem refl (s : Store) : Quiet w s s := .nil s

theorem move {s t : Store} (only : Move w s none t) : Quiet w s t := .silent only

theorem trans {s t u : Store} (first : Quiet w s t) (second : Quiet w t u) : Quiet w s u := first.silent_append second

theorem acts {s t : Store} (quiet : Quiet w s t) : Acts w s t := ⟨[], quiet, Nat.zero_le 1⟩

theorem andThen {s t u : Store} (first : Quiet w s t) (rest : Acts w t u) : Acts w s u := by
  obtain ⟨emitted, trace, once⟩ := rest
  exact ⟨emitted, first.silent_append trace, once⟩

end Quiet

namespace Acts

theorem refl (s : Store) : Acts w s s := (Quiet.refl s).acts

theorem move {s t : Store} {emission : Option Unit} (only : Move w s emission t) : Acts w s t :=
  ⟨emission.toList, .single only, by cases emission <;> simp⟩

theorem quiet {s t u : Store} (first : Acts w s t) (rest : Quiet w t u) : Acts w s u := by
  obtain ⟨emitted, trace, once⟩ := first
  exact ⟨emitted, trace.append_silent rest, once⟩

end Acts

end PersistentHarness.SessionStore

/-! ## Calls on sessions

The calls that admit sessions, follow their actors and rename them touch rows or add one, and leave the
messages alone but for one report. The inference of a session is part of its row.
-/

namespace PersistentHarness.SessionStore

open Checked (Ensures)

section Rows

variable {w : Writes} {s : Store} {id : JsString} {f : Session → Session}

theorem evolves_update {sessions : Sessions} (kept : ∀ row, sessions.get? id = some row → SessionKept w row (f row)) :
    sessions.Evolves (SessionKept w) (sessions.update id f) := .update SessionKept.refl kept

theorem updateSession_quiet (kept : ∀ row, s.sessions.get? id = some row → SessionKept w row (f row)) :
    Quiet w s (s.updateSession id f) := .move (.touch (evolves_update kept))

theorem touch_quiet (kept : ∀ row, SessionKept w row (f row)) : Quiet w s (s.updateSession id f) :=
  updateSession_quiet fun row _ => kept row

theorem draws_quiet (s : Store) (draws : ℕ) : Quiet w s { s with draws } := .move (.memory s.children s.deleting draws)

/-- The columns that follow the actor may change where the call writes them. -/
theorem kept_of_actors (written : w.actors = true) {row next : Session} (place : next.kind = row.kind
    ∧ next.familyId = row.familyId ∧ next.parentSessionId = row.parentSessionId ∧ next.depth = row.depth)
    (deleted : next.deleted = row.deleted) (launch : next.launch = row.launch) : SessionKept w row next where
  kind := place.1
  familyId := place.2.1
  parent := place.2.2.1
  depth := place.2.2.2
  deleted := deleted
  actor steady := by simp [written] at steady
  launch := .inl launch

theorem refreshFrom_kept (written : w.actors = true) (now : ℤ) (fuel : ℕ) (seen : List JsString) (sessions : Sessions)
    (current : JsString) : sessions.Evolves (SessionKept w) (Store.refreshFrom now fuel seen sessions current) := by
  induction fuel generalizing seen sessions current with
  | zero => exact .refl SessionKept.refl _
  | succ fuel ih =>
    unfold Store.refreshFrom
    split
    · exact .refl SessionKept.refl _
    · next row found =>
      dsimp only
      split
      · exact evolves_update fun _ _ => kept_of_actors written ⟨rfl, rfl, rfl, rfl⟩ rfl rfl
      · next parent above =>
        refine .trans (fun _ _ _ => SessionKept.trans) ?_ (ih _ _ _)
        exact evolves_update fun _ _ => kept_of_actors written ⟨rfl, rfl, rfl, rfl⟩ rfl rfl

theorem refreshAncestors_quiet (written : w.actors = true) (s : Store) (id : JsString) (now : ℤ) : Quiet w s (s.refreshAncestors id now) := by
  unfold Store.refreshAncestors
  split
  · exact .refl s
  · next parent above => exact .move (.touch (refreshFrom_kept written _ _ _ _ _))

theorem assertSessionAvailable_live (s : Store) (id : JsString) : Ensures (s.assertSessionAvailable id) fun _ => s.Live id := by
  unfold Store.assertSessionAvailable
  refine .bind (.require _ _) fun _ _ => .weaken (.require _ _) fun _ available => ?_
  obtain ⟨row, found, live⟩ := Option.any_eq_true .. |>.mp available
  exact ⟨row, found, by simpa using live⟩

theorem live_of_filter {row : Session} (found : (s.sessions.get? id).filter (fun row => !row.deleted) = some row) :
    s.sessions.get? id = some row ∧ row.deleted = false := by
  obtain ⟨stored, live⟩ := Option.filter_eq_some_iff.mp found
  exact ⟨stored, by simpa using live⟩

end Rows

section Admission

variable {env : Env} {w : Writes} {s : Store}

theorem insertSession_quiet {id : JsString} {row : Session} (admitted : w.admits = some (row.kind, id)) (fresh : Fresh s id row) :
    Ensures (insertSession s id row) fun t => Quiet w s t ∧ t.sessions.get? id = some row ∧ t.children = s.children
      ∧ t.tasks = s.tasks ∧ t.draws = s.draws := by
  unfold insertSession
  split
  · exact .error _
  · next sessions inserted =>
    refine .bind (.any _) fun _ _ => .bind (.any _) fun _ _ => .pure ⟨.move (.enroll inserted admitted fresh), ?_, rfl, rfl, rfl⟩
    rw [Table.get?_insert inserted, if_pos rfl]

theorem insertRoot_quiet (params : RootParams) (admitted : w.admits = some (.root, params.sessionId)) (now : ℤ) :
    Ensures (insertRoot env s params now) (Quiet w s) := by
  unfold insertRoot
  refine .bind (.require _ _) fun _ named => .bind (.any _) fun _ _ => .bind (.any _) fun _ _ => ?_
  have fresh : ∀ cwd name launch, Fresh s params.sessionId (newSession env params.sessionId .root none 0 globalRootFamilyId cwd
      name params.actorToken params.sessionFile params.repositoryRoot launch now) :=
    fun _ _ _ => ⟨rfl, rfl, rfl, rfl, ⟨_, rfl⟩, fun _ => named, by rintro parent ⟨⟩⟩
  exact .weaken (insertSession_quiet admitted (fresh _ _ _)) fun _ done => done.1

theorem createRoot_quiet (params : RootParams) (admitted : w.admits = some (.root, params.sessionId)) (now : ℤ) :
    Ensures (createRoot env s params now) fun done => Quiet w s done.1 := by
  unfold createRoot
  exact .bind (.any _) fun _ _ => .bind (insertRoot_quiet params admitted now) fun _ quiet => .pure quiet

theorem admitRoot_quiet (params : RootParams) (admitted : w.admits = some (.root, params.sessionId))
    (written : w.launch = true) (now : ℤ) :
    Ensures (admitRoot env s params now) fun done => Quiet w s done.1 := by
  unfold admitRoot
  split
  · exact .bind (insertRoot_quiet params admitted now) fun _ quiet => .pure quiet
  · next row found =>
    refine .bind (.any _) fun _ _ => .bind (.any _) fun _ _ => .bind (.any _) fun _ _ => .pure (updateSession_quiet ?_)
    intro stored here
    cases found.symm.trans here
    refine ⟨rfl, rfl, rfl, rfl, rfl, fun _ => ⟨rfl, rfl, rfl, rfl, rfl⟩, ?_⟩
    dsimp only [readmittedLaunch]
    split
    · exact .inl rfl
    · exact .inr ⟨written, _, rfl⟩

theorem createChild_quiet (parentId : JsString) (params : ChildParams)
    (admitted : w.admits = some (.child, params.sessionId)) (now : ℤ) :
    Ensures (createChild env s parentId params now) fun done => Quiet w s done.1 := by
  unfold createChild
  refine .bind (.any _) fun _ _ => ?_
  split
  · exact .error _
  · next parent found =>
    refine .bind (.any _) fun _ _ => .bind (.any _) fun _ _ => .bind (.any _) fun _ _ => ?_
    obtain ⟨stored, live⟩ := live_of_filter found
    refine .bind (insertSession_quiet admitted ⟨rfl, rfl, rfl, rfl, ⟨_, rfl⟩, by rintro ⟨⟩, ?_⟩) fun t done => ?_
    · rintro _ ⟨⟩
      refine ⟨⟨parent, stored, live⟩, fun above found => ?_⟩
      cases stored.symm.trans found
      rfl
    · obtain ⟨admitted, child, children, tasks, draws⟩ := done
      dsimp only
      split
      · next inserted assigned =>
        refine .pure (admitted.trans (.trans (.move (.assign assigned ⟨_, child, rfl⟩)) ?_))
        exact .move (.memory _ t.deleting (t.draws + 1))
      · exact .error _
      · exact .error _

end Admission

section Actors

variable {env : Env} {w : Writes} {s : Store}

theorem registerActor_quiet (params : Registration) (now : ℤ) :
    Ensures (registerActor s params now) fun done => Quiet w s done.1 := by
  unfold registerActor
  refine .bind (.any _) fun _ _ => ?_
  split
  · exact .error _
  · exact .bind (.any _) fun _ _ => .bind (.any _) fun _ _ => .pure (touch_quiet fun _ => ⟨rfl, rfl, rfl, rfl, rfl, fun _ => ⟨rfl, rfl, rfl, rfl, rfl⟩, .inl rfl⟩)

theorem prepareActorRevival_quiet (written : w.actors = true) (sessionId actorToken : JsString) (now : ℤ) (force : Bool)
    (error : Option JsString) :
    Ensures (prepareActorRevival s sessionId actorToken now force error) fun done => Quiet w s done.1 := by
  unfold prepareActorRevival
  refine .bind (.any _) fun _ _ => ?_
  split
  · exact .error _
  · next row found =>
    refine .bind (.require _ _) fun _ live => .bind (.any _) fun _ _ => ?_
    split
    · exact .pure (.refl s)
    · refine .pure (.trans (updateSession_quiet ?_) (refreshAncestors_quiet written _ _ _))
      intro stored here
      cases found.symm.trans here
      exact kept_of_actors written ⟨rfl, rfl, rfl, rfl⟩ live.symm rfl

theorem markActorStarted_quiet (written : w.actors = true) (sessionId : JsString) (generation : ℕ) (startup : Startup) (now : ℤ) :
    Ensures (markActorStarted s sessionId generation startup now) fun done => Quiet w s done.1 := by
  unfold markActorStarted
  refine .bind (.any _) fun _ _ => .bind (.require _ _) fun _ starting => .pure ?_
  refine .trans (updateSession_quiet ?_) (refreshAncestors_quiet written _ _ _)
  intro row here
  rw [here, Option.any_some] at starting
  have lifecycle : row.lifecycle = .starting := (of_decide_eq_true starting).2
  exact kept_of_actors written ⟨rfl, rfl, rfl, rfl⟩ (by simp [Session.deleted, lifecycle]) rfl

theorem setActorActivity_quiet (written : w.actors = true) (sessionId : JsString) (generation : ℕ) (streaming : Bool) (now : ℤ) :
    Ensures (setActorActivity s sessionId generation streaming now) fun done => Quiet w s done.1 := by
  unfold setActorActivity
  split
  · exact .error _
  · refine .pure (.trans ?_ (refreshAncestors_quiet written _ _ _))
    exact touch_quiet fun _ => kept_of_actors written ⟨rfl, rfl, rfl, rfl⟩ rfl rfl

theorem recordSessionLastError_quiet (sessionId : JsString) (generation : ℕ) (error : Option JsString) (now : ℤ) :
    Quiet w s (recordSessionLastError s sessionId generation error now).1 := by
  unfold recordSessionLastError
  split
  · exact .refl s
  · refine touch_quiet fun row => ?_
    split
    · exact ⟨rfl, rfl, rfl, rfl, rfl, fun _ => ⟨rfl, rfl, rfl, rfl, rfl⟩, .inl rfl⟩
    · exact .refl row

theorem renameSession_quiet {sessionId : JsString} {row : Session} (found : s.sessions.get? sessionId = some row)
    (displayName : JsString) (now : ℤ) : Ensures (renameSession s sessionId row displayName now) (Quiet w s) := by
  unfold renameSession
  refine .bind (.any _) fun _ _ => .pure (updateSession_quiet ?_)
  intro stored here
  cases found.symm.trans here
  exact ⟨rfl, rfl, rfl, rfl, rfl, fun _ => ⟨rfl, rfl, rfl, rfl, rfl⟩, .inl rfl⟩

theorem setSessionName_quiet (sessionId : JsString) (name : Option JsString) (now : ℤ) :
    Ensures (setSessionName env s sessionId name now) fun done => Quiet w s done.1 := by
  unfold setSessionName
  split
  · exact .error _
  · next row found =>
    refine .bind (.any _) fun _ _ => .bind (renameSession_quiet (live_of_filter found).1 _ now) fun _ quiet => .pure quiet

theorem autoNameDefaultRoot_quiet (sessionId : JsString) (title : Option JsString) (now : ℤ) :
    Ensures (autoNameDefaultRoot env s sessionId title now) fun done => Quiet w s done.1 := by
  unfold autoNameDefaultRoot
  split
  · next row title found =>
    split
    · exact .ok (.refl s)
    · split
      · exact .ok (.refl s)
      · have stored := (Option.filter_eq_some_iff.mp found).1
        exact .bind (renameSession_quiet stored _ now) fun _ quiet => .pure quiet
  · exact .ok (.refl s)

theorem setRootScratch_quiet (rootId : JsString) (record : Value) : Ensures (s.setRootScratch rootId record) (Quiet w s) := by
  unfold Store.setRootScratch
  exact .bind (.any _) fun _ _ => .bind (.any _) fun _ _ => .pure (touch_quiet fun _ => ⟨rfl, rfl, rfl, rfl, rfl, fun _ => ⟨rfl, rfl, rfl, rfl, rfl⟩, .inl rfl⟩)

end Actors

section Inference

variable {env : Env} {w : Writes} {s : Store}

theorem setLaunch_quiet (written : w.launch = true) (sessionId : JsString) (launch : Value) (now : ℤ) : Quiet w s (s.setLaunch sessionId launch now) :=
  touch_quiet fun _ => ⟨rfl, rfl, rfl, rfl, rfl, fun _ => ⟨rfl, rfl, rfl, rfl, rfl⟩, .inr ⟨written, launch, rfl⟩⟩

theorem recordResolvedSessionInference_quiet (written : w.launch = true) (sessionId : JsString) (generation : ℕ) (selection : Selection) (now : ℤ) :
    Ensures (recordResolvedSessionInference s sessionId generation selection now) fun done => Quiet w s done.1 := by
  unfold recordResolvedSessionInference
  refine .bind (.any _) fun _ _ => .bind (.any _) fun _ _ => .bind (.any _) fun _ _ => .bind (.any _) fun _ _ => ?_
  exact .ite (fun _ => .pure (setLaunch_quiet written _ _ now)) fun _ => .pure (.refl s)

theorem updateSessionFastMode_quiet (written : w.launch = true) (sessionId : JsString) (enabled expected : Bool) (now : ℤ) :
    Ensures (updateSessionFastMode s sessionId enabled expected now) (Quiet w s) := by
  unfold updateSessionFastMode
  refine .bind (.any _) fun _ _ => .bind (.any _) fun _ _ => .bind (.any _) fun _ _ => .bind (.any _) fun _ _ => ?_
  exact .pure (setLaunch_quiet written _ _ now)

theorem queueSessionInference_quiet (written : w.launch = true) (sessionId : JsString) (selection activeSelection : Selection) (now : ℤ) :
    Ensures (queueSessionInference env s sessionId selection activeSelection now) fun done => Quiet w s done.1 := by
  unfold queueSessionInference
  exact .bind (.any _) fun _ _ => .pure (.trans (setLaunch_quiet written _ _ now) (draws_quiet _ _))

theorem updateSessionInference_quiet (written : w.launch = true) (sessionId : JsString) (selection : Selection) (expectedLaunch : Option Value)
    (now : ℤ) (requestId : Option JsString) :
    Ensures (updateSessionInference s sessionId selection expectedLaunch now requestId) fun done => Quiet w s done.1 := by
  unfold updateSessionInference
  exact .bind (.any _) fun _ _ => .bind (.any _) fun _ _ => .pure (setLaunch_quiet written _ _ now)

theorem keepSelection_quiet (written : w.launch = true) (sessionId : JsString) (launch : Value) (selection : Option Selection) (now : ℤ) :
    Ensures (keepSelection s sessionId launch selection now) fun done => Quiet w s done.1 := by
  unfold keepSelection
  split
  · exact .ok (.refl s)
  · exact updateSessionInference_quiet written _ _ _ _ _

theorem recordSessionInferenceResult_quiet (written : w.launch = true) (sessionId : JsString) (generation : ℕ) (result : InferenceResult) (now : ℤ) :
    Ensures (recordSessionInferenceResult s sessionId generation result now) fun done => Quiet w s done.1 := by
  unfold recordSessionInferenceResult
  split
  · exact .ok (.refl s)
  · next selection row found =>
    dsimp only
    split
    · refine .bind (keepSelection_quiet written _ _ _ now) fun done quiet => ?_
      split
      · exact .pure quiet
      · exact .pure (quiet.trans (setLaunch_quiet written _ _ now))
    · split
      · exact .error _
      · exact .bind (updateSessionInference_quiet written _ _ _ _ _) fun _ quiet => .pure quiet

theorem retargetRow_quiet (written : w.launch = true) (env : Env) (params : Retarget) (now : ℤ) (progress : RetargetProgress) (id : JsString) :
    Quiet w progress.store (retargetRow env params now progress id).store := by
  unfold retargetRow
  split
  · exact .refl _
  · dsimp only
    repeat' split
    all_goals first
      | exact .refl _
      | exact .trans (setLaunch_quiet written _ _ now) (draws_quiet _ _)

theorem retargetDefaultInference_quiet (written : w.launch = true) (params : Retarget) (now : ℤ) :
    Quiet w s (retargetDefaultInference env s params now).1 := by
  unfold retargetDefaultInference
  dsimp only
  exact Trace.foldl_silent RetargetProgress.store (fun progress id _ => retargetRow_quiet written env params now progress id) ⟨s, _, _⟩

end Inference

end PersistentHarness.SessionStore
