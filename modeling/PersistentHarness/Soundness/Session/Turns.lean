import PersistentHarness.Soundness.Session.Actors

/-! # The calls that follow actors

Each call that writes the columns of the actors turns one session and refreshes those above it, but for deletions
and the restart of a daemon. A revival and a restart show sessions as inactive without a look at who works below.
-/

namespace PersistentHarness.SessionStore

open Checked (Ensures)

/-- A restarted daemon queues this session again. -/
def Store.lost (s : Store) (id : JsString) (row : Session) : Bool :=
  row.lifecycle = .starting ∨ row.lifecycle = .resident
    ∨ (row.lifecycle = .passivated ∧ s.inputs.any (fun _ input => input.sessionId = id) = true)

/-- A revival starts a new actor. -/
def Store.revives (s : Store) (id actorToken : JsString) (force : Bool) : Bool :=
  s.isSessionDeleting id = false ∧ actorToken ≠ [] ∧ (s.sessions.get? id).any fun row =>
    !row.deleted && (force || !decide (row.lifecycle = .resident ∨ row.lifecycle = .starting))

/-- A call that leaves the activity of a session behind what works below it: the revival of a session above a
working one, or a restart above whose lost workers a session without a worker shows that it delegates. -/
def Op.stale (s : Store) : Op → Bool
  | .prepareActorRevival id actorToken force _ => s.revives id actorToken force && 0 < workingDescendantCount s.sessions id
  | .reconcileAfterDaemonStart =>
    s.sessions.any fun id row => !row.deleted && !s.lost id row && 0 < workingDescendantCount s.sessions id
  | _ => false

section Calls

variable {env : Env} {observer : Option JsString} {w : Writes} {stale : Prop} {s t : Store} {now : ℤ}

/-- A call that does not write the columns of the actors. -/
theorem Move.steady {emission : Option Unit} (move : Move w s emission t) (silent : w.actors = false) :
    Steady s.sessions t.sessions := by
  cases move with
  | touch kept =>
    refine ⟨fun id row stored => ?_, fun id row fresh stored => ?_⟩
    · obtain ⟨next, found, same⟩ := kept.after stored
      exact ⟨next, found, same.placed, same.actor silent, same.deleted⟩
    · obtain ⟨old, found, _⟩ := kept.before stored
      rw [fresh] at found
      cases found
  | @enroll new row sessions inserted admitted fresh =>
    refine ⟨fun id old stored => ⟨old, ?_, .refl old⟩, fun id old unknown stored => ?_⟩
    · rw [Table.get?_insert inserted, if_neg, stored]
      rintro rfl
      rw [Table.fresh_of_insert? inserted] at stored
      cases stored
    · rw [Table.get?_insert inserted] at stored
      split at stored
      · cases stored
        exact ⟨fresh.lifecycle, fresh.activity⟩
      · rw [unknown] at stored
        cases stored
  | clear same =>
    rw [same]
    exact .refl _
  | bury written =>
    rw [silent] at written
    cases written
  | _ => exact .refl _

theorem Acts.steady (acts : Acts w s t) (silent : w.actors = false) : Steady s.sessions t.sessions := by
  obtain ⟨emitted, trace, _⟩ := acts
  exact trace.relates (R := fun s t => Steady s.sessions t.sessions) (fun s => .refl _) (fun _ _ _ => Steady.trans)
    fun _ _ _ move => move.steady silent

theorem turn_call {v : Store} (rooted : Rooted s.sessions) (busy : Busy s.sessions) {id : JsString} {row : Session}
    (stored : s.sessions.get? id = some row) {f : Session → Session}
    (turned : Turned stale (decide (0 < workingDescendantCount s.sessions id)) row (f row))
    (changed : v.sessions = s.sessions.update id f) : ActorCall stale s.sessions (v.refreshAncestors id now).sessions := by
  have constant : s.sessions.update id f = s.sessions.update id fun _ => f row := Table.update_congr fun old here => by
    cases stored.symm.trans here
    rfl
  rw [constant] at changed
  have placed : s.sessions.Evolves Placed v.sessions := changed ▸ .update Placed.refl fun old here => by
    cases stored.symm.trans here
    exact turned.toPlaced
  have found : v.sessions.get? id = some (f row) := by rw [changed, Table.get?_update_of stored, if_pos rfl]
  have rows := refreshAncestors_refreshed now (rooted.evolve placed) (changed ▸ turn_busy busy stored turned) found
  rw [changed] at rows placed
  exact .turn stored turned ⟨fun other up => rows.inside other ((ancestor_evolve placed).mp up),
    fun other apart => rows.outside other fun up => apart ((ancestor_evolve placed).mpr up)⟩

theorem markActorStarted_call (rooted : Rooted s.sessions) (busy : Busy s.sessions) (fresh : ¬stale) (sessionId : JsString)
    (generation : ℕ) (startup : Startup) :
    Ensures (markActorStarted s sessionId generation startup now) fun done => ActorCall stale s.sessions done.1.sessions := by
  unfold markActorStarted
  refine .bind (.any _) fun _ _ => .bind (.require _ _) fun _ starting => .pure ?_
  obtain ⟨row, stored, current⟩ := Option.any_eq_true .. |>.mp starting
  have lifecycle : row.lifecycle = .starting := (of_decide_eq_true current).2
  refine turn_call rooted busy stored ⟨⟨rfl, rfl⟩, ⟨by simp [Session.deleted, lifecycle], rfl⟩, fun _ => ?_, fun _ => ⟨?_, ?_⟩,
    by simp, by simp [lifecycle], fun here => absurd here fresh⟩ rfl
  · simp [shownActivity]
  · simp [shownActivity]
  · simp

theorem setActorActivity_call (rooted : Rooted s.sessions) (busy : Busy s.sessions) (fresh : ¬stale) (sessionId : JsString)
    (generation : ℕ) (streaming : Bool) :
    Ensures (setActorActivity s sessionId generation streaming now) fun done => ActorCall stale s.sessions done.1.sessions := by
  unfold setActorActivity
  split
  · exact .error _
  · next row found =>
    obtain ⟨stored, current⟩ := Option.filter_eq_some_iff.mp found
    have resident : row.lifecycle = .resident := (of_decide_eq_true current).2
    refine .pure (turn_call rooted busy stored ⟨⟨rfl, rfl⟩, ?_, fun _ => ?_, fun _ => ⟨?_, ?_⟩, ?_, ?_,
      fun here => absurd here fresh⟩ rfl)
    · simp [Session.deleted, resident]
    · simp [shownActivity, resident]
    · simp [shownActivity, resident]
    · cases streaming <;> simp
    · simp [resident]
    · intro _ _ quiet since set
      simp only at quiet
      simp [quiet, set]

theorem queueChildFailure_sessions (sessionId : JsString) (generation : ℕ) (error : Option JsString)
    (turnFailure : Option TurnFailure) :
    (queueChildFailure env observer s sessionId generation error now turnFailure).sessions = s.sessions := by
  unfold queueChildFailure
  split
  · rfl
  · split <;> rfl

theorem markActorLifecycle_call (rooted : Rooted s.sessions) (busy : Busy s.sessions) (fresh : ¬stale) (sessionId : JsString)
    (generation : ℕ) (lifecycle : JsString) (error : Option JsString) (reportChildExit : Bool) :
    Ensures (markActorLifecycle env observer s sessionId generation lifecycle error now reportChildExit)
      fun done => ActorCall stale s.sessions done.1.sessions := by
  unfold markActorLifecycle
  split
  · exact .error _
  · next ending _ =>
    refine .ite (fun _ => .ok (.steady fresh (.refl _))) fun _ => .ite (fun current => .ok ?_) fun _ => .ok (.steady fresh (.refl _))
    obtain ⟨row, stored, matched⟩ := Option.any_eq_true .. |>.mp current
    have live := (of_decide_eq_true matched).2
    refine turn_call rooted busy stored (f := fun row =>
      { row with
        lifecycle := ending.lifecycle, actorPid := none, actorIdentity := none, streaming := false
        activity := if 0 < workingDescendantCount s.sessions sessionId then .delegating else .inactive
        stoppedAt := some now, quietSince := none, lastError := error, updatedAt := now })
      ⟨⟨rfl, rfl⟩, ⟨live, by cases ending <;> rfl⟩, fun _ => ?_, fun resident => ?_, fun _ => ?_, fun _ resident => ?_,
        fun here => absurd here fresh⟩ ?_
    · cases ending <;> simp [shownActivity, Ending.lifecycle]
    · cases ending <;> cases resident
    · split <;> simp
    · cases ending <;> cases resident
    · split
      · rw [queueChildFailure_sessions]
        rfl
      · rfl

theorem assertSessionAvailable_open (s : Store) (id : JsString) :
    Ensures (s.assertSessionAvailable id) fun _ => s.isSessionDeleting id = false := by
  unfold Store.assertSessionAvailable
  exact .bind (.require _ _) fun _ unfenced => .weaken (.any _) fun _ _ => unfenced

/-- Without a revival the store stays as it is. -/
theorem prepareActorRevival_idle {sessionId actorToken : JsString} {force : Bool} (error : Option JsString) (now : ℤ)
    (idle : s.revives sessionId actorToken force = false) :
    Ensures (prepareActorRevival s sessionId actorToken now force error) fun done => done.1 = s := by
  unfold prepareActorRevival
  refine .bind (assertSessionAvailable_open s sessionId) fun _ unfenced => ?_
  split
  · exact .error _
  · next row stored =>
    refine .bind (.require _ _) fun _ live => .bind (.require _ _) fun _ token => ?_
    split
    · exact .pure rfl
    · next proceeds => simp [Store.revives, unfenced, token, stored, live] at idle; simp_all

/-- A revival starts the next actor and refreshes the sessions above. -/
theorem prepareActorRevival_revives {sessionId actorToken : JsString} {force : Bool} (error : Option JsString) (now : ℤ)
    (revives : s.revives sessionId actorToken force = true) :
    ∃ row view, s.sessions.get? sessionId = some row ∧ row.deleted = false
      ∧ prepareActorRevival s sessionId actorToken now force error = .ok ((s.updateSession sessionId fun row =>
          { restarting actorToken row with lastError := error, stoppedAt := none, updatedAt := now }).refreshAncestors sessionId now,
        view) := by
  obtain ⟨unfenced, token, there⟩ := of_decide_eq_true revives
  obtain ⟨row, stored, matched⟩ := Option.any_eq_true .. |>.mp there
  obtain ⟨live, proceeds⟩ := Bool.and_eq_true_iff.mp matched
  have alive : row.deleted = false := by simpa using live
  have available : (s.sessions.get? sessionId).any (fun row => !row.deleted) = true := by rw [stored]; exact live
  refine ⟨row, ?view, stored, alive, ?outcome⟩
  case outcome =>
  rw [prepareActorRevival, Store.assertSessionAvailable, Checked.require_of unfenced, Checked.ok_bind,
    Checked.require_of available, Checked.ok_bind, stored]
  dsimp only
  rw [Checked.require_of alive, Checked.ok_bind, Checked.require_of token, Checked.ok_bind, if_neg]
  · rfl
  · rintro ⟨unforced, running⟩
    simp [unforced, running] at proceeds

theorem prepareActorRevival_call (rooted : Rooted s.sessions) (busy : Busy s.sessions) (sessionId actorToken : JsString)
    (force : Bool) (error : Option JsString) :
    ActorCall (Op.stale s (.prepareActorRevival sessionId actorToken force error) = true) s.sessions
      (step env observer s now (.prepareActorRevival sessionId actorToken force error)).1.sessions := by
  rw [step]
  cases revives : s.revives sessionId actorToken force with
  | false =>
    have idle := prepareActorRevival_idle error now revives
    generalize prepareActorRevival s sessionId actorToken now force error = result at idle
    refine .steady (by simp [Op.stale, revives]) ?_
    cases result with
    | error failure => exact .refl _
    | ok done =>
      rw [← idle done rfl]
      exact .refl _
  | true =>
    obtain ⟨row, view, stored, live, outcome⟩ := prepareActorRevival_revives error now revives
    rw [outcome]
    refine turn_call rooted busy stored ⟨⟨rfl, rfl⟩, ⟨live, rfl⟩, fun fresh => ?_, ?_, ?_, ?_, fun works => ?_⟩ rfl
    · have none_works : ¬0 < workingDescendantCount s.sessions sessionId := by simpa [Op.stale, revives] using fresh
      simp [shownActivity, restarting, none_works]
    · rintro ⟨⟩
    · exact fun _ => by simp [restarting]
    · rintro _ ⟨⟩
    · exact ⟨rfl, rfl, by simpa [Op.stale, revives] using works⟩

theorem mem_subtree_iff {sessions : Sessions} {sessionId id : JsString} {row : Session} (stored : sessions.get? id = some row) :
    id ∈ subtree sessions sessionId ↔ id = sessionId ∨ Ancestor sessions sessionId id := by
  rw [mem_subtree, Table.mem_descendants, ancestor_iff_below]
  exact ⟨And.left, fun below => ⟨below, row, stored⟩⟩

theorem deleteSession_call (rooted : Rooted s.sessions) (busy : Busy s.sessions) (fresh : ¬stale) (sessionId : JsString) :
    Ensures (deleteSession s sessionId now) fun done => ActorCall stale s.sessions done.1.sessions := by
  unfold deleteSession
  refine .bind (getSessionSubtree_eq s.sessions sessionId) fun ids found => ?_
  obtain ⟨rfl, root, there⟩ := found
  refine .bind (retireScratch_kept (w := ⟨false, false, none, false, false⟩) sessionId) fun t retired => .pure ?_
  obtain ⟨sessions, kept, rfl⟩ := retired
  have before : s.sessions.Evolves SameActor sessions :=
    kept.mono fun _ _ same => ⟨same.placed, same.actor rfl, same.deleted⟩
  have placed : s.sessions.Evolves Placed sessions := before.mono fun _ _ => SameActor.toPlaced
  have closed := closed_of_evolves kept (subtree_closed s.sessions sessionId)
  have buried := (foldl_bury (s := { s with sessions }) now closed).sessions
  have placed' := buried_placed buried
  obtain ⟨middle, there', _⟩ := placed.after there
  obtain ⟨last, there'', _⟩ := placed'.after there'
  have rows := refreshAncestors_refreshed now ((rooted.evolve placed).evolve placed') ((busy.evolve before).bury buried) there''
  have below : ∀ other row, sessions.get? other = some row →
      (other ∈ subtree s.sessions sessionId ↔ other = sessionId ∨ Ancestor sessions sessionId other) := by
    intro other row stored
    obtain ⟨old, here, _⟩ := before.before stored
    rw [mem_subtree_iff here, ancestor_evolve placed]
  have above : ∀ other, Ancestor sessions other sessionId ↔ Ancestor _ other sessionId := fun other => ancestor_evolve placed'
  simp only [← above] at rows
  exact .bury fresh before below buried rows

theorem deleteChild_call (rooted : Rooted s.sessions) (busy : Busy s.sessions) (fresh : ¬stale) (parentId selector : JsString) :
    Ensures (deleteChild s parentId selector now) fun done => ActorCall stale s.sessions done.1.sessions := by
  unfold deleteChild
  exact .bind (.any _) fun _ _ => deleteSession_call rooted busy fresh _

theorem foldl_requeue (owners : List PreviousOwner) (s : Store) (id : JsString) :
    (∀ row, s.sessions.get? id = some row → ∃ next, (owners.foldl (requeueOwner env now) s).sessions.get? id = some next
        ∧ (id ∈ owners.map PreviousOwner.sessionId → Requeued row next)
        ∧ (id ∉ owners.map PreviousOwner.sessionId → next = row))
      ∧ (s.sessions.get? id = none → (owners.foldl (requeueOwner env now) s).sessions.get? id = none) := by
  induction owners generalizing s with
  | nil => exact ⟨fun row stored => ⟨row, stored, by rintro ⟨⟩, fun _ => rfl⟩, fun fresh => fresh⟩
  | cons owner owners ih =>
    obtain ⟨rest, missing⟩ := ih (requeueOwner env now s owner)
    have here := Table.get?_update s.sessions owner.sessionId (fun row =>
      { restarting (env.uuid s.draws) row with
        stoppedAt := some now, lastError := some (js (restartError owner)), updatedAt := now }) id
    refine ⟨fun row stored => ?_, fun fresh => missing (here.trans ?_)⟩
    · by_cases own : id = owner.sessionId
      · rw [if_pos own, stored, Option.map_some] at here
        obtain ⟨next, found, again, once⟩ := rest _ here
        refine ⟨next, found, fun _ => ?_, fun other => absurd (List.mem_cons.mpr (.inl own)) other⟩
        by_cases later : id ∈ owners.map PreviousOwner.sessionId
        · have requeued := again later
          exact ⟨⟨requeued.parent, requeued.depth⟩, requeued.lifecycle, requeued.activity⟩
        · rw [once later]
          exact ⟨⟨rfl, rfl⟩, rfl, rfl⟩
      · rw [if_neg own, stored] at here
        obtain ⟨next, found, again, once⟩ := rest _ here
        exact ⟨next, found, fun member => again ((List.mem_cons.mp member).resolve_left own),
          fun other => once fun member => other (List.mem_cons.mpr (.inr member))⟩
    · split <;> simp [fresh]

theorem mem_previousOwners {id : JsString} : id ∈ (previousOwners s).map PreviousOwner.sessionId ↔
    ∃ row, s.sessions.get? id = some row ∧ s.lost id row = true := by
  constructor
  · intro member
    obtain ⟨owner, listed, rfl⟩ := List.mem_map.mp member
    obtain ⟨id, row, stored, found⟩ := Table.mem_collect.mp listed
    split at found
    · next lost =>
      cases found
      exact ⟨row, stored, decide_eq_true lost⟩
    · cases found
  · rintro ⟨row, stored, lost⟩
    refine List.mem_map.mpr ⟨_, Table.mem_collect.mpr ⟨id, row, stored, if_pos (of_decide_eq_true lost)⟩, rfl⟩

theorem reconcileAfterDaemonStart_call :
    ActorCall (Op.stale s .reconcileAfterDaemonStart = true) s.sessions (reconcileAfterDaemonStart env s now).1.sessions := by
  refine @ActorCall.requeue _ _ _ (· ∈ (previousOwners s).map PreviousOwner.sessionId)
    (fun id row stored => (foldl_requeue (previousOwners s) s id).1 row stored) (fun id row stored => ?_) (fun id row stored resident => ?_) ?_
  · cases here : s.sessions.get? id with
    | none =>
      have gone := (@foldl_requeue env now (previousOwners s) s id).2 here
      cases gone.symm.trans stored
    | some old => exact ⟨old, rfl⟩
  · exact mem_previousOwners.mpr ⟨row, stored, by simp [Store.lost, resident]⟩
  · rw [Op.stale, Table.any_eq_true]
    constructor
    · rintro ⟨id, row, stored, matched⟩
      simp only [Bool.and_eq_true, Bool.not_eq_true', decide_eq_true_eq] at matched
      refine ⟨id, row, stored, matched.1.1, fun own => ?_, matched.2⟩
      obtain ⟨other, found, lost⟩ := mem_previousOwners.mp own
      cases found.symm.trans stored
      rw [lost] at matched
      cases matched.1.2
    · rintro ⟨id, row, stored, live, other, works⟩
      refine ⟨id, row, stored, ?_⟩
      have kept : s.lost id row = false := by
        rw [Bool.eq_false_iff]
        exact fun lost => other (mem_previousOwners.mpr ⟨row, stored, lost⟩)
      simp [live, kept, works]

theorem step_call (rooted : Rooted s.sessions) (busy : Busy s.sessions) (op : Op) :
    ActorCall (op.stale s = true) s.sessions (step env observer s now op).1.sessions := by
  have checked_call {α : Type} {f : α → Output} {result : Result (Store × α)}
      (done : Ensures result fun done => ActorCall (op.stale s = true) s.sessions done.1.sessions) (fresh : ¬op.stale s = true) :
      ActorCall (op.stale s = true) s.sessions (checked s (giving f result)).1.sessions := by
    cases result with
    | error failure => exact .steady fresh (.refl _)
    | ok next => exact done next rfl
  by_cases written : op.writes.actors = true
  · cases op with
    | prepareActorRevival => exact prepareActorRevival_call rooted busy _ _ _ _
    | reconcileAfterDaemonStart => exact reconcileAfterDaemonStart_call
    | markActorStarted => exact checked_call (markActorStarted_call rooted busy (by rintro ⟨⟩) _ _ _) (by rintro ⟨⟩)
    | markActorLifecycle => exact checked_call (markActorLifecycle_call rooted busy (by rintro ⟨⟩) _ _ _ _ _) (by rintro ⟨⟩)
    | setActorActivity => exact checked_call (setActorActivity_call rooted busy (by rintro ⟨⟩) _ _ _) (by rintro ⟨⟩)
    | deleteChild => exact checked_call (deleteChild_call rooted busy (by rintro ⟨⟩) _ _) (by rintro ⟨⟩)
    | deleteSession => exact checked_call (deleteSession_call rooted busy (by rintro ⟨⟩) _) (by rintro ⟨⟩)
    | _ => cases written
  · refine .steady (fun here => ?_) ((step_acts op).steady (Bool.not_eq_true _ ▸ written))
    cases op with
    | prepareActorRevival => exact written rfl
    | reconcileAfterDaemonStart => exact written rfl
    | _ => cases here

end Calls

end PersistentHarness.SessionStore

/-! ## Streaming sessions are not quiet

Whoever reads a quiet interval of a session knows that its actor does not stream. Every call keeps that row by row,
whatever the forest of sessions looks like.
-/

namespace PersistentHarness.SessionStore

open Checked (Ensures)

def Awake (row : Session) : Prop := row.streaming = true → row.quietSince = none

def AllAwake (sessions : Sessions) : Prop := ∀ id row, sessions.get? id = some row → Awake row

section Calls

variable {env : Env} {observer : Option JsString} {w : Writes} {sessions : Sessions} {s t : Store} {now : ℤ}

theorem awake_of_still {row : Session} (still : row.streaming = false) : Awake row := by
  intro streaming
  rw [still] at streaming
  cases streaming

theorem ActorKept.awake {a b : Session} (kept : ActorKept a b) (awake : Awake a) : Awake b := by
  intro streaming
  rw [kept.quietSince]
  exact awake (kept.streaming ▸ streaming)

theorem refreshed_awake (delegates : Bool) (row : Session) : Awake (refreshed now delegates row) := by
  intro streaming
  have streams : row.streaming = true := streaming
  simp [refreshed, streams]

theorem tombstone_awake {row : Session} (awake : Awake row) : Awake (tombstone now row) := by
  rw [tombstone]
  split
  · exact awake
  · exact awake_of_still rfl

theorem AllAwake.evolve {next : Sessions} (awake : AllAwake sessions) (kept : sessions.Evolves ActorKept next) : AllAwake next := by
  intro id row stored
  obtain ⟨old, found, same⟩ := kept.before stored
  exact same.awake (awake id old found)

theorem AllAwake.update (awake : AllAwake sessions) (id : JsString) {f : Session → Session}
    (keeps : ∀ row, Awake row → Awake (f row)) : AllAwake (sessions.update id f) := by
  intro other row stored
  rw [Table.get?_update] at stored
  split at stored
  · obtain ⟨old, found, rfl⟩ := Option.map_eq_some_iff.mp stored
    exact keeps old (awake _ old found)
  · exact awake other row stored

theorem AllAwake.refreshFrom {fuel : ℕ} {seen : List JsString} (awake : AllAwake sessions) (current : JsString) :
    AllAwake (Store.refreshFrom now fuel seen sessions current) := by
  induction fuel generalizing seen sessions current with
  | zero => exact awake
  | succ fuel ih =>
    cases found : (sessions.get? current).filter fun _ => decide (current ∉ seen) with
    | none =>
      rw [Store.refreshFrom]
      simp only [found]
      exact awake
    | some row =>
      obtain ⟨stored, fresh⟩ := Option.filter_eq_some_iff.mp found
      have next := awake.update current fun old _ =>
        @refreshed_awake now (decide (0 < workingDescendantCount sessions current)) old
      rw [refreshFrom_succ stored (of_decide_eq_true fresh)]
      dsimp only
      split
      · exact next
      · exact ih next _

theorem AllAwake.refreshAncestors (awake : AllAwake s.sessions) (sessionId : JsString) :
    AllAwake (s.refreshAncestors sessionId now).sessions := by
  unfold Store.refreshAncestors
  split
  · exact awake
  · exact awake.refreshFrom _

theorem AllAwake.turn {v : Store} (awake : AllAwake s.sessions) (id : JsString) {f : Session → Session}
    (keeps : ∀ row, Awake row → Awake (f row)) (changed : v.sessions = s.sessions.update id f) :
    AllAwake (v.refreshAncestors id now).sessions := by
  have updated : AllAwake v.sessions := changed ▸ awake.update id keeps
  exact updated.refreshAncestors id

theorem Move.awake {emission : Option Unit} (move : Move w s emission t) (silent : w.actors = false)
    (awake : AllAwake s.sessions) : AllAwake t.sessions := by
  cases move with
  | touch kept => exact awake.evolve (kept.mono fun _ _ same => same.actor silent)
  | enroll inserted _ fresh =>
    intro id row stored
    rw [Table.get?_insert inserted] at stored
    split at stored
    · cases stored
      exact awake_of_still fresh.streaming
    · exact awake id row stored
  | clear same =>
    rw [same]
    exact awake
  | bury written =>
    rw [silent] at written
    cases written
  | _ => exact awake

theorem prepareActorRevival_awake (awake : AllAwake s.sessions) (sessionId actorToken : JsString) (force : Bool)
    (error : Option JsString) :
    Ensures (prepareActorRevival s sessionId actorToken now force error) fun done => AllAwake done.1.sessions := by
  unfold prepareActorRevival
  refine .bind (.any _) fun _ _ => ?_
  split
  · exact .error _
  · refine .bind (.any _) fun _ _ => .bind (.any _) fun _ _ => .ite (fun _ => .pure awake) fun _ => .pure ?_
    exact awake.turn sessionId (fun _ _ => awake_of_still rfl) rfl

theorem markActorStarted_awake (awake : AllAwake s.sessions) (sessionId : JsString) (generation : ℕ) (startup : Startup) :
    Ensures (markActorStarted s sessionId generation startup now) fun done => AllAwake done.1.sessions := by
  unfold markActorStarted
  refine .bind (.any _) fun _ _ => .bind (.any _) fun _ _ => .pure ?_
  exact awake.turn sessionId (fun _ _ => awake_of_still rfl) rfl

theorem setActorActivity_awake (awake : AllAwake s.sessions) (sessionId : JsString) (generation : ℕ) (streaming : Bool) :
    Ensures (setActorActivity s sessionId generation streaming now) fun done => AllAwake done.1.sessions := by
  unfold setActorActivity
  split
  · exact .error _
  · refine .pure (awake.turn sessionId (fun row _ streams => ?_) rfl)
    exact if_pos streams

theorem markActorLifecycle_awake (awake : AllAwake s.sessions) (sessionId : JsString) (generation : ℕ) (lifecycle : JsString)
    (error : Option JsString) (reportChildExit : Bool) :
    Ensures (markActorLifecycle env observer s sessionId generation lifecycle error now reportChildExit)
      fun done => AllAwake done.1.sessions := by
  unfold markActorLifecycle
  split
  · exact .error _
  · next ending _ =>
    refine .ite (fun _ => .ok awake) fun _ => .ite (fun _ => .ok ?_) fun _ => .ok awake
    refine awake.turn sessionId (f := fun row =>
      { row with
        lifecycle := ending.lifecycle, actorPid := none, actorIdentity := none, streaming := false
        activity := if 0 < workingDescendantCount s.sessions sessionId then .delegating else .inactive
        stoppedAt := some now, quietSince := none, lastError := error, updatedAt := now }) (fun _ _ => awake_of_still rfl) ?_
    split
    · rw [queueChildFailure_sessions]
      rfl
    · rfl

theorem foldl_bury_awake (awake : AllAwake s.sessions) (ids : List JsString) : AllAwake (ids.foldl (bury now) s).sessions := by
  induction ids generalizing s with
  | nil => exact awake
  | cons id ids ih => exact ih (awake.update id fun _ => tombstone_awake)

theorem deleteSession_awake (awake : AllAwake s.sessions) (sessionId : JsString) :
    Ensures (deleteSession s sessionId now) fun done => AllAwake done.1.sessions := by
  unfold deleteSession
  refine .bind (.any _) fun ids _ => .bind (retireScratch_kept (w := ⟨false, false, none, false, false⟩) sessionId) fun t retired => .pure ?_
  obtain ⟨sessions, kept, rfl⟩ := retired
  have before : AllAwake { s with sessions }.sessions := awake.evolve (kept.mono fun _ _ same => same.actor rfl)
  exact (foldl_bury_awake before ids).refreshAncestors sessionId

theorem foldl_requeueOwner_awake (awake : AllAwake s.sessions) (owners : List PreviousOwner) :
    AllAwake (owners.foldl (requeueOwner env now) s).sessions := by
  induction owners generalizing s with
  | nil => exact awake
  | cons owner owners ih => exact ih (awake.update owner.sessionId fun _ _ => awake_of_still rfl)

theorem step_awake (awake : AllAwake s.sessions) (op : Op) : AllAwake (step env observer s now op).1.sessions := by
  have checked_awake {α : Type} {f : α → Output} {result : Result (Store × α)}
      (done : Ensures result fun done => AllAwake done.1.sessions) : AllAwake (checked s (giving f result)).1.sessions := by
    cases result with
    | error failure => exact awake
    | ok next => exact done next rfl
  by_cases written : op.writes.actors = true
  · cases op with
    | prepareActorRevival sessionId actorToken force error =>
      exact checked_awake (prepareActorRevival_awake awake sessionId actorToken force error)
    | reconcileAfterDaemonStart => exact foldl_requeueOwner_awake awake _
    | markActorStarted sessionId generation startup => exact checked_awake (markActorStarted_awake awake sessionId generation startup)
    | markActorLifecycle sessionId generation lifecycle error reportChildExit =>
      exact checked_awake (markActorLifecycle_awake awake sessionId generation lifecycle error reportChildExit)
    | setActorActivity sessionId generation streaming =>
      exact checked_awake (setActorActivity_awake awake sessionId generation streaming)
    | deleteChild parentId selector => exact checked_awake (.bind (.any _) fun child _ => deleteSession_awake awake child)
    | deleteSession sessionId => exact checked_awake (deleteSession_awake awake sessionId)
    | _ => cases written
  · obtain ⟨emitted, trace, _⟩ := @step_acts env observer s now op
    exact trace.preserves (P := fun s => AllAwake s.sessions)
      (fun _ _ _ move => move.awake (Bool.not_eq_true _ ▸ written)) awake

end Calls

end PersistentHarness.SessionStore
