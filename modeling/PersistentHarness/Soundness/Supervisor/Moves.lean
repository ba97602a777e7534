import PersistentHarness.Model.Supervisor.Run
import PersistentHarness.Soundness.Session.Turns

/-! # The moves of a supervisor

Every step makes a few small moves on what the limits are about: the map of actors, the queue, the launches and
the workers. Whatever else it does is aside.
-/

namespace PersistentHarness.Supervisor

open SessionStore (Store Ending Failure Op AllAwake)

/-- The launch has not made its record yet. -/
def Stage.early : Stage → Bool
  | .activating | .granting | .caching | .publishing _ => true
  | _ => false

def Launch.place (launch : Launch) : JsString × Stage := (launch.sessionId, launch.stage)

/-- New mutations wait behind those that are there. -/
def Appends (s t : System) : Prop :=
  ∀ id, ∃ more, (∀ entry ∈ more, entry.2 = Phase.waiting) ∧ t.mutations id = s.mutations id ++ more

/-- Nothing happens but that the queue may shrink. -/
structure Aside (s t : System) : Prop where
  actors : t.actors = s.actors
  owner : ∀ w, (t.records w).sessionId = (s.records w).sessionId
  alive : ∀ w, (t.records w).process.alive = (s.records w).process.alive
  startQueue : t.startQueue.Sublist s.startQueue
  startingActors : t.startingActors = s.startingActors
  activeStarts : t.activeStarts = s.activeStarts
  launches : t.launches.map Launch.place = s.launches.map Launch.place
  stopping : t.stopping = s.stopping
  awaited : t.awaited = s.awaited
  mutations : Appends s t
  awake : AllAwake s.store.sessions → AllAwake t.store.sessions

/-- One move; only a turn of the mutations takes one from its queue. -/
inductive Move (limits : Limits) (turns : Bool) : System → System → Prop
  | aside {s t : System} (aside : Aside s t) : Move limits turns s t
  | turn {s : System} {id : JsString} {queue : List (Mutation × Phase)} (allowed : turns = true) (draining : Drain)
      (behind : queue.tail.Sublist (s.mutations id).tail) :
      Move limits turns s { s with mutations := Function.update s.mutations id queue, draining }
  | enqueue {s : System} {id : JsString} (free : id ∉ s.occupied) (absent : id ∉ s.startQueue) :
      Move limits turns s { s with startQueue := s.startQueue ++ [id] }
  | launch {s : System} {id : JsString} {rest : List JsString} (next : s.startQueue = id :: rest)
      (started : s.activeStarts < limits.maxConcurrentStarts) (room : s.occupied.card < limits.maxResidentActors) :
      Move limits turns s ({ s with startQueue := rest }.beginLaunch id)
  | stage {s : System} {n : ℕ} {launch : Launch} {stage : Stage} (live : (s.launches.map Launch.place)[n]? = some launch.place)
      (later : stage.early = true → launch.stage.early = true) : Move limits turns s (s.setStage n launch stage)
  | create {s : System} {n : ℕ} {launch : Launch} {stage : Stage} (live : (s.launches.map Launch.place)[n]? = some launch.place)
      (early : launch.stage.early = true) (late : stage.early = false) (runs : s.stopping = false) (session : ActorLaunch)
      (spawned : Bool) : Move limits turns s ((s.createRecord launch.sessionId session spawned).setStage n launch stage)
  | exit {s : System} (w : ℕ) :
      Move limits turns s (s.updateRecord w fun record => { record with process := .exited })
  | forget {s : System} {id : JsString} {w : ℕ} (mapped : Assoc.lookup s.actors id = some w)
      (gone : (s.records w).process.alive = false) : Move limits turns s { s with actors := Assoc.erase s.actors id }
  | settle {s : System} {n : ℕ} {launch : Launch} (live : (s.launches.map Launch.place)[n]? = some launch.place) :
      Move limits turns s { s with
        launches := s.launches.eraseIdx n, startingActors := s.startingActors.erase launch.sessionId
        activeStarts := s.activeStarts - 1 }
  | stop {s : System} : Move limits turns s s.stop
  | await {s : System} {workers : List ℕ} (stopping : s.stopping = true) (all : workers = s.actors.map Prod.snd) :
      Move limits turns s { s with awaited := some workers }
  | clear {s : System} {workers : List ℕ} (awaited : s.awaited = some workers) (settled : s.launches = [])
      (gone : ∀ w ∈ workers, (s.records w).process.alive = false) : Move limits turns s s.clear

abbrev Moves (limits : Limits) (turns : Bool) : System → System → Prop := Relation.ReflTransGen (Move limits turns)

section Asides

variable {ctx : Context} {limits : Limits} {turns : Bool} {s t u : System}

theorem Appends.refl (s : System) : Appends s s := fun _ => ⟨[], by simp, (List.append_nil _).symm⟩

theorem Appends.of_eq (same : t.mutations = s.mutations) : Appends s t := by
  intro id
  rw [same]
  exact Appends.refl s id

theorem Appends.trans (first : Appends s t) (second : Appends t u) : Appends s u := by
  intro id
  obtain ⟨more, waiting, grown⟩ := first id
  obtain ⟨more', waiting', grown'⟩ := second id
  refine ⟨more ++ more', fun entry member => ?_, by rw [grown', grown, List.append_assoc]⟩
  exact (List.mem_append.mp member).elim (waiting entry) (waiting' entry)

theorem Aside.refl (s : System) : Aside s s where
  actors := rfl
  owner _ := rfl
  alive _ := rfl
  startQueue := .refl _
  startingActors := rfl
  activeStarts := rfl
  launches := rfl
  stopping := rfl
  awaited := rfl
  mutations := .refl s
  awake := id

theorem Aside.trans (first : Aside s t) (second : Aside t u) : Aside s u where
  actors := second.actors.trans first.actors
  owner w := (second.owner w).trans (first.owner w)
  alive w := (second.alive w).trans (first.alive w)
  startQueue := second.startQueue.trans first.startQueue
  startingActors := second.startingActors.trans first.startingActors
  activeStarts := second.activeStarts.trans first.activeStarts
  launches := second.launches.trans first.launches
  stopping := second.stopping.trans first.stopping
  awaited := second.awaited.trans first.awaited
  mutations := first.mutations.trans second.mutations
  awake := second.awake ∘ first.awake

theorem Aside.moves (aside : Aside s t) : Moves limits turns s t := .single (.aside aside)

theorem Context.call_awake (ctx : Context) {store : Store} (op : Op) (awake : AllAwake store.sessions) :
    AllAwake (ctx.call store op).1.sessions := SessionStore.step_awake awake op

theorem Aside.store {store : Store} (awake : AllAwake s.store.sessions → AllAwake store.sessions) :
    Aside s { s with store } := { Aside.refl s with awake }

theorem Aside.call (s : System) (ctx : Context) (op : Op) : Aside s (s.call ctx op) := .store (ctx.call_awake op)

theorem Aside.attempt (s : System) (ctx : Context) (ops : List Op) : Aside s (s.attempt ctx ops).1 := by
  induction ops generalizing s with
  | nil => exact .refl s
  | cons op ops ih =>
    have called : AllAwake s.store.sessions → AllAwake (ctx.call s.store op).1.sessions := ctx.call_awake op
    rw [System.attempt]
    generalize ctx.call s.store op = result at called
    split
    · exact .store called
    · exact Aside.trans (.store called) (ih _)

theorem updateRecord_records (s : System) (w : ℕ) (f : ActorRecord → ActorRecord) (v : ℕ) :
    (s.updateRecord w f).records v = if v = w then f (s.records w) else s.records v := Function.update_apply ..

theorem withSessionMutation_mutations (s : System) (sessionId : JsString) (mutation : Mutation) (id : JsString) :
    (s.withSessionMutation sessionId mutation).mutations id =
      if id = sessionId then s.mutations sessionId ++ [(mutation, .waiting)] else s.mutations id := Function.update_apply ..

/-- A record that keeps its session, and whose worker lives on or stays gone. -/
theorem Aside.record {w : ℕ} {f : ActorRecord → ActorRecord} (owner : (f (s.records w)).sessionId = (s.records w).sessionId)
    (alive : (f (s.records w)).process.alive = (s.records w).process.alive) : Aside s (s.updateRecord w f) := by
  refine { Aside.refl s with owner := fun v => ?_, alive := fun v => ?_ }
  all_goals
    rw [updateRecord_records]
    split
    · next here =>
      subst here
      assumption
    · rfl

theorem Process.close_alive (process : Process) : process.close.alive = process.alive := by cases process <;> rfl

theorem Aside.withSessionMutation (s : System) (sessionId : JsString) (mutation : Mutation) :
    Aside s (s.withSessionMutation sessionId mutation) := by
  refine { Aside.refl s with mutations := fun id => ?_ }
  rw [withSessionMutation_mutations]
  split
  · next here =>
    subst here
    exact ⟨[(mutation, .waiting)], by simp, rfl⟩
  · exact Appends.refl s id

theorem Aside.stopActor (s : System) (ctx : Context) (sessionId : JsString) (lifecycle : Ending) (error : Option JsString) :
    Aside s (s.stopActor ctx sessionId lifecycle error) := by
  have filtered : Aside s { s with startQueue := s.startQueue.filter (· ≠ sessionId) } :=
    { Aside.refl s with startQueue := List.filter_sublist }
  rw [System.stopActor]
  dsimp only
  split
  · refine filtered.trans ?_
    have updated := Aside.record (s := { s with startQueue := s.startQueue.filter (· ≠ sessionId) }) (w := ‹ℕ›)
      (f := fun record =>
        { record with
          expectedLifecycle := some lifecycle, exitError := (error.filter (· ≠ [])).or record.exitError
          process := record.process.close }) rfl (Process.close_alive _)
    split
    · exact updated.trans (.call _ ctx _)
    · exact updated
  · split
    · exact filtered.trans (.call _ ctx _)
    · exact filtered

end Asides

section Steps

variable {ctx : Context} {limits : Limits} {turns : Bool} {s t : System}

theorem Aside.checkedCall {op : Op} (called : s.checkedCall ctx op = .ok t) : Aside s t := by
  have awake : AllAwake s.store.sessions → AllAwake (ctx.call s.store op).1.sessions := ctx.call_awake op
  rw [System.checkedCall] at called
  generalize ctx.call s.store op = result at called awake
  split at called
  · cases called
  · cases called
    exact .store awake

theorem Aside.revived {sessionId actorToken : JsString} {revive : Bool}
    (done : s.revived ctx sessionId actorToken revive = .ok t) : Aside s t ∧ t.startQueue = s.startQueue := by
  rw [System.revived] at done
  split at done
  · cases done
    exact ⟨.refl s, rfl⟩
  · split at done
    · have awake : AllAwake s.store.sessions →
          AllAwake (ctx.call s.store (.prepareActorRevival sessionId actorToken false none)).1.sessions := ctx.call_awake _
      generalize ctx.call s.store (.prepareActorRevival sessionId actorToken false none) = result at done awake
      split at done
      · cases done
      · cases done
        exact ⟨.store awake, rfl⟩
    · cases done
      exact ⟨.refl s, rfl⟩

theorem requestActorStart_moves {sessionId actorToken : JsString} {revive : Bool}
    (done : s.requestActorStart ctx sessionId actorToken revive = .ok t) : Moves limits turns s t := by
  obtain ⟨_, _, done⟩ := Checked.bind_eq_ok.mp done
  obtain ⟨_, _, done⟩ := Checked.bind_eq_ok.mp done
  obtain ⟨_, _, done⟩ := Checked.bind_eq_ok.mp done
  split at done
  · cases done
    exact .refl
  · next free =>
    obtain ⟨u, revived, done⟩ := Checked.bind_eq_ok.mp done
    obtain ⟨aside, queue⟩ := Aside.revived revived
    push Not at free
    split at done
    · cases done
      refine (aside.moves).tail (.enqueue ?_ (queue ▸ free.2))
      rw [System.occupied, aside.actors, aside.startingActors]
      exact free.1
    · cases done
      exact aside.moves

theorem drainActorStarts_moves {queue : List JsString} (here : s.startQueue = queue) :
    Moves limits turns s (System.drainActorStarts limits queue s) := by
  induction queue generalizing s with
  | nil =>
    exact Aside.moves { Aside.refl s with startQueue := List.nil_sublist _ }
  | cons nextId rest ih =>
    have shift : Aside s { s with startQueue := rest } :=
      { Aside.refl s with startQueue := here ▸ List.sublist_cons_self nextId rest }
    have keep : { s with startQueue := nextId :: rest } = s := by rw [← here]
    rw [System.drainActorStarts]
    split
    · exact Aside.moves { Aside.refl s with startQueue := here ▸ .refl _ }
    · next started =>
      split
      · exact .head (.aside shift) (ih rfl)
      · split
        · dsimp only
          rw [keep]
          split
          · exact Aside.moves { Aside.refl s with startQueue := here ▸ .refl _ }
          · next id w _ => exact Aside.moves { Aside.withSessionMutation s id (.evict w) with startQueue := here ▸ .refl _ }
        · next room =>
          dsimp only
          split
          · push Not at started room
            exact .head (.launch here (by omega) room) (ih rfl)
          · exact .head (.aside shift) (ih rfl)

theorem goto_moves {u : System} (aside : Aside s u) {n : ℕ} {launch : Launch}
    (live : (s.launches.map Launch.place)[n]? = some launch.place) {stage : Stage}
    (later : stage.early = true → launch.stage.early = true) : Moves limits turns s (u.setStage n launch stage) :=
  aside.moves.tail (.stage (aside.launches ▸ live) later)

theorem Aside.failRecord (s : System) (w : ℕ) (message : JsString) : Aside s (s.updateRecord w fun record =>
    { record with
      expectedLifecycle := (s.records w).expectedLifecycle.or (some .error), exitError := some message
      process := record.process.close }) := .record rfl (Process.close_alive _)

theorem failLaunch_moves {n : ℕ} {launch : Launch} (live : (s.launches.map Launch.place)[n]? = some launch.place) (w : ℕ)
    (session : ActorLaunch) (message : JsString) : Moves limits turns s (s.failLaunch n launch w session message) :=
  goto_moves (.failRecord s w message) live (by rintro ⟨⟩)

theorem Aside.markLaunchFailed (s : System) (ctx : Context) (sessionId message : JsString) :
    Aside s (s.markLaunchFailed ctx sessionId message) := by
  rw [System.markLaunchFailed]
  split
  · exact .call s ctx _
  · exact .refl s

theorem closeFailed_moves (ctx : Context) (sessionId : JsString) {w : ℕ} (gone : (s.records w).process.alive = false)
    (session : ActorLaunch) (expected : Option Ending) (message : JsString) :
    ∃ u, Moves limits turns s u ∧ Aside u (s.closeFailed ctx sessionId w session expected message)
      ∧ u.launches = s.launches := by
  refine ⟨if Assoc.lookup s.actors sessionId = some w then { s with actors := Assoc.erase s.actors sessionId } else s, ?_, ?_, ?_⟩
  · split
    · next mapped => exact .single (.forget mapped gone)
    · exact .refl
  · rw [System.closeFailed]
    generalize (if Assoc.lookup s.actors sessionId = some w then
      { s with actors := Assoc.erase s.actors sessionId } else s) = u
    dsimp only
    split
    · refine Aside.trans ?_ (.call _ ctx _)
      split
      · exact .refl u
      · exact .call u ctx _
    · exact .refl u
  · split <;> rfl

theorem endLaunch_moves {n : ℕ} {launch : Launch} (live : (s.launches.map Launch.place)[n]? = some launch.place)
    (failure : Option JsString) : Moves limits turns s (s.endLaunch ctx n launch failure) := by
  rw [System.endLaunch]
  generalize (failure.or _) = failure
  cases failure with
  | none => exact (Aside.refl s).moves.tail (.settle live)
  | some message =>
    dsimp only
    split
    · exact (Aside.refl s).moves.tail (.settle live)
    · have marked := Aside.markLaunchFailed s ctx launch.sessionId message
      exact marked.moves.tail (.settle (marked.launches ▸ live))

/-- What a worker reports is recorded or refused. -/
theorem Aside.acceptState {w : ℕ} {session : ActorLaunch} {sessionId : JsString} {reply : System.Reply}
    (accepted : s.acceptState ctx w session sessionId reply = .ok t) : Aside s t := by
  obtain ⟨_, _, accepted⟩ := Checked.bind_eq_ok.mp accepted
  obtain ⟨_, _, accepted⟩ := Checked.bind_eq_ok.mp accepted
  obtain ⟨_, _, accepted⟩ := Checked.bind_eq_ok.mp accepted
  obtain ⟨_, _, accepted⟩ := Checked.bind_eq_ok.mp accepted
  obtain ⟨u, recorded, accepted⟩ := Checked.bind_eq_ok.mp accepted
  obtain ⟨_, _, accepted⟩ := Checked.bind_eq_ok.mp accepted
  cases accepted
  rw [System.recordInference] at recorded
  split at recorded
  · exact .checkedCall recorded
  · cases recorded
    exact .refl s

/-- Whatever the await of a launch brings. -/
theorem advance_moves {n : ℕ} {launch : Launch} (live : (s.launches.map Launch.place)[n]? = some launch.place)
    (reply : Except JsString System.Reply) : Moves limits turns s (s.advance ctx n launch reply) := by
  unfold System.advance
  dsimp only
  split
  · next here =>
    split
    · exact goto_moves (.refl s) live (by rintro ⟨⟩)
    · exact goto_moves (.refl s) live fun _ => by rw [here]; rfl
  · next here =>
    split
    · exact goto_moves (.refl s) live fun _ => by rw [here]; rfl
    · split
      · exact goto_moves (.refl s) live (by rintro ⟨⟩)
      · exact goto_moves (.markLaunchFailed s ctx _ _) live (by rintro ⟨⟩)
  · next here =>
    split
    · exact goto_moves (.refl s) live (by rintro ⟨⟩)
    · split
      · exact goto_moves (.refl s) live (by rintro ⟨⟩)
      · exact goto_moves (.refl s) live fun _ => by rw [here]; rfl
  · next session here =>
    split
    · exact goto_moves (.refl s) live (by rintro ⟨⟩)
    · next replied checked =>
      obtain ⟨_, _, checked⟩ := Checked.bind_eq_ok.mp checked
      obtain ⟨_, checks, _⟩ := Checked.bind_eq_ok.mp checked
      obtain ⟨_, runs, _⟩ := Checked.bind_eq_ok.mp checks
      exact .single (.create live (by rw [here]; rfl) rfl (Checked.require_eq_ok.mp runs).1 session _)
  · next w session here =>
    split
    · exact failLaunch_moves live ..
    · next t sessionFile accepted =>
      obtain ⟨_, _, accepted⟩ := Checked.bind_eq_ok.mp accepted
      obtain ⟨u, accepts, accepted⟩ := Checked.bind_eq_ok.mp accepted
      cases accepted
      exact goto_moves (.acceptState accepts) live (by rintro ⟨⟩)
  · next w session sessionFile here =>
    split
    · exact failLaunch_moves live ..
    · next started =>
      obtain ⟨_, _, started⟩ := Checked.bind_eq_ok.mp started
      obtain ⟨_, _, started⟩ := Checked.bind_eq_ok.mp started
      exact goto_moves (.checkedCall started) live (by rintro ⟨⟩)
  · split
    · exact failLaunch_moves live ..
    · exact goto_moves (.refl s) live (by rintro ⟨⟩)
  · split
    · exact failLaunch_moves live ..
    · exact goto_moves (.refl s) live (by rintro ⟨⟩)
  · split
    · exact failLaunch_moves live ..
    · split
      · exact goto_moves (.stopActor s ctx _ _ _) live (by rintro ⟨⟩)
      · split
        · exact failLaunch_moves live ..
        · exact goto_moves (.refl s) live (by rintro ⟨⟩)
  · split
    · exact failLaunch_moves live ..
    · exact goto_moves (.refl s) live (by rintro ⟨⟩)
  · split
    · exact .refl
    · exact goto_moves (.refl s) live (by rintro ⟨⟩)
  · next w session expected message here =>
    split
    · exact .refl
    · next gone =>
      obtain ⟨u, closes, aside, same⟩ := @closeFailed_moves limits turns s ctx launch.sessionId _
        (Bool.not_eq_true _ ▸ gone) session expected message
      exact closes.trans (goto_moves aside (same ▸ live) (by rintro ⟨⟩))
  · exact endLaunch_moves live _

theorem Aside.publishActorInputFailure (s : System) (ctx : Context) (w : ℕ) : Aside s (s.publishActorInputFailure ctx w) := by
  unfold System.publishActorInputFailure
  dsimp only
  split
  · exact .call s ctx _
  · exact .refl s

theorem onActorExit_moves (ctx : Context) {w : ℕ} (gone : (s.records w).process.alive = false) (details : ExitDetails) :
    Moves limits turns s (s.onActorExit ctx w details) := by
  unfold System.onActorExit
  dsimp only
  split
  · next mapped =>
    have published : Aside s (if (s.records w).expectedLifecycle.getD .error = .error then s.publishActorInputFailure ctx w
        else s) := by
      split
      · exact .publishActorInputFailure s ctx w
      · exact .refl s
    generalize (if (s.records w).expectedLifecycle.getD .error = .error then s.publishActorInputFailure ctx w
      else s) = u at published
    have forgets : Move limits turns u { u with actors := Assoc.erase u.actors (s.records w).sessionId } :=
      .forget (published.actors ▸ mapped) ((published.alive w).trans gone)
    refine (published.moves.tail forgets).trans (Aside.moves ?_)
    generalize (if (s.records w).expectedLifecycle.getD .error = .error then
      some (((s.records w).exitError.or details.error).getD (System.exitText details)) else none) = error
    split
    · exact Aside.trans (.call _ ctx _) (.call _ ctx _)
    · exact .call _ ctx _
  · exact .refl

theorem exit_moves (s : System) (ctx : Context) (w : ℕ) (details : ExitDetails) :
    Moves limits turns s (s.exit ctx w details) := by
  unfold System.exit
  split
  · refine .head (.exit w) (onActorExit_moves ctx ?_ details)
    rw [updateRecord_records, if_pos rfl]
    rfl
  · exact .refl

theorem Aside.accounting {ops : List Op} {after : System → System} (keeps : ∀ t, Aside t (after t)) :
    Aside s (s.accounting ctx ops after) := by
  have attempted := Aside.attempt s ctx ops
  rw [System.accounting]
  generalize s.attempt ctx ops = result at attempted
  split
  · exact attempted.trans (keeps _)
  · exact attempted

theorem Aside.onActorEvent (s : System) (ctx : Context) (w : ℕ) (frame : Frame) : Aside s (s.onActorEvent ctx w frame) := by
  unfold System.onActorEvent
  dsimp only
  split
  · split
    · refine .accounting fun t => ?_
      split
      · exact .record rfl rfl
      · exact .refl t
    · exact .accounting fun t => .record rfl rfl
    · exact .record rfl rfl
    · exact .record rfl rfl
    · exact .accounting .refl
    · refine .accounting fun t => ?_
      split
      · exact .withSessionMutation t _ _
      · exact .refl t
  · exact .refl s

theorem Aside.beginActorRetirement (s : System) (ids : List JsString) : Aside s (s.beginActorRetirement ids) :=
  { Aside.refl s with launches := List.map_map .. }

theorem Aside.beginDeletion (s : System) (ctx : Context) (sessionId : JsString) : Aside s (s.beginDeletion ctx sessionId) := by
  have awake : AllAwake s.store.sessions → AllAwake (ctx.call s.store (.beginSessionDeletion sessionId)).1.sessions :=
    ctx.call_awake _
  unfold System.beginDeletion
  generalize ctx.call s.store (.beginSessionDeletion sessionId) = result at awake
  split
  · exact Aside.trans (.store awake) (.beginActorRetirement _ _)
  · exact .refl s

theorem requestStart_moves (sessionId actorToken : JsString) (revive : Bool) :
    Moves limits turns s (s.requestStart ctx sessionId actorToken revive) := by
  unfold System.requestStart
  split
  · next done => exact requestActorStart_moves done
  · exact .refl

theorem queueActorInputWake_moves (sessionId actorToken : JsString) :
    Moves limits turns s (s.queueActorInputWake ctx sessionId actorToken) := by
  unfold System.queueActorInputWake
  split
  · exact .refl
  · next u done => exact (requestActorStart_moves done).trans (Aside.moves { Aside.call u ctx _ with })

theorem Aside.failWake (s : System) (ctx : Context) (sessionId message : JsString) :
    Aside s (s.failWake ctx sessionId message) := by
  unfold System.failWake
  dsimp only
  split
  · refine Aside.trans (.stopActor s ctx sessionId .error (some message)) ?_
    split
    · exact .call _ ctx _
    · exact .refl _
  · exact .refl s

theorem Aside.stopAll (ctx : Context) (ids : List JsString) (s : System) :
    Aside s (ids.foldl (fun s sessionId => s.stopActor ctx sessionId .passivated none) s) := by
  induction ids generalizing s with
  | nil => exact .refl s
  | cons id ids ih => exact Aside.trans (.stopActor s ctx id .passivated none) (ih _)

theorem stopActors_moves (s : System) (ctx : Context) : Moves limits turns s (s.stopActors ctx) := by
  unfold System.stopActors
  split
  · next stopping =>
    have stopped := Aside.stopAll ctx (Assoc.keys s.actors) s
    exact stopped.moves.tail (.await (stopped.stopping.trans stopping.1) (by rw [stopped.actors]))
  · exact .refl

theorem moves_of_eq (same : t = s) : Moves limits turns s t := by
  subst same
  exact .refl

theorem clear_moves (s : System) : Moves limits turns s s.clear := by
  cases awaited : s.awaited with
  | none =>
    have same : s.clear = s := by rw [System.clear, awaited]
    exact moves_of_eq same
  | some workers =>
    by_cases ended : (s.launches.isEmpty && workers.all fun w => !(s.records w).process.alive) = true
    · obtain ⟨settled, gone⟩ := Bool.and_eq_true_iff.mp ended
      refine .single (.clear awaited (List.isEmpty_iff.mp settled) fun w member => ?_)
      simpa using List.all_eq_true.mp gone w member
    · have same : s.clear = s := by
        rw [System.clear, awaited]
        exact if_neg ended
      exact moves_of_eq same

theorem finishMutation_moves (s : System) (id : JsString) (mutation : Mutation) (failed : Bool) :
    Moves limits true s (s.finishMutation id mutation failed) := by
  have behind : (s.mutations id).tail.tail.Sublist (s.mutations id).tail := List.tail_sublist _
  unfold System.finishMutation
  dsimp only
  split
  · exact .single (.turn rfl _ behind)
  · exact .single (.turn rfl s.draining behind)

theorem setPhase_moves (s : System) (id : JsString) (mutation : Mutation) (phase : Phase) :
    Moves limits true s (s.setPhase id mutation phase) := .single (.turn rfl s.draining (.refl _))

theorem retire_moves (s : System) (ctx : Context) (id : JsString) (mutation : Mutation) (w : ℕ) (still : Bool) :
    Moves limits true s (s.retire ctx id mutation w still) := by
  unfold System.retire
  split
  · exact (Aside.stopActor s ctx id .passivated none).moves.trans (setPhase_moves _ _ _ _)
  · exact finishMutation_moves _ _ _ _

theorem proceed_moves (s : System) (ctx : Context) (id : JsString) : Moves limits true s (s.proceed ctx id) := by
  unfold System.proceed
  split
  · exact .refl
  · split
    · exact finishMutation_moves _ _ _ _
    · split
      · exact retire_moves _ _ _ _ _ _
      · exact retire_moves _ _ _ _ _ _
      · exact setPhase_moves _ _ _ _
  · split
    · exact .refl
    · exact finishMutation_moves _ _ _ _
  · exact finishMutation_moves _ _ _ _

/-- The action takes its turn among the mutations of a session. -/
def Action.proceeds : Action → Bool
  | .proceed _ => true
  | _ => false

theorem act_moves (ctx : Context) (s : System) (action : Action) : Moves limits action.proceeds s (act ctx limits s action) := by
  cases action with
  | store op => exact (Aside.call s ctx op).moves
  | requestActorStart sessionId actorToken revive => exact requestStart_moves sessionId actorToken revive
  | drain =>
    rw [act]
    split
    · exact drainActorStarts_moves rfl
    · exact .refl
  | resume =>
    rw [act]
    split
    · exact Aside.moves { Aside.refl s with }
    · exact drainActorStarts_moves rfl
    · exact .refl
  | advance n reply =>
    rw [act]
    split
    · next launch live => exact advance_moves (by rw [List.getElem?_map, live, Option.map_some]) reply
    · exact .refl
  | exit w details => exact exit_moves s ctx w details
  | event w frame => exact (Aside.onActorEvent s ctx w frame).moves
  | mutate sessionId => exact (Aside.withSessionMutation s sessionId .request).moves
  | proceed sessionId => exact proceed_moves s ctx sessionId
  | clearTail sessionId =>
    rw [act, System.clearTail]
    split
    · exact Aside.moves { Aside.refl s with }
    · exact .refl
  | expire sessionId =>
    rw [act, System.expire]
    split
    · exact .refl
    · split
      · exact (Aside.withSessionMutation s sessionId _).moves
      · exact .refl
  | stopActor sessionId lifecycle error => exact (Aside.stopActor s ctx sessionId lifecycle error).moves
  | retire ids => exact (Aside.beginActorRetirement s ids).moves
  | release ids => exact Aside.moves { Aside.refl s with }
  | beginDeletion sessionId => exact (Aside.beginDeletion s ctx sessionId).moves
  | endDeletion ids => exact Aside.moves (Aside.trans (t := s.releaseRetirement ids) { Aside.refl s with } (.call _ ctx _))
  | beginReady sessionId =>
    rw [act, System.beginReady]
    split
    · exact Aside.moves { Aside.refl s with }
    · exact .refl
  | endReady sessionId => exact Aside.moves { Aside.refl s with }
  | queueWake sessionId actorToken => exact queueActorInputWake_moves sessionId actorToken
  | failWake sessionId message => exact (Aside.failWake s ctx sessionId message).moves
  | endWake sessionId => exact Aside.moves { Aside.refl s with }
  | stop => exact .single .stop
  | stopActors => exact stopActors_moves s ctx
  | clear => exact clear_moves s

end Steps

end PersistentHarness.Supervisor
