import PersistentHarness.Model.Supervisor.State

/-! # Steps and runs of a supervisor

A step runs a callback up to its next await. Steps come in any order: what a timer, a request or a worker does
next is not decided here, so a run is any interleaving of them.
-/

namespace PersistentHarness.Supervisor

open SessionStore (Store Ending Failure Op)

structure ExitDetails where
  code : Option ℕ
  signal : Option JsString
  error : Option JsString

/-- The frames of a worker that the supervisor keeps account of. -/
inductive Frame where
  | agentStart
  | agentSettled (failure : Option JsString)
  | toolExecutionStart (toolCallId : Option JsString)
  /-- The end of a call without an id ends `tool:undefined`. -/
  | toolExecutionEnd (toolCallId : JsString)
  | compactionStart
  | compactionEnd

namespace System

section Workers

/-- The inputs of a session learn that its worker is gone. -/
def publishActorInputFailure (s : System) (ctx : Context) (w : ℕ) : System :=
  let record := s.records w
  let awaits (row : Session) : Bool :=
    row.actorGeneration = record.generation
      ∧ (row.lifecycle = .starting ∨ row.lifecycle = .resident ∨ row.lifecycle = .error)
  if s.stopping = false ∧ Assoc.lookup s.actors record.sessionId = some w
      ∧ (record.expectedLifecycle = none ∨ record.expectedLifecycle = some .error)
      ∧ s.store.isSessionDeleting record.sessionId = false ∧ (s.store.sessions.get? record.sessionId).any awaits = true then
    s.call ctx (.setActorInputWakeError record.sessionId (some record.generation))
  else s

def exitText (details : ExitDetails) : JsString :=
  js "actor exited code=" ++ (details.code.map Json.decimal).getD (js "null")
    ++ js " signal=" ++ details.signal.getD (js "null")

def onActorExit (s : System) (ctx : Context) (w : ℕ) (details : ExitDetails) : System :=
  let record := s.records w
  let id := record.sessionId
  if Assoc.lookup s.actors id = some w then
    let lifecycle := record.expectedLifecycle.getD .error
    let error :=
      if lifecycle = .error then some ((record.exitError.or details.error).getD (exitText details)) else none
    let s := if lifecycle = .error then s.publishActorInputFailure ctx w else s
    let s := { s with actors := Assoc.erase s.actors id }
    let s := s.call ctx (.markActorLifecycle id record.generation lifecycle.name error true)
    if error.any (· ≠ []) || lifecycle = .stopped then
      s.call ctx (.completeSubmittedChildTask id (some (error.getD (js "actor was explicitly stopped"))))
    else s
  else s

/-- A worker is gone. -/
def exit (s : System) (ctx : Context) (w : ℕ) (details : ExitDetails) : System :=
  if (s.records w).process.alive then
    (s.updateRecord w fun record => { record with process := .exited }).onActorExit ctx w details
  else s

/-- What follows the calls of a frame, unless one of them throws. -/
def accounting (s : System) (ctx : Context) (ops : List Op) (after : System → System) : System :=
  match s.attempt ctx ops with
  | (s, true) => after s
  | (s, false) => s

def onActorEvent (s : System) (ctx : Context) (w : ℕ) (frame : Frame) : System :=
  let record := s.records w
  let id := record.sessionId
  let work (f : Finset Work → Finset Work) (s : System) : System :=
    s.updateRecord w fun record => { record with notificationWork := f record.notificationWork }
  if Assoc.lookup s.actors id = some w then
    match frame with
    | .toolExecutionStart toolCallId =>
      s.accounting ctx [.recordSessionActivity id] fun s =>
        match toolCallId with
        | some toolCallId => work (insert (.tool toolCallId)) s
        | none => s
    | .toolExecutionEnd toolCallId =>
      s.accounting ctx [.recordSessionActivity id] (work fun works => works.erase (.tool toolCallId))
    | .compactionStart => work (insert .compaction) s
    | .compactionEnd => work (fun works => works.erase .compaction) s
    | .agentStart => s.accounting ctx [.recordSessionActivity id, .setActorActivity id record.generation true] fun s => s
    | .agentSettled failure =>
      let errors : List Op := if failure.isSome then [.recordSessionLastError id record.generation failure] else []
      let ops : List Op := .completeSubmittedChildTask id failure :: errors
      s.accounting ctx (ops ++ [.setActorActivity id record.generation false]) fun s =>
        if record.expectedLifecycle = none then s.withSessionMutation id .request else s
  else s

end Workers

section Mutations

/-- The mutation at the head of a queue is over; the drain learns how its victim's went. -/
def finishMutation (s : System) (sessionId : JsString) (mutation : Mutation) (failed : Bool) : System :=
  let s := { s with mutations := Function.update s.mutations sessionId (s.mutations sessionId).tail }
  match mutation with
  | .evict _ => { s with draining := .evicted failed }
  | _ => s

/-- The last mutation of a session takes its tail away. -/
def clearTail (s : System) (sessionId : JsString) : System :=
  if s.mutations sessionId = [] then { s with sessionMutationTails := s.sessionMutationTails.erase sessionId } else s

def setPhase (s : System) (sessionId : JsString) (mutation : Mutation) (phase : Phase) : System :=
  { s with mutations := Function.update s.mutations sessionId ((mutation, phase) :: (s.mutations sessionId).tail) }

def retire (s : System) (ctx : Context) (sessionId : JsString) (mutation : Mutation) (w : ℕ) (still : Bool) : System :=
  if still && s.isActorOwnIdle sessionId w true then
    (s.stopActor ctx sessionId .passivated none).setPhase sessionId mutation (.closing w)
  else s.finishMutation sessionId mutation false

/-- The head of a session's queue goes on: it starts, or what it waited for is over. -/
def proceed (s : System) (ctx : Context) (sessionId : JsString) : System :=
  match s.mutations sessionId with
  | [] => s
  | (mutation, .waiting) :: _ =>
    if s.store.isSessionDeleting sessionId then s.finishMutation sessionId mutation true
    else
      match mutation with
      | .evict w => s.retire ctx sessionId mutation w true
      | .passivate w quietSince =>
        let fresh := (s.store.sessions.get? sessionId).any fun row => row.quietSince = quietSince
        s.retire ctx sessionId mutation w fresh
      | .request => s.setPhase sessionId mutation .busy
  | (mutation, .closing w) :: _ => if (s.records w).process.alive then s else s.finishMutation sessionId mutation false
  | (mutation, .busy) :: _ => s.finishMutation sessionId mutation false

/-- The passivation timer of a session, whenever it expires. -/
def expire (s : System) (sessionId : JsString) : System :=
  match Assoc.lookup s.actors sessionId with
  | none => s
  | some w =>
    if s.isActorOwnIdle sessionId w false then
      s.withSessionMutation sessionId (.passivate w ((s.store.sessions.get? sessionId).bind Session.quietSince))
    else s

end Mutations

section Fences

def beginActorRetirement (s : System) (ids : List JsString) : System :=
  { s with
    retirements := ids :: s.retirements
    launches := s.launches.map fun launch =>
      { launch with cancelled := launch.cancelled || decide (launch.sessionId ∈ ids) } }

def releaseRetirement (s : System) (ids : List JsString) : System := { s with retirements := s.retirements.erase ids }

/-- `#deleteSessionTree` up to its first await. -/
def beginDeletion (s : System) (ctx : Context) (sessionId : JsString) : System :=
  match ctx.call s.store (.beginSessionDeletion sessionId) with
  | (store, .subtree ids) => { s with store }.beginActorRetirement ids
  | _ => s

def endDeletion (s : System) (ctx : Context) (ids : List JsString) : System :=
  (s.releaseRetirement ids).call ctx (.endSessionDeletion ids)

end Fences

section Readiness

/-- A start request of a caller that lets its failure go. -/
def requestStart (s : System) (ctx : Context) (sessionId actorToken : JsString) (revive : Bool) : System :=
  match s.requestActorStart ctx sessionId actorToken revive with
  | .ok s => s
  | .error _ => s

def beginReady (s : System) (sessionId : JsString) : System :=
  if s.stopping = false ∧ s.retiring sessionId = false then
    { s with actorReadyPromises := insert sessionId s.actorReadyPromises }
  else s

def endReady (s : System) (sessionId : JsString) : System :=
  { s with actorReadyPromises := s.actorReadyPromises.erase sessionId }

def queueActorInputWake (s : System) (ctx : Context) (sessionId actorToken : JsString) : System :=
  match s.requestActorStart ctx sessionId actorToken true with
  | .error _ => s
  | .ok s =>
    { s.call ctx (.setActorInputWakeError sessionId none) with actorInputWakes := insert sessionId s.actorInputWakes }

/-- A wake stops the actor that it could not make ready. -/
def failWake (s : System) (ctx : Context) (sessionId message : JsString) : System :=
  if sessionId ∈ s.actorInputWakes ∧ s.stopping = false ∧ s.store.isSessionDeleting sessionId = false then
    let s := s.stopActor ctx sessionId .error (some message)
    match s.store.sessions.get? sessionId with
    | some row => s.call ctx (.setActorInputWakeError sessionId (some row.actorGeneration))
    | none => s
  else s

def endWake (s : System) (sessionId : JsString) : System :=
  { s with actorInputWakes := s.actorInputWakes.erase sessionId }

end Readiness

section Stopping

/-- `stop` up to its first await. -/
def stop (s : System) : System := { s with stopping := true, startQueue := [] }

/-- `stop` closes every worker. -/
def stopActors (s : System) (ctx : Context) : System :=
  if s.stopping = true ∧ s.awaited = none then
    let awaited := s.actors.map Prod.snd
    { (Assoc.keys s.actors).foldl (fun s sessionId => s.stopActor ctx sessionId .passivated none) s with
      awaited := some awaited }
  else s

/-- `stop` forgets its actors when their workers are gone and no launch is left. -/
def clear (s : System) : System :=
  match s.awaited with
  | some workers =>
    if s.launches.isEmpty && workers.all fun w => !(s.records w).process.alive then
      { s with
        actors := [], actorReadyPromises := ∅, actorInputWakes := ∅, retirements := [], sessionMutationTails := ∅
        stopped := true }
    else s
  | none => s

end Stopping

end System

inductive Action where
  | store (op : Op)
  | requestActorStart (sessionId actorToken : JsString) (revive : Bool)
  | drain
  /-- The drain goes on after its victim's mutation. -/
  | resume
  | advance (launch : ℕ) (reply : Except JsString System.Reply)
  | exit (w : ℕ) (details : ExitDetails)
  | event (w : ℕ) (frame : Frame)
  /-- Any request that waits for its turn among the mutations of a session. -/
  | mutate (sessionId : JsString)
  | proceed (sessionId : JsString)
  | clearTail (sessionId : JsString)
  | expire (sessionId : JsString)
  /-- A stop by a request, a deletion, a wake, a skill refresh or a transport repair. -/
  | stopActor (sessionId : JsString) (lifecycle : Ending) (error : Option JsString)
  | retire (ids : List JsString)
  | release (ids : List JsString)
  | beginDeletion (sessionId : JsString)
  | endDeletion (ids : List JsString)
  | beginReady (sessionId : JsString)
  | endReady (sessionId : JsString)
  | queueWake (sessionId actorToken : JsString)
  | failWake (sessionId message : JsString)
  | endWake (sessionId : JsString)
  | stop
  | stopActors
  | clear

/-- One step of a supervisor that still has its store. -/
def act (ctx : Context) (limits : Limits) (s : System) : Action → System
  | .store op => s.call ctx op
  | .requestActorStart sessionId actorToken revive => s.requestStart ctx sessionId actorToken revive
  | .drain => if s.draining = .idle ∧ s.stopping = false then System.drainActorStarts limits s.startQueue s else s
  | .resume =>
    match s.draining with
    | .evicted true => { s with draining := .idle }
    | .evicted false => System.drainActorStarts limits s.startQueue s
    | _ => s
  | .advance n reply =>
    match s.launches[n]? with
    | some launch => s.advance ctx n launch reply
    | none => s
  | .exit w details => s.exit ctx w details
  | .event w frame => s.onActorEvent ctx w frame
  | .mutate sessionId => s.withSessionMutation sessionId .request
  | .proceed sessionId => s.proceed ctx sessionId
  | .clearTail sessionId => s.clearTail sessionId
  | .expire sessionId => s.expire sessionId
  | .stopActor sessionId lifecycle error => s.stopActor ctx sessionId lifecycle error
  | .retire ids => s.beginActorRetirement ids
  | .release ids => s.releaseRetirement ids
  | .beginDeletion sessionId => s.beginDeletion ctx sessionId
  | .endDeletion ids => s.endDeletion ctx ids
  | .beginReady sessionId => s.beginReady sessionId
  | .endReady sessionId => s.endReady sessionId
  | .queueWake sessionId actorToken => s.queueActorInputWake ctx sessionId actorToken
  | .failWake sessionId message => s.failWake ctx sessionId message
  | .endWake sessionId => s.endWake sessionId
  | .stop => s.stop
  | .stopActors => s.stopActors ctx
  | .clear => s.clear

/-- An action with its instant and the root that hears about failed roots. -/
structure Event where
  now : ℤ
  observer : Option JsString
  action : Action

def step (env : SessionStore.Env) (limits : Limits) (s : System) (event : Event) : System :=
  if s.stopped then s else act ⟨env, event.now, event.observer⟩ limits s event.action

def run (env : SessionStore.Env) (limits : Limits) (events : List Event) : System :=
  events.foldl (step env limits) .initial

end PersistentHarness.Supervisor

/-! ## The reported capacity

`status` counts the actors from the sizes of two collections. The kernel of an actor passes the report on to its caller after
it has checked each number.
-/

namespace PersistentHarness.Supervisor

/-- `status.capacity`. -/
structure Capacity where
  resident : ℤ
  starting : ℤ
  queued : ℤ
  maxResident : ℤ
  maxConcurrentStarts : ℤ
deriving DecidableEq, Repr

/-- The capacity in `status()`. -/
def System.capacity (limits : Limits) (s : System) : Capacity where
  resident := s.actors.length - s.startingActors.card
  starting := s.startingActors.card
  queued := s.startQueue.length
  maxResident := limits.maxResidentActors
  maxConcurrentStarts := limits.maxConcurrentStarts

/-- The limits that the constructor of a supervisor accepts. -/
def Limits.isValid (limits : Limits) : Bool :=
  1 ≤ limits.maxResidentActors ∧ limits.maxResidentActors ≤ 128
    ∧ 1 ≤ limits.maxConcurrentStarts ∧ limits.maxConcurrentStarts ≤ 32

def boundedInteger (value : ℤ) (context : String) (minimum maximum : ℕ) : Except JsString ℤ :=
  if value < minimum ∨ maximum < value then
    .error (js context ++ js " must be an integer from " ++ Json.decimal minimum ++ js " through " ++ Json.decimal maximum)
  else .ok value

/-- The capacity of `operations.status`. -/
def operationsStatus (capacity : Capacity) : Except JsString Capacity := do
  let resident ← boundedInteger capacity.resident "capacity.resident" 0 10000
  let starting ← boundedInteger capacity.starting "capacity.starting" 0 10000
  let queued ← boundedInteger capacity.queued "capacity.queued" 0 10000
  let maxResident ← boundedInteger capacity.maxResident "capacity.maxResident" 1 128
  let maxConcurrentStarts ← boundedInteger capacity.maxConcurrentStarts "capacity.maxConcurrentStarts" 1 32
  pure { resident, starting, queued, maxResident, maxConcurrentStarts }

end PersistentHarness.Supervisor
