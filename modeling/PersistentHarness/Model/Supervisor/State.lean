import Mathlib.Data.Finset.Card
import Mathlib.Logic.Function.Basic
import PersistentHarness.Model.Session.Run

/-! # Actors of a supervisor

A supervisor keeps a record of each actor with its worker, starts actors from a queue within two limits, and
passivates idle ones to make room. A record is known by its address, so that a callback may hold one that the map
of actors has lost.
-/

namespace PersistentHarness

open SessionStore (Store Ending Op Output)

namespace SessionStore

section Idle

def hasPendingSessionWork (s : Store) (sessionId : JsString) : Bool :=
  s.inputs.any (fun _ input => input.sessionId = sessionId)
    || s.tasks.any (fun _ task => task.childId = sessionId ∧ task.unfinished = true)
    || s.messages.any fun _ message => message.targetId = sessionId ∧ (message.state = .queued ∨ message.state = .delivered)

/-- `ORDER BY quiet_since, created_at, id`. -/
def quietFirst (a b : JsString × Session) : Bool :=
  let since (row : JsString × Session) : ℤ := row.2.quietSince.getD 0
  since a < since b
    ∨ since a = since b ∧ (a.2.createdAt < b.2.createdAt ∨ a.2.createdAt = b.2.createdAt ∧ a.1.le b.1 = true)

/-- What `findIdleResidentActor` finds when it is asked again and again, each answer excluded from the next. -/
def findIdleResidentActors (s : Store) (excludeId : JsString) : List JsString :=
  let idle (id : JsString) (row : Session) : Bool :=
    row.lifecycle = .resident ∧ row.streaming = false ∧ row.quietSince.isSome = true ∧ id ≠ excludeId
      ∧ hasPendingSessionWork s id = false
  (s.sessions.select idle quietFirst s.sessions.rows.length).map Prod.fst

end Idle

def Ending.name : Ending → JsString
  | .passivated => js "passivated"
  | .stopped => js "stopped"
  | .error => js "error"

end SessionStore

namespace Supervisor

/-- What a step reads besides the state: the store's environment, the clock, and the root that hears about failed
roots. -/
structure Context where
  env : SessionStore.Env
  now : ℤ
  observer : Option JsString

def Context.call (ctx : Context) (store : Store) (op : Op) : Store × Output :=
  SessionStore.step ctx.env ctx.observer store ctx.now op

structure Limits where
  maxResidentActors : ℕ
  maxConcurrentStarts : ℕ

/-! ## Workers and their records -/

/-- The process of a worker: not spawned, running, sent its signal, or gone. -/
inductive Process where
  | unspawned
  | running
  | killed
  | exited
deriving DecidableEq, Repr

def Process.alive (process : Process) : Bool := process = .running ∨ process = .killed

/-- What `close` does before it waits for the exit. -/
def Process.close : Process → Process
  | .running => .killed
  | process => process

/-- A member of `notificationWork`. -/
inductive Work where
  | tool (toolCallId : JsString)
  | compaction
deriving DecidableEq, Repr

structure ActorRecord where
  sessionId : JsString
  process : Process
  generation : ℕ
  expectedLifecycle : Option Ending
  exitError : Option JsString
  notificationWork : Finset Work

/-! ## Launches, mutations, and the drain -/

/-- What `getActorLaunch` tells a launch. -/
structure ActorLaunch where
  actorGeneration : ℕ
  launch : Value

/-- What a launch waits for. -/
inductive Stage where
  /-- The turn after `#withActorActivation` has registered its owner. -/
  | activating
  /-- `#reconcileSkillGrant`. -/
  | granting
  /-- The compile cache. -/
  | caching
  /-- `publishActorGenerationSkillGrant`. -/
  | publishing (session : ActorLaunch)
  /-- `worker.start()`. -/
  | starting (w : ℕ) (session : ActorLaunch)
  /-- `processIdentityFactory`. -/
  | identifying (w : ℕ) (session : ActorLaunch) (sessionFile : Option JsString)
  /-- `#sendPendingInference`. -/
  | inferring (w : ℕ) (session : ActorLaunch)
  /-- `#deliverActorInputs`. -/
  | delivering (w : ℕ) (session : ActorLaunch)
  /-- `#log`. -/
  | logging (w : ℕ) (session : ActorLaunch)
  /-- `#submitInitialTask`. -/
  | submitting (w : ℕ) (session : ActorLaunch)
  /-- `#stopActor` of a launch that outlived the supervisor. -/
  | stopping (w : ℕ)
  /-- `worker.close()` after a failure. -/
  | closing (w : ℕ) (session : ActorLaunch) (expected : Option Ending) (message : JsString)
  | settled (failure : Option JsString)

/-- A launch with its activation owner. -/
structure Launch where
  sessionId : JsString
  cancelled : Bool
  stage : Stage

/-- What a session's queue of mutations holds. -/
inductive Mutation where
  /-- The drain makes room. -/
  | evict (w : ℕ)
  /-- The passivation timer has expired. -/
  | passivate (w : ℕ) (quietSince : Option ℤ)
  | request
deriving DecidableEq, Repr

inductive Phase where
  | waiting
  | busy
  | closing (w : ℕ)
deriving DecidableEq, Repr

/-- Where `#drainActorStarts` is. -/
inductive Drain where
  | idle
  /-- It awaits the mutation of its victim. -/
  | evicting
  | evicted (failed : Bool)
deriving DecidableEq, Repr

structure System where
  store : Store
  actors : List (JsString × ℕ)
  records : ℕ → ActorRecord
  nextRecord : ℕ
  startQueue : List JsString
  startingActors : Finset JsString
  activeStarts : ℕ
  draining : Drain
  launches : List Launch
  /-- The fences of `#actorRetirements` that are not released. -/
  retirements : List (List JsString)
  actorReadyPromises : Finset JsString
  actorInputWakes : Finset JsString
  mutations : JsString → List (Mutation × Phase)
  sessionMutationTails : Finset JsString
  stopping : Bool
  /-- The records whose `close` the stop of the supervisor awaits. -/
  awaited : Option (List ℕ)
  stopped : Bool

def System.initial : System where
  store := .empty
  actors := []
  records := fun _ => ⟨[], .unspawned, 0, none, none, ∅⟩
  nextRecord := 0
  startQueue := []
  startingActors := ∅
  activeStarts := 0
  draining := .idle
  launches := []
  retirements := []
  actorReadyPromises := ∅
  actorInputWakes := ∅
  mutations := fun _ => []
  sessionMutationTails := ∅
  stopping := false
  awaited := none
  stopped := false

namespace System

def retiring (s : System) (sessionId : JsString) : Bool := s.retirements.any fun ids => sessionId ∈ ids

/-- `new Set([...this.#actors.keys(), ...this.#startingActors])`. -/
def occupied (s : System) : Finset JsString := (Assoc.keys s.actors).toFinset ∪ s.startingActors

def call (s : System) (ctx : Context) (op : Op) : System := { s with store := (ctx.call s.store op).1 }

/-- Calls in one `try`: the first that throws is the last. -/
def attempt (s : System) (ctx : Context) : List Op → System × Bool
  | [] => (s, true)
  | op :: ops =>
    match ctx.call s.store op with
    | (store, .thrown _) => ({ s with store }, false)
    | (store, _) => { s with store }.attempt ctx ops

def updateRecord (s : System) (w : ℕ) (f : ActorRecord → ActorRecord) : System :=
  { s with records := Function.update s.records w (f (s.records w)) }

def isActorOwnIdle (s : System) (sessionId : JsString) (w : ℕ) (mutationOwned : Bool) : Bool :=
  let record := s.records w
  let rests (session : Session) : Bool :=
    session.lifecycle = .resident ∧ session.actorGeneration = record.generation ∧ session.quietSince.isSome = true
  Assoc.lookup s.actors sessionId = some w ∧ record.process = .running ∧ record.expectedLifecycle = none
    ∧ (s.store.sessions.get? sessionId).any rests = true ∧ record.notificationWork = ∅
    ∧ sessionId ∉ s.startingActors ∧ sessionId ∉ s.actorReadyPromises ∧ sessionId ∉ s.actorInputWakes
    ∧ (mutationOwned = true ∨ sessionId ∉ s.sessionMutationTails)
    ∧ s.store.isSessionDeleting sessionId = false ∧ SessionStore.hasPendingSessionWork s.store sessionId = false

/-- `#withSessionMutation` appends to the queue of a session. -/
def withSessionMutation (s : System) (sessionId : JsString) (mutation : Mutation) : System :=
  { s with
    mutations := Function.update s.mutations sessionId (s.mutations sessionId ++ [(mutation, .waiting)])
    sessionMutationTails := insert sessionId s.sessionMutationTails }

/-- `#stopActor` up to its wait for the worker. -/
def stopActor (s : System) (ctx : Context) (sessionId : JsString) (lifecycle : Ending) (error : Option JsString) : System :=
  let s := { s with startQueue := s.startQueue.filter (· ≠ sessionId) }
  match Assoc.lookup s.actors sessionId with
  | some w =>
    let failure := error.filter (· ≠ [])
    let s := s.updateRecord w fun record =>
      { record with
        expectedLifecycle := some lifecycle, exitError := failure.or record.exitError, process := record.process.close }
    if failure.isSome then
      s.call ctx (.markActorLifecycle sessionId (s.records w).generation lifecycle.name error false)
    else s
  | none =>
    match (s.store.sessions.get? sessionId).filter fun row => row.deleted = false ∧ row.lifecycle ≠ lifecycle.lifecycle with
    | some row => s.call ctx (.markActorLifecycle sessionId row.actorGeneration lifecycle.name error false)
    | none => s

end System

end Supervisor

end PersistentHarness

/-! ## Starting actors

A start request queues a session. The drain shifts the queue as long as both limits allow, and stops an idle actor
where they do not. A launch goes from one await to the next; each of them may fail, and every other callback may run
in between.
-/

namespace PersistentHarness.Supervisor

open SessionStore (Store Ending Failure Op)

namespace System

section Queue

def unavailable (message : String) : Failure := ⟨js message, some (js "unavailable")⟩

/-- The session as a start request finds it, revived when it does not wait for its start. -/
def revived (s : System) (ctx : Context) (sessionId actorToken : JsString) (revive : Bool) : Except Failure System :=
  match s.store.sessions.get? sessionId with
  | none => .ok s
  | some row =>
    if revive && row.lifecycle ≠ .starting then
      match ctx.call s.store (.prepareActorRevival sessionId actorToken false none) with
      | (_, .thrown failure) => .error failure
      | (store, _) => .ok { s with store }
    else .ok s

def requestActorStart (s : System) (ctx : Context) (sessionId actorToken : JsString) (revive : Bool) :
    Except Failure System := do
  Checked.require (s.retiring sessionId = false) (unavailable "session actor is retiring")
  Checked.require (s.stopping = false) (unavailable "supervisor is stopping")
  s.store.assertSessionAvailable sessionId
  if sessionId ∈ s.occupied ∨ sessionId ∈ s.startQueue then pure s
  else do
    let s ← s.revived ctx sessionId actorToken revive
    if (s.store.sessions.get? sessionId).any fun row => row.lifecycle = .starting then
      pure { s with startQueue := s.startQueue ++ [sessionId] }
    else pure s

/-- The first idle resident that its live ownership does not hold back, with its record. -/
def victim (s : System) (nextId : JsString) : Option (JsString × ℕ) :=
  (SessionStore.findIdleResidentActors s.store nextId).findSome? fun sessionId =>
    (Assoc.lookup s.actors sessionId).bind fun w =>
      if s.isActorOwnIdle sessionId w false then some (sessionId, w) else none

def beginLaunch (s : System) (sessionId : JsString) : System :=
  { s with
    startingActors := insert sessionId s.startingActors, activeStarts := s.activeStarts + 1
    launches := s.launches ++ [⟨sessionId, false, .activating⟩] }

/-- The loop of `#drainActorStarts` over the rest of the queue, up to its next await or its end. -/
def drainActorStarts (limits : Limits) : List JsString → System → System
  | [], s => { s with startQueue := [], draining := .idle }
  | nextId :: rest, s =>
    if limits.maxConcurrentStarts ≤ s.activeStarts ∨ s.stopping = true then
      { s with startQueue := nextId :: rest, draining := .idle }
    else if s.store.isSessionDeleting nextId || s.retiring nextId then
      drainActorStarts limits rest { s with startQueue := rest }
    else if limits.maxResidentActors ≤ s.occupied.card then
      let s := { s with startQueue := nextId :: rest }
      match s.victim nextId with
      | none => { s with draining := .idle }
      | some (sessionId, w) => { s.withSessionMutation sessionId (.evict w) with draining := .evicting }
    else
      let s := { s with startQueue := rest }
      if (s.store.sessions.get? nextId).any fun row => row.lifecycle = .starting then
        drainActorStarts limits rest (s.beginLaunch nextId)
      else drainActorStarts limits rest s

end Queue

section Launches

/-- What an await of a launch may bring: the state that the worker reports, its process, and the identity of that. -/
structure Reply where
  spawned : Bool
  sessionId : Value
  provider : Value
  modelId : Value
  thinkingLevel : Value
  fastModeSupported : Bool
  sessionFile : Option JsString
  pid : Option ℤ
  processIdentity : Option Value

/-- `validate` of `#withActorActivation`. -/
def check (s : System) (launch : Launch) : Except JsString Unit := do
  Checked.require (s.stopping = false ∧ launch.cancelled = false) (js "actor activation was stopped")
  Checked.require (s.retiring launch.sessionId = false) (js "session actor is retiring")

def setStage (s : System) (n : ℕ) (launch : Launch) (stage : Stage) : System :=
  { s with launches := s.launches.set n { launch with stage } }

/-- A call of the store whose failure is a failure of the launch. -/
def checkedCall (s : System) (ctx : Context) (op : Op) : Except JsString System :=
  match ctx.call s.store op with
  | (_, .thrown failure) => .error failure.message
  | (store, _) => .ok { s with store }

def getActorLaunch (s : System) (sessionId : JsString) : Option ActorLaunch :=
  ((s.store.sessions.get? sessionId).filter fun row => row.deleted = false).map fun row =>
    ⟨row.actorGeneration, SessionStore.launchOf row⟩

/-- The worker of a launch and its record; `start` spawns at once. -/
def createRecord (s : System) (sessionId : JsString) (session : ActorLaunch) (spawned : Bool) : System :=
  { s with
    actors := Assoc.set s.actors sessionId s.nextRecord
    records := Function.update s.records s.nextRecord
      ⟨sessionId, if spawned then .running else .unspawned, session.actorGeneration, none, none, ∅⟩
    nextRecord := s.nextRecord + 1 }

/-- A text of a template; a missing value is spelled out. -/
def spelled : Value → JsString
  | .str text => text
  | .undefined => js "undefined"
  | .null => js "null"
  | value => Json.stringify value

/-- A worker that tells all of its inference has it recorded. -/
def recordInference (s : System) (ctx : Context) (sessionId : JsString) (session : ActorLaunch) (reply : Reply) :
    Except JsString System :=
  match reply.provider, reply.modelId, reply.thinkingLevel with
  | .str provider, .str model, .str thinkingLevel =>
    s.checkedCall ctx (.recordResolvedSessionInference sessionId session.actorGeneration
      ⟨provider, model, .str thinkingLevel, reply.fastModeSupported⟩)
  | _, _, _ => .ok s

/-- What a started worker must report. -/
def acceptState (s : System) (ctx : Context) (w : ℕ) (session : ActorLaunch) (sessionId : JsString) (reply : Reply) :
    Except JsString System := do
  Checked.require (s.stopping = false ∧ (s.records w).expectedLifecycle = none) (js "actor startup was stopped")
  Checked.require (reply.sessionId = .str sessionId)
    (js "Pi session mismatch: expected " ++ sessionId ++ js ", received " ++ spelled reply.sessionId)
  let model := SessionStore.launchField session.launch "model" "resolved"
  let provider := model.get (js "provider")
  let modelId := model.get (js "id")
  Checked.require (model.truthy = false ∨ reply.provider = provider ∧ reply.modelId = modelId)
    (js "Pi model mismatch: expected " ++ spelled provider ++ js "/" ++ spelled modelId)
  let thinking := SessionStore.launchField session.launch "thinking" "resolved"
  Checked.require (thinking.truthy = false ∨ reply.thinkingLevel = thinking)
    (js "Pi thinking level mismatch: expected " ++ spelled thinking ++ js ", received " ++ spelled reply.thinkingLevel)
  let s ← s.recordInference ctx sessionId session reply
  (s.store.assertSessionAvailable sessionId).mapError Failure.message
  pure s

/-- The `catch` of a launch that has a record, up to its wait for the worker. -/
def failLaunch (s : System) (n : ℕ) (launch : Launch) (w : ℕ) (session : ActorLaunch) (message : JsString) : System :=
  let expected := (s.records w).expectedLifecycle
  let failed (record : ActorRecord) : ActorRecord :=
    { record with
      expectedLifecycle := expected.or (some .error), exitError := some message, process := record.process.close }
  (s.updateRecord w failed).setStage n launch (.closing w session expected message)

/-- The rest of that `catch`, once the worker is gone. -/
def closeFailed (s : System) (ctx : Context) (sessionId : JsString) (w : ℕ) (session : ActorLaunch)
    (expected : Option Ending) (message : JsString) : System :=
  let s := if Assoc.lookup s.actors sessionId = some w then { s with actors := Assoc.erase s.actors sessionId } else s
  if expected = none ∨ expected = some .error then
    let s :=
      if (s.store.sessions.get? sessionId).any fun row => row.lifecycle = .error then s
      else s.call ctx (.markActorLifecycle sessionId session.actorGeneration Ending.error.name (some message) true)
    s.call ctx (.completeSubmittedChildTask sessionId (some message))
  else s

/-- A failure before the worker's own `catch`. -/
def markLaunchFailed (s : System) (ctx : Context) (sessionId message : JsString) : System :=
  match (s.store.sessions.get? sessionId).filter fun row => row.lifecycle = .starting with
  | some row => s.call ctx (.markActorLifecycle sessionId row.actorGeneration Ending.error.name (some message) false)
  | none => s

/-- The end of a launch: the handlers that `#drainActorStarts` has put on its promise. -/
def endLaunch (s : System) (ctx : Context) (n : ℕ) (launch : Launch) (failure : Option JsString) : System :=
  let failure :=
    failure.or (match s.check launch with
      | .error message => some message
      | .ok _ => none)
  let fenced := s.retiring launch.sessionId || s.store.isSessionDeleting launch.sessionId || s.stopping
  let s :=
    match failure with
    | some message => if fenced then s else s.markLaunchFailed ctx launch.sessionId message
    | none => s
  { s with
    launches := s.launches.eraseIdx n, startingActors := s.startingActors.erase launch.sessionId
    activeStarts := s.activeStarts - 1 }

/-- What follows the await of a launch, up to its next one. -/
def advance (s : System) (ctx : Context) (n : ℕ) (launch : Launch) (reply : Except JsString Reply) : System :=
  let id := launch.sessionId
  let goto (s : System) (stage : Stage) : System := s.setStage n launch stage
  let checked : Except JsString Reply := do
    let reply ← reply
    s.check launch
    pure reply
  match launch.stage with
  | .activating =>
    match s.check launch with
    | .error message => goto s (.settled (some message))
    | .ok _ => goto s .granting
  | .granting =>
    match reply with
    | .ok _ => goto s .caching
    | .error message =>
      match s.check launch with
      | .error stopped => goto s (.settled (some stopped))
      | .ok _ => goto (s.markLaunchFailed ctx id message) (.settled (some message))
  | .caching =>
    match checked with
    | .error message => goto s (.settled (some message))
    | .ok _ =>
      let waits := (s.store.sessions.get? id).any fun row => row.lifecycle = .starting
      match (s.getActorLaunch id).filter fun _ => waits && !s.store.isSessionDeleting id with
      | none => goto s (.settled none)
      | some session => goto s (.publishing session)
  | .publishing session =>
    match checked with
    | .error message => goto s (.settled (some message))
    | .ok reply => goto (s.createRecord id session reply.spawned) (.starting s.nextRecord session)
  | .starting w session =>
    match (do let reply ← checked; pure (← s.acceptState ctx w session id reply, reply.sessionFile)) with
    | .error message => s.failLaunch n launch w session message
    | .ok (s, sessionFile) => goto s (.identifying w session sessionFile)
  | .identifying w session sessionFile =>
    let started : Except JsString System := do
      let reply ← checked
      Checked.require ((s.records w).expectedLifecycle = none) (js "actor startup was stopped")
      s.checkedCall ctx (.markActorStarted id session.actorGeneration ⟨reply.pid, sessionFile, reply.processIdentity⟩)
    match started with
    | .error message => s.failLaunch n launch w session message
    | .ok s => goto s (.inferring w session)
  | .inferring w session =>
    match checked with
    | .error message => s.failLaunch n launch w session message
    | .ok _ => goto s (.delivering w session)
  | .delivering w session =>
    match reply with
    | .error message => s.failLaunch n launch w session message
    | .ok _ => goto s (.logging w session)
  | .logging w session =>
    match reply with
    | .error message => s.failLaunch n launch w session message
    | .ok _ =>
      if s.stopping then goto (s.stopActor ctx id .passivated none) (.stopping w)
      else
        match s.check launch with
        | .error message => s.failLaunch n launch w session message
        | .ok _ => goto s (.submitting w session)
  | .submitting w session =>
    match reply with
    | .error message => s.failLaunch n launch w session message
    | .ok _ => goto s (.settled none)
  | .stopping w => if (s.records w).process.alive then s else goto s (.settled none)
  | .closing w session expected message =>
    if (s.records w).process.alive then s
    else goto (s.closeFailed ctx id w session expected message) (.settled (some message))
  | .settled failure => s.endLaunch ctx n launch failure

end Launches

end System

end PersistentHarness.Supervisor
