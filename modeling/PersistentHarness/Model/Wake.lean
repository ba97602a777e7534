import Mathlib.Logic.Function.Basic
import PersistentHarness.Model.Session.Run

/-! # Wakes of pending inputs

A wake makes the actor of a session ready and delivers its inputs. Calls for one session share a loop: a call finds
the loop that runs and asks it for another round. An automatic wake belongs to the actor that has settled, and cancels
itself when another actor has taken its place.
-/

namespace PersistentHarness.Wake

open SessionStore (Store)

section Loops

/-- What a loop waits for. -/
inductive Stage where
  /-- Its first turn. -/
  | starting
  | readying
  /-- The rejection of `#ensureActorReady` is on its way. -/
  | failing
  /-- `#deliverActorInputs`. -/
  | delivering
  /-- `#stopActor` after a failed round. -/
  | stopping
  | ended
deriving DecidableEq, Repr

/-- A wake with its loop; `retired` tells that a retirement has cancelled it. -/
structure Loop where
  sessionId : JsString
  requested : Bool
  cancelled : Bool
  retired : Bool
  automaticRecord : Option ℕ
  stage : Stage
deriving DecidableEq, Repr

/-- An explicit call with the loop that serves it, and what has become of it. -/
structure Call where
  loop : ℕ
  /-- A round of the loop has begun after the call. -/
  attempted : Bool
  /-- The loop has ended for a retirement, a deletion or the stop of the supervisor. -/
  withdrawn : Bool
deriving DecidableEq, Repr

structure System where
  store : Store
  actors : JsString → Option ℕ
  /-- The records with an `expectedLifecycle`. -/
  expected : ℕ → Bool
  retirements : JsString → ℕ
  stopping : Bool
  /-- `#actorInputWakes`. -/
  wakes : JsString → Option ℕ
  loops : List Loop
  calls : List Call

def System.initial : System := ⟨.empty, fun _ => none, fun _ => false, fun _ => 0, false, fun _ => none, [], []⟩

end Loops

namespace System

/-- Pending inputs, or a queued or submitted task. -/
def hasDurableWork (store : Store) (sessionId : JsString) : Bool :=
  store.inputs.any (fun id input => input.sessionId = sessionId
      ∧ (store.receipts.get? id).any (fun receipt => receipt.sessionId = sessionId) = true)
    || store.tasks.any fun _ task => task.childId = sessionId ∧ task.unfinished = true

def setLoop (s : System) (n : ℕ) (loop : Loop) : System := { s with loops := s.loops.set n loop }

/-- No new round may begin. -/
def fenced (s : System) (loop : Loop) : Bool :=
  loop.cancelled || s.stopping || s.store.isSessionDeleting loop.sessionId

/-- A round begins: the calls so far are served. -/
def begin (s : System) (n : ℕ) (loop : Loop) : System :=
  { s.setLoop n { loop with requested := false, stage := .readying } with
    calls := s.calls.map fun call => if call.loop = n then { call with attempted := true } else call }

/-- The loop is over, and its owner removed. -/
def finish (s : System) (n : ℕ) (loop : Loop) : System :=
  let withdraws : Bool := loop.retired || s.stopping || s.store.isSessionDeleting loop.sessionId
  { s.setLoop n { loop with stage := .ended } with
    wakes := if s.wakes loop.sessionId = some n then Function.update s.wakes loop.sessionId none else s.wakes
    calls := s.calls.map fun call => if call.loop = n then { call with withdrawn := call.withdrawn || withdraws } else call }

def again (s : System) (n : ℕ) (loop : Loop) : System :=
  if loop.requested && !s.fenced loop then s.begin n loop else s.finish n loop

/-- The handler of a failed round. -/
def caught (s : System) (n : ℕ) (loop : Loop) : System :=
  if s.fenced loop then s.finish n loop else s.setLoop n { loop with stage := .stopping }

/-- The `check` of a wake: a loop that has been cancelled goes no further. -/
def check (s : System) (loop : Loop) : Loop :=
  match loop.automaticRecord with
  | some record =>
    if s.actors loop.sessionId ≠ some record ∧ s.expected record = false then
      if hasDurableWork s.store loop.sessionId then { loop with automaticRecord := none } else { loop with cancelled := true }
    else loop
  | none => loop

/-- `#queueActorInputWake` after `#requestActorStart`: the call joins the loop of its session, or begins one. -/
def queue (s : System) (sessionId : JsString) (automaticRecord : Option ℕ) : System :=
  let s := { s with store := (SessionStore.setActorInputWakeError s.store sessionId none).1 }
  let called (s : System) (n : ℕ) : System :=
    if automaticRecord = none then { s with calls := s.calls ++ [⟨n, false, false⟩] } else s
  match (s.wakes sessionId).bind fun n => (s.loops[n]?).map fun loop => (n, loop) with
  | some (n, loop) =>
    called (s.setLoop n { loop with
      requested := true, automaticRecord := if automaticRecord = none then none else loop.automaticRecord }) n
  | none =>
    let n := s.loops.length
    called { s with
      wakes := Function.update s.wakes sessionId (some n)
      loops := s.loops ++ [⟨sessionId, true, false, false, automaticRecord, .starting⟩] } n

/-- `#beginActorRetirement` cancels the loop of a session. -/
def retire (s : System) (sessionId : JsString) : System :=
  let s := { s with retirements := Function.update s.retirements sessionId (s.retirements sessionId + 1) }
  match (s.wakes sessionId).bind fun n => (s.loops[n]?).map fun loop => (n, loop) with
  | some (n, loop) => s.setLoop n { loop with cancelled := true, retired := true }
  | none => s

end System

inductive Event where
  /-- What any other caller does to the sessions. -/
  | store (env : SessionStore.Env) (now : ℤ) (observer : Option JsString) (op : SessionStore.Op)
  /-- An actor exits, or another one takes its place. -/
  | actor (sessionId : JsString) (record : Option ℕ)
  | expect (record : ℕ)
  | retire (sessionId : JsString)
  /-- A retirement is released, when all it waits for is over. -/
  | release (sessionId : JsString)
  | stop
  /-- A call; an explicit one has no record. `starts` tells that `#requestActorStart` does not throw for the actor. -/
  | wake (sessionId : JsString) (automaticRecord : Option ℕ) (starts : Bool)
  /-- The first turn of a loop. -/
  | turn (n : ℕ)
  /-- Something under `#ensureActorReady` calls `check`. -/
  | check (n : ℕ)
  /-- `#ensureActorReady` succeeds or fails. -/
  | ready (n : ℕ) (succeeds : Bool)
  /-- The rejection of `#ensureActorReady` arrives. -/
  | rejected (n : ℕ)
  | delivered (n : ℕ) (succeeds : Bool)
  /-- The actor of a failed round is stopped, or the stop fails. -/
  | stopped (n : ℕ) (succeeds : Bool)

def step (s : System) : Event → System
  | .store env now observer op => { s with store := (SessionStore.step env observer s.store now op).1 }
  | .actor sessionId record => { s with actors := Function.update s.actors sessionId record }
  | .expect record => { s with expected := Function.update s.expected record true }
  | .retire sessionId => s.retire sessionId
  | .release sessionId =>
    let waits (loop : Loop) : Bool := loop.sessionId = sessionId ∧ loop.retired = true ∧ loop.stage ≠ .ended
    if s.loops.any waits then s
    else { s with retirements := Function.update s.retirements sessionId (s.retirements sessionId - 1) }
  | .stop => { s with stopping := true }
  | .wake sessionId automaticRecord starts =>
    match s.store.assertSessionAvailable sessionId with
    | .ok _ =>
      if starts = true ∧ s.retirements sessionId = 0 ∧ s.stopping = false then s.queue sessionId automaticRecord else s
    | .error _ => s
  | .turn n =>
    match s.loops[n]? with
    | some loop => if loop.stage = .starting then s.begin n loop else s
    | none => s
  | .check n =>
    match s.loops[n]? with
    | some loop =>
      if loop.stage = .readying then
        let loop := s.check loop
        s.setLoop n (if loop.cancelled then { loop with stage := .failing } else loop)
      else s
    | none => s
  | .ready n succeeds =>
    match s.loops[n]? with
    | some loop =>
      if loop.stage = .readying then
        if succeeds then
          let loop := s.check loop
          if loop.cancelled then (s.setLoop n loop).caught n loop else s.setLoop n { loop with stage := .delivering }
        else s.setLoop n { loop with stage := .failing }
      else s
    | none => s
  | .rejected n =>
    match s.loops[n]? with
    | some loop => if loop.stage = .failing then s.caught n loop else s
    | none => s
  | .delivered n succeeds =>
    match s.loops[n]? with
    | some loop =>
      if loop.stage = .delivering then if succeeds then s.again n loop else s.caught n loop
      else s
    | none => s
  | .stopped n succeeds =>
    match s.loops[n]? with
    | some loop =>
      if loop.stage = .stopping then if succeeds then s.again n loop else s.finish n loop
      else s
    | none => s

def run (events : List Event) : System := events.foldl step .initial

end PersistentHarness.Wake
