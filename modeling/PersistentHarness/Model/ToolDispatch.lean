import PersistentHarness.Data.JsonRoundTrip
import PersistentHarness.Data.Text

/-! # Dispatch of nested tool calls

A tool may call other tools while it runs, and these may call others. All calls under one root share a queue, a list of records with
its limits, and the set of operations that the root waits for before its result counts. Calls of other roots only matter as they
take places in the queue.
-/

namespace PersistentHarness.ToolDispatch

def maxCalls : ℕ := 256

def maxArgumentBytes : ℕ := 8192

def maxTotalArgumentBytes : ℕ := 32768

def maxErrorChars : ℕ := 500

/-- The arguments of a call; no object among them names a member twice. -/
structure Arguments where
  value : Value
  distinct : Json.Distinct value
  defined : value ≠ .undefined

/-- `args ?? {}`. -/
def Arguments.orEmpty (args : Value) (distinct : Json.Distinct args) : Arguments :=
  if missing : args = .undefined ∨ args = .null then ⟨.obj [], ⟨List.nodup_nil, trivial⟩, Value.noConfusion⟩
  else ⟨args, distinct, fun undefined => missing (.inl undefined)⟩

structure ToolCall where
  id : JsString
  name : JsString
  /-- The arguments, if `JSON.stringify` has a text for them. -/
  arguments : Option Arguments

/-- What `core.runToolCall` returns, of its content the texts. -/
structure Outcome (υ : Type) where
  isError : Bool
  texts : List JsString
  usage : Option υ

inductive Status where
  | unfinished
  | ok
  | error
deriving DecidableEq

structure Record where
  id : JsString
  name : JsString
  status : Status
  arguments : Option Value
  argumentsBytes : Option ℕ
  error : Option JsString
deriving DecidableEq

/-- Where a call of `runNested` waits. -/
inductive Stage where
  /-- `await previous`. -/
  | queued
  /-- `await this.emit({ type: "tool_execution_start" })`. -/
  | starting
  /-- `await this.core.runToolCall()`. -/
  | running
  /-- `await this.emit({ type: "tool_execution_end" })`. -/
  | ending
  | settled
deriving DecidableEq

/-- A call of `runNested`, with its variables. -/
structure Operation where
  toolCall : ToolCall
  /-- Where `record` is in the list of the root. -/
  record : Option ℕ
  /-- Whose release `previous` is, if it is one of this root. -/
  previous : Option ℕ
  stage : Stage
  /-- Whether it failed on its arguments, before its record was made. -/
  rejected : Bool

/-- Whether a call came out of the queue. -/
def Operation.started (operation : Operation) : Prop := operation.rejected = false ∧ operation.stage ≠ .queued

structure Scope where
  nextId : ℕ
  accepting : Bool
  holdsQueue : Bool

structure Root (υ : Type) where
  calls : List Record
  complete : Bool
  argumentBytes : ℕ
  /-- The operations that the root waits for, by their number. -/
  pending : List ℕ
  usage : Option υ

/-- What `finish` returns. -/
structure Result (υ : Type) where
  nestedCalls : Option (List Record × Bool)
  usage : Option υ
deriving DecidableEq

/-- `nestedCalls.calls`. -/
def Result.calls {υ : Type} (result : Result υ) : List Record := (result.nestedCalls.map Prod.fst).getD []

/-- `nestedCalls.complete`. -/
def Result.complete {υ : Type} (result : Result υ) : Bool := (result.nestedCalls.map Prod.snd).getD true

structure State (υ : Type) where
  id : JsString
  root : Root υ
  scopes : List (JsString × Scope)
  /-- Whose release `this.tail` is, if it is one of this root. -/
  tail : Option ℕ
  /-- The operations that were accepted. -/
  operations : List Operation
  /-- The operations that `finish` waits for. -/
  draining : Option (List ℕ)
  finished : Option (Result υ)

namespace State

variable {υ : Type}

/-- `open(id, signal, assistantMessage, messages)`. -/
def opened (id : JsString) : State υ where
  id := id
  root := { calls := [], complete := true, argumentBytes := 0, pending := [], usage := none }
  scopes := [(id, { nextId := 1, accepting := true, holdsQueue := false })]
  tail := none
  operations := []
  draining := none
  finished := none

def withStage (s : State υ) (n : ℕ) (stage : Stage) : State υ :=
  { s with operations := s.operations.modify n fun operation => { operation with stage } }

/-- The scope of a call that runs. -/
def nestedScope : Scope := { nextId := 1, accepting := true, holdsQueue := true }

/-- `this.scopes.set(toolCall.id, …)`. -/
def openNested (s : State υ) (id : JsString) : State υ := { s with scopes := Assoc.set s.scopes id nestedScope }

/-- `Buffer.byteLength(JSON.stringify(value))`. -/
def jsonBytes (value : Value) : ℕ := JsString.utf8Length (Json.stringify value)

/-- The record of a call whose arguments are kept, or only counted. -/
def recordOf (toolCall : ToolCall) (arguments : Option Value) (argumentsBytes : Option ℕ) : Record where
  id := toolCall.id
  name := toolCall.name
  status := .unfinished
  arguments := arguments
  argumentsBytes := argumentsBytes
  error := none

/-- The first part of `runNested`: the record of a call, if there is room for one. It fails for arguments that have no text. -/
def recorded (root : Root υ) (toolCall : ToolCall) : Option (Option ℕ × Root υ) :=
  if root.calls.length < maxCalls then
    toolCall.arguments.map fun arguments =>
      let json := Json.stringify arguments.value
      let bytes := jsonBytes arguments.value
      if bytes ≤ maxArgumentBytes ∧ root.argumentBytes + bytes ≤ maxTotalArgumentBytes then
        (some root.calls.length, { root with
          calls := root.calls ++ [recordOf toolCall (Json.parse json) none]
          argumentBytes := root.argumentBytes + bytes })
      else
        (some root.calls.length, { root with
          calls := root.calls ++ [recordOf toolCall none (some bytes)]
          complete := false })
  else some (none, { root with complete := false })

def nextCall (callerId : JsString) (scope : Scope) (name : JsString) (arguments : Option Arguments) : ToolCall where
  id := callerId ++ js "/" ++ Json.decimal scope.nextId
  name := name
  arguments := arguments

/-- `scope.nextId++`. -/
def renumber (s : State υ) (callerId : JsString) (scope : Scope) : List (JsString × Scope) :=
  Assoc.set s.scopes callerId { scope with nextId := scope.nextId + 1 }

/-- A call that fails at once is in the set of its root as well. -/
def reject (s : State υ) (callerId : JsString) (scope : Scope) (toolCall : ToolCall) : State υ :=
  { s with
    root := { s.root with pending := s.root.pending ++ [s.operations.length] }
    scopes := s.renumber callerId scope
    operations := s.operations ++ [{ toolCall, record := none, previous := none, stage := .settled, rejected := true }] }

/-- A call with its record comes up to its first `await`. A scope that holds the queue does not wait. -/
def admitted (s : State υ) (callerId : JsString) (scope : Scope) (toolCall : ToolCall) (record : Option ℕ) (root : Root υ) : State υ :=
  let n := s.operations.length
  { s with
    root := { root with pending := root.pending ++ [n] }
    scopes := if scope.holdsQueue then Assoc.set (s.renumber callerId scope) toolCall.id nestedScope else s.renumber callerId scope
    tail := if scope.holdsQueue then s.tail else some n
    operations := s.operations ++ [{
      toolCall
      record
      previous := if scope.holdsQueue then none else s.tail
      stage := if scope.holdsQueue then .starting else .queued
      rejected := false }] }

/-- `execute`, for a scope that accepts calls. -/
def accept (s : State υ) (callerId : JsString) (scope : Scope) (toolCall : ToolCall) : State υ :=
  match recorded s.root toolCall with
  | some (record, root) => s.admitted callerId scope toolCall record root
  | none => s.reject callerId scope toolCall

/-- The outcome of a call becomes part of its record. -/
def endedRecord (outcome : Outcome υ) (record : Record) : Record :=
  { record with
    status := if outcome.isError then .error else .ok
    error := if outcome.isError then some (((js "\n").intercalate outcome.texts).take maxErrorChars) else record.error }

/-- `runNested`, once the tool has run. -/
def ran (addToolUsage : υ → υ → υ) (s : State υ) (n : ℕ) (operation : Operation) (outcome : Outcome υ) : State υ :=
  let calls := match operation.record with
    | some i => s.root.calls.modify i (endedRecord outcome)
    | none => s.root.calls
  let usage := match s.root.usage, outcome.usage with
    | some first, some second => some (addToolUsage first second)
    | first, second => first.or second
  ({ s with root := { s.root with calls, usage } }).withStage n .ending

/-- The `finally` block of `runNested`. -/
def settle (s : State υ) (n : ℕ) (operation : Operation) : State υ :=
  let unfinished := (operation.record.bind (s.root.calls[·]?)).any fun record => record.status = .unfinished
  ({ s with
    scopes := Assoc.erase s.scopes operation.toolCall.id
    root := { s.root with complete := s.root.complete && !unfinished } }).withStage n .settled

/-- The end of `finish`. -/
def conclude (s : State υ) : State υ :=
  { s with
    scopes := Assoc.erase s.scopes s.id
    draining := none
    finished := some {
      nestedCalls := if s.root.calls ≠ [] ∨ s.root.complete = false then some (s.root.calls, s.root.complete) else none
      usage := s.root.usage } }

/-- The loop of `finish`, at its head. -/
def drain (s : State υ) : State υ := if s.root.pending = [] then s.conclude else { s with draining := some s.root.pending }

/-- `scope.accepting = false`, for the root. -/
def close (s : State υ) (scope : Scope) : State υ :=
  { s with scopes := Assoc.set s.scopes s.id { scope with accepting := false } }

end State

/-- What happens between two steps of the dispatcher. -/
inductive Event (υ : Type) where
  /-- `execute(callerId, name, args)`. -/
  | execute (callerId name : JsString) (args : Value) (distinct : Json.Distinct args)
  /-- The same with arguments that have no JSON text. -/
  | executeUnwritable (callerId name : JsString)
  /-- The queue of the operation comes to it. -/
  | proceed (n : ℕ)
  | started (n : ℕ) (published : Bool)
  /-- The tool has run, or running it failed. -/
  | ran (n : ℕ) (outcome : Option (Outcome υ))
  /-- The end of the operation is published, or that fails. -/
  | ended (n : ℕ) (published : Bool)
  /-- The operation is taken out of the set of its root. -/
  | forget (n : ℕ)
  /-- A call of another root takes its place in the queue. -/
  | foreign
  /-- `finish(id)`. -/
  | finish
  /-- All operations that `finish` waits for have settled. -/
  | drained

section Step

variable {υ : Type} (addToolUsage : υ → υ → υ)

def State.isSettled (s : State υ) (n : ℕ) : Bool := (s.operations[n]?).any fun operation => operation.stage = .settled

def State.step (s : State υ) : Event υ → State υ
  | .execute callerId name args distinct =>
    match Assoc.lookup s.scopes callerId with
    | some scope =>
      if scope.accepting then s.accept callerId scope (State.nextCall callerId scope name (some (.orEmpty args distinct))) else s
    | none => s
  | .executeUnwritable callerId name =>
    match Assoc.lookup s.scopes callerId with
    | some scope => if scope.accepting then s.accept callerId scope (State.nextCall callerId scope name none) else s
    | none => s
  | .proceed n =>
    match s.operations[n]? with
    | some operation =>
      if operation.stage = .queued ∧ operation.previous.all s.isSettled then
        (s.openNested operation.toolCall.id).withStage n .starting
      else s
    | none => s
  | .started n published =>
    match s.operations[n]? with
    | some operation =>
      if operation.stage = .starting then if published then s.withStage n .running else s.settle n operation else s
    | none => s
  | .ran n outcome =>
    match s.operations[n]? with
    | some operation =>
      if operation.stage = .running then
        match outcome with
        | some outcome => s.ran addToolUsage n operation outcome
        | none => s.settle n operation
      else s
    | none => s
  | .ended n _ =>
    match s.operations[n]? with
    | some operation => if operation.stage = .ending then s.settle n operation else s
    | none => s
  | .forget n => if s.isSettled n then { s with root := { s.root with pending := s.root.pending.erase n } } else s
  | .foreign => { s with tail := none }
  | .finish =>
    match Assoc.lookup s.scopes s.id with
    | some scope => if s.draining.isSome then s else (s.close scope).drain
    | none => s
  | .drained =>
    match s.draining with
    | some snapshot => if snapshot.all s.isSettled then s.drain else s
    | none => s

def State.run (s : State υ) (events : List (Event υ)) : State υ := events.foldl (State.step addToolUsage) s

end Step

end PersistentHarness.ToolDispatch
