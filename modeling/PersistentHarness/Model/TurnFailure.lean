import PersistentHarness.Data.Json
import PersistentHarness.Lib.Checked

/-! # Turn-failure reports of an actor

A run that fails leaves a marker in the journal of its session. A reporter has the supervisor record each report and
appends a witness after it; the witness stands for all earlier ones, and a restart takes up the markers behind it.
-/

namespace PersistentHarness.TurnFailure

def entryType : JsString := js "persistent-harness.turn-failure-v1"

def acceptedType : JsString := js "persistent-harness.turn-failure-accepted-v1"

section Reports

structure Report where
  turnId : JsString
  failureClass : JsString
  dispatchBoundary : JsString
deriving DecidableEq, Repr

def classes : List JsString :=
  [js "prompt_preparation", js "request_preparation", js "compaction_failed", js "turn_failed"]

def boundaries : List JsString :=
  [js "before_provider_dispatch", js "provider_dispatch_unknown", js "tool_effects_possible"]

/-- `[a-zA-Z0-9-]`. -/
def isTurnIdUnit (unit : UInt16) : Bool :=
  (Json.unit 'a' ≤ unit && unit ≤ Json.unit 'z') || (Json.unit 'A' ≤ unit && unit ≤ Json.unit 'Z')
    || Json.isDigit unit || unit == Json.unit '-'

def normalizeTurnFailure (value : Value) : Except JsString Report :=
  match value, value.get (js "turnId"), value.get (js "failureClass"), value.get (js "dispatchBoundary") with
  | .obj fields, .str turnId, .str failureClass, .str dispatchBoundary => do
    Checked.require
      (fields.all (fun field => field.1 ∈ [js "version", js "turnId", js "failureClass", js "dispatchBoundary"]) = true
        ∧ (value.get (js "version")).isNat 1 ∧ 1 ≤ turnId.length ∧ turnId.length ≤ 128 ∧ turnId.all isTurnIdUnit = true
        ∧ failureClass ∈ classes ∧ dispatchBoundary ∈ boundaries)
      (js "invalid actor turn failure receipt")
    pure ⟨turnId, failureClass, dispatchBoundary⟩
  | _, _, _, _ => .error (js "invalid actor turn failure receipt")

end Reports

section Journal

/-- An entry of the session; its position is its index. -/
structure Entry where
  id : JsString
  type : JsString
  customType : Option JsString
  data : Value
deriving DecidableEq

def Entry.isCustom (entry : Entry) (customType : JsString) : Bool :=
  entry.type = js "custom" ∧ entry.customType = some customType

def customEntry (id customType : JsString) (data : Value) : Entry := ⟨id, js "custom", some customType, data⟩

/-- Where the marker of a report is. -/
structure Journal where
  entryId : JsString
  position : ℕ
deriving DecidableEq, Repr

def read (headers : List Entry) (id : JsString) : Value :=
  ((headers.find? fun entry => entry.id = id).map Entry.data).getD .undefined

/-- The position that a witness at `place` accepts, if it names a marker there. -/
def accepts (headers : List Entry) (place : ℕ) (data : Value) : Option ℕ :=
  let marks (position : ℕ) (target : Entry) : Bool :=
    position < place ∧ .str target.id = data.get (js "entryId") ∧ target.isCustom entryType = true
  (data.get (js "position")).safeNat?.filter fun position =>
    decide ((data.get (js "version")).isNat 1) && (headers[position]?).any (marks position)

def acceptedThrough (headers : List Entry) : ℤ :=
  match headers.zipIdx.reverse.find? fun header => header.1.isCustom acceptedType with
  | some (witness, place) => ((accepts headers place (read headers witness.id)).map Int.ofNat).getD (-1)
  | none => -1

/-- A marker with what its body says. -/
def pendingReport (headers : List Entry) (header : Entry × ℕ) : Option (Value × Journal) :=
  if header.1.isCustom entryType then
    match normalizeTurnFailure (read headers header.1.id) with
    | .ok _ => some (read headers header.1.id, ⟨header.1.id, header.2⟩)
    | .error _ => none
  else none

def pendingTurnFailureJournal (headers : List Entry) : ℤ × List (Value × Journal) :=
  let frontier := acceptedThrough headers
  (frontier, (headers.zipIdx.drop (frontier + 1).toNat).filterMap (pendingReport headers))

end Journal

/-! ## The reporter -/

/-- An entry of the map of pending reports, which its turn id is the key of; `stamp` counts the insertions. -/
structure Pending where
  report : Report
  journal : Option Journal
  stamp : ℕ
deriving DecidableEq

inductive Stage where
  /-- `client.request`. -/
  | requesting (entry : Pending)
  /-- `onRecorded` before its append. -/
  | recording (entry : Pending)
  /-- `onRecorded` after its append. -/
  | recorded (entry : Pending)
  /-- The drain has returned; its `finally` is due. -/
  | over
deriving DecidableEq

/-- A call of `drain`: its client, and the insertions that its iterator is past. -/
structure Drain where
  client : ℕ
  cursor : ℕ
  stage : Stage
deriving DecidableEq

structure Reporter where
  acceptedThrough : ℤ
  pending : List Pending
  inserted : ℕ
  closed : Bool
  flushing : Bool
  timer : Bool
  drains : List Drain

def Reporter.new (acceptedThrough : ℤ) : Reporter := ⟨acceptedThrough, [], 0, false, false, false, []⟩

def Reporter.remember (reporter : Reporter) (value : Value) (journal : Option Journal) : Except JsString Reporter := do
  let report ← normalizeTurnFailure value
  if journal.any fun journal => journal.position ≤ reporter.acceptedThrough then pure reporter
  else if reporter.pending.any fun entry => entry.report.turnId = report.turnId then pure reporter
  else
    pure { reporter with
      pending := reporter.pending ++ [⟨report, journal, reporter.inserted⟩], inserted := reporter.inserted + 1 }

/-- A report that a restart takes up. -/
def Reporter.restore (reporter : Reporter) (entry : Value × Journal) : Reporter :=
  match reporter.remember entry.1 (some entry.2) with
  | .ok reporter => reporter
  | .error _ => reporter

def witness (journal : Option Journal) : Value :=
  .record (("version", .num (.ofNat 1)) ::
    (journal.map fun journal => [("entryId", .str journal.entryId), ("position", .num (.ofNat journal.position))]).getD [])

/-! ## The actor -/

/-- A run of the coordinator, with its report and the marker's id once it has failed. -/
structure Run where
  turnId : JsString
  journaled : Option (Value × JsString)

structure System where
  journal : List Entry
  /-- The client of the moment, and whether it is connected. -/
  client : Option (ℕ × Bool)
  reporter : Reporter
  run : Option Run
  /-- The reports that the supervisor has acknowledged as recorded. -/
  acknowledged : List Report

def System.initial : System := ⟨[], none, .new (-1), none, []⟩

namespace System

section Drains

/-- The loop of `drain` when it asks its iterator. -/
def iterate (s : System) (client cursor : ℕ) : Drain :=
  match s.reporter.pending.find? fun entry => cursor ≤ entry.stamp with
  | some entry =>
    if s.reporter.closed = true ∨ s.client.map Prod.fst ≠ some client then ⟨client, cursor, .over⟩
    else ⟨client, entry.stamp + 1, .requesting entry⟩
  | none => ⟨client, cursor, .over⟩

/-- `drain` up to its first await. -/
def drain (s : System) : Drain :=
  match s.client with
  | some (client, true) => s.iterate client 0
  | _ => ⟨0, 0, .over⟩

def flush (s : System) : System :=
  if s.reporter.closed || s.reporter.flushing then s
  else { s with reporter := { s.reporter with flushing := true, drains := s.reporter.drains ++ [s.drain] } }

def setDrain (s : System) (n : ℕ) (drain : Drain) : System :=
  { s with reporter := { s.reporter with drains := s.reporter.drains.set n drain } }

def failDrain (s : System) (n : ℕ) (drain : Drain) : System :=
  { s with reporter := { s.reporter with timer := s.reporter.timer || !s.reporter.closed } }.setDrain n
    { drain with stage := .over }

/-- The receipt of a request. -/
def answer (s : System) (n : ℕ) (drain : Drain) (entry : Pending) (recorded : Bool) : System :=
  if recorded then
    { s with acknowledged := entry.report :: s.acknowledged }.setDrain n { drain with stage := .recording entry }
  else s.failDrain n drain

def appendWitness (s : System) (n : ℕ) (drain : Drain) (entry : Pending) (id : JsString) : System :=
  { s with journal := s.journal ++ [customEntry id acceptedType (witness entry.journal)] }.setDrain n
    { drain with stage := .recorded entry }

/-- What follows `onRecorded`, up to the next request. -/
def resume (s : System) (n : ℕ) (drain : Drain) (entry : Pending) : System :=
  let s := { s with
    reporter := { s.reporter with
      acceptedThrough := (entry.journal.map fun journal : Journal => Int.ofNat journal.position).getD s.reporter.acceptedThrough
      pending := s.reporter.pending.filter fun other => other.report.turnId ≠ entry.report.turnId } }
  s.setDrain n (s.iterate drain.client drain.cursor)

def finish (s : System) (n : ℕ) : System :=
  let s := { s with reporter := { s.reporter with flushing := false, drains := s.reporter.drains.eraseIdx n } }
  if s.reporter.closed || s.reporter.pending.isEmpty || s.reporter.timer || !(s.client.any Prod.snd) then s else s.flush

end Drains

section Runs

def marked (s : System) (turnId : JsString) : Bool :=
  s.journal.any fun entry => entry.isCustom entryType && entry.data.get (js "turnId") = .str turnId

/-- `runId = randomUUID()`. -/
def start (s : System) (turnId : JsString) : System :=
  if s.run.isNone && !s.marked turnId then { s with run := some ⟨turnId, none⟩ } else s

def report (turnId failureClass : JsString) (toolEffects providerStarted : Bool) : Value :=
  let dispatchBoundary :=
    if toolEffects then "tool_effects_possible"
    else if providerStarted then "provider_dispatch_unknown" else "before_provider_dispatch"
  .record [("version", .num (.ofNat 1)), ("turnId", .str turnId), ("failureClass", .str failureClass),
    ("dispatchBoundary", .text dispatchBoundary)]

/-- The session gives a new entry an id of its own. -/
def free (s : System) (id : JsString) : Bool := s.journal.all fun entry => entry.id ≠ id

def journalTurnFailure (s : System) (id failureClass : JsString) (toolEffects providerStarted : Bool) : System :=
  match s.run with
  | some ⟨turnId, none⟩ =>
    let report := report turnId failureClass toolEffects providerStarted
    { s with journal := s.journal ++ [customEntry id entryType report], run := some ⟨turnId, some (report, id)⟩ }
  | _ => s

def reportTurnFailure (s : System) (report : Value) (entryId : JsString) : System :=
  match s.journal.zipIdx.reverse.find? fun header => header.1.id = entryId with
  | some (header, position) =>
    if header.isCustom entryType then
      match s.reporter.remember report (some ⟨entryId, position⟩) with
      | .ok reporter => { s with reporter }.flush
      | .error _ => s
    else s
  | none => s

def settle (s : System) : System :=
  match s.run with
  | some ⟨_, some (report, entryId)⟩ => { s.reportTurnFailure report entryId with run := none }
  | _ => { s with run := none }

/-- A new process takes up the journal. -/
def restart (s : System) : System :=
  let journal := pendingTurnFailureJournal s.journal
  { s with client := none, reporter := journal.2.foldl Reporter.restore (.new journal.1), run := none }

end Runs

end System

inductive Event where
  | append (entry : Entry)
  | client (client : Option (ℕ × Bool))
  | start (turnId : JsString)
  | journal (id failureClass : JsString) (toolEffects providerStarted : Bool)
  | settle
  | flush
  | answer (n : ℕ) (recorded : Bool)
  | appendWitness (n : ℕ) (id : JsString)
  /-- `onRecorded` returns. -/
  | resume (n : ℕ)
  /-- `onRecorded` throws. -/
  | refuse (n : ℕ)
  | finish (n : ℕ)
  | fire
  | close
  | restart

def step (s : System) : Event → System
  | .append entry =>
    if s.free entry.id && !entry.isCustom entryType && !entry.isCustom acceptedType then
      { s with journal := s.journal ++ [entry] }
    else s
  | .client client => { s with client }
  | .start turnId => s.start turnId
  | .journal id failureClass toolEffects providerStarted =>
    if s.free id then s.journalTurnFailure id failureClass toolEffects providerStarted else s
  | .settle => s.settle
  | .flush => s.flush
  | .answer n recorded =>
    match s.reporter.drains[n]? with
    | some drain =>
      match drain.stage with
      | .requesting entry => s.answer n drain entry recorded
      | _ => s
    | none => s
  | .appendWitness n id =>
    match s.reporter.drains[n]? with
    | some drain =>
      match drain.stage with
      | .recording entry => if s.free id then s.appendWitness n drain entry id else s
      | _ => s
    | none => s
  | .resume n =>
    match s.reporter.drains[n]? with
    | some drain =>
      match drain.stage with
      | .recorded entry => s.resume n drain entry
      | _ => s
    | none => s
  | .refuse n =>
    match s.reporter.drains[n]? with
    | some drain =>
      match drain.stage with
      | .recording _ | .recorded _ => s.failDrain n drain
      | _ => s
    | none => s
  | .finish n =>
    match s.reporter.drains[n]? with
    | some drain => if drain.stage = .over then s.finish n else s
    | none => s
  | .fire =>
    if s.reporter.timer && !s.reporter.closed then
      { s with reporter := { s.reporter with timer := false } }.flush
    else s
  | .close => { s with reporter := { s.reporter with closed := true } }
  | .restart => s.restart

def run (events : List Event) : System := events.foldl step .initial

end PersistentHarness.TurnFailure
