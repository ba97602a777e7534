import PersistentHarness.Model.Canonical.Basic

/-! # The navigation driver

The driver prepares a move of the leaf, asks the extensions, may have the stock service summarise what is left behind, and
then changes the session in one step. At every await foreign code may change the session, abort the call or end a stream.
-/

namespace PersistentHarness.Navigation

section Failures

/-- What the driver reads of an error. -/
structure Failure where
  code : Option JsString
  message : JsString
deriving DecidableEq

/-- `new ActorNavigationError(code)`. -/
def actorNavigationError (code : String) : Failure := ⟨some (js code), js code⟩

/-- A `TypeError` of the engine, without its text. -/
def typeError : Failure := ⟨none, []⟩

def check (condition : Prop) [Decidable condition] (code : String) : Except Failure Unit :=
  if condition then .ok () else .error (actorNavigationError code)

end Failures

section Options

structure Options where
  summarize : Value
  customInstructions : Value
  replaceInstructions : Value
  label : Value

def boundedText (value : Value) : Prop := value = .undefined ∨ value.isString ∧ value.units.length ≤ 4 * 1024 * 1024

instance (value : Value) : Decidable (boundedText value) := inferInstanceAs (Decidable (_ ∨ _))

def Options.checked (options : Options) : Except Failure Options := do
  check (options.summarize = .undefined ∨ options.summarize.isBoolean) "ERR_NAVIGATION_OPTIONS"
  check (options.replaceInstructions = .undefined ∨ options.replaceInstructions.isBoolean) "ERR_NAVIGATION_OPTIONS"
  check (boundedText options.customInstructions ∧ boundedText options.label) "ERR_NAVIGATION_OPTIONS"
  pure options

def checkedOptions (options : Value) : Except Failure Options := do
  check options.isObject "ERR_NAVIGATION_OPTIONS"
  Options.checked {
    summarize := options.get (js "summarize")
    customInstructions := options.get (js "customInstructions")
    replaceInstructions := options.get (js "replaceInstructions")
    label := options.get (js "label") }

end Options

section Sessions

/-- A summary with what is stored beside it. -/
structure Summary where
  summary : JsString
  details : Value
  usage : Value

/-- The session manager of the SDK, with what the driver reads of the session and its coordinator. A call that throws changes
nothing. -/
structure Manager (σ : Type) where
  sessionId : σ → JsString
  leafId : σ → Option JsString
  entries : σ → List Value
  getEntry : σ → JsString → Option Value
  isIdle : σ → Bool
  serviceMutation : σ → Bool
  /-- `session.model` is there. -/
  hasModel : σ → Bool
  resetLeaf : σ → Except Failure σ
  branch : σ → Value → Except Failure σ
  branchWithSummary : σ → Value → Summary → Bool → Except Failure (JsString × σ)
  appendLabelChange : σ → JsString → JsString → Except Failure (JsString × σ)
  /-- `sdk.collectEntriesForBranchSummary`: the entries and the common ancestor. -/
  collectEntriesForBranchSummary : σ → Option JsString → JsString → Except Failure (List Value × Option JsString)
  /-- `refreshCanonicalSessionContext`, which only reads the manager. -/
  refreshCanonicalSessionContext : σ → Except Failure Unit

end Sessions

section Preparations

structure Preparation where
  targetId : JsString
  oldLeafId : Option JsString
  commonAncestorId : Option JsString
  entriesToSummarize : List Value
  userWantsSummary : Bool
  customInstructions : Value
  replaceInstructions : Value
  label : Value

structure Prepared where
  newLeafId : Value
  editorText : Option JsString
  preparation : Preparation

/-- The texts of content that is no string. -/
def partTexts : List Value → Except Failure (List JsString)
  | [] => pure []
  | part :: rest => do
    if part.isNullish then .error typeError
    let texts ← partTexts rest
    pure (if part.get (js "type") = .text "text" then (part.get (js "text")).units :: texts else texts)

def isInput (target : Value) : Except Failure Bool := do
  if target.get (js "type") = .text "custom_message" then pure true
  else if target.get (js "type") = .text "message" then
    if (target.get (js "message")).isNullish then .error typeError
    else pure ((target.get (js "message")).get (js "role") = .text "user")
  else pure false

/-- `editorText`, for a target that is an input. -/
def editorText (target : Value) : Except Failure JsString := do
  let content := if target.get (js "type") = .text "custom_message" then target.get (js "content")
    else (target.get (js "message")).get (js "content")
  match content with
  | .str text => pure text
  | .arr parts => do
    let texts ← partTexts parts
    pure texts.flatten
  | _ => .error typeError

variable {σ : Type} (m : Manager σ)

/-- `prepareActorNavigation({ sdk, manager, targetId, options })`. -/
def prepareActorNavigation (session : σ) (targetId : Value) (options : Options) : Except Failure (Option Prepared) := do
  let options ← options.checked
  check (targetId.isString ∧ 0 < targetId.units.length ∧ targetId.units.length ≤ 1024) "ERR_NAVIGATION_TARGET"
  let target := targetId.units
  let oldLeafId := m.leafId session
  if oldLeafId = some target then pure none
  else
    match m.getEntry session target with
    | none => .error (actorNavigationError "ERR_NAVIGATION_TARGET")
    | some entry => do
      let (entries, commonAncestorId) ← m.collectEntriesForBranchSummary session oldLeafId target
      let input ← isInput entry
      let text ← if input then some <$> editorText entry else pure none
      pure (some {
        newLeafId := if input then entry.get (js "parentId") else targetId
        editorText := text
        preparation := {
          targetId := target
          oldLeafId
          commonAncestorId
          entriesToSummarize := entries
          userWantsSummary := options.summarize.truthy
          customInstructions := options.customInstructions
          replaceInstructions := options.replaceInstructions
          label := options.label } })

/-- `checkedResult(value)`: the copy of a summary that an extension or the stock service gives. -/
def checkedResult (value : Value) : Except Failure Summary := do
  let probe := Value.record
    [("type", .text "custom"), ("id", .text "navigation-output-validation"), ("parentId", .null), ("data", value)]
  let copied ← Canonical.copyPlain (actorNavigationError "ERR_CONTEXT_DATA_LIMIT") (actorNavigationError "ERR_CONTEXT_DATA_TYPE")
    (.arr [probe])
  let result := (copied.index 0).get (js "data")
  check (result.truthy ∧ (result.get (js "summary")).isString
    ∧ (result.get (js "summary")).units.length ≤ 16 * 1024 * 1024) "ERR_NAVIGATION_SUMMARY"
  pure { summary := (result.get (js "summary")).units, details := result.get (js "details"), usage := result.get (js "usage") }

end Preparations

section Driver

/-- A summary stream that the driver started: it runs, or its result has settled. -/
inductive Stream where
  | running
  | ended (failed : Bool)
deriving DecidableEq

/-- The stock summary: not asked for, at work, or settled. -/
inductive Stock where
  | unasked
  | pending
  | settled
deriving DecidableEq

/-- How a call ends. -/
inductive Outcome where
  /-- `{ cancelled: false }`, for the leaf itself. -/
  | unmoved
  /-- `{ editorText, cancelled: false, summaryEntry }`. -/
  | navigated (editorText : Option JsString) (summaryEntry : Option Value)
  /-- `{ cancelled: true }`, with `aborted: true` or not. -/
  | cancelled (aborted : Bool)
  /-- `ERR_NAVIGATION_COMMITTED`, marked committed, with its cause and `failure.result`. -/
  | committed (cause : Failure) (result : Option (Option JsString × Option Value))
  | thrown (failure : Failure)

/-- What is known when the streams are awaited. -/
structure Plan where
  prepared : Prepared
  effective : Options
  summary : Option Summary
  fromExtension : Bool

/-- What the change of the session gave. -/
structure Transition where
  editorText : Option JsString
  summaryEntry : Option Value
  fromExtension : Bool

/-- The await that the driver is at. -/
inductive Stage where
  /-- `runner.emit({ type: "session_before_tree" })`. -/
  | asking (prepared : Prepared)
  /-- `sdk.generateBranchSummary`. -/
  | summarizing (prepared : Prepared) (effective : Options)
  /-- `Promise.all(streams)`, for that many streams. -/
  | collecting (plan : Plan) (awaited : ℕ)
  /-- `publish({ type: "entry_appended" })`, with the entries that are left. -/
  | recording (done : Transition) (rest : List (Option Value))
  /-- `runner.emit({ type: "session_tree" })`. -/
  | emitting (done : Transition)
  /-- `lifecycle.afterCommit`. -/
  | concluding (done : Transition)
  /-- `Promise.all(streams)` of the `finally` block. -/
  | releasing (outcome : Outcome) (awaited : ℕ)
  | ended (outcome : Outcome)

/-- A call of the driver that changes the session. -/
inductive Call where
  | resetLeaf
  | branch (id : Value)
  | branchWithSummary (id : Value) (summary : Summary) (fromExtension : Bool)
  | appendLabelChange (targetId label : JsString)

/-- What happens to the session, and what the driver tells others. -/
inductive Note (σ : Type) where
  /-- Foreign code changes the session. -/
  | changed (session : σ)
  /-- The driver changes it, with the session after that. -/
  | called (call : Call) (session : σ)
  | sessionBeforeTree (preparation : Preparation)
  | generate (entries : List Value) (customInstructions replaceInstructions : Value)
  | entryAppended (entry : Option Value)
  | sessionTree (newLeafId oldLeafId : Option JsString) (summaryEntry : Option Value) (fromExtension : Option Bool)

/-- The variables of a call, with the session and what was noted, the latest first. -/
structure State (σ : Type) where
  session : σ
  /-- The session when the call began. -/
  snapshot : σ
  options : Options
  aborted : Bool
  streams : List Stream
  stock : Stock
  committed : Bool
  outcome : Option (Option JsString × Option Value)
  stage : Stage
  log : List (Note σ)

/-- How an await settles. -/
inductive Reply where
  | done
  | answered (result : Value)
  /-- The stock summary. -/
  | generated (result : Value)
  | throws (failure : Failure)

inductive Event (σ : Type) where
  | reply (reply : Reply)
  /-- Foreign code changes the session. -/
  | change (session : σ)
  | abort
  /-- The stock service calls `streamFn`, and `streamSimple` may throw. -/
  | request (thrown : Option Failure)
  /-- The result of a stream settles. -/
  | finish (index : ℕ) (failed : Bool)

variable {σ : Type} (m : Manager σ)

namespace State

def note (s : State σ) (item : Note σ) : State σ := { s with log := item :: s.log }

def at_ (s : State σ) (stage : Stage) : State σ := { s with stage }

/-- The `finally` block begins. -/
def release (s : State σ) (outcome : Outcome) : State σ := s.at_ (.releasing outcome s.streams.length)

def haveEnded (s : State σ) (awaited : ℕ) : Bool := (s.streams.take awaited).all (· ≠ .running)

def sameSnapshot (s : State σ) : Except Failure Unit :=
  if s.aborted then .error (actorNavigationError "ERR_NAVIGATION_ABORTED")
  else check (m.isIdle s.session ∧ m.serviceMutation s.session ∧ m.sessionId s.session = m.sessionId s.snapshot
    ∧ m.leafId s.session = m.leafId s.snapshot
    ∧ Value.equal (.arr (m.entries s.session)) (.arr (m.entries s.snapshot))) "ERR_NAVIGATION_STALE_SNAPSHOT"

/-- The `catch` block. -/
def caught (s : State σ) (failure : Failure) : State σ :=
  if s.committed then s.release (.committed failure s.outcome)
  else if s.aborted || failure.code = some (js "ERR_NAVIGATION_ABORTED") then s.release (.cancelled true)
  else s.release (.thrown failure)

/-- The state after a computation that may throw. -/
def attempt {α : Type} (s : State σ) (x : Except Failure α) (next : α → State σ) : State σ :=
  match x with
  | .ok a => next a
  | .error failure => s.caught failure

def called (s : State σ) (call : Call) (session : σ) : State σ := { s with session }.note (.called call session)

/-- `manager.branchWithSummary(...)`, or the move of the leaf alone: the state after it, and the id of the summary. -/
def move (s : State σ) (plan : Plan) : Except Failure (Option JsString × State σ) :=
  match plan.summary.filter (·.summary ≠ []) with
  | some summary => do
    let (id, session) ← m.branchWithSummary s.session plan.prepared.newLeafId summary plan.fromExtension
    pure (some id, s.called (.branchWithSummary plan.prepared.newLeafId summary plan.fromExtension) session)
  | none =>
    if plan.prepared.newLeafId = .null then do
      let session ← m.resetLeaf s.session
      pure (none, s.called .resetLeaf session)
    else do
      let session ← m.branch s.session plan.prepared.newLeafId
      pure (none, s.called (.branch plan.prepared.newLeafId) session)

def emitTree (s : State σ) (done : Transition) : State σ :=
  (s.note (.sessionTree (m.leafId s.session) (m.leafId s.snapshot) done.summaryEntry
    (done.summaryEntry.map fun _ => done.fromExtension))).at_ (.emitting done)

/-- The next publication of an appended entry. -/
def record (s : State σ) (done : Transition) : List (Option Value) → State σ
  | [] => s.emitTree m done
  | entry :: rest => (s.note (.entryAppended entry)).at_ (.recording done rest)

/-- After the session has changed: the context is made anew, and the entries are published. -/
def conclude (s : State σ) (plan : Plan) (summaryEntry : Option Value) (appended : List (Option Value)) : State σ :=
  s.attempt (m.refreshCanonicalSessionContext s.session) fun _ =>
    { s with outcome := some (plan.prepared.editorText, summaryEntry) }.record m
      ⟨plan.prepared.editorText, summaryEntry, plan.fromExtension⟩ appended

/-- `summaryEntry?.id ?? targetId`, with the id that `getEntry` finds in the entry. -/
def labelTarget (plan : Plan) (summaryEntry : Option Value) : JsString :=
  match summaryEntry.bind fun entry => if (entry.get (js "id")).isNullish then none else some (entry.get (js "id")).units with
  | some id => id
  | none => plan.prepared.preparation.targetId

def label (s : State σ) (plan : Plan) (summaryEntry : Option Value) (appended : List (Option Value)) : State σ :=
  if plan.effective.label.truthy then
    let target := labelTarget plan summaryEntry
    s.attempt (m.appendLabelChange s.session target plan.effective.label.units) fun (id, session) =>
      (s.called (.appendLabelChange target plan.effective.label.units) session).conclude m plan summaryEntry
        (appended ++ [m.getEntry session id])
  else s.conclude m plan summaryEntry appended

/-- From the last comparison with the snapshot to the first publication, without an await. -/
def commit (s : State σ) (plan : Plan) : State σ :=
  s.attempt (do s.sameSnapshot m; s.move m plan) fun (id, moved) =>
    let moved := { moved with committed := true }
    match id with
    | some id => moved.label m plan (m.getEntry moved.session id) [m.getEntry moved.session id]
    | none => moved.label m plan none []

/-- `await Promise.all(streams)`. -/
def collect (s : State σ) (plan : Plan) : State σ := s.at_ (.collecting plan s.streams.length)

def collected (s : State σ) (plan : Plan) (awaited : ℕ) : State σ :=
  if (s.streams.take awaited).any (· = .ended true) then s.caught (actorNavigationError "ERR_NAVIGATION_STREAM_FAILED")
  else s.commit m plan

/-- `checkedOptions({ ...options, ... })`, with what the extensions change. -/
def effectiveOptions (options : Options) (result : Value) : Except Failure Options :=
  let given (key : String) (value : Value) : Value := if result.get (js key) = .undefined then value else result.get (js key)
  Options.checked {
    summarize := options.summarize
    customInstructions := given "customInstructions" options.customInstructions
    replaceInstructions := given "replaceInstructions" options.replaceInstructions
    label := given "label" options.label }

def answered (s : State σ) (prepared : Prepared) (result : Value) : State σ :=
  s.attempt (s.sameSnapshot m) fun _ =>
    if (result.get (js "cancel")).truthy then s.release (.cancelled false)
    else s.attempt (effectiveOptions s.options result) fun effective =>
      if s.options.summarize.truthy ∧ (result.get (js "summary")).truthy then
        s.attempt (checkedResult (result.get (js "summary"))) fun summary => s.collect ⟨prepared, effective, some summary, true⟩
      else if s.options.summarize.truthy ∧ prepared.preparation.entriesToSummarize ≠ [] then
        ({ s with stock := .pending }.note (.generate prepared.preparation.entriesToSummarize effective.customInstructions
          effective.replaceInstructions)).at_ (.summarizing prepared effective)
      else s.collect ⟨prepared, effective, none, false⟩

/-- After the stock summary. -/
def generated (s : State σ) (prepared : Prepared) (effective : Options) (result : Value) : State σ :=
  if (result.get (js "aborted")).truthy then s.release (.cancelled true)
  else if (result.get (js "error")).truthy then
    s.caught ⟨some (js "ERR_NAVIGATION_SUMMARY"), (result.get (js "error")).units⟩
  else
    s.attempt (checkedResult (.record [
      ("summary", result.get (js "summary")),
      ("usage", result.get (js "usage")),
      ("details", .record [
        ("readFiles", (result.get (js "readFiles")).orElse (.arr [])),
        ("modifiedFiles", (result.get (js "modifiedFiles")).orElse (.arr []))])])) fun summary =>
      s.collect ⟨prepared, effective, some summary, false⟩

def rejected (s : State σ) (failure : Failure) : State σ :=
  match s.stage with
  | .collecting _ _ | .releasing _ _ | .ended _ => s
  | .summarizing _ _ => { s with stock := .settled }.caught failure
  | _ => s.caught failure

/-- An await settles. -/
def resume (s : State σ) : Reply → State σ
  | .throws failure => s.rejected failure
  | .answered result =>
    match s.stage with
    | .asking prepared => s.answered m prepared result
    | _ => s
  | .generated result =>
    match s.stage with
    | .summarizing prepared effective => { s with stock := .settled }.generated prepared effective result
    | _ => s
  | .done =>
    match s.stage with
    | .collecting plan awaited => if s.haveEnded awaited then s.collected m plan awaited else s
    | .recording done rest => s.record m done rest
    | .emitting done => s.at_ (.concluding done)
    | .concluding done => s.release (.navigated done.editorText done.summaryEntry)
    | .releasing outcome awaited => if s.haveEnded awaited then s.at_ (.ended outcome) else s
    | _ => s

/-- `streamFn(...)`. -/
def request (s : State σ) (thrown : Option Failure) : State σ :=
  match s.sameSnapshot m, thrown with
  | .ok _, none => { s with streams := s.streams ++ [.running] }
  | _, _ => s

def step (s : State σ) : Event σ → State σ
  | .reply reply => s.resume m reply
  | .change session => { s with session }.note (.changed session)
  | .abort => { s with aborted := true }
  | .request thrown => if s.stock = .unasked then s else s.request m thrown
  | .finish i failed => if s.streams[i]? = some .running then { s with streams := s.streams.set i (.ended failed) } else s

/-- The `try` block up to its first await. -/
def begin_ (s : State σ) (targetId : Value) : State σ :=
  s.attempt (do s.sameSnapshot m; prepareActorNavigation m s.session targetId s.options) fun
    | none => s.release .unmoved
    | some prepared =>
      s.attempt (if s.options.summarize.truthy then check (m.hasModel s.session) "ERR_NAVIGATION_MODEL" else .ok ()) fun _ =>
        (s.note (.sessionBeforeTree prepared.preparation)).at_ (.asking prepared)

/-- A call of the driver; `owned` says that its coordinator is that of the session. -/
def call (session : σ) (owned aborted : Bool) (targetId options : Value) : State σ :=
  let start (options : Options) (stage : Stage) : State σ :=
    { session, snapshot := session, options, aborted, streams := [], stock := .unasked, committed := false, outcome := none,
      stage, log := [] }
  let none_ : Options := ⟨.undefined, .undefined, .undefined, .undefined⟩
  match (do check (owned ∧ m.serviceMutation session) "ERR_NAVIGATION_OWNER"; checkedOptions options) with
  | .error failure => start none_ (.ended (.thrown failure))
  | .ok options => (start options (.releasing .unmoved 0)).begin_ m targetId

def run (s : State σ) (events : List (Event σ)) : State σ := events.foldl (step m) s

end State

end Driver

end PersistentHarness.Navigation
