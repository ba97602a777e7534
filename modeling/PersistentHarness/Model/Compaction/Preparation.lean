import PersistentHarness.Data.Text

/-! # Preparing a compaction

`prepareActorCompaction` takes the stock preparation of a compaction and moves its cut back where a native async call would
lose its result: the kept range must begin early enough that no call before it waits for a result in it.
-/

namespace PersistentHarness.Compaction

inductive Role where
  | system
  | user
  | assistant
  | toolResult
  | other
deriving DecidableEq, Repr

inductive Block where
  | toolCall (id : JsString) (isAsync : Bool)
  | other (text : JsString)
deriving DecidableEq

structure Message where
  role : Role
  /-- `toolCallId` of a tool result. -/
  toolCallId : JsString
  content : List Block
deriving DecidableEq

/-- An entry of the projected context. The summary is that of a compaction. -/
structure Entry where
  id : Option JsString
  isCompaction : Bool
  messages : List Message
  summary : Option JsString
deriving DecidableEq

/-- The stock preparation of a compaction. -/
structure Preparation where
  firstKeptEntryId : JsString
  previousSummary : Option JsString
  messagesToSummarize : List Message
  turnPrefixMessages : List Message
  isSplitTurn : Bool
  tokensBefore : ℕ
deriving DecidableEq

/-- The pure functions of the SDK. -/
structure Sdk where
  convertToLlm : List Message → List Message
  estimateTokens : Message → ℕ

/-- A call whose result is outstanding. -/
structure Outstanding where
  messageEntryId : JsString
  retainedInContext : Bool
deriving DecidableEq

/-- `NATIVE_CALL_RETAINED`. -/
structure Diagnostic where
  toolCallId : JsString
  messageEntryId : Option JsString
deriving DecidableEq

inductive Code where
  | staleSnapshot
  | pendingAlreadyPruned
  | keptAnchor
deriving DecidableEq, Repr

/-- What the awaited services of the session gave: the outstanding calls, the stock preparation, the projected entries, and
whether the session is idle and its snapshot current. -/
structure View where
  outstanding : List Outstanding
  stock : Option Preparation
  projected : List Entry
  current : Bool

structure Prepared where
  outstanding : List Outstanding
  preparation : Option Preparation
  diagnostics : List Diagnostic
deriving DecidableEq

/-- `prepareManualRefreshGroups`: a manual refresh replaces only the current summary. -/
def prepareManualRefresh (sdk : Sdk) (entries : List Entry) : Option Preparation :=
  match entries with
  | previous :: anchor :: _ =>
    match previous.summary, anchor.id with
    | some summary, some anchorId =>
      if previous.isCompaction && JsString.trim summary ≠ [] && anchorId ≠ [] then
        some {
          firstKeptEntryId := anchorId
          previousSummary := some summary
          messagesToSummarize := []
          turnPrefixMessages := []
          isSplitTurn := false
          tokensBefore := ((entries.flatMap Entry.messages).map sdk.estimateTokens).sum }
      else none
    | _, _ => none
  | _ => none

/-- `sdk.convertToLlm(entry.messages).some(message => message.role === "user")`. -/
def givesUser (sdk : Sdk) (entry : Entry) : Bool := (sdk.convertToLlm entry.messages).any (·.role = .user)

def asyncCalls (entry : Entry) : List JsString :=
  (entry.messages.filter (·.role = .assistant)).flatMap fun message =>
    message.content.filterMap fun
      | .toolCall id true => some id
      | _ => none

def resultsOf (entry : Entry) : List JsString :=
  (entry.messages.filter (·.role = .toolResult)).map Message.toolCallId

/-- `results`: where the last result of a call is, counted from a position on. -/
def resultsFrom (position : ℕ) : List Entry → JsString → Option ℕ
  | [], _ => none
  | entry :: rest, id =>
    (resultsFrom (position + 1) rest id).or (if id ∈ resultsOf entry then some position else none)

def results (projected : List Entry) (id : JsString) : Option ℕ := resultsFrom 0 projected id

/-- `!results.has(call.id) || results.get(call.id) >= cut`. -/
def waits (projected : List Entry) (cut : ℕ) (id : JsString) : Bool :=
  match results projected id with
  | none => true
  | some position => cut ≤ position

/-- `while (turn > start && !user(turn)) turn--`. -/
def turnOf (sdk : Sdk) (projected : List Entry) (start : ℕ) : ℕ → ℕ
  | 0 => 0
  | turn + 1 =>
    if start < turn + 1 ∧ ¬(projected[turn + 1]?.any (givesUser sdk)) then turnOf sdk projected start turn else turn + 1

/-- The variables of the loop. -/
structure Cut where
  cut : ℕ
  diagnostics : List Diagnostic

/-- One turn of the loop. -/
def examine (sdk : Sdk) (projected : List Entry) (start index : ℕ) (s : Cut) : Cut :=
  match projected[index]? with
  | none => s
  | some entry =>
    if (asyncCalls entry).any (waits projected s.cut) then
      { cut := min s.cut (turnOf sdk projected start index)
        diagnostics := s.diagnostics ++ (asyncCalls entry).map fun id => ⟨id, entry.id⟩ }
    else s

/-- `for (let index = cut - 1; index >= start; index--)`, from the index below the first argument. -/
def retain (sdk : Sdk) (projected : List Entry) (start : ℕ) : ℕ → Cut → Cut
  | 0, s => s
  | index + 1, s => if start ≤ index then retain sdk projected start index (examine sdk projected start index s) else s

/-- `previous + 1`. -/
def startOf (projected : List Entry) : ℕ :=
  match projected.findIdx? fun entry => entry.isCompaction && !entry.messages.isEmpty with
  | some previous => previous + 1
  | none => 0

/-- The messages of the entries in a range, without compactions and system messages. -/
def messagesBetween (projected : List Entry) (start cut : ℕ) : List Message :=
  (((projected.take cut).drop start).filter (!·.isCompaction)).flatMap fun entry => entry.messages.filter (·.role ≠ .system)

/-- The end of `prepareActorCompaction`, for a preparation. -/
def selectCut (sdk : Sdk) (view : View) (preparation : Preparation) : Except Code Prepared :=
  let start := startOf view.projected
  match view.projected.findIdx? (·.id = some preparation.firstKeptEntryId) with
  | none => .error .keptAnchor
  | some originalCut =>
    if originalCut < start then .error .keptAnchor
    else
      let s := retain sdk view.projected start originalCut ⟨originalCut, []⟩
      if s.cut = originalCut then .ok ⟨view.outstanding, some preparation, s.diagnostics⟩
      else
        match view.projected[s.cut]?.bind Entry.id with
        | none => .error .keptAnchor
        | some id =>
          let messages := messagesBetween view.projected start s.cut
          if messages.isEmpty then .ok ⟨view.outstanding, none, s.diagnostics⟩
          else
            let moved := { preparation with
              firstKeptEntryId := id
              messagesToSummarize := messages
              turnPrefixMessages := []
              isSplitTurn := false }
            .ok ⟨view.outstanding, some moved, s.diagnostics⟩

/-- The preparation that the cut is selected for: the stock one, or that of a manual refresh. -/
def stockPreparation (sdk : Sdk) (manual : Bool) (view : View) : Option Preparation :=
  view.stock.or (if manual then prepareManualRefresh sdk view.projected else none)

def prepareActorCompaction (sdk : Sdk) (manual : Bool) (view : View) : Except Code Prepared :=
  if !view.current then .error .staleSnapshot
  else if !view.outstanding.all (·.retainedInContext) then .error .pendingAlreadyPruned
  else
    match stockPreparation sdk manual view with
    | none => .ok ⟨view.outstanding, none, []⟩
    | some preparation => selectCut sdk view preparation

end PersistentHarness.Compaction
