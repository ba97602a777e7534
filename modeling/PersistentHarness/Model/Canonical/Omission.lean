import PersistentHarness.Model.Canonical.Facts

/-! # Omitting calls that never started

A tool call of a failed response is left out of the model view only on positive evidence, and only
when nothing on the whole branch contradicts it: no result, no other call or result that shares an
id component, no observation that disagrees.
-/

namespace PersistentHarness.Canonical

/-- The record that claims an alias, named by its kind, its entry and its id. -/
structure Owner where
  isCall : Bool
  entryId : Value
  id : JsString
deriving DecidableEq, Repr

/-- What the whole branch says about ids: their owners, their observations and their witnesses. -/
structure AliasFacts where
  aliases : List (JsString × List Owner)
  observedAliases : List (JsString × List (Option JsString))
  nonAdmissions : List JsString
deriving DecidableEq, Repr

/-! ## The alias index -/

/-- The identifiers among the id, its components and the provider ids of a call. -/
def aliasValues (id : JsString) (providerCallId providerItemId : Value) : List JsString :=
  (((id :: JsString.split id separator).map Value.str ++ [providerCallId, providerItemId]).filter
    fun value => identifier value).map Value.units

def callAliasPairs (entry : JsString × CallRecord) : List (JsString × Owner) :=
  (aliasValues entry.1 (entry.2.call.get (js "providerCallId")) (entry.2.call.get (js "providerItemId"))).map
    fun part => (part, ⟨true, entry.2.entryId, entry.1⟩)

def resultAliasPairs (entry : JsString × ResultRecord) : List (JsString × Owner) :=
  (aliasValues entry.1 .undefined .undefined).map fun part => (part, ⟨false, entry.2.entryId, entry.1⟩)

def aliasPairs (canonical : MessageIndex) : List (JsString × Owner) :=
  canonical.calls.flatMap callAliasPairs ++ canonical.results.flatMap resultAliasPairs

/-- The observation lists of a report: its own and those of its attempts. -/
def reportSnapshots (report : Value) : List Value := report :: (report.get (js "attempts")).items

/-- The tuple of a row that saw an incomplete, non-native call. -/
def incompleteTuple (row : Value) : Option JsString :=
  if providerPart (row.get (js "callId")) ∧ providerPart (row.get (js "itemId"))
      ∧ row.get (js "complete") = .bool false ∧ row.get (js "native") = .bool false
  then some (rowTuple row) else none

def rowPairs (row : Value) : List (JsString × Option JsString) :=
  ([row.get (js "callId"), row.get (js "itemId")].filter fun part => identifier part).map
    fun part => (part.units, incompleteTuple row)

def reportRows (report : Value) : List Value :=
  if isRecord report then
    ((reportSnapshots report).filter fun snapshot => isRecord snapshot).flatMap fun snapshot =>
      (snapshot.get (js "observedCalls")).items.filter fun row => isRecord row
  else []

def observedRows (entry : Value) : List Value :=
  if isWord (entry.get (js "type")) "message" ∧ hasRole (messageOf entry) "assistant" then
    reportRows ((messageOf entry).get (js "nativeTransport"))
  else []

def observedPairs (selected : List Value) : List (JsString × Option JsString) :=
  selected.flatMap fun entry => (observedRows entry).flatMap rowPairs

/-- `omissionAliases(canonical, selected)` with the witnesses of the branch. -/
def omissionFacts (sha256 : JsString → JsString) (canonical : MessageIndex) (selected : List Value) :
    Result AliasFacts := do
  let nonAdmissions ← ownedNonAdmissions sha256 selected
  pure ⟨Multimap.addAll [] (aliasPairs canonical), Multimap.addAll [] (observedPairs selected), nonAdmissions⟩

/-- The aliases whose uniqueness an omission needs; transport evidence needs the provider tuple. -/
def omissionCallAliases (id : JsString) (tuple : Option (List JsString)) (owned : Bool) : Option (List JsString) :=
  if owned then
    some (((id :: JsString.split id separator).filter fun part => identifier (.str part)).foldl
      Multimap.insertValue [])
  else tuple

/-- Another owner claims the alias, or an observation of it names another call. -/
def aliasConflict (facts : AliasFacts) (id part : JsString) : Prop :=
  (Multimap.values facts.aliases part).length ≠ 1
    ∨ Assoc.has facts.observedAliases part = true
      ∧ ((Multimap.values facts.observedAliases part).length ≠ 1
        ∨ some id ∉ Multimap.values facts.observedAliases part)

instance (facts : AliasFacts) (id part : JsString) : Decidable (aliasConflict facts id part) :=
  inferInstanceAs (Decidable (_ ∨ _))

/-! ## The omission -/

def identity (record : CallRecord) (retainedInContext : Bool) : CallIdentity where
  toolCallId := record.call.get (js "id")
  toolName := record.call.get (js "name")
  messageEntryId := record.entryId
  contentIndex := record.contentIndex
  retainedInContext

/-- `owned || ordinaryFailedTerminal(record.message)`. -/
def ordinaryEvidence (owned : Bool) (record : CallRecord) : Result Bool :=
  if owned then .ok true else ordinaryFailedTerminal record.message

/-- The record of a call that is left out, or `none` for a block that stays. -/
def omitCall (canonical : MessageIndex) (facts : AliasFacts) (call : Value) : Result (Option CallRecord) :=
  if ¬isToolCall call ∨ call.get (js "async") = .bool true ∨ call.hasOwn (js "nativeProvenance") = true then
    .ok none
  else do
    requireThat ((call.get (js "id")).isString = true) .typeError
    let id := callId call
    let owned := decide (id ∈ facts.nonAdmissions)
    match omissionCallAliases id (providerTuple call) owned with
    | none => pure none
    | some callAliases =>
      if (∃ part ∈ callAliases, aliasConflict facts id part) ∨ Assoc.has canonical.results id = true then pure none
      else
        match Assoc.lookup canonical.calls id with
        | none => .error .typeError
        | some record => do
          let failed ← ordinaryEvidence owned record
          let ordinary := failed && decide (∀ part ∈ callAliases, Assoc.has facts.observedAliases part = false)
          if ordinary = true ∨ id ∈ incompleteObservations (record.message.get (js "nativeTransport"))
          then pure (some record) else pure none

/-- The blocks of a failed response that stay, and the records of the others. -/
def omitBlocks (canonical : MessageIndex) (facts : AliasFacts) : List Value → Result (List Value × List CallRecord)
  | [] => .ok ([], [])
  | block :: rest => do
    let omitted ← omitCall canonical facts block
    let (kept, records) ← omitBlocks canonical facts rest
    match omitted with
    | none => pure (block :: kept, records)
    | some record => pure (kept, record :: records)

/-- A message whose calls may be omitted. -/
def failedAssistant (message : Value) : Prop := hasRole message "assistant" ∧ failedStop message

instance (message : Value) : Decidable (failedAssistant message) := inferInstanceAs (Decidable (_ ∧ _))

def omitMessage (canonical : MessageIndex) (facts : AliasFacts) (message : Value) :
    Result (Value × List CallRecord) :=
  if failedAssistant message then do
    requireThat ((message.get (js "content")).isArray = true) .typeError
    let (kept, records) ← omitBlocks canonical facts (contentOf message)
    pure (message.set (js "content") (.arr kept), records)
  else .ok (message, [])

def omitMessages (canonical : MessageIndex) (facts : AliasFacts) : List Value → Result (List Value × List Diagnostic)
  | [] => .ok ([], [])
  | message :: rest => do
    let (message, records) ← omitMessage canonical facts message
    let (messages, diagnostics) ← omitMessages canonical facts rest
    pure (message :: messages,
      records.map (fun record => .UNADMITTED_CALL_OMITTED (identity record true)) ++ diagnostics)

/-- The messages without the calls that never started, and one diagnostic for each such call. The
facts of a managed index stand in for those of the selected branch. -/
def omitUnadmittedCalls (sha256 : JsString → JsString) (messages : List Value) (canonical : MessageIndex)
    (selected : List Value) (aliasFacts : Option AliasFacts) : Result (List Value × List Diagnostic) := do
  let facts ← match aliasFacts with
    | some facts => pure facts
    | none => omissionFacts sha256 canonical selected
  omitMessages canonical facts messages

/-! ## Replay diagnostics -/

/-- Roles that the stock conversion passes to a model. -/
def replayedRoles : List String :=
  ["user", "assistant", "toolResult", "bashExecution", "custom", "branchSummary", "compactionSummary"]

/-- The calls that no result has answered yet, and the diagnostics so far. -/
structure ReplayState where
  pending : List (JsString × Value)
  diagnostics : List Diagnostic

def flushPending (state : ReplayState) : ReplayState where
  pending := []
  diagnostics := state.diagnostics ++ state.pending.map fun (_, call) =>
    .ORDINARY_REPLAY_BLOCKED (call.get (js "id")) (call.get (js "name"))

/-- One call of a replayed response: a failed response cannot be replayed at all. -/
def replayCall (message : Value) (state : ReplayState) (call : Value) : ReplayState :=
  if isToolCall call then
    if failedStop message then
      { state with diagnostics := state.diagnostics ++
          [.ORDINARY_ASSISTANT_NOT_REPLAYABLE (call.get (js "id")) (call.get (js "name")) (message.get (js "stopReason"))] }
    else { state with pending := Assoc.set state.pending (callId call) call }
  else state

def replayMessage (state : ReplayState) (message : Value) : ReplayState :=
  if hasRole message "bashExecution" ∧ (message.get (js "excludeFromContext")).truthy = true then state
  else if ¬oneOf (message.get (js "role")) replayedRoles then state
  else if hasRole message "toolResult" then { state with pending := Assoc.erase state.pending (resultId message) }
  else
    let state := flushPending state
    if hasRole message "assistant" then (contentOf message).foldl (replayCall message) state else state

def ordinaryDiagnostics (messages : List Value) (diagnostics : List Diagnostic) : List Diagnostic :=
  (flushPending (messages.foldl replayMessage ⟨[], diagnostics⟩)).diagnostics

end PersistentHarness.Canonical

/-! ## The projection of a context

`finishContext` leaves out the calls that never started, names what a cut took away, and in ordinary mode puts the
result of every async call behind the message that issued it.
-/

namespace PersistentHarness.Canonical

inductive Mode where
  | native
  | ordinary
deriving DecidableEq, Repr

structure ProjectedContext where
  messages : List Value
  outstanding : List CallIdentity
  diagnostics : List Diagnostic
deriving DecidableEq, Repr

section Differences

variable (canonical retained : MessageIndex)

/-- Async calls without a result. -/
def outstandingCalls : List CallIdentity :=
  canonical.calls.filterMap fun (id, record) =>
    if record.call.get (js "async") = .bool true ∧ Assoc.has canonical.results id = false then
      some (identity record (Assoc.has retained.calls id))
    else none

/-- Calls that are retained without their result. -/
def prunedResults (mode : Mode) : List Diagnostic :=
  canonical.calls.filterMap fun (id, record) =>
    if Assoc.has retained.calls id = true ∧ Assoc.has canonical.results id = true ∧ Assoc.has retained.results id = false then
      some (.RESULT_PRUNED (if mode = .ordinary then .blocking else .info) (identity record true))
    else none

/-- Results without a call, and results that are retained without it. -/
def prunedCalls : List Diagnostic :=
  canonical.results.filterMap fun (id, record) =>
    if Assoc.has canonical.calls id = false then some (.ORPHAN_RESULT (.str id) record.entryId)
    else if Assoc.has retained.results id = true ∧ Assoc.has retained.calls id = false then
      some (.CALL_PRUNED (.str id) record.entryId)
    else none

/-- The ids of the async calls whose result is retained. -/
def movable : List JsString :=
  (retained.calls.filter fun (id, record) =>
    record.call.get (js "async") = .bool true && Assoc.has retained.results id).map Prod.fst

def projectedResults (message : Value) : List Value :=
  if hasRole message "assistant" then
    (contentOf message).filterMap fun call =>
      if isToolCall call ∧ callId call ∈ movable retained then
        (Assoc.lookup retained.results (callId call)).map ResultRecord.message
      else none
  else []

/-- `projected`. -/
def moveResults (messages : List Value) : List Value :=
  messages.flatMap fun message =>
    if hasRole message "toolResult" ∧ resultId message ∈ movable retained then []
    else message :: projectedResults retained message

end Differences

/-- The last measure of the whole view is left out. -/
def finishContext (sha256 : JsString → JsString) (messages : List Value) (canonical : MessageIndex) (selected : List Value)
    (diagnostics : List Diagnostic) (mode : Mode) (aliasFacts : Option AliasFacts) : Result ProjectedContext := do
  let (messages, omitted) ← omitUnadmittedCalls sha256 messages canonical selected aliasFacts
  let retained ← indexMessages (messages.map fun message => ⟨message, .undefined⟩)
  let outstanding := outstandingCalls canonical retained
  let diagnostics := diagnostics ++ omitted ++ prunedResults canonical retained mode ++ prunedCalls canonical retained
  match mode with
  | .native => pure ⟨messages, outstanding, diagnostics⟩
  | .ordinary =>
    let messages := moveResults retained messages
    pure ⟨messages, outstanding, ordinaryDiagnostics messages diagnostics⟩

end PersistentHarness.Canonical
