import Mathlib.Algebra.Order.Field.Rat
import Mathlib.Data.List.Dedup
import PersistentHarness.Model.Session.Store

/-! # Usage entries and their lifetime summary

Every turn of an actor leaves one row of `usage_entries`. The lifetime summary is loaded from the table once and
kept current by later inserts; it lives in memory and a reopened store has none. Token counts are exact integers
and costs exact rationals. A value of `none` stands for `null`.
-/

namespace PersistentHarness.SessionStore

/-- What an actor reports of a turn. -/
structure Usage where
  entryId : Option JsString
  provider : Option JsString
  model : Option JsString
  input : Option ℤ
  output : Option ℤ
  cacheRead : Option ℤ
  cacheWrite : Option ℤ
  reasoning : Option ℤ
  totalTokens : Option ℤ
  costTotal : Option ℚ
deriving DecidableEq

/-- A row of `usage_entries`; its session and entry are the key. -/
structure UsageEntry where
  provider : JsString
  model : JsString
  inputTokens : ℤ
  outputTokens : ℤ
  cacheReadTokens : ℤ
  cacheWriteTokens : ℤ
  reasoningTokens : Option ℤ
  totalTokens : ℤ
  costTotal : ℚ
  recordedAt : ℤ
deriving DecidableEq

abbrev UsageEntries := Table (JsString × JsString) UsageEntry

/-- A column `INTEGER NOT NULL CHECK (column >= 0)`. -/
def count? (value : Option ℤ) : Option ℤ := value.filter (0 ≤ ·)

/-- The entry and the row of an insert, unless a column constraint makes `OR IGNORE` skip it. -/
def Usage.row? (usage : Usage) (now : ℤ) : Option (JsString × UsageEntry) := do
  let entryId ← usage.entryId
  let provider ← usage.provider
  let model ← usage.model
  let inputTokens ← count? usage.input
  let outputTokens ← count? usage.output
  let cacheReadTokens ← count? usage.cacheRead
  let cacheWriteTokens ← count? usage.cacheWrite
  if usage.reasoning.any (· < 0) then none
  let totalTokens ← count? usage.totalTokens
  let costTotal ← usage.costTotal.filter (0 ≤ ·)
  return (entryId, { provider, model, inputTokens, outputTokens, cacheReadTokens, cacheWriteTokens, totalTokens, costTotal
                     reasoningTokens := usage.reasoning, recordedAt := now })

structure UsageTotals where
  entries : ℕ
  inputTokens : ℤ
  outputTokens : ℤ
  cacheReadTokens : ℤ
  cacheWriteTokens : ℤ
  reasoningTokens : ℤ
  totalTokens : ℤ
  costTotal : ℚ
deriving DecidableEq

structure ModelUsage where
  provider : JsString
  model : JsString
  entries : ℕ
  totalTokens : ℤ
  costTotal : ℚ
deriving DecidableEq

structure UsageSummary where
  totals : UsageTotals
  models : List (JsString × ModelUsage)
deriving DecidableEq

/-- The usage half of the store: the table, and the summary in memory once it is loaded. -/
structure UsageStore where
  usageEntries : UsageEntries
  usageSummary : Option UsageSummary

/-- `JSON.stringify([provider, model])`. -/
def modelKey (provider model : JsString) : JsString := Json.stringify (.arr [.str provider, .str model])

/-! ## Loading the summary -/

/-- The order in which the database returns the rows of a query that names none. -/
structure Arrangement where
  arrange : List ModelUsage → List ModelUsage
  perm : ∀ rows, (arrange rows).Perm rows

def usageTotals (rows : List UsageEntry) : UsageTotals where
  entries := rows.length
  inputTokens := (rows.map (·.inputTokens)).sum
  outputTokens := (rows.map (·.outputTokens)).sum
  cacheReadTokens := (rows.map (·.cacheReadTokens)).sum
  cacheWriteTokens := (rows.map (·.cacheWriteTokens)).sum
  -- `sum` passes over the entries whose column is null
  reasoningTokens := (rows.filterMap (·.reasoningTokens)).sum
  totalTokens := (rows.map (·.totalTokens)).sum
  costTotal := (rows.map (·.costTotal)).sum

def groupRow (rows : List UsageEntry) (provider model : JsString) : ModelUsage :=
  let group := rows.filter fun row => row.provider = provider ∧ row.model = model
  { provider, model
    entries := group.length
    totalTokens := (group.map (·.totalTokens)).sum
    costTotal := (group.map (·.costTotal)).sum }

/-- `GROUP BY provider, model`: one row for every pair that occurs. -/
def groupRows (rows : List UsageEntry) : List ModelUsage :=
  (rows.map fun row => (row.provider, row.model)).dedup.map fun pair => groupRow rows pair.1 pair.2

def UsageEntries.all (entries : UsageEntries) : List UsageEntry := entries.rows.map Prod.snd

def loadUsageSummary (arrangement : Arrangement) (entries : UsageEntries) : UsageSummary where
  totals := usageTotals entries.all
  models := (arrangement.arrange (groupRows entries.all)).foldl
    (fun models row => Assoc.set models (modelKey row.provider row.model) row) []

/-! ## Keeping the summary current -/

/-- `Number(field ?? 0)`. -/
def fieldValue {α : Type} [Zero α] (field : Option α) : α := field.getD 0

def UsageTotals.add (totals : UsageTotals) (usage : Usage) : UsageTotals where
  entries := totals.entries + 1
  inputTokens := totals.inputTokens + fieldValue usage.input
  outputTokens := totals.outputTokens + fieldValue usage.output
  cacheReadTokens := totals.cacheReadTokens + fieldValue usage.cacheRead
  cacheWriteTokens := totals.cacheWriteTokens + fieldValue usage.cacheWrite
  reasoningTokens := totals.reasoningTokens + fieldValue usage.reasoning
  totalTokens := totals.totalTokens + fieldValue usage.totalTokens
  costTotal := totals.costTotal + fieldValue usage.costTotal

/-- A model is named by strings whenever its entry was recorded, so a missing name is never read here. -/
def addUsage (summary : UsageSummary) (usage : Usage) : UsageSummary :=
  let provider := usage.provider.getD []
  let model := usage.model.getD []
  let key := modelKey provider model
  let row := (Assoc.lookup summary.models key).getD ⟨provider, model, 0, 0, 0⟩
  { totals := summary.totals.add usage
    models := Assoc.set summary.models key
      { row with
        entries := row.entries + 1
        totalTokens := row.totalTokens + fieldValue usage.totalTokens
        costTotal := row.costTotal + fieldValue usage.costTotal } }

/-- Insert a row unless a constraint refuses it, and say whether a row changed. -/
def insertUsage (entries : UsageEntries) (sessionId : JsString) (usage : Usage) (now : ℤ) : UsageEntries × Bool :=
  match (usage.row? now).bind fun row => entries.insert? (sessionId, row.1) row.2 with
  | some inserted => (inserted, true)
  | none => (entries, false)

/-- Record the usage of a turn, and reply whether it was recorded. -/
def recordUsage (store : UsageStore) (sessions : Sessions) (sessionId : JsString) (usage : Usage) (now : ℤ) :
    Result (UsageStore × Bool) := do
  Checked.require ((sessions.get? sessionId).isSome = true) (.error "session does not exist")
  let result := insertUsage store.usageEntries sessionId usage now
  return ({ usageEntries := result.1
            usageSummary := if result.2 then store.usageSummary.map (addUsage · usage) else store.usageSummary }, result.2)

/-! ## Reading the summary -/

def order (a b : JsString) : ℤ := if Value.keyLt a b then -1 else if Value.keyLt b a then 1 else 0

/-- The comparator of the models: the most tokens first, then by provider and model. -/
def modelOrder (a b : ModelUsage) : ℤ :=
  if b.totalTokens - a.totalTokens ≠ 0 then b.totalTokens - a.totalTokens
  else if order a.provider b.provider ≠ 0 then order a.provider b.provider
  else order a.model b.model

structure UsageReport where
  totals : UsageTotals
  byModel : List ModelUsage
deriving DecidableEq

/-- What a summary shows: its totals and the first 64 models. -/
def UsageSummary.report (summary : UsageSummary) : UsageReport where
  totals := summary.totals
  byModel := ((summary.models.map Prod.snd).mergeSort fun a b => modelOrder a b ≤ 0).take 64

def getUsageSummary (arrangement : Arrangement) (store : UsageStore) : UsageStore × UsageReport :=
  let summary := store.usageSummary.getD (loadUsageSummary arrangement store.usageEntries)
  ({ store with usageSummary := some summary }, summary.report)

/-! ## Runs -/

/-- A call on the store, with the sessions it finds, or a restart of the process. -/
inductive UsageCall where
  | recordUsage (sessions : Sessions) (sessionId : JsString) (usage : Usage) (now : ℤ)
  | getUsageSummary (arrangement : Arrangement)
  | reopen

/-- A call that throws leaves the store as it was. -/
def UsageStore.step (store : UsageStore) : UsageCall → UsageStore
  | .recordUsage sessions sessionId usage now =>
    match SessionStore.recordUsage store sessions sessionId usage now with
    | .ok (next, _) => next
    | .error _ => store
  | .getUsageSummary arrangement => (SessionStore.getUsageSummary arrangement store).1
  | .reopen => { store with usageSummary := none }

def UsageStore.run (store : UsageStore) (calls : List UsageCall) : UsageStore := calls.foldl UsageStore.step store

end PersistentHarness.SessionStore

/-! ## The navigator's bounded choice of sessions

The navigator shows at most `limit` sessions. Candidates come from two bounded queries, their ancestors from a
third, and the chain of a candidate joins as a whole or not at all. The comparison of `localeCompare` is a parameter.
-/

namespace PersistentHarness.SessionStore

def maxNavigatorSessions : ℕ := 512

abbrev SessionEntry := JsString × Session

namespace Navigator

/-- The distinct nonempty ids that are preferred, up to the limit. -/
def preferredIds (limit : ℕ) (preferredSessionIds : List Value) : List JsString :=
  (preferredSessionIds.filterMap Value.nonempty?).eraseDups.take limit

/-- An input, an unfinished task or a message waits for the session. -/
def hasPendingWork (s : Store) (id : JsString) : Bool :=
  s.inputs.any (fun _ input => input.sessionId = id) || s.tasks.any (fun _ task => task.childId = id ∧ task.unfinished = true)
    || s.messages.any fun _ message => message.targetId = id ∧ (message.state = .queued ∨ message.state = .delivered)

def navigatorRank (s : Store) (preferred : List JsString) (entry : SessionEntry) : ℕ :=
  if entry.1 ∈ preferred then 0
  else if entry.2.activity = .working then 1
  else if entry.2.activity = .delegating then 2
  else if entry.2.lifecycle = .starting then 3
  else if hasPendingWork s entry.1 then 4
  else if entry.2.lifecycle = .resident then 5
  else 6

/-- `ORDER BY … LIMIT …`. -/
def ordered (rows : List SessionEntry) (le : SessionEntry → SessionEntry → Bool) (limit : ℕ) : List SessionEntry :=
  (rows.insertionSort fun a b => le a b = true).take limit

def liveRows (sessions : Sessions) : List SessionEntry := sessions.rows.filter fun entry => !entry.2.deleted

/-- `created_at DESC, id DESC`. -/
def newerFirst (a b : SessionEntry) : Bool :=
  b.2.createdAt < a.2.createdAt ∨ a.2.createdAt = b.2.createdAt ∧ b.1.le a.1 = true

/-- `navigator_rank, updated_at DESC, created_at DESC, id DESC`. -/
def priorityFirst (rank : SessionEntry → ℕ) (a b : SessionEntry) : Bool :=
  rank a < rank b ∨ rank a = rank b ∧
    (b.2.updatedAt < a.2.updatedAt ∨ a.2.updatedAt = b.2.updatedAt ∧ newerFirst a b = true)

/-- `depth, created_at, id`. -/
def higherFirst (a b : SessionEntry) : Bool :=
  a.2.depth < b.2.depth ∨ a.2.depth = b.2.depth ∧
    (a.2.createdAt < b.2.createdAt ∨ a.2.createdAt = b.2.createdAt ∧ a.1.le b.1 = true)

/-! ## The three queries -/

def priorityRows (s : Store) (preferred : List JsString) (limit : ℕ) : List SessionEntry :=
  ordered ((liveRows s.sessions).filter fun entry => entry.1 ∈ preferred
      ∨ entry.2.activity = .working ∨ entry.2.activity = .delegating
      ∨ entry.2.lifecycle = .starting ∨ entry.2.lifecycle = .resident ∨ hasPendingWork s entry.1 = true)
    (priorityFirst (navigatorRank s preferred)) limit

def newestRows (sessions : Sessions) (limit : ℕ) : List SessionEntry := ordered (liveRows sessions) newerFirst limit

/-- The parent chain of a session, tombstones included, as far as so many hops reach. -/
def parentIds (sessions : Sessions) : ℕ → JsString → List JsString
  | 0, _ => []
  | hops + 1, id =>
    match (sessions.get? id).bind Session.parentSessionId with
    | none => []
    | some parent => parent :: parentIds sessions hops parent

/-- The live sessions on the parent chains of the candidates. -/
def ancestorRows (sessions : Sessions) (candidates : List SessionEntry) : List SessionEntry :=
  let ids := candidates.flatMap fun candidate => parentIds sessions maxAncestorDepth candidate.1
  (liveRows sessions).filter fun entry => entry.1 ∈ ids

def contextRows (sessions : Sessions) (candidates : List SessionEntry) (limit : ℕ) : List SessionEntry :=
  ordered (ancestorRows sessions candidates) higherFirst (limit * maxAncestorDepth)

/-! ## The choice -/

/-- Add rows to a map, unless their ids are there. -/
def addRows (byId : Sessions) (rows : List SessionEntry) : Sessions :=
  rows.foldl (fun byId row => byId.insertOrIgnore row.1 row.2) byId

/-- A row below its ancestors in the map, the topmost first: at most so many rows, and none twice. -/
def chain (byId : Sessions) : ℕ → List JsString → SessionEntry → List SessionEntry
  | 0, _, _ => []
  | room + 1, seen, row =>
    if row.1 ∈ seen then []
    else
      (match row.2.ancestor with
        | none => []
        | some parent =>
          match byId.get? parent with
          | none => []
          | some above => chain byId room (row.1 :: seen) (parent, above)) ++ [row]

def missingIds (byId : Sessions) (selected : List JsString) (candidate : SessionEntry) : List JsString :=
  ((chain byId (maxAncestorDepth + 1) [] candidate).map Prod.fst).filter (· ∉ selected)

/-- Add the chains that fit, candidate by candidate, until the limit is reached. -/
def selectIds (byId : Sessions) (limit : ℕ) : List SessionEntry → List JsString → List JsString
  | [], selected => selected
  | candidate :: rest, selected =>
    let missing := missingIds byId selected candidate
    let next := if selected.length + missing.length ≤ limit then selected ++ missing else selected
    if next.length = limit then next else selectIds byId limit rest next

/-- How often a session is an ancestor of a working one, among the working sessions updated last. -/
def workingCount (sessions : Sessions) (limit : ℕ) (id : JsString) : ℕ :=
  let latest := fun (a b : SessionEntry) =>
    decide (b.2.updatedAt < a.2.updatedAt ∨ a.2.updatedAt = b.2.updatedAt ∧ a.1.le b.1 = true)
  let working := ordered ((liveRows sessions).filter fun entry => entry.2.activity = .working) latest limit
  working.countP fun entry => id ∈ parentIds sessions maxAncestorDepth entry.1

end Navigator

open Navigator

/-- What `listNavigatorSessions` read on its way. -/
structure NavigatorWork where
  queryCount : ℕ
  priorityRows : ℕ
  newestRows : ℕ
  candidateRows : ℕ
  contextRows : ℕ
  mappedRows : ℕ
  newestReserve : ℕ
deriving DecidableEq, Repr

structure NavigatorList where
  sessions : List SessionView
  total : ℕ
  truncated : Bool
  work : NavigatorWork
deriving DecidableEq, Repr

/-- The candidates of both queries, each session once. -/
def navigatorCandidates (s : Store) (limit : ℕ) (preferred : List JsString) : Sessions :=
  addRows .empty (priorityRows s preferred limit ++ newestRows s.sessions limit)

/-- The rows in hand: the candidates and the context. -/
def navigatorRows (s : Store) (limit : ℕ) (preferred : List JsString) : Sessions :=
  let candidates := navigatorCandidates s limit preferred
  addRows candidates (contextRows s.sessions candidates.rows limit)

/-- A share of the newest sessions first, then by priority, then the other newest. -/
def orderedCandidates (s : Store) (limit : ℕ) (preferred : List JsString) : List SessionEntry :=
  let newest := newestRows s.sessions limit
  (addRows .empty (newest.take (max 1 (limit / 8)) ++ priorityRows s preferred limit ++ newest)).rows

def navigatorSelection (s : Store) (limit : ℕ) (preferred : List JsString) : List JsString :=
  selectIds (navigatorRows s limit preferred) limit (orderedCandidates s limit preferred) []

def selectedRows (localeCompare : JsString → JsString → ℤ) (byId : Sessions) (selected : List JsString) : List SessionEntry :=
  (selected.filterMap fun id => (byId.get? id).map fun row => (id, row)).insertionSort fun a b =>
    (if a.2.createdAt - b.2.createdAt ≠ 0 then a.2.createdAt - b.2.createdAt else localeCompare a.1 b.1) ≤ 0

/-- A session as the navigator shows it, from the rows in hand. -/
def navigatorView (sessions byId : Sessions) (limit : ℕ) (entry : SessionEntry) : Option SessionView :=
  (mappedSession sessions entry.1).map fun view =>
    { view with
      launch := publicLaunch entry.2.launch (resolveFastModePreference byId entry.1)
      workingDescendantCount := workingCount sessions limit entry.1
      lineage := List.intercalate (js "/") ((chain byId (maxAncestorDepth + 1) [] entry).map (·.2.displayName)) }

def listNavigatorSessions (localeCompare : JsString → JsString → ℤ) (s : Store) (limit : ℤ)
    (preferredSessionIds : List Value) : Result NavigatorList := do
  Checked.require (1 ≤ limit ∧ limit ≤ maxNavigatorSessions) (.error "navigator limit must be from 1 through 512")
  let limit := limit.toNat
  let preferred := preferredIds limit preferredSessionIds
  let total := s.sessions.count fun _ row => !row.deleted
  if total = 0 then return ⟨[], 0, false, ⟨1, 0, 0, 0, 0, 0, 0⟩⟩
  let candidates := navigatorCandidates s limit preferred
  let byId := navigatorRows s limit preferred
  let sessions := (selectedRows localeCompare byId (navigatorSelection s limit preferred)).filterMap
    (navigatorView s.sessions byId limit)
  return {
    sessions, total, truncated := sessions.length < total
    work := {
      queryCount := 5, priorityRows := (priorityRows s preferred limit).length
      newestRows := (newestRows s.sessions limit).length, candidateRows := candidates.rows.length
      contextRows := (contextRows s.sessions candidates.rows limit).length
      mappedRows := sessions.length, newestReserve := max 1 (limit / 8) } }

end PersistentHarness.SessionStore
