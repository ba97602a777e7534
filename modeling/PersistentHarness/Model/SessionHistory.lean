import PersistentHarness.Data.Utf8
import PersistentHarness.Lib.Checked
import PersistentHarness.Lib.Table

/-! # The session history index

The index holds one row for each visible message of a session, numbered along its active branch, and no text. A publication
replaces the rows of one session in one transaction. `open` shows a message with its neighbours under one budget of code
points; the messages are read from the canonical transcript, checked against the hashes of the rows. The hash is a parameter,
and so is what the transcript reader returns.
-/

namespace PersistentHarness.SessionHistory

open JsString (codePoints)

section CodePoints

/-- How many code points a text has. -/
def charLength (value : JsString) : ℕ := (codePoints value).length

structure BoundedText where
  text : JsString
  truncated : Bool
deriving DecidableEq

def truncatePrefix (value : JsString) (maximum : ℕ) : BoundedText :=
  let chars := codePoints value
  if chars.length ≤ maximum then ⟨chars.flatten, false⟩
  else if maximum = 0 then ⟨[], true⟩
  else if maximum = 1 then ⟨[0x2026], true⟩
  else ⟨(chars.take (maximum - 1)).flatten ++ [0x2026], true⟩

end CodePoints

section Index

/-- A message of the canonical transcript, with its searchable text. -/
structure HistoryMessage where
  id : JsString
  role : JsString
  createdAt : Option JsString
  text : JsString
deriving DecidableEq

/-- A row of `documents`; its key is the session with the entry. -/
structure Document where
  role : JsString
  createdAt : JsString
  ordinal : ℕ
  textHash : JsString
deriving DecidableEq

structure Session where
  sessionId : JsString
  sessionFile : JsString
  sanitizePresentation : Bool
deriving DecidableEq

/-- The committed tables. -/
structure Index where
  sources : List (JsString × Session)
  documents : Table (JsString × JsString) Document

def Index.empty : Index := ⟨[], .empty⟩

def roles : List JsString := [js "user", js "assistant"]

variable (textHash : JsString → JsString)

/-- The row of a message; a message without a date violates a constraint. -/
def document? (message : HistoryMessage) (ordinal : ℕ) : Option Document :=
  message.createdAt.map fun createdAt => ⟨message.role, createdAt, ordinal, textHash message.text⟩

/-- Number the messages: known rows are updated, new ones inserted. What is left of the previous rows comes back. -/
def writeDocuments (sessionId : JsString) : List HistoryMessage → ℕ → List JsString → Table (JsString × JsString) Document →
    Option (Table (JsString × JsString) Document × List JsString)
  | [], _, previous, documents => some (documents, previous)
  | message :: rest, ordinal, previous, documents => do
    let row ← document? textHash message ordinal
    if message.id ∈ previous then
      writeDocuments sessionId rest (ordinal + 1) (previous.filter (· ≠ message.id))
        (documents.update (sessionId, message.id) fun _ => row)
    else
      let documents ← documents.insert? (sessionId, message.id) row
      writeDocuments sessionId rest (ordinal + 1) previous documents

/-- The entries of a session that have rows. -/
def Index.entryIds (index : Index) (sessionId : JsString) : List JsString :=
  index.documents.collect fun key _ => if key.1 = sessionId then some key.2 else none

/-- The transaction of `refresh` for one session. -/
def Index.publish (index : Index) (session : Session) (messages : List HistoryMessage) : Option Index := do
  let (documents, previous) ← writeDocuments textHash session.sessionId (messages.filter (·.role ∈ roles)) 0
    (index.entryIds session.sessionId) index.documents
  pure ⟨Assoc.set index.sources session.sessionId session,
    documents.delete fun key _ => decide (key.1 = session.sessionId ∧ key.2 ∈ previous)⟩

def Index.deleteSession (index : Index) (sessionId : JsString) : Index :=
  ⟨Assoc.erase index.sources sessionId, index.documents.delete fun key _ => decide (key.1 = sessionId)⟩

inductive Op where
  | publish (session : Session) (messages : List HistoryMessage)
  | deleteSession (sessionId : JsString)
  | recover

/-- A transaction that fails is rolled back. -/
def Index.step (index : Index) : Op → Index
  | .publish session messages => (index.publish textHash session messages).getD index
  | .deleteSession sessionId => index.deleteSession sessionId
  | .recover => .empty

def run (ops : List Op) : Index := ops.foldl (Index.step textHash) .empty

end Index

section Projection

variable (textHash : JsString → JsString)

def findMessage (messages : List HistoryMessage) (id : JsString) : Option HistoryMessage :=
  messages.reverse.find? fun message => message.id = id

def projection (hydrated : List HistoryMessage) (rows : List (JsString × Document)) : Option (List HistoryMessage) :=
  rows.mapM fun row => do
    let message ← findMessage hydrated row.1
    if message.role = row.2.role ∧ message.createdAt = some row.2.createdAt ∧ textHash message.text = row.2.textHash then
      some message
    else none

end Projection

section Growth

inductive Side where
  | before
  | after
deriving DecidableEq

/-- The messages chosen so far, and what is left of the budget. -/
structure Growth where
  chosen : List (ℤ × BoundedText)
  remaining : ℤ
  beforeContiguous : Bool
  afterContiguous : Bool

variable (messages : List HistoryMessage) (desiredStart desiredEnd targetIndex : ℤ)

def textAt (index : ℤ) : JsString := (messages[index.toNat]?).elim [] HistoryMessage.text

/-- Take the next neighbour on one side, or end the growth of that side. -/
def Growth.visit (g : Growth) (index : ℤ) (side : Side) : Growth :=
  if index < desiredStart ∨ desiredEnd ≤ index ∨ g.remaining ≤ 0 then g
  else if side = .before ∧ g.beforeContiguous = false ∨ side = .after ∧ g.afterContiguous = false then g
  else
    let text := textAt messages index
    let length : ℤ := charLength text
    if length ≤ g.remaining then
      { g with chosen := g.chosen ++ [(index, ⟨text, false⟩)], remaining := g.remaining - length }
    else
      match side with
      | .before => { g with beforeContiguous := false }
      | .after => { g with afterContiguous := false }

/-- The loop over the distances. -/
def Growth.grow : ℕ → ℤ → Growth → Growth
  | 0, _, g => g
  | fuel + 1, distance, g =>
    if 0 < g.remaining ∧ (desiredStart ≤ targetIndex - distance ∨ targetIndex + distance < desiredEnd) then
      grow fuel (distance + 1) ((g.visit messages desiredStart desiredEnd (targetIndex - distance) .before).visit messages
        desiredStart desiredEnd (targetIndex + distance) .after)
    else g

end Growth

section Open

def maxOpenChars : ℕ := 16000

/-- An optional integer within bounds. -/
def boundedInteger (value : Value) (context : String) (minimum maximum fallback : ℕ) : Except JsString ℕ :=
  let refused : Except JsString ℕ := .error (js context ++ js " must be an integer from " ++ integerText minimum ++ js " through "
    ++ integerText maximum)
  match value with
  | .undefined => .ok fallback
  | .num n =>
    match n.toNat? with
    | some k => if minimum ≤ k ∧ k ≤ maximum then .ok k else refused
    | none => refused
  | _ => refused

structure OpenRequest where
  session : Session
  entryId : Value
  before : Value
  after : Value
  maxChars : Value

/-- A shown message; its citation names the session and the entry. -/
structure OpenedMessage where
  entryId : JsString
  role : JsString
  text : JsString
  createdAt : Option JsString
  citation : JsString × JsString
deriving DecidableEq

structure Opened where
  sessionId : JsString
  entryId : JsString
  messages : List OpenedMessage
  truncated : Bool
  truncatedBefore : Bool
  truncatedAfter : Bool
  citation : JsString × JsString
deriving DecidableEq

/-- The rows of a session in a range of ordinals, in order. -/
def Index.window (index : Index) (sessionId : JsString) (first last : ℕ) : List (JsString × Document) :=
  (index.documents.collect fun key row =>
      if key.1 = sessionId ∧ first ≤ row.ordinal ∧ row.ordinal ≤ last then some (key.2, row) else none).insertionSort
    fun a b => a.2.ordinal ≤ b.2.ordinal

/-- The messages shown around the target, under one budget. -/
def excerpt (sessionId entryId : JsString) (messages : List HistoryMessage) (targetIndex before after maxChars : ℕ) : Opened :=
  let desiredStart : ℤ := max 0 ((targetIndex : ℤ) - before)
  let desiredEnd : ℤ := min messages.length (targetIndex + after + 1)
  let targetText := truncatePrefix (textAt messages targetIndex) maxChars
  let g := Growth.grow messages desiredStart desiredEnd targetIndex messages.length 1
    ⟨[(targetIndex, targetText)], maxChars - charLength targetText.text, true, true⟩
  let opened := (g.chosen.insertionSort fun a b => a.1 ≤ b.1).filterMap fun choice =>
    (messages[choice.1.toNat]?).map fun message =>
      ⟨message.id, message.role, choice.2.text, message.createdAt, sessionId, message.id⟩
  let indexes := g.chosen.map Prod.fst
  let expectedBefore := (List.range (targetIndex - desiredStart).toNat).map fun offset : ℕ => desiredStart + offset
  let expectedAfter := (List.range (desiredEnd - targetIndex - 1).toNat).map fun offset : ℕ => (targetIndex : ℤ) + offset + 1
  let truncatedBefore := expectedBefore.any fun index => index ∉ indexes
  let truncatedAfter := expectedAfter.any fun index => index ∉ indexes
  ⟨sessionId, entryId, opened, targetText.truncated || truncatedBefore || truncatedAfter, truncatedBefore, truncatedAfter,
    sessionId, entryId⟩

variable (textHash : JsString → JsString)

def missingEntry : JsString := js "entry does not exist on the active visible transcript branch"

/-- `open`, where the reader returns these messages for the rows, or fails. -/
def Index.openOnce (index : Index) (request : OpenRequest)
    (hydrated : List (JsString × Document) → Except JsString (List HistoryMessage)) : Except JsString Opened := do
  let session := request.session
  Checked.require (Assoc.lookup index.sources session.sessionId = some session)
    (js "session is not present in the allowed history index")
  let entryId := request.entryId.units
  Checked.require (request.entryId.isString ∧ entryId ≠ [] ∧ entryId.length ≤ 128)
    (js "entryId must be a non-empty string of at most 128 characters")
  let before ← boundedInteger request.before "before" 0 8 2
  let after ← boundedInteger request.after "after" 0 8 2
  let maxChars ← boundedInteger request.maxChars "maxChars" 1 maxOpenChars 8000
  match index.documents.get? (session.sessionId, entryId) with
  | none => .error missingEntry
  | some target =>
    let rows := index.window session.sessionId (target.ordinal - before) (target.ordinal + after)
    let found ← hydrated rows
    match projection textHash found rows with
    | none => .error (js "canonical history projection does not match the verified index version")
    | some messages =>
      match messages.findIdx? fun message => message.id = entryId with
      | none => .error missingEntry
      | some targetIndex => .ok (excerpt session.sessionId entryId messages targetIndex before after maxChars)

end Open

section Snippet

/-- A term or phrase of a query. -/
structure Clause where
  value : JsString
  phrase : Bool
  isPrefix : Bool
deriving DecidableEq

/-- `text.indexOf(value)`. -/
def indexOf (text value : JsString) : Option ℕ := text.tails.findIdx? fun rest => value.isPrefixOf rest

/-- A character that means something in a pattern. -/
def isSpecial (u : UInt16) : Bool := u ∈ js ".*+?^$\x7b\x7d()|[]\\"

def escapePattern (value : JsString) : JsString := value.flatMap fun u => if isSpecial u then [0x5C, u] else [u]

/-- The pattern that a term with a `*` behind it is searched by. -/
def prefixPattern (value : JsString) : JsString :=
  js "(?:^|[^\\p\x7bL\x7d\\p\x7bN\x7d_])(" ++ escapePattern value ++ js ")"

-- `toLocaleLowerCase`, and `text.search` of a pattern with the flags `iu`, nowhere where the pattern is malformed
variable (lowerCase : JsString → JsString) (search : JsString → JsString → Option ℕ)

/-- The code unit at which a clause is found. -/
def clauseMatch (text : JsString) (clause : Clause) : Option ℕ :=
  if clause.isPrefix then search (prefixPattern clause.value) text
  else indexOf (lowerCase text) (lowerCase clause.value)

/-- The earlier one of what was selected and what is found. -/
def earlier (selected : Option ℕ) : Option ℕ → Option ℕ
  | none => selected
  | some found => if selected.all (found < ·) then some found else selected

def firstMatch (text : JsString) (clauses : List Clause) : Option ℕ :=
  clauses.foldl (fun selected clause => earlier selected (clauseMatch lowerCase search text clause)) none

/-- The code point at which a snippet is to be read; the beginning where no clause is found. -/
def matchOffset (text : JsString) (clauses : List Clause) : ℕ :=
  ((firstMatch lowerCase search text clauses).map fun codeUnitOffset => charLength (text.take codeUnitOffset)).getD 0

def plainSnippet (text : JsString) (clauses : List Clause) (maximum : ℕ) : JsString :=
  let chars := codePoints text
  if chars.length ≤ maximum then chars.flatten
  else
    let matchOffset := matchOffset lowerCase search text clauses
    let markerBudget := (if 0 < matchOffset then 1 else 0) + 1
    let bodyLength := maximum - markerBudget
    let start := matchOffset - bodyLength / 3
    let start := if chars.length < start + bodyLength then chars.length - bodyLength else start
    let trailing : Bool := start + bodyLength < chars.length
    let adjustedLength := maximum - (if 0 < start then 1 else 0) - (if trailing then 1 else 0)
    (if 0 < start then [0x2026] else []) ++ ((chars.drop start).take adjustedLength).flatten ++ if trailing then [0x2026] else []

end Snippet

section Query

def maxQueryBytes : ℕ := 512
def maxQueryClauses : ℕ := 32

/-- `[\u0000-\u001F\u007F-\u009F]` -/
def isControl (u : UInt16) : Bool := u ≤ 0x1F || (0x7F ≤ u && u ≤ 0x9F)

/-- The value of a quoted phrase behind its opening quote, with what follows the closing one. -/
def readPhrase : JsString → Option (JsString × JsString)
  | [] => none
  | [u] => if u = 0x22 then some ([], []) else none
  | u :: v :: rest =>
    if u = 0x22 then some ([], v :: rest)
    else if u = 0x5C ∧ (v = 0x22 ∨ v = 0x5C) then (readPhrase rest).map fun (value, after) => (v :: value, after)
    else (readPhrase (v :: rest)).map fun (value, after) => (u :: value, after)

def phraseClause (text : JsString) : Except JsString (Clause × JsString) :=
  match readPhrase text with
  | none => throw (js "query contains an unterminated quoted phrase")
  | some (value, after) =>
    if value.trim = [] then throw (js "query phrases must not be empty")
    else if (after.head?.any fun u => !isWhiteSpace u) = true then throw (js "a quoted phrase must be followed by whitespace")
    else pure (⟨value, true, false⟩, after)

def termClause (text : JsString) : Except JsString (Clause × JsString) :=
  let value := text.takeWhile fun u => !isWhiteSpace u
  let after := text.dropWhile fun u => !isWhiteSpace u
  let stars := value.count 0x2A
  let isPrefix := stars = 1 ∧ value.getLast? = some 0x2A
  if stars ≠ 0 ∧ ¬isPrefix then throw (js "query '*' is supported only once at the end of a term")
  else
    let value := if isPrefix then value.dropLast else value
    if value = [] then throw (js "query prefix must contain text before '*'") else pure (⟨value, false, isPrefix⟩, after)

/-- The clauses of a text; each one takes a unit or more of it. -/
def readClauses : ℕ → JsString → List Clause → Except JsString (List Clause)
  | 0, _, clauses => pure clauses
  | fuel + 1, text, clauses =>
    match text.dropWhile isWhiteSpace with
    | [] => pure clauses
    | u :: rest => do
      let read := if u = 0x22 then phraseClause rest else termClause (u :: rest)
      let (clause, after) ← read
      if maxQueryClauses < clauses.length + 1 then
        throw (js "query must contain at most " ++ Json.decimal maxQueryClauses ++ js " terms or phrases")
      readClauses fuel after (clauses ++ [clause])

def quoteFts (value : JsString) : JsString := [0x22] ++ (value.flatMap fun u => if u = 0x22 then [0x22, 0x22] else [u]) ++ [0x22]

/-- What the full-text index is asked for. -/
def matchText (clauses : List Clause) : JsString :=
  List.intercalate (js " AND ") (clauses.map fun clause => quoteFts clause.value ++ if clause.isPrefix then [0x2A] else [])

def parseSessionHistoryQuery (input : Value) : Except JsString (List Clause × JsString) := do
  let text := input.units
  if input.isString = false ∨ text.trim = [] ∨ maxQueryBytes < text.utf8Length then
    throw (js "query must be a non-empty string of at most " ++ Json.decimal maxQueryBytes ++ js " UTF-8 bytes")
  if text.any isControl then throw (js "query must not contain control characters")
  let clauses ← readClauses text.length text []
  if clauses = [] then throw (js "query must contain a term or phrase")
  return (clauses, matchText clauses)

end Query

end PersistentHarness.SessionHistory
