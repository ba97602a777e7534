import PersistentHarness.Lib.Forest
import PersistentHarness.Model.Stream.Planner

/-! # The birth clock of a coordinator

Text parts and progress entries carry a birth: an instant and a sequence number that one counter gives out. Streamed texts get
theirs before they are committed. A navigation moves the leaf first, awaits its hooks, and sets the counter to the largest
number of the new branch when it ends.
-/

namespace PersistentHarness.BirthClock

section Births

structure Birth where
  createdAt : JsString
  sequence : ℕ
deriving DecidableEq

/-- `conversationBirth` of a value with these two members and version 1 gives a birth. -/
def Birth.isValid (birth : Birth) : Bool :=
  1 ≤ birth.sequence && birth.sequence ≤ 9007199254740991 && birth.createdAt.length ≤ 32 && Stream.isIsoDate birth.createdAt

/-- `ConversationBirthClock.next()`, with the counter after it. -/
def next (sequence : ℕ) (now : JsString) : Option Birth × ℕ :=
  if (Birth.mk now (sequence + 1)).isValid then (some ⟨now, sequence + 1⟩, sequence + 1) else (none, sequence)

/-- `createTextBirth(text)`: only public text that is not blank gets a birth. -/
def createTextBirth (publicText : JsString → JsString) (sequence : ℕ) (text now : JsString) : Option Birth × ℕ :=
  if JsString.trim (publicText text) = [] then (none, sequence) else next sequence now

end Births

section Entries

inductive Part where
  | text (text : JsString) (birth : Option Birth)
  | other
deriving DecidableEq

/-- A message of the assistant, a progress entry, or an entry that never has a birth. -/
inductive Body where
  | assistant (content : List Part)
  | progress (birth : Option Birth)
  | other
deriving DecidableEq

structure Entry where
  parentId : Option ℕ
  body : Body
deriving DecidableEq

def Part.birth : Part → Option Birth
  | .text _ birth => birth
  | .other => none

/-- The births of a public row each. -/
def Body.births : Body → List Birth
  | .assistant content => content.filterMap Part.birth
  | .progress birth => birth.toList
  | .other => []

def Entry.sequences (entry : Entry) : List ℕ := entry.body.births.map Birth.sequence

/-- `header.birthSequence`. -/
def Entry.birthSequence (entry : Entry) : ℕ := entry.sequences.foldr max 0

/-- `getBranch(leafId)`, from the leaf on. -/
def branch (entries : List Entry) (leaf : Option ℕ) : List Entry := Ancestry.branch Entry.parentId entries leaf

/-- The birth sequence numbers on a branch. -/
def sequences (entries : List Entry) (leaf : Option ℕ) : List ℕ := (branch entries leaf).flatMap Entry.sequences

/-- `sessionBranchHeaders(manager).reduce((n, entry) => Math.max(n, entry.birthSequence), 0)`. -/
def birthSequence (entries : List Entry) (leaf : Option ℕ) : ℕ :=
  ((branch entries leaf).map Entry.birthSequence).foldr max 0

end Entries

section Commits

/-- What a message hook leaves as the `harnessBirth` of a part. -/
inductive Claim where
  | absent
  | undefined
  | birth (birth : Birth)
  | other
deriving DecidableEq

/-- A part of the message that a hook gives back, with the instant at which a birth would be given to it. -/
inductive Replaced where
  | text (text : JsString) (claim : Claim) (now : JsString)
  | other
deriving DecidableEq

/-- `Object.hasOwn(part, "harnessBirth") && !isDeepStrictEqual(part.harnessBirth, birth)`. -/
def Claim.conflicts (claim : Claim) (birth : Option Birth) : Bool :=
  match claim with
  | .absent => false
  | .undefined => birth.isSome
  | .birth claimed => birth ≠ some claimed
  | .other => true

/-- `final.content.map(...)` of a commit without a plan: the births of the original parts, by their positions, go to the
replaced ones. A conflict throws, and the counter stays where it is then. -/
def assignBirths (publicText : JsString → JsString) (sequence : ℕ) :
    List (Option Birth) → List Replaced → Option (List Part) × ℕ
  | _, [] => (some [], sequence)
  | given, .other :: rest =>
    let (content, after) := assignBirths publicText sequence given.tail rest
    (content.map (.other :: ·), after)
  | given, .text text claim now :: rest =>
    let birth := given.head?.join
    if claim.conflicts birth then (none, sequence)
    else
      let (assigned, after) := match birth with
        | some birth => (some birth, sequence)
        | none => createTextBirth publicText sequence text now
      let (content, last) := assignBirths publicText after given.tail rest
      (content.map (.text text assigned :: ·), last)

end Commits

section Coordinator

/-- The stream planner of an attempt: the births of its texts by their source indices, and the index from which texts are
uncommitted. -/
structure Attempt where
  births : List (ℕ × Birth)
  cursor : ℕ
deriving DecidableEq

def Attempt.birthOf (attempt : Attempt) (index : ℕ) : Option Birth := (attempt.births.find? (·.1 = index)).map (·.2)

/-- A navigation that compares the session with its snapshot, or that has moved the leaf and awaits its hooks. -/
inductive Navigation where
  | preparing (count : ℕ) (leaf : Option ℕ)
  | moved
deriving DecidableEq

/-- The entries, the latest first, with the leaf, the counter, and what is in progress. -/
structure Coordinator where
  entries : List Entry
  leaf : Option ℕ
  sequence : ℕ
  attempt : Option Attempt
  compacting : Bool
  navigation : Option Navigation
deriving DecidableEq

def Coordinator.initial : Coordinator := ⟨[], none, 0, none, false, none⟩

/-- A text of a plan: its source index, the text that the hook gives back, and the instant at which a birth would be given. -/
structure PlannedText where
  index : ℕ
  text : JsString
  now : JsString
deriving DecidableEq

inductive Event where
  /-- `appendHistoryEntry` of a progress entry. -/
  | progress (now : JsString)
  /-- An entry without a birth: an input, a tool result, a custom entry or a compaction. -/
  | append
  /-- A message of the coordinator's own, as its hook gives it back. The append may fail. -/
  | commit (content : List Replaced) (stored : Bool)
  | startAttempt
  /-- `observeText` of the stream planner. -/
  | observe (text : PlannedText)
  /-- A plan of the attempt up to a source index, as its hook gives it back. The append may fail. -/
  | commitPlan (stop : ℕ) (texts : List PlannedText) (stored : Bool)
  | endAttempt
  | compact
  | endCompact
  | navigate
  /-- The leaf moves, and entries without births may follow: a summary and a label. -/
  | move (leaf : Option ℕ) (appended : ℕ)
  /-- The navigation returns, or throws an error marked committed. -/
  | settle
  /-- The navigation is cancelled, or fails before the leaf moved. -/
  | cancel
  /-- A navigation to the current leaf. -/
  | stay
  | restart (leaf : Option ℕ)
deriving DecidableEq

namespace Coordinator

variable (publicText : JsString → JsString)

def append (c : Coordinator) (body : Body) : Coordinator :=
  { c with entries := ⟨c.leaf, body⟩ :: c.entries, leaf := some c.entries.length }

def isBusy (c : Coordinator) : Bool := c.attempt.isSome || c.compacting || c.navigation.isSome

/-- A progress entry waits for a compaction. -/
def appendHistoryEntry (c : Coordinator) (now : JsString) : Coordinator :=
  if c.compacting then c
  else
    let (birth, sequence) := next c.sequence now
    { c with sequence }.append (.progress birth)

def commit (c : Coordinator) (content : List Replaced) (stored : Bool) : Coordinator :=
  let (final, sequence) := assignBirths publicText c.sequence [] content
  match final with
  | some content => if stored then { c with sequence }.append (.assistant content) else { c with sequence }
  | none => { c with sequence }

/-- A text that is not blank gets a birth, once. -/
def observeText (sequence : ℕ) (attempt : Attempt) (text : PlannedText) : Attempt × ℕ :=
  if JsString.trim text.text = [] ∨ (attempt.birthOf text.index).isSome then (attempt, sequence)
  else
    let (birth, sequence) := createTextBirth publicText sequence text.text text.now
    match birth with
    | some birth => ({ attempt with births := (text.index, birth) :: attempt.births }, sequence)
    | none => (attempt, sequence)

/-- `observeText` of the texts in turn. -/
def observeAll (sequence : ℕ) (attempt : Attempt) : List PlannedText → Attempt × ℕ
  | [] => (attempt, sequence)
  | text :: rest =>
    let (attempt, sequence) := observeText publicText sequence attempt text
    observeAll sequence attempt rest

/-- `prepareCommit`, the append, and `acknowledge`. -/
def commitPlan (c : Coordinator) (attempt : Attempt) (stop : ℕ) (texts : List PlannedText) (stored : Bool) : Coordinator :=
  let (attempt, sequence) := observeAll publicText c.sequence attempt texts
  let content := texts.map fun text => Part.text text.text (attempt.birthOf text.index)
  if stored then
    { c with sequence, attempt := some { attempt with cursor := stop } }.append (.assistant content)
  else { c with sequence, attempt := some attempt }

/-- The clock starts again from the active branch. -/
def resetClock (c : Coordinator) : Coordinator := { c with sequence := birthSequence c.entries c.leaf }

/-- A new coordinator opens the session at a leaf. -/
def restart (c : Coordinator) (leaf : Option ℕ) : Coordinator :=
  { c with leaf, attempt := none, compacting := false, navigation := none }.resetClock

/-- The leaf is an entry, or none. -/
def hasLeaf (c : Coordinator) (leaf : Option ℕ) : Bool := leaf.all (· < c.entries.length)

/-- The texts of a plan lie between the cursor and its end, in order. -/
def isPlan (attempt : Attempt) (stop : ℕ) (texts : List PlannedText) : Bool :=
  attempt.cursor ≤ stop ∧ (∀ text ∈ texts, attempt.cursor ≤ text.index ∧ text.index < stop)
    ∧ (texts.map PlannedText.index).Pairwise (· < ·)

def step (c : Coordinator) : Event → Coordinator
  | .progress now => c.appendHistoryEntry now
  | .append => c.append .other
  | .commit content stored => c.commit publicText content stored
  | .startAttempt => if c.attempt.isNone then { c with attempt := some ⟨[], 0⟩ } else c
  | .observe text =>
    match c.attempt with
    | some attempt =>
      if attempt.cursor ≤ text.index then
        let (attempt, sequence) := observeText publicText c.sequence attempt text
        { c with attempt := some attempt, sequence }
      else c
    | none => c
  | .commitPlan stop texts stored =>
    match c.attempt with
    | some attempt => if isPlan attempt stop texts then c.commitPlan publicText attempt stop texts stored else c
    | none => c
  | .endAttempt => { c with attempt := none }
  | .compact => if c.attempt.isNone && c.navigation.isNone then { c with compacting := true } else c
  | .endCompact => { c with compacting := false }
  | .navigate => if c.isBusy then c else { c with navigation := some (.preparing c.entries.length c.leaf) }
  | .move leaf appended =>
    match c.navigation with
    | some (.preparing count snapshot) =>
      if c.entries.length = count ∧ c.leaf = snapshot ∧ c.hasLeaf leaf then
        (List.range appended).foldl (fun c _ => c.append .other) { c with leaf, navigation := some .moved }
      else { c with navigation := none }
    | _ => c
  | .settle => if c.navigation = some .moved then { c with navigation := none }.resetClock else c
  | .cancel =>
    match c.navigation with
    | some (.preparing _ _) => { c with navigation := none }
    | _ => c
  | .stay => if c.isBusy then c else c.resetClock
  | .restart leaf => if c.hasLeaf leaf then c.restart leaf else c

def run (c : Coordinator) (events : List Event) : Coordinator := events.foldl (step publicText) c

end Coordinator

end Coordinator

end PersistentHarness.BirthClock
