import PersistentHarness.Data.Json
import PersistentHarness.Lib.Checked

/-! # Canonical entries and the selected branch

A canonical session is an append-only list of plain entries with an explicit leaf. The selected
branch is the path from the leaf to the root. Entries, messages and blocks stay dynamic data, so
that every check of the source is a check here. The resource budgets of `copyData` (visited
values, depth, total code units and archive length) are outside the model of an archive; the limits
on single fields and the copy of a single signature are inside.
-/

namespace PersistentHarness.Canonical

/-- Rejection codes of `CanonicalContextError`, and the two foreign exceptions that can pass
through: a property read of `undefined` and a failing token estimator. -/
inductive ContextError where
  | ERR_CONTEXT_ENTRY
  | ERR_CONTEXT_DUPLICATE_ENTRY_ID
  | ERR_CONTEXT_LEAF
  | ERR_CONTEXT_BRANCH_CYCLE
  | ERR_CONTEXT_BRANCH_MISSING
  | ERR_SIGNATURE_DATA
  | ERR_SIGNATURE_JSON
  | ERR_SIGNATURE_DUPLICATE_KEY
  | ERR_SIGNATURE_VERSION
  | ERR_SIGNATURE_TARGET
  | ERR_SIGNATURE_CONTENT_INDEX
  | ERR_SIGNATURE_ITEM
  | ERR_SIGNATURE_ENCRYPTION_CONFLICT
  | ERR_CONTEXT_MESSAGE
  | ERR_CONTEXT_CONTENT
  | ERR_CONTEXT_RESULT
  | ERR_CONTEXT_CALL
  | ERR_CONTEXT_DUPLICATE_CALL_ID
  | ERR_CONTEXT_DUPLICATE_RESULT_ID
  | ERR_CONTEXT_RESULT_NAME
  | ERR_CONTEXT_RESULT_BEFORE_CALL
  | ERR_CONTEXT_COMPACTION
  | ERR_CONTEXT_HELPER_RESULT
  | ERR_CONTEXT_SOURCE_PROJECTION
  | ERR_CONTEXT_SUMMARY_CONFLICT
  | ERR_CONTEXT_CALL_PROJECTION
  | ERR_CONTEXT_RESULT_PROJECTION
  | ERR_CONTEXT_MANAGER
  | ERR_CONTEXT_DATA_LIMIT
  | ERR_CONTEXT_DATA_TYPE
  | ERR_RECOVERY_TIMESTAMP
  | typeError
  | estimatorFailed
deriving DecidableEq, Repr

abbrev Result := Except ContextError

abbrev requireThat (condition : Prop) [Decidable condition] (code : ContextError) : Result Unit :=
  Checked.require condition code

def signatureCodeUnits : ℕ := 4 * 1024 * 1024
def contentBlocks : ℕ := 10000
def idCodeUnits : ℕ := 4096

def nodeLimit : ℕ := 2000000
def depthLimit : ℕ := 64
def stringCodeUnits : ℕ := 64 * 1024 * 1024

def ordinaryNonAdmissionCustomType : JsString := js "persistent-harness:ordinary-non-admission:v1"

abbrev isRecord (value : Value) : Prop := value.isObject = true

/-- A non-empty string of bounded length. -/
def identifier (value : Value) : Prop :=
  value.isString = true ∧ 0 < value.units.length ∧ value.units.length ≤ idCodeUnits

instance (value : Value) : Decidable (identifier value) := inferInstanceAs (Decidable (_ ∧ _))

theorem identifier_eq_str {value : Value} (valid : identifier value) : value = .str value.units := by
  cases value <;> first | rfl | exact absurd valid.1 (by simp [Value.isString])

/-! ## Copies -/

/-- Why data cannot be copied. -/
inductive CopyError where
  | limit
  | type
deriving DecidableEq, Repr

/-- The values visited and the code units copied so far. -/
structure CopyCount where
  nodes : ℕ
  codeUnits : ℕ
deriving DecidableEq, Repr

/-- One more value. -/
def CopyCount.visit (counts : CopyCount) (depth : ℕ) : Except CopyError CopyCount := do
  Checked.require (counts.nodes + 1 ≤ nodeLimit ∧ depth ≤ depthLimit) .limit
  pure { counts with nodes := counts.nodes + 1 }

/-- One more string or member name. -/
def CopyCount.spend (counts : CopyCount) (text : JsString) : Except CopyError CopyCount := do
  Checked.require (counts.codeUnits + text.length ≤ stringCodeUnits) .limit
  pure { counts with codeUnits := counts.codeUnits + text.length }

mutual

/-- `copy(item, depth)`: the counts after it. The copy itself is the value. -/
def copy : Value → ℕ → CopyCount → Except CopyError CopyCount
  | .undefined, depth, counts => counts.visit depth
  | .null, depth, counts => counts.visit depth
  | .bool _, depth, counts => counts.visit depth
  | .num n, depth, counts => do
    let counts ← counts.visit depth
    Checked.require (n.isFinite = true) .type
    pure counts
  | .str s, depth, counts => do
    let counts ← counts.visit depth
    counts.spend s
  | .arr items, depth, counts => do
    let counts ← counts.visit depth
    -- The own keys of an array are its indices and `length`.
    Checked.require (items.length + 1 ≤ nodeLimit - counts.nodes) .limit
    copyItems items 0 (depth + 1) counts
  | .obj fields, depth, counts => do
    let counts ← counts.visit depth
    Checked.require (fields.length ≤ nodeLimit - counts.nodes) .limit
    copyFields fields (depth + 1) counts

def copyItems : List Value → ℕ → ℕ → CopyCount → Except CopyError CopyCount
  | [], _, _, counts => pure counts
  | item :: rest, index, depth, counts => do
    let counts ← counts.spend (Json.decimal index)
    let counts ← copy item depth counts
    copyItems rest (index + 1) depth counts

def copyFields : List (JsString × Value) → ℕ → CopyCount → Except CopyError CopyCount
  | [], _, counts => pure counts
  | (key, value) :: rest, depth, counts => do
    let counts ← counts.spend key
    let counts ← copy value depth counts
    copyFields rest depth counts

end

/-- The copy of plain data, with the codes of a limit and of a type that cannot be copied. -/
def copyPlain {ε : Type} (limit type : ε) (value : Value) : Except ε Value :=
  match copy value 0 ⟨0, 0⟩ with
  | .ok _ => .ok value
  | .error .limit => .error limit
  | .error .type => .error type

/-- Plain data within the limits, with finite numbers. -/
def Copyable (value : Value) : Prop := ∃ counts, copy value 0 ⟨0, 0⟩ = .ok counts

theorem copyPlain_of {ε : Type} (limit type : ε) {value : Value} (copyable : Copyable value) :
    copyPlain limit type value = .ok value := by
  obtain ⟨counts, copied⟩ := copyable
  rw [copyPlain, copied]

theorem copyPlain_eq_ok {ε : Type} {limit type : ε} {value copied : Value} :
    copyPlain limit type value = .ok copied ↔ Copyable value ∧ value = copied := by
  unfold copyPlain Copyable
  split
  · next counts done => simp [done]
  · next failed => simp [failed]
  · next failed => simp [failed]

def copyData (value : Value) : Result Value := copyPlain .ERR_CONTEXT_DATA_LIMIT .ERR_CONTEXT_DATA_TYPE value

/-- `["a", "b"].includes(value)` for string constants. -/
def oneOf (value : Value) (words : List String) : Prop :=
  ∃ word ∈ words, value = .str (js word)

instance (value : Value) (words : List String) : Decidable (oneOf value words) :=
  inferInstanceAs (Decidable (∃ word ∈ words, _))

/-- `value === constant` for a string constant. -/
def isWord (value : Value) (word : String) : Prop := value = .str (js word)

instance (value : Value) (word : String) : Decidable (isWord value word) := inferInstanceAs (Decidable (_ = _))

/-- The identity of an entry as a map key. -/
def entryId (entry : Value) : JsString := (entry.get (js "id")).units

end PersistentHarness.Canonical

/-! ## Reasoning signatures and their amendments

A thinking block carries its provider reasoning item as JSON text. An amendment is a later entry
that supplies the missing encrypted content of one block; `overlaySignatures` applies every
amendment of a branch to the detached entries that precede it.
-/

namespace PersistentHarness.Canonical

inductive Severity where
  | info
  | blocking
deriving DecidableEq, Repr

structure CallIdentity where
  toolCallId : Value
  toolName : Value
  messageEntryId : Value
  contentIndex : ℕ
  retainedInContext : Bool
deriving DecidableEq, Repr

inductive Diagnostic where
  | SIGNATURE_OVERLAY (entryId messageEntryId : Value) (contentIndex : ℕ)
  | UNADMITTED_CALL_OMITTED (call : CallIdentity)
  | RESULT_PRUNED (severity : Severity) (call : CallIdentity)
  | ORPHAN_RESULT (toolCallId messageEntryId : Value)
  | CALL_PRUNED (toolCallId messageEntryId : Value)
  | ORDINARY_REPLAY_BLOCKED (toolCallId toolName : Value)
  | ORDINARY_ASSISTANT_NOT_REPLAYABLE (toolCallId toolName stopReason : Value)
deriving DecidableEq, Repr

/-! ## Duplicate member names -/

/-- `.` of a regular expression without the `s` flag excludes these. -/
def lineTerminator (u : UInt16) : Bool := u == 0x0A || u == 0x0D || u == 0x2028 || u == 0x2029

/-- The rest of a match of `"(?:[^"\\]|\\.)*"` after its first quote, and the text after it. -/
def stringToken? : JsString → Option (JsString × JsString)
  | [] => none
  | u :: rest =>
    if u = Json.unit '"' then some ([u], rest)
    else if u = Json.unit '\\' then
      match rest with
      | [] => none
      | e :: rest =>
        if lineTerminator e then none
        else (stringToken? rest).map fun (body, rest) => (u :: e :: body, rest)
    else (stringToken? rest).map fun (body, rest) => (u :: body, rest)

def punctuation (u : UInt16) : Bool :=
  u == Json.unit '\x7b' || u == Json.unit '\x7d' || u == Json.unit '[' || u == Json.unit ']'
    || u == Json.unit ',' || u == Json.unit ':'

/-- The matches of `/"(?:[^"\\]|\\.)*"|[\x7b\x7d\[\],:]/g`, in order; the fuel bounds the text. -/
def signatureTokens : ℕ → JsString → List JsString
  | 0, _ => []
  | _, [] => []
  | fuel + 1, u :: rest =>
    if u = Json.unit '"' then
      match stringToken? rest with
      | some (body, rest) => (u :: body) :: signatureTokens fuel rest
      | none => signatureTokens fuel rest
    else if punctuation u then [u] :: signatureTokens fuel rest
    else signatureTokens fuel rest

/-- An open object: its member names so far, and whether the next string is one. -/
structure KeyFrame where
  keys : List JsString
  key : Bool
deriving DecidableEq, Repr

/-- One token of the duplicate-name scan; open arrays are `none`. -/
def scanToken {ε : Type} (duplicate : ε) (stack : List (Option KeyFrame)) (token : JsString) :
    Except ε (List (Option KeyFrame)) :=
  if token = [Json.unit '\x7b'] then .ok (some ⟨[], true⟩ :: stack)
  else if token = [Json.unit '['] then .ok (none :: stack)
  else if token = [Json.unit '\x7d'] ∨ token = [Json.unit ']'] then .ok stack.tail
  else
    match stack with
    | some frame :: outer =>
      if token = [Json.unit ','] then .ok (some { frame with key := true } :: outer)
      else if token.head? = some (Json.unit '"') ∧ frame.key then do
        let name := ((Json.parse token).getD .undefined).units
        Checked.require (name ∉ frame.keys) duplicate
        pure (some ⟨frame.keys ++ [name], false⟩ :: outer)
      else .ok stack
    | _ => .ok stack

/-- The duplicate-name scan of a text, with the code of its rejection. -/
def scanNames {ε : Type} (duplicate : ε) (text : JsString) : Except ε (List (Option KeyFrame)) :=
  (signatureTokens text.length text).foldlM (scanToken duplicate) []

/-- The reasoning item of a signature. -/
def parseSignature (signature : Value) : Result Value := do
  requireThat (signature.isString = true ∧ 0 < signature.units.length
    ∧ signature.units.length ≤ signatureCodeUnits) .ERR_SIGNATURE_DATA
  match Json.parse signature.units with
  | none => .error .ERR_SIGNATURE_JSON
  | some parsed => do
    let parsed ← copyData parsed
    -- Names are compared after decoding, so an escaped spelling is still a duplicate.
    let _ ← scanNames .ERR_SIGNATURE_DUPLICATE_KEY signature.units
    requireThat (isRecord parsed) .ERR_SIGNATURE_DATA
    pure parsed

/-! ## Overlays -/

def messageOf (entry : Value) : Value := entry.get (js "message")

/-- The content array of a message, empty when there is none. -/
def contentOf (message : Value) : List Value := (message.get (js "content")).items

end PersistentHarness.Canonical
