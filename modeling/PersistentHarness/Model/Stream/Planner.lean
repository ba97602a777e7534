import PersistentHarness.Model.Canonical.Facts
import PersistentHarness.Data.Text

/-! # Conversation births

A birth is host-owned metadata of a text block: a sequence number and the canonical ISO instant at
which it was given. Anything else has no birth.
-/

namespace PersistentHarness.Stream

/-- The value of a run of exactly these decimal digits. -/
def digits? (text : JsString) : Option ℕ :=
  text.foldl (fun value u => value.bind fun n =>
    if 0x30 ≤ u.toNat ∧ u.toNat ≤ 0x39 then some (n * 10 + (u.toNat - 0x30)) else none) (some 0)

def leapYear (year : ℤ) : Bool := year % 4 = 0 ∧ (year % 100 ≠ 0 ∨ year % 400 = 0)

def daysInMonth (year : ℤ) (month : ℕ) : ℕ :=
  match month with
  | 2 => if leapYear year then 29 else 28
  | 4 | 6 | 9 | 11 => 30
  | _ => 31

/-- The text between a year and the end of an ISO instant: `-MM-DDTHH:mm:ss.sssZ` with every field in
range and, at the two ends of the time line, not past them. -/
def isoInstant (year : ℤ) (text : JsString) : Bool :=
  match digits? ((text.drop 1).take 2), digits? ((text.drop 4).take 2), digits? ((text.drop 7).take 2),
      digits? ((text.drop 10).take 2), digits? ((text.drop 13).take 2), digits? ((text.drop 16).take 3) with
  | some month, some day, some hour, some minute, some second, some milli =>
    text.length = 20 ∧ text[0]? = some 0x2D ∧ text[3]? = some 0x2D ∧ text[6]? = some 0x54
      ∧ text[9]? = some 0x3A ∧ text[12]? = some 0x3A ∧ text[15]? = some 0x2E ∧ text[19]? = some 0x5A
      ∧ 1 ≤ month ∧ month ≤ 12 ∧ 1 ≤ day ∧ day ≤ daysInMonth year month
      ∧ hour ≤ 23 ∧ minute ≤ 59 ∧ second ≤ 59 ∧ milli ≤ 999
      ∧ -271821 ≤ year ∧ year ≤ 275760
      ∧ (year = -271821 → 4 < month ∨ month = 4 ∧ 20 ≤ day)
      ∧ (year = 275760 → month < 9 ∨ month = 9 ∧ (day < 13 ∨ day = 13 ∧ hour = 0 ∧ minute = 0 ∧ second = 0 ∧ milli = 0))
  | _, _, _, _, _, _ => false

/-- `new Date(text).toISOString() === text`: four-digit years, or six signed digits outside them. -/
def isIsoDate (text : JsString) : Bool :=
  match text with
  | sign :: rest =>
    if sign = 0x2B ∨ sign = 0x2D then
      match digits? (rest.take 6) with
      | some year =>
        let year : ℤ := if sign = 0x2D then -(year : ℤ) else year
        6 ≤ rest.length ∧ (year < 0 ∨ 9999 < year) ∧ isoInstant year (rest.drop 6)
      | none => false
    else
      match digits? (text.take 4) with
      | some year => 4 ≤ text.length ∧ isoInstant year (text.drop 4)
      | none => false
  | [] => false

/-- The birth that a value records, if it records one. -/
def conversationBirth (value : Value) : Option Value :=
  let sequence := value.get (js "sequence")
  let createdAt := value.get (js "createdAt")
  if value.isObject = true ∧ value.fields.length = 3 ∧ (value.get (js "version")).isNat 1
      ∧ (∃ n ∈ sequence.safeNat?, 1 ≤ n) ∧ createdAt.isString = true ∧ createdAt.units.length ≤ 32
      ∧ isIsoDate createdAt.units = true
  then some (.record [("version", .num (.ofNat 1)), ("createdAt", createdAt), ("sequence", sequence)])
  else none

end PersistentHarness.Stream

/-! ## Stream checks on usage, calls and reasoning items

The checks that a stream planner makes on single values. Closed content may change in one way only:
a reasoning item may receive the encrypted content that it did not have.
-/

namespace PersistentHarness.Stream

open Canonical (identifier isRecord isWord oneOf signatureCodeUnits contentBlocks isToolCall)

/-- Rejection codes of `ActorStreamError`, and an exception of an id or birth factory. -/
inductive StreamError where
  | ERR_STREAM_REASONING_SIGNATURE
  | ERR_STREAM_CLOSED_CONTENT_CHANGED
  | ERR_STREAM_REASONING_ITEM_CHANGED
  | ERR_STREAM_REASONING_ENCRYPTION_CONFLICT
  | ERR_STREAM_USAGE
  | ERR_STREAM_CALL
  | ERR_STREAM_BASE_MESSAGE
  | ERR_STREAM_DUPLICATE_CORE_ID
  | ERR_STREAM_CONTENT
  | ERR_STREAM_SIGNATURE_LIMIT
  | ERR_STREAM_CANCELED
  | ERR_STREAM_FAILED
  | ERR_STREAM_ACK_REQUIRED
  | ERR_STREAM_DUPLICATE_CALL_ID
  | ERR_STREAM_TERMINAL
  | ERR_STREAM_EVENT_LIMIT
  | ERR_STREAM_EVENT
  | ERR_STREAM_MESSAGE
  | ERR_STREAM_PROVIDER_CHANGED
  | ERR_STREAM_PROOF_EVENT
  | ERR_STREAM_RESPONSE_CHANGED
  | ERR_STREAM_SOURCE_CHANGED
  | ERR_STREAM_PROVED_CALL_CHANGED
  | ERR_STREAM_DUPLICATE_START
  | ERR_STREAM_START_REQUIRED
  | ERR_STREAM_TERMINAL_REASON
  | ERR_STREAM_DUPLICATE_REASONING_ID
  | ERR_STREAM_AMENDMENT_TARGET
  | ERR_STREAM_CONTENT_INDEX
  | ERR_STREAM_BLOCK_KIND
  | ERR_STREAM_DUPLICATE_END
  | ERR_STREAM_DUPLICATE_BLOCK_START
  | ERR_STREAM_BLOCK_START_REQUIRED
  | ERR_STREAM_CALL_IDENTITY_CHANGED
  | ERR_STREAM_CALL_EVENT_MISMATCH
  | ERR_STREAM_PROOF_MISMATCH
  | ERR_STREAM_DELTA
  | ERR_STREAM_PREPARE_PLAN
  | ERR_STREAM_COMMIT_MESSAGE
  | ERR_STREAM_PROTECTED_ENVELOPE
  | ERR_STREAM_UNSAFE_STOP_UPGRADE
  | ERR_STREAM_PROTECTED_PREFIX
  | ERR_STREAM_UNSUPPORTED_NONCALL_LAYOUT
  | ERR_STREAM_PROTECTED_TEXT_METADATA
  | ERR_STREAM_PROTECTED_CONTENT
  | ERR_STREAM_NATIVE_SOURCE_ORDER
  | ERR_STREAM_COMMIT_MISMATCH
  | ERR_STREAM_DATA_LIMIT
  | ERR_STREAM_DATA_TYPE
  | factoryFailed
deriving DecidableEq, Repr

abbrev StreamResult := Except StreamError

abbrev requireThat (ok : Prop) [Decidable ok] (code : StreamError) : StreamResult Unit := Checked.require ok code

def copy (value : Value) : StreamResult Value :=
  Canonical.copyPlain .ERR_STREAM_DATA_LIMIT .ERR_STREAM_DATA_TYPE value

/-- The reasoning item of a signature. -/
def signature (value : Value) : StreamResult Value := do
  requireThat (value.isString = true ∧ 0 < value.units.length ∧ value.units.length ≤ signatureCodeUnits)
    .ERR_STREAM_REASONING_SIGNATURE
  match Json.parse value.units with
  | none => .error .ERR_STREAM_REASONING_SIGNATURE
  | some parsed => do
    let _ ← Canonical.scanNames .ERR_STREAM_REASONING_SIGNATURE value.units
    let parsed ← copy parsed
    requireThat (isRecord parsed ∧ isWord (parsed.get (js "type")) "reasoning" ∧ identifier (parsed.get (js "id")))
      .ERR_STREAM_REASONING_SIGNATURE
    pure parsed

end PersistentHarness.Stream

/-! ## The stream planner: state, normal forms and plans

One planner watches one provider response. It keeps a slot for every observed content block, cuts
the closed prefix into plans, and remembers where each committed block went. Identity factories are
oracles indexed by the number of calls made so far. A step that throws marks the planner failed;
nothing else of its partial work is ever read again, so a step here is a pure `StreamResult`.
-/

