import PersistentHarness.Data.Utf8

/-! # Headings of progress

The thinking of a turn arrives in parts. Of each text that is thought, the lines that are headings of their own are shown, the
latest at a time; the line that is not finished yet is kept up to a bound. `NFKC` and the class `Cf` are parameters.
-/

namespace PersistentHarness.ProgressHeadings

open JsString (codePoints)

section Headings

/-- What the platform knows about Unicode. -/
structure Unicode where
  /-- `value.normalize("NFKC")`. -/
  nfkc : JsString → JsString
  /-- `\p{Cf}`, of a code point. -/
  isFormat : JsString → Bool

def maxHeadingCharacters : ℕ := 160

def maxHeadingBytes : ℕ := 512

def maxPendingLineCharacters : ℕ := 512

def isControl (c : UInt16) : Bool := c ≤ 0x1F ∨ 0x7F ≤ c ∧ c ≤ 0x9F

/-- `value.replace(/\s+/g, " ")`. -/
def collapse : JsString → JsString
  | [] => []
  | [c] => if isWhiteSpace c then [0x20] else [c]
  | c :: d :: rest =>
    if isWhiteSpace c then if isWhiteSpace d then collapse (d :: rest) else 0x20 :: collapse (d :: rest)
    else c :: collapse (d :: rest)

/-- `UNSAFE_MARKUP`, but for `\p{Cf}`. -/
def unsafeMarkup : JsString := js "`<>\x7b\x7d[]"

def normalizeProgressHeading (unicode : Unicode) (value : JsString) : Option JsString :=
  if value.any isControl then none
  else
    let normalized := JsString.trim (collapse (unicode.nfkc value))
    let characters := codePoints normalized
    if normalized = [] ∨ maxHeadingCharacters < characters.length ∨ maxHeadingBytes < JsString.utf8Length normalized then none
    else if characters.any fun character => character.any (fun c => decide (c ∈ unsafeMarkup)) || unicode.isFormat character then none
    else some normalized

def isLineBreak (c : UInt16) : Bool := c = 0x0A ∨ c = 0x0D

def standaloneHeading (line : JsString) : Option JsString :=
  match line.dropWhile isWhiteSpace with
  | 0x2A :: 0x2A :: rest =>
    let inner := rest.takeWhile fun c => c ≠ 0x2A ∧ isLineBreak c = false
    match rest.dropWhile fun c => c ≠ 0x2A ∧ isLineBreak c = false with
    | 0x2A :: 0x2A :: tail =>
      if inner ≠ [] ∧ (codePoints inner).length ≤ maxHeadingCharacters ∧ tail.all isWhiteSpace then some inner else none
    | _ => none
  | _ => none

def headingFromLine (unicode : Unicode) (line : JsString) : Option JsString :=
  (standaloneHeading line).bind (normalizeProgressHeading unicode)

end Headings

section Tracker

/-- The line of a text that is not finished; an overflowed one is dropped. -/
structure Buffer where
  text : JsString
  overflowed : Bool
deriving DecidableEq

def Buffer.empty : Buffer := ⟨[], false⟩

/-- The buffers of the texts, by their content index. -/
structure Tracker where
  buffers : ℤ → Option Buffer
  latest : Option JsString

def Tracker.initial : Tracker := ⟨fun _ => none, none⟩

/-- An event of a message with an integer `contentIndex`; no other event changes anything. -/
inductive Event where
  | thinkingStart (index : ℤ)
  | thinkingDelta (index : ℤ) (delta : JsString)
  | thinkingEnd (index : ℤ)
  | other
deriving DecidableEq

def isEligibleProgressMessage (message : Value) : Bool :=
  message.get (js "role") = .text "assistant" ∧ message.get (js "api") = .text "openai-codex-responses"
    ∧ message.get (js "provider") = .text "openai-codex"

variable (unicode : Unicode)

/-- A line that is complete: its heading, where it was not dropped and has one. -/
def finishLine (overflowed : Bool) (line : JsString) (latest : Option JsString) : Option JsString :=
  if overflowed then latest else (headingFromLine unicode line).or latest

/-- `state.text += remaining`, within the bound. -/
def Buffer.append (state : Buffer) (remaining : JsString) : Buffer :=
  if state.overflowed then state
  else if state.text.length + remaining.length ≤ maxPendingLineCharacters then ⟨state.text ++ remaining, false⟩
  else ⟨[], true⟩

/-- The loop of `#consume` over the line breaks; a carriage return may have its newline with it. -/
def consumeLines (state : Buffer) (latest : Option JsString) (remaining : JsString) : Buffer × Option JsString :=
  match behind : remaining.dropWhile fun c => isLineBreak c = false with
  | [] => (state.append remaining, latest)
  | separator :: rest =>
    let segment := remaining.takeWhile fun c => isLineBreak c = false
    let latest := finishLine unicode state.overflowed (state.text ++ segment) latest
    consumeLines .empty latest (if separator = 0x0D ∧ rest.head? = some 0x0A then rest.tail else rest)
  termination_by remaining.length
  decreasing_by
    have shorter := (List.dropWhile_suffix (l := remaining) fun c => decide (isLineBreak c = false)).length_le
    rw [behind, List.length_cons] at shorter
    split
    · rw [List.length_tail]
      omega
    · omega

def consume (state : Buffer) (latest : Option JsString) (delta : JsString) (finish : Bool) : Buffer × Option JsString :=
  let (state, latest) := consumeLines unicode state latest delta
  if finish then (.empty, finishLine unicode state.overflowed state.text latest) else (state, latest)

/-- `update(message, assistantEvent)`. -/
def Tracker.update (tracker : Tracker) (message : Value) (event : Event) : Tracker :=
  if isEligibleProgressMessage message then
    match event with
    | .thinkingStart index => { tracker with buffers := Function.update tracker.buffers index (some .empty) }
    | .thinkingDelta index delta =>
      let (state, latest) := consume unicode ((tracker.buffers index).getD .empty) tracker.latest delta false
      { buffers := Function.update tracker.buffers index (some state), latest := latest }
    | .thinkingEnd index =>
      { buffers := Function.update tracker.buffers index none
        latest :=
          match tracker.buffers index with
          | some state => (consume unicode state tracker.latest [] true).2
          | none => tracker.latest }
    | .other => tracker
  else tracker

def run (message : Value) (events : List Event) : Tracker :=
  events.foldl (fun tracker event => tracker.update unicode message event) .initial

end Tracker

end PersistentHarness.ProgressHeadings
