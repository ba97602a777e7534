import PersistentHarness.Data.Text

/-! # Presentation directives

`PresentationDirectiveFilter` reads a text in pieces. An exact first line selects a presentation; every line that begins
with the reserved prefix, behind any indentation, is left out of what the filter emits.
-/

namespace PersistentHarness.PresentationDirective

def lineFeed : UInt16 := 0x0A

/-- `/^[a-z][a-z0-9-]{0,31}$/`. -/
def validNamespace : JsString → Bool
  | [] => false
  | first :: rest =>
    (0x61 ≤ first && first ≤ 0x7A) && rest.length ≤ 31
      && rest.all fun u => (0x61 ≤ u && u ≤ 0x7A) || (0x30 ≤ u && u ≤ 0x39) || u = 0x2D

/-- The configured namespace and the bound of a filter, as the module and the constructor accept them. -/
structure Config where
  name : JsString
  maxBytes : ℕ
  named : validNamespace name = true
  bounded : 64 ≤ maxBytes ∧ maxBytes ≤ 4096

/-- `PRESENTATION_DIRECTIVE_MAX_BYTES`. -/
def DIRECTIVE_MAX_BYTES : ℕ := 256

def defaultConfig : Config where
  name := js "harness"
  maxBytes := DIRECTIVE_MAX_BYTES
  named := by decide
  bounded := by decide

def BODY_VALUES : List JsString :=
  [js "amazed", js "doubt", js "emotion", js "encourage", js "enquire", js "excited", js "happy", js "hello", js "invite",
    js "refuse", js "sad", js "satisfied", js "shy", js "talk-01", js "talk-02", js "yandere"]

def FACE_VALUES : List JsString :=
  [js "common", js "amazed", js "happy", js "helpless", js "shame", js "shy", js "smile", js "think"]

structure Presentation where
  schema : JsString
  body : JsString
  face : JsString
deriving DecidableEq

namespace Config

def schema (c : Config) : JsString := c.name ++ js ".presentation.v1"

def reservedPrefix (c : Config) : JsString := js "<!-- " ++ c.name ++ js ".presentation"

def cue (c : Config) (body face : JsString) : Presentation := ⟨c.schema, body, face⟩

def defaultPresentation (c : Config) : Presentation := c.cue (js "talk-01") (js "common")

end Config

def behind (start text : JsString) : Option JsString :=
  if start.isPrefixOf text then some (text.drop start.length) else none

/-- `([^ ]+)`: the text up to the next space, which is not empty. -/
def field (text : JsString) : Option (JsString × JsString) :=
  let value := text.takeWhile (· ≠ 0x20)
  if value.isEmpty then none else some (value, text.drop value.length)

/-- `EXACT_DIRECTIVE.exec(line)`. -/
def exactDirective (c : Config) (line : JsString) : Option (JsString × JsString) := do
  let text ← behind (js "<!-- " ++ c.schema ++ js " body=") line
  let (body, text) ← field text
  let text ← behind (js " face=") text
  let (face, text) ← field text
  if text = js " -->" ++ [lineFeed] then some (body, face) else none

inductive Mode where
  | candidate
  | reserved
  | ordinary
deriving DecidableEq, Repr

/-- The fields of a `PresentationDirectiveFilter`. -/
structure Filter where
  state : Mode
  buffer : JsString
  reservedOverlong : Bool
  firstLine : Bool
  resolved : Bool
  recognized : Bool
  presentation : Presentation
deriving DecidableEq

def isIndent (u : UInt16) : Bool := u = 0x20 || u = 0x09

/-- The text through its first line feed, and what is behind it. -/
def cutLine : JsString → Option (JsString × JsString)
  | [] => none
  | u :: rest => if u = lineFeed then some ([u], rest) else (cutLine rest).map fun (line, rest) => (u :: line, rest)

theorem cutLine_length {text line rest : JsString} (cut : cutLine text = some (line, rest)) :
    rest.length < text.length := by
  induction text generalizing line with
  | nil => cases cut
  | cons u text ih =>
    rw [cutLine] at cut
    split at cut
    · cases cut
      exact Nat.lt_succ_self _
    · obtain ⟨⟨first, others⟩, found, same⟩ := Option.map_eq_some_iff.1 cut
      cases same
      exact Nat.lt_succ_of_lt (ih found)

namespace Filter

def initial (c : Config) : Filter := ⟨.candidate, [], false, true, false, false, c.defaultPresentation⟩

def resolveDefault (c : Config) (f : Filter) : Filter :=
  if f.resolved then f else { f with presentation := c.defaultPresentation, recognized := false, resolved := true }

def appendReserved (c : Config) (f : Filter) (text : JsString) : Filter :=
  if f.reservedOverlong then f
  else
    let buffer := f.buffer ++ text
    if c.maxBytes < buffer.utf8Length then { f with buffer := [], reservedOverlong := true } else { f with buffer }

/-- What a finished reserved line selects, where it is the first line. -/
def selectReserved (c : Config) (f : Filter) : Filter :=
  if f.firstLine then
    if f.reservedOverlong then f.resolveDefault c
    else
      match exactDirective c f.buffer with
      | some (body, face) =>
        if body ∈ BODY_VALUES ∧ face ∈ FACE_VALUES then
          { f with presentation := c.cue body face, recognized := true, resolved := true }
        else f.resolveDefault c
      | none => f.resolveDefault c
  else f

def finishReservedLine (c : Config) (f : Filter) : Filter :=
  { f.selectReserved c with buffer := [], reservedOverlong := false, firstLine := false, state := .candidate }

/-- One character of a line that is not decided yet. -/
def examine (c : Config) (f : Filter) (character : UInt16) : Filter × JsString :=
  let buffer := f.buffer ++ [character]
  let remainder := buffer.dropWhile isIndent
  if remainder ≠ [] ∧ (remainder.isPrefixOf c.reservedPrefix ∨ c.reservedPrefix.isPrefixOf remainder) then
    ({ f with buffer, state := if c.reservedPrefix.isPrefixOf remainder then .reserved else f.state }, [])
  else if remainder = [] ∧ buffer.all isIndent ∧ buffer.utf8Length ≤ c.maxBytes then ({ f with buffer }, [])
  else
    let f := if f.firstLine then f.resolveDefault c else f
    if character = lineFeed then ({ f with buffer := [], firstLine := false, state := .candidate }, buffer)
    else ({ f with buffer := [], state := .ordinary }, buffer)

/-- `push(delta)`: the filter afterwards and the text it emits. -/
def push (c : Config) (f : Filter) (delta : JsString) : Filter × JsString :=
  match delta with
  | [] => (f, [])
  | character :: rest =>
    match f.state with
    | .ordinary =>
      match cut : cutLine (character :: rest) with
      | none => (f, character :: rest)
      | some (line, others) =>
        have : others.length < rest.length + 1 := cutLine_length cut
        let (next, output) := push c { f with firstLine := false, state := .candidate, buffer := [] } others
        (next, line ++ output)
    | .reserved =>
      match cut : cutLine (character :: rest) with
      | none => (f.appendReserved c (character :: rest), [])
      | some (line, others) =>
        have : others.length < rest.length + 1 := cutLine_length cut
        push c ((f.appendReserved c line).finishReservedLine c) others
    | .candidate =>
      let (next, emitted) := f.examine c character
      let (last, output) := push c next rest
      (last, emitted ++ output)
termination_by delta.length

def finish (c : Config) (f : Filter) : Filter × JsString :=
  match f.state with
  | .ordinary => (f.resolveDefault c, [])
  | .reserved =>
    let f := { f with buffer := [], reservedOverlong := false }
    (if f.firstLine then f.resolveDefault c else f, [])
  | .candidate =>
    let remainder := f.buffer.dropWhile isIndent
    if remainder ≠ [] ∧ remainder.isPrefixOf c.reservedPrefix then
      let f := { f with buffer := [] }
      (if f.firstLine then f.resolveDefault c else f, [])
    else ({ f with buffer := [] }.resolveDefault c, f.buffer)

/-- The chunks of a stream, one `push` each. -/
def feed (c : Config) (f : Filter) : List JsString → Filter × JsString
  | [] => (f, [])
  | chunk :: rest =>
    let (next, emitted) := f.push c chunk
    let (last, output) := feed c next rest
    (last, emitted ++ output)

end Filter

/-- What a text comes to: the emitted text and the filter's answers. -/
structure Sanitized where
  text : JsString
  presentation : Presentation
  recognized : Bool
deriving DecidableEq

/-- The answers of a filter that has emitted some text and is finished now. -/
def conclude (c : Config) (f : Filter) (emitted : JsString) : Sanitized :=
  let (last, output) := f.finish c
  ⟨emitted ++ output, last.presentation, last.recognized⟩

def sanitizePresentationText (c : Config) (text : JsString) : Sanitized :=
  let (f, emitted) := (Filter.initial c).push c text
  conclude c f emitted

def sanitizeChunks (c : Config) (chunks : List JsString) : Sanitized :=
  let (f, emitted) := (Filter.initial c).feed c chunks
  conclude c f emitted

end PersistentHarness.PresentationDirective
