import PersistentHarness.Data.FatalDecoder

/-! # Server-sent events of a provider

`sse` reads a response in chunks and yields a JSON value for each block of lines. It keeps the text that has no complete
line yet, with a counter of its bytes.
-/

namespace PersistentHarness.EventStream

open Utf8

def CR : UInt16 := 0x0D
def LF : UInt16 := 0x0A

inductive Failure where
  /-- The decoder threw. -/
  | decoding
  | provider_frame_limit
  | invalid_provider_json
deriving DecidableEq, Repr

/-- The variables of `sse`, and what it has yielded. -/
structure State where
  decoder : FatalDecoder
  buffer : JsString
  bufferBytes : ℕ
  data : List JsString
  dataBytes : ℕ
  yielded : List Value

/-- `/\r\n|\r|\n/.exec(buffer)`: the line before the first match, the match, and what is behind it. -/
def exec : JsString → Option (JsString × JsString × JsString)
  | [] => none
  | u :: rest =>
    if u = CR then
      match rest with
      | [] => some ([], [CR], [])
      | v :: more => if v = LF then some ([], [CR, LF], more) else some ([], [CR], v :: more)
    else if u = LF then some ([], [LF], rest)
    else (exec rest).map fun (line, found, behind) => (u :: line, found, behind)

theorem exec_spec {buffer line found behind : JsString} (hit : exec buffer = some (line, found, behind)) :
    buffer = line ++ (found ++ behind) ∧ (found = [CR, LF] ∨ found = [CR] ∧ behind.head? ≠ some LF ∨ found = [LF]) := by
  induction buffer generalizing line with
  | nil => cases hit
  | cons u rest ih =>
    rw [exec.eq_def] at hit
    dsimp only at hit
    split at hit
    next same =>
      subst same
      cases rest with
      | nil =>
        cases hit
        exact ⟨rfl, .inr (.inl ⟨rfl, nofun⟩)⟩
      | cons v more =>
        dsimp only at hit
        split at hit
        next same =>
          subst same
          cases hit
          exact ⟨rfl, .inl rfl⟩
        next different =>
          cases hit
          refine ⟨rfl, .inr (.inl ⟨rfl, ?_⟩)⟩
          rw [List.head?_cons, ne_eq, Option.some.injEq]
          exact different
    next =>
      split at hit
      next same =>
        subst same
        cases hit
        exact ⟨rfl, .inr (.inr rfl)⟩
      next =>
        obtain ⟨⟨before, other, after⟩, earlier, same⟩ := Option.map_eq_some_iff.1 hit
        cases same
        obtain ⟨spelled, shape⟩ := ih earlier
        exact ⟨by rw [spelled]; rfl, shape⟩

theorem exec_shorter {buffer line found behind : JsString} (hit : exec buffer = some (line, found, behind)) :
    behind.length < buffer.length := by
  obtain ⟨spelled, shape⟩ := exec_spec hit
  rw [spelled, List.length_append, List.length_append]
  rcases shape with rfl | ⟨rfl, _⟩ | rfl <;> simp only [List.length_cons, List.length_nil] <;> omega

/-- `line.slice(5).replace(/^ /, "")`. -/
def dataPart (line : JsString) : JsString :=
  match line.drop 5 with
  | 0x20 :: rest => rest
  | part => part

/-- `line.startsWith("data:")`. -/
def isData (line : JsString) : Bool := (js "data:").isPrefixOf line

namespace State

def initial : State := ⟨.initial, [], 0, [], 0, []⟩

/-- A blank line ends a block. -/
def dispatch (s : State) : State × Option Failure :=
  let text := List.intercalate [LF] s.data
  let s := { s with data := [], dataBytes := 0 }
  if text ≠ [] ∧ text ≠ js "[DONE]" then
    match Json.parse text with
    | some value => ({ s with yielded := s.yielded ++ [value] }, none)
    | none => (s, some .invalid_provider_json)
  else (s, none)

def collect (s : State) (line : JsString) : State :=
  if isData line then
    { s with data := s.data ++ [dataPart line], dataBytes := s.dataBytes + (dataPart line).utf8Length }
  else s

/-- The body of the inner loop for one match. -/
def takeLine (limit : ℕ) (s : State) (line found behind : JsString) : State × Option Failure :=
  let s := { s with buffer := behind, bufferBytes := s.bufferBytes - (line.utf8Length + found.length) }
  let (s, failure) := if line = [] then s.dispatch else (s.collect line, none)
  (s, failure.or (if limit < s.bufferBytes + s.dataBytes then some .provider_frame_limit else none))

end State

/-- Where `sse` has got to: its state, the states after every step so far, and the error that ended it. -/
structure Progress where
  state : State
  points : List State
  failure : Option Failure

/-- The text that a dispatch or a collection leaves in the buffer. -/
theorem takeLine_buffer (limit : ℕ) (s : State) (line found behind : JsString) :
    (s.takeLine limit line found behind).1.buffer = behind := by
  unfold State.takeLine
  by_cases blank : line = []
  · simp only [blank, if_true, State.dispatch]
    split
    · split <;> rfl
    · rfl
  · simp only [blank, if_false, State.collect]
    split <;> rfl

/-- The inner loop. A carriage return at the end is kept, since a line feed may follow in the next chunk. -/
def drain (limit : ℕ) (done : Bool) (s : State) : Progress :=
  match hit : exec s.buffer with
  | none => ⟨s, [], if limit < s.bufferBytes then some .provider_frame_limit else none⟩
  | some (line, found, behind) =>
    if !done && found = [CR] && behind = [] then
      ⟨s, [], if limit < s.bufferBytes then some .provider_frame_limit else none⟩
    else
      match taken : s.takeLine limit line found behind with
      | (next, some failure) => ⟨next, [next], some failure⟩
      | (next, none) =>
        have : next.buffer.length < s.buffer.length := by
          have buffer := takeLine_buffer limit s line found behind
          rw [taken] at buffer
          rw [buffer]
          exact exec_shorter hit
        let later := drain limit done next
        ⟨later.state, next :: later.points, later.failure⟩
termination_by s.buffer.length

/-- One turn of the outer loop: `none` is the end of the response. -/
def read (limit : ℕ) (s : State) (value : Option Bytes) : Progress :=
  let decoded :=
    match value with
    | some bytes => s.decoder.decode bytes
    | none => s.decoder.finish
  match decoded with
  | none => ⟨s, [], some .decoding⟩
  | some (decoder, cs) =>
    let text : JsString := cs.flatMap utf16
    let ending : JsString := if value.isNone then [LF, LF] else []
    let next := { s with
      decoder
      buffer := s.buffer ++ text ++ ending
      bufferBytes := s.bufferBytes + text.utf8Length + ending.length }
    let later := drain limit value.isNone next
    ⟨later.state, next :: later.points, later.failure⟩

/-- The chunks of a response, and its end. -/
def sse (limit : ℕ) (s : State) : List Bytes → Progress
  | [] => read limit s none
  | chunk :: rest =>
    let first := read limit s (some chunk)
    match first.failure with
    | some failure => ⟨first.state, first.points, some failure⟩
    | none =>
      let later := sse limit first.state rest
      ⟨later.state, first.points ++ later.points, later.failure⟩

end PersistentHarness.EventStream
