import PersistentHarness.Data.TextDecoder

/-! # The output of a shell command

Both streams of a command are decoded as their chunks arrive, and their texts share one budget of bytes. A text that does not
fit is cut between two characters and followed by a marker, and nothing is kept after it.
-/

namespace PersistentHarness.ShellOutput

open Utf8 (StringDecoder textBytes cut)

def maxShellCaptureBytes : ℕ := 64 * 1024

/-- `Number.MAX_SAFE_INTEGER`. -/
def maxSafeInteger : ℕ := 9007199254740991

def shellTruncationMarker : List Char := "\n... output truncated at 65536-byte capture limit ...\n".toList

def markerBytes : ℕ := textBytes shellTruncationMarker

def dataBudget : ℤ := maxShellCaptureBytes - markerBytes

def truncateUtf8 (text : List Char) (maxBytes : ℤ) : List Char :=
  if maxBytes ≤ 0 then [] else if textBytes text ≤ maxBytes then text else cut maxBytes.toNat text

inductive Stream where
  | stdout
  | stderr
deriving DecidableEq, Repr

/-- `onProgress`: what the call throws that ends these calls. -/
abbrev OnProgress := List (Stream × List Char) → Option JsString

/-- The variables of `runShell` that its output is captured in. -/
structure Capture where
  decoders : Stream → StringDecoder
  stdout : List Char
  stderr : List Char
  totalBytes : ℕ
  progressBytes : ℕ
  emittedDataBytes : ℕ
  truncated : Bool
  markerEmitted : Bool
  progressError : Option JsString
  /-- The calls of `onProgress`. -/
  published : List (Stream × List Char)

namespace Capture

def initial : Capture where
  decoders _ := .empty
  stdout := []
  stderr := []
  totalBytes := 0
  progressBytes := 0
  emittedDataBytes := 0
  truncated := false
  markerEmitted := false
  progressError := none
  published := []

/-- The text that is kept of a stream. -/
def captured (c : Capture) : Stream → List Char
  | .stdout => c.stdout
  | .stderr => c.stderr

/-- A text is kept behind those of its stream. -/
def keep (c : Capture) : Stream → List Char → Capture
  | .stderr, text => { c with stderr := c.stderr ++ text }
  | .stdout, text => { c with stdout := c.stdout ++ text }

def emit (onProgress : OnProgress) (c : Capture) (stream : Stream) (text : List Char) : Capture :=
  if text = [] ∨ c.progressError.isSome then c
  else
    let published := c.published ++ [(stream, text)]
    { c.keep stream text with
      progressBytes := c.progressBytes + textBytes text
      published
      progressError := onProgress published }

def emitMarker (onProgress : OnProgress) (c : Capture) (stream : Stream) : Capture :=
  if c.markerEmitted ∨ c.progressError.isSome then c
  else emit onProgress { c with markerEmitted := true, truncated := true } stream shellTruncationMarker

def captureText (onProgress : OnProgress) (c : Capture) (stream : Stream) (text : List Char) : Capture :=
  if text = [] ∨ c.markerEmitted ∨ c.progressError.isSome then c
  else
    let available := dataBudget - c.emittedDataBytes
    let bounded := truncateUtf8 text available
    let boundedBytes := textBytes bounded
    let c := if 0 < boundedBytes then
        emit onProgress { c with emittedDataBytes := c.emittedDataBytes + boundedBytes } stream bounded
      else c
    if boundedBytes < textBytes text then emitMarker onProgress c stream else c

def setDecoder (c : Capture) (stream : Stream) (decoder : StringDecoder) : Capture :=
  { c with decoders := Function.update c.decoders stream decoder }

def capture (onProgress : OnProgress) (c : Capture) (stream : Stream) (chunk : Bytes) : Capture :=
  let (decoder, text) := (c.decoders stream).write chunk
  captureText onProgress
    { c.setDecoder stream decoder with totalBytes := min maxSafeInteger (c.totalBytes + chunk.length) } stream text

end Capture

/-- What the two pipes of the command report. -/
inductive Event where
  | data (stream : Stream) (chunk : Bytes)
  | end_ (stream : Stream)
deriving DecidableEq, Repr

def Event.stream : Event → Stream
  | data stream _ => stream
  | end_ stream => stream

/-- The listeners of the pipes. -/
def Capture.step (onProgress : OnProgress) (c : Capture) : Event → Capture
  | .data stream chunk => c.capture onProgress stream chunk
  | .end_ stream =>
    let (decoder, text) := (c.decoders stream).finish
    captureText onProgress (c.setDecoder stream decoder) stream text

/-- The members of the answer that are about the output. -/
structure Result where
  stdout : List Char
  stderr : List Char
  truncated : Bool
  totalBytes : ℕ
  capturedBytes : ℕ
  progressBytes : ℕ
deriving DecidableEq

def Capture.close (c : Capture) : Except JsString Result :=
  match c.progressError with
  | some progressError => .error progressError
  | none => .ok {
      stdout := c.stdout
      stderr := c.stderr
      truncated := c.truncated
      totalBytes := c.totalBytes
      capturedBytes := textBytes c.stdout + textBytes c.stderr
      progressBytes := c.progressBytes }

/-- The listeners over what the pipes of a command report. -/
def capturing (onProgress : OnProgress) (events : List Event) : Capture := events.foldl (Capture.step onProgress) .initial

/-- `runShell`, from the first chunk of its command to the close of both pipes. -/
def runShell (onProgress : OnProgress) (events : List Event) : Except JsString Result := (capturing onProgress events).close

/-- What two pipes report until both have ended. -/
structure Arrivals where
  events : List Event
  ended : ∀ stream, ∃ chunks : List Bytes,
    events.filter (fun event => event.stream = stream) = chunks.map (.data stream) ++ [.end_ stream]

def received (stream : Stream) (events : List Event) : Bytes :=
  events.flatMap fun
    | .data from_ chunk => if from_ = stream then chunk else []
    | .end_ _ => []

/-- The texts of a stream, one behind the other. -/
def pieces (stream : Stream) (published : List (Stream × List Char)) : List Char :=
  published.flatMap fun piece => if piece.1 = stream then piece.2 else []

end PersistentHarness.ShellOutput
