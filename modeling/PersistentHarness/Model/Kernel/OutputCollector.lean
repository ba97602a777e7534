import PersistentHarness.Data.TextDecoder

/-! # The output collector of a cell

The two byte streams of the Python process arrive in chunks, each decoded on its own, and rich results arrive as
MIME records. The text of a stream is kept up to a number of bytes, the records up to a number of bytes of JSON,
and both are listed in the order they arrived.
-/

namespace PersistentHarness.Kernel

open Json

def KERNEL_FRAME_BYTES : ℤ := 1024 * 1024

inductive StreamName where
  | stdout
  | stderr
deriving DecidableEq, Repr

inductive Output where
  | text (text : JsString)
  | mime (mime : Value)
deriving DecidableEq

/-- What is kept of a stream. -/
structure Captured where
  text : JsString := []
  bytes : ℕ := 0
  truncated : Bool := false
deriving DecidableEq

structure StreamResult where
  stdout : JsString
  stderr : JsString
  truncated : Bool
  totalBytes : ℕ
deriving DecidableEq

structure Update where
  stream : StreamName
  text : JsString
  result : StreamResult
deriving DecidableEq

structure OutputCollector where
  maxBytes : ℕ
  stdout : Captured := {}
  stderr : Captured := {}
  totalBytes : ℕ := 0
  outputs : List Output := []
  mime : Value := .null
  richOutputBytes : ℤ := 0
  richOutputLimit : ℤ := KERNEL_FRAME_BYTES
  richTruncated : Bool := false
  updates : List Update := []
deriving DecidableEq

def marker (maxBytes : ℕ) : JsString := js "\n[... output truncated at " ++ decimal maxBytes ++ js " bytes ...]"

def richMarker (richOutputLimit : ℤ) : JsString :=
  js "\n[... rich output truncated at " ++ integerText richOutputLimit ++ js " bytes ...]"

/-- `Buffer.byteLength(JSON.stringify(record))` for a record of `mime`. -/
def recordBytes (mime : Value) : ℤ := JsString.utf8Length (stringify (Value.record [("mime", mime)]))

/-- `while (end > 0 && (bytes[end] & 0xc0) === 0x80) end -= 1`. -/
def backUp (bytes : Bytes) : ℕ → ℕ
  | 0 => 0
  | last + 1 => if (bytes[last + 1]?).any (· &&& 0xC0 = 0x80) then backUp bytes last else last + 1

/-- The text of a list of outputs, joined to its last entry where that is text. -/
def joinText (outputs : List Output) (text : JsString) : List Output :=
  match outputs.getLast? with
  | some (.text last) => outputs.dropLast ++ [.text (last ++ text)]
  | _ => outputs ++ [.text text]

/-- The loop that reclaims the oldest records: the bytes that stay, the entries that stay, and where the first one went. -/
structure Reclaimed where
  richOutputBytes : ℤ
  retained : List Output
  firstRemoved : Option ℕ

def Reclaimed.step (bytes limit : ℤ) (loop : Reclaimed) (previous : Output) : Reclaimed :=
  match previous with
  | .mime mime =>
    if loop.richOutputBytes + bytes > limit then
      { loop with
        richOutputBytes := loop.richOutputBytes - recordBytes mime
        firstRemoved := some (loop.firstRemoved.getD loop.retained.length) }
    else { loop with retained := loop.retained ++ [previous] }
  | .text _ => { loop with retained := loop.retained ++ [previous] }

namespace OutputCollector

def captured (collector : OutputCollector) : StreamName → Captured
  | .stdout => collector.stdout
  | .stderr => collector.stderr

def setCaptured (collector : OutputCollector) (stream : StreamName) (captured : Captured) : OutputCollector :=
  match stream with
  | .stdout => { collector with stdout := captured }
  | .stderr => { collector with stderr := captured }

def addText (collector : OutputCollector) (text : JsString) : OutputCollector :=
  if text = [] then collector else { collector with outputs := joinText collector.outputs text }

def reported (collector : OutputCollector) (stream : StreamName) : JsString :=
  (collector.captured stream).text ++ if (collector.captured stream).truncated then marker collector.maxBytes else []

def streamResult (collector : OutputCollector) : StreamResult where
  stdout := collector.reported .stdout
  stderr := collector.reported .stderr
  truncated := collector.stdout.truncated || collector.stderr.truncated || collector.richTruncated
  totalBytes := collector.totalBytes

def onUpdate (collector : OutputCollector) (stream : StreamName) (text : JsString) : OutputCollector :=
  if text = [] then collector else { collector with updates := collector.updates ++ [⟨stream, text, collector.streamResult⟩] }

def add (collector : OutputCollector) (stream : StreamName) (chunk : Bytes) : OutputCollector :=
  let bytes := Utf8.encode (Utf8.toText chunk)
  let collector := { collector with totalBytes := collector.totalBytes + bytes.length }
  let key := collector.captured stream
  if key.truncated then collector
  else
    let remaining := collector.maxBytes - key.bytes
    let retained := bytes.take (backUp bytes (min bytes.length remaining))
    let captured := Utf8.toText retained
    let truncated : Bool := remaining < bytes.length
    let kept := (collector.setCaptured stream ⟨key.text ++ captured, key.bytes + retained.length, truncated⟩).addText captured
    if truncated then (kept.addText (marker collector.maxBytes)).onUpdate stream (captured ++ marker collector.maxBytes)
    else kept.onUpdate stream captured

/-- `truncateRich(index)`, at the end of `outputs` where no index is given. -/
def truncateRich (collector : OutputCollector) (index : ℕ) : OutputCollector :=
  if collector.richTruncated then collector
  else
    let text := richMarker collector.richOutputLimit
    let collector := { collector with richTruncated := true }
    if index = collector.outputs.length then collector.addText text
    else { collector with outputs := collector.outputs.take index ++ .text text :: collector.outputs.drop index }

/-- The oldest records make room for a final result. -/
def reclaim (collector : OutputCollector) (bytes : ℤ) : OutputCollector :=
  if collector.richOutputBytes + bytes > collector.richOutputLimit then
    let loop := collector.outputs.foldl (Reclaimed.step bytes collector.richOutputLimit)
      ⟨collector.richOutputBytes, [], none⟩
    let collector := { collector with richOutputBytes := loop.richOutputBytes, outputs := loop.retained }
    match loop.firstRemoved with
    | some index => collector.truncateRich index
    | none => collector
  else collector

/-- A record with at least one representation. -/
def isRecord (mime : Value) : Bool := mime.isObject && !mime.fields.isEmpty

def addMime (collector : OutputCollector) (mime : Value) (truncated terminal : Bool) : OutputCollector :=
  if truncated then collector.truncateRich collector.outputs.length
  else if !isRecord mime then collector
  else
    let bytes := recordBytes mime
    let collector :=
      if terminal then { collector with richOutputLimit := max KERNEL_FRAME_BYTES bytes }.reclaim bytes
      else if collector.richOutputBytes = 0 then { collector with richOutputLimit := max KERNEL_FRAME_BYTES bytes }
      else collector
    if collector.richOutputBytes + bytes > collector.richOutputLimit then collector.truncateRich collector.outputs.length
    else
      { collector with
        richOutputBytes := collector.richOutputBytes + bytes
        mime := mime
        outputs := collector.outputs ++ [.mime mime] }

end OutputCollector

/-- What reaches the collector of a cell: bytes of the process, and displays and final results of the runtime. -/
inductive Addition where
  | stream (stream : StreamName) (chunk : Bytes)
  | mime (mime : Value) (truncated terminal : Bool)
deriving DecidableEq

def OutputCollector.receive (collector : OutputCollector) : Addition → OutputCollector
  | .stream stream chunk => collector.add stream chunk
  | .mime mime truncated terminal => collector.addMime mime truncated terminal

def collect (maxBytes : ℕ) (additions : List Addition) : OutputCollector :=
  additions.foldl OutputCollector.receive { maxBytes := maxBytes }

def chunks (stream : StreamName) (additions : List Addition) : List Bytes :=
  additions.filterMap fun
    | .stream other chunk => if other = stream then some chunk else none
    | .mime .. => none

end PersistentHarness.Kernel
