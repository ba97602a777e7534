import PersistentHarness.Data.JsonText

/-! # JSON lines

Both ends of a connection frame a message as one line of JSON. The encoder refuses a line that is too long, and
the decoder gathers the parts of a line from the chunks that arrive, counting its bytes on its own.
-/

namespace PersistentHarness.Framing

open Json (unit decimal)

/-- What either side throws: a `ProtocolError`. -/
inductive FrameError where
  | tooLarge (maxFrameBytes : ℕ)
  | emptyFrame
  | notUtf8
  | invalidJson
  | partialFrame
deriving DecidableEq, Repr

namespace FrameError

def code : FrameError → JsString
  | .tooLarge _ => js "frame_too_large"
  | _ => js "malformed_frame"

/-- The message, but for what the engine adds about invalid JSON. -/
def message : FrameError → JsString
  | .tooLarge maxFrameBytes => js "frame exceeds " ++ decimal maxFrameBytes ++ js " bytes"
  | .emptyFrame => js "empty JSONL frame"
  | .notUtf8 => js "frame is not valid UTF-8"
  | .invalidJson => js "invalid JSON: "
  | .partialFrame => js "connection ended with a partial frame"

end FrameError

def newline : UInt8 := 0x0A

def carriageReturn : UInt8 := 0x0D

/-- `JSON.stringify(frame)` in a template. -/
def frameText (frame : Value) : JsString := (Json.stringify? frame).getD (js "undefined")

def encodeFrame (maxFrameBytes : ℕ) (frame : Value) : Except FrameError Bytes :=
  let payload := Utf8.encode (frameText frame ++ [unit '\n'])
  if maxFrameBytes < payload.length - 1 then .error (.tooLarge maxFrameBytes) else .ok payload

/-- The line that has arrived so far, in parts. -/
structure JsonLineDecoder where
  parts : List Bytes
  bytes : ℕ
  maxFrameBytes : ℕ

namespace JsonLineDecoder

def new (maxFrameBytes : ℕ) : JsonLineDecoder := ⟨[], 0, maxFrameBytes⟩

/-- A part is counted before it is refused. -/
def append (decoder : JsonLineDecoder) (part : Bytes) : JsonLineDecoder × Except FrameError Unit :=
  if part = [] then (decoder, .ok ())
  else
    let counted := { decoder with bytes := decoder.bytes + part.length }
    if counted.maxFrameBytes < counted.bytes then (counted, .error (.tooLarge counted.maxFrameBytes))
    else ({ counted with parts := counted.parts ++ [part] }, .ok ())

/-- The value of a line, which may end in a carriage return. -/
def parseLine (line : Bytes) : Except FrameError Value :=
  let line := if line.getLast? = some carriageReturn then line.dropLast else line
  if line = [] then .error .emptyFrame
  else
    match Utf8.decode line with
    | none => .error .notUtf8
    | some text =>
      match Json.parse text with
      | none => .error .invalidJson
      | some value => .ok value

/-- The end of a line: its parts are taken before they are read. -/
def endLine (decoder : JsonLineDecoder) : JsonLineDecoder × Except FrameError Value :=
  if decoder.bytes = 0 then (decoder, .error .emptyFrame)
  else ({ decoder with parts := [], bytes := 0 }, parseLine decoder.parts.flatten)

/-- The rest of a chunk after the bytes of `part`, which reach back to the last newline. -/
def pushFrom (decoder : JsonLineDecoder) (values : List Value) (part : Bytes) :
    Bytes → JsonLineDecoder × Except FrameError (List Value)
  | [] =>
    match decoder.append part with
    | (decoder, .error e) => (decoder, .error e)
    | (decoder, .ok ()) => (decoder, .ok values)
  | byte :: rest =>
    if byte = newline then
      match decoder.append part with
      | (decoder, .error e) => (decoder, .error e)
      | (decoder, .ok ()) =>
        match decoder.endLine with
        | (decoder, .error e) => (decoder, .error e)
        | (decoder, .ok value) => decoder.pushFrom (values ++ [value]) [] rest
    else decoder.pushFrom values (part ++ [byte]) rest

def push (decoder : JsonLineDecoder) (chunk : Bytes) : JsonLineDecoder × Except FrameError (List Value) :=
  decoder.pushFrom [] [] chunk

def finish (decoder : JsonLineDecoder) : Except FrameError Unit :=
  if decoder.bytes ≠ 0 then .error .partialFrame else .ok ()

/-- Push chunks until one of them throws. -/
def pushAll (decoder : JsonLineDecoder) : List Bytes → JsonLineDecoder × Except FrameError (List Value)
  | [] => (decoder, .ok [])
  | chunk :: rest =>
    match decoder.push chunk with
    | (decoder, .error e) => (decoder, .error e)
    | (decoder, .ok values) =>
      match decoder.pushAll rest with
      | (decoder, .error e) => (decoder, .error e)
      | (decoder, .ok more) => (decoder, .ok (values ++ more))

end JsonLineDecoder

end PersistentHarness.Framing
