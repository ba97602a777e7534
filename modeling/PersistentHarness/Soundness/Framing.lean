import PersistentHarness.Lib.Checked
import PersistentHarness.Model.Framing

/-! # JSON lines are cut anywhere

The decoder is a reader of single bytes: where the chunks are cut makes no difference. Read byte by byte, the
line of a frame is the frame, and it is too long for the reader exactly when it is too long for the encoder.
-/

namespace PersistentHarness.Framing

open Json (unit)

/-! ## Reading single bytes -/

section Reading

variable {maxFrameBytes : ℕ}

def readByte (maxFrameBytes : ℕ) (line : Bytes) (byte : UInt8) : Except FrameError (Bytes × List Value) :=
  if byte = newline then
    if line = [] then .error .emptyFrame else (JsonLineDecoder.parseLine line).map fun value => ([], [value])
  else if maxFrameBytes < line.length + 1 then .error (.tooLarge maxFrameBytes)
  else .ok (line ++ [byte], [])

/-- What follows the bytes of a line: the line it leaves open, and the values of those it ends. -/
def readBytes (maxFrameBytes : ℕ) (line : Bytes) : Bytes → Except FrameError (Bytes × List Value)
  | [] => .ok (line, [])
  | byte :: rest => do
    let (line, values) ← readByte maxFrameBytes line byte
    let (line, more) ← readBytes maxFrameBytes line rest
    pure (line, values ++ more)

theorem readBytes_append (line first second : Bytes) :
    readBytes maxFrameBytes line (first ++ second) = (do
      let (line, values) ← readBytes maxFrameBytes line first
      let (line, more) ← readBytes maxFrameBytes line second
      pure (line, values ++ more)) := by
  induction first generalizing line with
  | nil =>
    rw [List.nil_append, readBytes, Checked.ok_bind]
    dsimp only
    cases readBytes maxFrameBytes line second <;> rfl
  | cons byte rest ih =>
    rw [List.cons_append, readBytes, readBytes]
    cases readByte maxFrameBytes line byte with
    | error e => rfl
    | ok one =>
      simp only [Checked.ok_bind, ih]
      cases readBytes maxFrameBytes one.1 rest with
      | error e => rfl
      | ok two =>
        simp only [Checked.ok_bind, pure_bind]
        cases readBytes maxFrameBytes two.1 second with
        | error e => rfl
        | ok three => simp only [Checked.ok_bind, pure_bind, List.append_assoc]

/-- Bytes without a newline lengthen the line as far as it may go. -/
theorem readBytes_part {part : Bytes} (within : newline ∉ part) {line : Bytes} (fits : line.length ≤ maxFrameBytes) :
    readBytes maxFrameBytes line part =
      if maxFrameBytes < (line ++ part).length then .error (.tooLarge maxFrameBytes) else .ok (line ++ part, []) := by
  induction part generalizing line with
  | nil => rw [List.append_nil, if_neg (by omega), readBytes]
  | cons byte rest ih =>
    rw [List.mem_cons, not_or] at within
    rw [readBytes, readByte, if_neg (Ne.symm within.1)]
    by_cases large : maxFrameBytes < line.length + 1
    · rw [if_pos large, if_pos (by simp; omega)]
      rfl
    · rw [if_neg large, Checked.ok_bind]
      simp only [@ih within.2 (line ++ [byte]) (by simp; omega), List.append_assoc, List.singleton_append]
      split <;> rfl

end Reading

/-! ## The decoder reads single bytes -/

section Decoding

variable {maxFrameBytes : ℕ} {decoder : JsonLineDecoder} {line : Bytes}

/-- The parts of a decoder are a line that fits. -/
structure Holds (maxFrameBytes : ℕ) (decoder : JsonLineDecoder) (line : Bytes) : Prop where
  limit : decoder.maxFrameBytes = maxFrameBytes
  parts : decoder.parts.flatten = line
  bytes : decoder.bytes = line.length
  fits : line.length ≤ maxFrameBytes

/-- What a decoder does, as the reader of single bytes sees it. -/
def Follows (maxFrameBytes : ℕ) (before : List Value) (done : JsonLineDecoder × Except FrameError (List Value)) :
    Except FrameError (Bytes × List Value) → Prop
  | .error e => done.2 = .error e
  | .ok (line, values) => done.2 = .ok (before ++ values) ∧ Holds maxFrameBytes done.1 line

theorem holds_new (maxFrameBytes : ℕ) : Holds maxFrameBytes (.new maxFrameBytes) [] := ⟨rfl, rfl, rfl, Nat.zero_le _⟩

/-- A part without a newline is appended exactly when the line fits. -/
theorem append_spec (holds : Holds maxFrameBytes decoder line) (part : Bytes) :
    if maxFrameBytes < (line ++ part).length then (decoder.append part).2 = .error (.tooLarge maxFrameBytes)
    else (decoder.append part).2 = .ok () ∧ Holds maxFrameBytes (decoder.append part).1 (line ++ part) := by
  obtain ⟨limit, parts, bytes, fits⟩ := holds
  unfold JsonLineDecoder.append
  by_cases empty : part = []
  · rw [if_pos empty, empty, List.append_nil, if_neg (by omega)]
    exact ⟨rfl, limit, parts, bytes, fits⟩
  · rw [if_neg empty]
    dsimp only
    rw [limit, bytes, List.length_append]
    by_cases large : maxFrameBytes < line.length + part.length
    · rw [if_pos large, if_pos large]
    · rw [if_neg large, if_neg large]
      refine ⟨rfl, rfl, ?_, ?_, ?_⟩
      · rw [List.flatten_append, parts, List.flatten_singleton]
      · rw [List.length_append]
      · rw [List.length_append]
        omega

theorem endLine_spec (holds : Holds maxFrameBytes decoder line) :
    if line = [] then decoder.endLine.2 = .error .emptyFrame
    else decoder.endLine.2 = JsonLineDecoder.parseLine line ∧ Holds maxFrameBytes decoder.endLine.1 [] := by
  obtain ⟨limit, parts, bytes, fits⟩ := holds
  unfold JsonLineDecoder.endLine
  by_cases empty : line = []
  · rw [if_pos empty, if_pos (by rw [bytes, empty, List.length_nil])]
  · rw [if_neg empty, if_neg (by rw [bytes, List.length_eq_zero_iff]; exact empty), parts]
    exact ⟨rfl, limit, rfl, rfl, Nat.zero_le _⟩

theorem pushFrom_spec (holds : Holds maxFrameBytes decoder line) (values : List Value) {part : Bytes} (within : newline ∉ part)
    (rest : Bytes) :
    Follows maxFrameBytes values (decoder.pushFrom values part rest) (readBytes maxFrameBytes line (part ++ rest)) := by
  induction rest generalizing decoder line values part with
  | nil =>
    have appended := append_spec holds part
    rw [List.append_nil, readBytes_part within holds.fits, JsonLineDecoder.pushFrom]
    generalize decoder.append part = done at appended ⊢
    obtain ⟨next, outcome⟩ := done
    split at appended
    · next large =>
      rw [if_pos large, show outcome = _ from appended]
      rfl
    · next fits =>
      obtain ⟨ok, holds⟩ := appended
      rw [if_neg fits, show outcome = _ from ok]
      exact ⟨(List.append_nil values).symm ▸ rfl, holds⟩
  | cons byte rest ih =>
    rw [JsonLineDecoder.pushFrom]
    by_cases ends : byte = newline
    · rw [if_pos ends, readBytes_append, readBytes_part within holds.fits, ends]
      have appended := append_spec holds part
      generalize decoder.append part = done at appended ⊢
      obtain ⟨next, outcome⟩ := done
      split at appended
      · next large =>
        rw [if_pos large, show outcome = _ from appended]
        rfl
      · next fits =>
        obtain ⟨ok, holds⟩ := appended
        rw [if_neg fits, show outcome = _ from ok, Checked.ok_bind]
        dsimp only
        rw [readBytes, readByte, if_pos rfl]
        have ended := endLine_spec holds
        generalize next.endLine = done at ended ⊢
        obtain ⟨last, parsed⟩ := done
        split at ended
        · next empty =>
          rw [if_pos empty, show parsed = _ from ended]
          rfl
        · next nonempty =>
          obtain ⟨same, holds⟩ := ended
          rw [if_neg nonempty, show parsed = _ from same]
          cases JsonLineDecoder.parseLine (line ++ part) with
          | error e => rfl
          | ok value =>
            have later := @ih _ _ holds (values ++ [value]) [] List.not_mem_nil
            rw [List.nil_append] at later
            cases read : readBytes maxFrameBytes [] rest with
            | error e =>
              rw [read] at later
              simp only [Except.map, Checked.ok_bind, read, Checked.error_bind]
              exact later
            | ok done =>
              rw [read] at later
              simp only [Except.map, Checked.ok_bind, read, pure_bind, List.nil_append]
              exact ⟨later.1.trans (by rw [List.append_assoc]), later.2⟩
    · rw [if_neg ends]
      have further : newline ∉ part ++ [byte] := by simp [within, Ne.symm ends]
      have same : part ++ byte :: rest = part ++ [byte] ++ rest := by simp
      rw [same]
      exact ih holds values further

theorem pushAll_spec (holds : Holds maxFrameBytes decoder line) (chunks : List Bytes) :
    Follows maxFrameBytes [] (decoder.pushAll chunks) (readBytes maxFrameBytes line chunks.flatten) := by
  induction chunks generalizing decoder line with
  | nil => exact ⟨rfl, holds⟩
  | cons chunk rest ih =>
    have first := @pushFrom_spec _ _ _ holds [] [] List.not_mem_nil chunk
    rw [List.flatten_cons, readBytes_append, JsonLineDecoder.pushAll, JsonLineDecoder.push]
    rw [List.nil_append] at first
    generalize decoder.pushFrom [] [] chunk = done at first ⊢
    obtain ⟨next, outcome⟩ := done
    cases read : readBytes maxFrameBytes line chunk with
    | error e =>
      rw [read] at first
      rw [show outcome = _ from first]
      rfl
    | ok reads =>
      rw [read] at first
      obtain ⟨ok, holds⟩ := first
      rw [show outcome = _ from ok, Checked.ok_bind]
      have later := ih holds
      dsimp only
      generalize next.pushAll rest = done at later ⊢
      obtain ⟨last, outcome⟩ := done
      cases read : readBytes maxFrameBytes reads.1 rest.flatten with
      | error e =>
        rw [read] at later
        rw [show outcome = _ from later]
        rfl
      | ok more =>
        rw [read] at later
        rw [show outcome = _ from later.1]
        exact ⟨rfl, later.2⟩

end Decoding

section Frames

variable {maxFrameBytes : ℕ} {frame : Value}

/-- The line of a frame, without its newline. -/
def frameBytes (frame : Value) : Bytes := Utf8.encode (frameText frame)

theorem printable_frameText (frame : Value) : Utf8.Printable (frameText frame) := by
  unfold frameText
  cases shown : Json.stringify? frame with
  | none => exact Json.printable_of_all (by decide)
  | some text => exact Json.printable_stringify frame text shown

theorem ink_frameBytes (frame : Value) {byte : UInt8} (control : byte < 0x20) : byte ∉ frameBytes frame :=
  fun member => absurd control (UInt8.not_lt.mpr (Utf8.ink_of_printable (printable_frameText frame) byte member))

/-- The encoder refuses exactly the lines that are too long. -/
theorem encodeFrame_eq (maxFrameBytes : ℕ) (frame : Value) : encodeFrame maxFrameBytes frame =
    if maxFrameBytes < (frameBytes frame).length then .error (.tooLarge maxFrameBytes)
    else .ok (frameBytes frame ++ [newline]) := by
  have ended : Utf8.encode (frameText frame ++ [unit '\n']) = frameBytes frame ++ [newline] :=
    Utf8.encode_concat (printable_frameText frame) _
  unfold encodeFrame
  dsimp only
  rw [ended, List.length_append, List.length_singleton, Nat.add_sub_cancel]

theorem parseLine_frameBytes (defined : frame ≠ .undefined) :
    JsonLineDecoder.parseLine (frameBytes frame) = .ok (Json.readBack frame) := by
  obtain ⟨_, _, shown, _⟩ := Json.exists_stringify defined
  obtain ⟨u, rest, text, ascii⟩ := Json.ascii_head shown
  have same : frameText frame = u :: rest := by rw [frameText, shown, Option.getD_some, text]
  have decoded : Utf8.decode (frameBytes frame) = some (u :: rest) := by
    have printable := printable_frameText frame
    rw [same] at printable
    rw [frameBytes, same, Utf8.decode_encode printable ascii]
  have parsed : Json.parse (u :: rest) = some (Json.readBack frame) := by
    rw [← Json.parse_stringify_readBack defined, Json.stringify, shown, Option.getD_some, text]
  have nonempty : frameBytes frame ≠ [] := by
    intro empty
    rw [empty] at decoded
    cases decoded
  have noReturn : (frameBytes frame).getLast? ≠ some carriageReturn :=
    fun last => ink_frameBytes frame (by decide) (List.mem_of_getLast? last)
  unfold JsonLineDecoder.parseLine
  dsimp only
  rw [if_neg noReturn, if_neg nonempty, decoded]
  dsimp only
  rw [parsed]

/-- The line of a frame is too long for the reader exactly when it is too long for the encoder. -/
theorem readBytes_frame (maxFrameBytes : ℕ) (frame : Value) (rest : Bytes) :
    readBytes maxFrameBytes [] (frameBytes frame ++ newline :: rest) =
      if maxFrameBytes < (frameBytes frame).length then .error (.tooLarge maxFrameBytes)
      else readBytes maxFrameBytes (frameBytes frame) (newline :: rest) := by
  rw [readBytes_append, readBytes_part (ink_frameBytes frame (by decide)) (Nat.zero_le _), List.nil_append]
  split
  · rfl
  · rw [Checked.ok_bind]
    dsimp only
    cases readBytes maxFrameBytes (frameBytes frame) (newline :: rest) <;> rfl

theorem readBytes_newline (defined : frame ≠ .undefined) (rest : Bytes) :
    readBytes maxFrameBytes (frameBytes frame) (newline :: rest) =
      (readBytes maxFrameBytes [] rest).map fun done => (done.1, Json.readBack frame :: done.2) := by
  have parsed := parseLine_frameBytes defined
  have nonempty : frameBytes frame ≠ [] := by
    intro empty
    rw [empty] at parsed
    cases parsed
  rw [readBytes, readByte, if_pos rfl, if_neg nonempty, parsed]
  simp only [Except.map, Checked.ok_bind]
  cases readBytes maxFrameBytes [] rest <;> rfl

theorem parseLine_ne_tooLarge (line : Bytes) (limit : ℕ) : JsonLineDecoder.parseLine line ≠ .error (.tooLarge limit) := by
  unfold JsonLineDecoder.parseLine
  dsimp only
  generalize (if line.getLast? = some carriageReturn then line.dropLast else line) = shortened
  split
  · simp
  · split
    · simp
    · split <;> simp

theorem readBytes_ended_ne_tooLarge (line : Bytes) (limit : ℕ) :
    readBytes maxFrameBytes line [newline] ≠ .error (.tooLarge limit) := by
  have parsed := parseLine_ne_tooLarge line limit
  rw [readBytes, readByte, if_pos rfl]
  split
  · simp
  · cases outcome : JsonLineDecoder.parseLine line with
    | error e =>
      rw [outcome] at parsed
      simpa [Except.map] using parsed
    | ok value => simp [Except.map, readBytes, pure, Except.pure]

theorem readBytes_frames {frames : List Value} {payloads : List Bytes}
    (accepted : List.Forall₂ (fun frame payload => encodeFrame maxFrameBytes frame = .ok payload) frames payloads)
    (defined : ∀ frame ∈ frames, frame ≠ .undefined) (rest : Bytes) :
    readBytes maxFrameBytes [] (payloads.flatten ++ rest) =
      (readBytes maxFrameBytes [] rest).map fun done => (done.1, frames.map Json.readBack ++ done.2) := by
  induction accepted with
  | nil =>
    rw [List.flatten_nil, List.nil_append]
    cases readBytes maxFrameBytes [] rest <;> rfl
  | @cons frame payload frames payloads encoded _ ih =>
    rw [encodeFrame_eq] at encoded
    split at encoded
    · cases encoded
    · next fits =>
      cases encoded
      rw [List.flatten_cons, List.append_assoc, List.append_assoc, List.singleton_append, readBytes_frame, if_neg fits,
        readBytes_newline (defined frame (by simp)), ih fun frame member => defined frame (by simp [member])]
      cases readBytes maxFrameBytes [] rest <;> rfl

end Frames

section Claims

/-- The chunks of accepted frames are read back as those frames, however they are cut, and nothing is left over. A
line that is too long is refused by both sides, and at the same length. -/
theorem frames_delivered (maxFrameBytes : ℕ) (frames : List Value) (payloads : List Bytes)
    (accepted : List.Forall₂ (fun frame payload => encodeFrame maxFrameBytes frame = .ok payload) frames payloads)
    (defined : ∀ frame ∈ frames, frame ≠ .undefined) :
    (∀ chunks, chunks.flatten = payloads.flatten →
      ((JsonLineDecoder.new maxFrameBytes).pushAll chunks).2 = .ok (frames.map Json.readBack)
        ∧ ((JsonLineDecoder.new maxFrameBytes).pushAll chunks).1.finish = .ok ())
    ∧ (∀ frame ∈ frames, Json.IsData frame → Json.readBack frame = Json.carried frame)
    ∧ ∀ frame, (encodeFrame maxFrameBytes frame = .error (.tooLarge maxFrameBytes) ↔ maxFrameBytes < (frameBytes frame).length)
      ∧ ∀ chunks, chunks.flatten = payloads.flatten ++ (frameBytes frame ++ [newline]) →
        (((JsonLineDecoder.new maxFrameBytes).pushAll chunks).2 = .error (.tooLarge maxFrameBytes)
          ↔ maxFrameBytes < (frameBytes frame).length) := by
  refine ⟨fun chunks cut => ?_, fun frame _ data => Json.readBack_of_isData frame data, fun frame => ⟨?_, fun chunks cut => ?_⟩⟩
  · have spec := pushAll_spec (holds_new maxFrameBytes) chunks
    rw [cut, ← List.append_nil payloads.flatten, readBytes_frames accepted defined] at spec
    obtain ⟨values, holds⟩ := spec
    refine ⟨values.trans (by rw [List.nil_append, List.append_nil]), ?_⟩
    rw [JsonLineDecoder.finish, holds.bytes]
    rfl
  · rw [encodeFrame_eq]
    split
    · next large => exact ⟨fun _ => large, fun _ => rfl⟩
    · next fits => exact ⟨by rintro ⟨⟩, fun large => absurd large fits⟩
  · have spec := pushAll_spec (holds_new maxFrameBytes) chunks
    rw [cut, readBytes_frames accepted defined, readBytes_frame] at spec
    have ended := @readBytes_ended_ne_tooLarge maxFrameBytes (frameBytes frame) maxFrameBytes
    by_cases large : maxFrameBytes < (frameBytes frame).length
    · rw [if_pos large] at spec
      exact ⟨fun _ => large, fun _ => spec⟩
    · rw [if_neg large] at spec
      refine ⟨fun refused => ?_, fun longer => absurd longer large⟩
      cases read : readBytes maxFrameBytes (frameBytes frame) [newline] with
      | error e =>
        rw [read] at spec ended
        have same : e = .tooLarge maxFrameBytes := Except.error.inj (spec.symm.trans refused)
        exact absurd (congrArg Except.error same) ended
      | ok done =>
        rw [read] at spec
        exact absurd (spec.1.symm.trans refused) (by simp)

/-- Two frames, one with a character of three bytes, fill the limit exactly. -/
def sampleFrames : List Value := [.record [("type", Value.text "ping")], .record [("text", Value.text "\u20ac")]]

theorem frames_delivered_sample :
    ((JsonLineDecoder.new 15).pushAll (sampleFrames.map fun frame => frameBytes frame ++ [newline])).2
        = .ok (sampleFrames.map Json.readBack)
      ∧ ((JsonLineDecoder.new 15).pushAll (sampleFrames.map fun frame => frameBytes frame ++ [newline])).1.finish = .ok () :=
  (frames_delivered 15 sampleFrames _ (by
    refine .cons ?_ (.cons ?_ .nil)
    · rw [encodeFrame_eq, if_neg (by decide +kernel)]
    · rw [encodeFrame_eq, if_neg (by decide +kernel)]) (by simp [sampleFrames, Value.record])).1 _ rfl

end Claims

end PersistentHarness.Framing
