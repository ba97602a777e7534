import PersistentHarness.Model.ShellOutput

/-! # What is captured of a shell command

As long as the texts of both streams fit the budget they are captured as they are. The first one that does not fit is cut, and
the marker behind it is the last text that is captured.
-/

namespace PersistentHarness.ShellOutput

open Utf8 (StringDecoder textBytes cut charBytes decodeChars)

section Cutting

variable (limit : ℕ) (text : List Char)

theorem cut_prefix : cut limit text <+: text := by
  induction text generalizing limit with
  | nil => exact List.prefix_rfl
  | cons c rest ih =>
    rw [cut]
    split
    · exact List.prefix_cons_inj c |>.mpr (ih _)
    · exact List.nil_prefix

theorem cut_bytes : textBytes (cut limit text) ≤ limit := by
  induction text generalizing limit with
  | nil => exact Nat.zero_le limit
  | cons c rest ih =>
    rw [cut]
    split
    · next fits =>
      have kept := ih (limit - (charBytes c).length)
      rw [Utf8.textBytes_cons]
      omega
    · exact Nat.zero_le limit

theorem cut_zero : cut 0 text = [] := by
  cases text with
  | nil => rfl
  | cons c rest =>
    have nonempty := Utf8.charBytes_pos c
    rw [cut, if_neg (by omega)]

theorem textBytes_pos {text : List Char} (nonempty : text ≠ []) : 0 < textBytes text := by
  cases text with
  | nil => exact absurd rfl nonempty
  | cons c rest =>
    have first := Utf8.charBytes_pos c
    rw [Utf8.textBytes_cons]
    omega

/-- `truncateUtf8` keeps the longest beginning that fits. -/
theorem truncateUtf8_eq (maxBytes : ℤ) : truncateUtf8 text maxBytes = cut maxBytes.toNat text := by
  unfold truncateUtf8
  split
  · next none =>
    rw [Int.toNat_of_nonpos none, cut_zero]
  · split
    · next fits => rw [Utf8.cut_all _ _ (by omega)]
    · rfl

end Cutting

section Texts

def appended (texts : Stream → List Char) (stream : Stream) (text : List Char) : Stream → List Char :=
  Function.update texts stream (texts stream ++ text)

def total (texts : Stream → List Char) : ℕ := textBytes (texts .stdout) + textBytes (texts .stderr)

variable (texts : Stream → List Char) (stream other : Stream) (text : List Char)

@[simp] theorem appended_nil : appended texts stream [] = texts := by
  rw [appended, List.append_nil, Function.update_eq_self]

theorem appended_apply : appended texts stream text other = texts other ++ if other = stream then text else [] := by
  unfold appended
  by_cases same : other = stream
  · rw [same, Function.update_self, if_pos rfl]
  · rw [Function.update_of_ne same, if_neg same, List.append_nil]

@[simp] theorem total_appended : total (appended texts stream text) = total texts + textBytes text := by
  unfold total
  rw [appended_apply, appended_apply, Utf8.textBytes_append, Utf8.textBytes_append]
  cases stream with
  | stdout =>
    rw [if_pos rfl, if_neg (by decide), Utf8.textBytes_nil]
    omega
  | stderr =>
    rw [if_neg (by decide), if_pos rfl, Utf8.textBytes_nil]
    omega

theorem appended_mono {shorter longer : List Char} (begins : shorter <+: longer) :
    appended texts stream shorter other <+: appended texts stream longer other := by
  rw [appended_apply, appended_apply, List.prefix_append_right_inj]
  split
  · exact begins
  · exact List.prefix_rfl

theorem pieces_snoc (published : List (Stream × List Char)) :
    pieces other (published ++ [(stream, text)]) = pieces other published ++ if other = stream then text else [] := by
  rw [pieces, List.flatMap_append, List.flatMap_singleton, pieces]
  by_cases same : other = stream
  · rw [if_pos same, if_pos same.symm]
  · rw [if_neg same, if_neg (Ne.symm same)]

theorem captured_keep (c : Capture) :
    (c.keep stream text).captured other = c.captured other ++ if other = stream then text else [] := by
  cases stream <;> cases other <;> simp [Capture.keep, Capture.captured]

end Texts

section Capturing

/-- No call of `onProgress` fails. -/
def silent : OnProgress := fun _ => none

/-- Everything fits so far. -/
structure Capture.Open (c : Capture) (texts : Stream → List Char) : Prop where
  quiet : c.progressError = none
  unmarked : c.markerEmitted = false
  untruncated : c.truncated = false
  emitted : c.emittedDataBytes = total texts
  counted : c.progressBytes = total texts
  kept : ∀ stream, c.captured stream = texts stream
  told : ∀ stream, pieces stream c.published = texts stream

/-- The marker is captured, behind the beginnings of the texts. -/
structure Capture.Marked (c : Capture) (texts : Stream → List Char) : Prop where
  quiet : c.progressError = none
  marked : c.markerEmitted = true
  truncated : c.truncated = true
  exceeds : dataBudget < total texts
  counted : c.progressBytes = total c.captured
  bounded : c.progressBytes ≤ maxShellCaptureBytes
  last : ∃ before stream, c.published = before ++ [(stream, shellTruncationMarker)]
    ∧ (∀ other, c.captured other = pieces other before ++ if other = stream then shellTruncationMarker else [])
    ∧ ∀ other, pieces other before <+: texts other

/-- Everything fits the budget, or the marker is captured. -/
def Capture.Sound (c : Capture) (texts : Stream → List Char) : Prop :=
  c.Open texts ∧ total texts ≤ dataBudget ∨ c.Marked texts

variable {c : Capture} {texts : Stream → List Char} {stream : Stream} {text : List Char}

theorem Capture.emit_silent (quiet : c.progressError = none) (nonempty : text ≠ []) :
    emit silent c stream text = { c.keep stream text with
      progressBytes := c.progressBytes + textBytes text
      published := c.published ++ [(stream, text)]
      progressError := none } := by
  rw [emit, if_neg (by simp [quiet, nonempty])]
  rfl

theorem Capture.keep_rest :
    (c.keep stream text).markerEmitted = c.markerEmitted ∧ (c.keep stream text).truncated = c.truncated
      ∧ (c.keep stream text).emittedDataBytes = c.emittedDataBytes ∧ (c.keep stream text).decoders = c.decoders := by
  cases stream <;> exact ⟨rfl, rfl, rfl, rfl⟩

theorem Capture.Open.emit (opened : c.Open texts) (nonempty : text ≠ []) :
    (Capture.emit silent { c with emittedDataBytes := c.emittedDataBytes + textBytes text } stream text).Open
      (appended texts stream text) := by
  rw [emit_silent (c := { c with emittedDataBytes := c.emittedDataBytes + textBytes text }) opened.quiet nonempty]
  obtain ⟨marker, truncated, emitted, _⟩ :=
    keep_rest (c := { c with emittedDataBytes := c.emittedDataBytes + textBytes text })
  constructor
  · rfl
  · exact marker.trans opened.unmarked
  · exact truncated.trans opened.untruncated
  · rw [total_appended, ← opened.emitted]
    exact emitted
  · rw [total_appended, ← opened.counted]
  · intro other
    rw [appended_apply, ← opened.kept]
    exact captured_keep stream other text _
  · intro other
    rw [appended_apply, ← opened.told]
    exact pieces_snoc stream other text _

theorem Capture.Open.emitMarker {longer : Stream → List Char} (opened : c.Open texts) (fits : total texts ≤ dataBudget)
    (begins : ∀ other, texts other <+: longer other) (exceeds : dataBudget < total longer) :
    (Capture.emitMarker silent c stream).Marked longer := by
  have budget : dataBudget + textBytes shellTruncationMarker = maxShellCaptureBytes := Int.sub_add_cancel _ _
  have said : shellTruncationMarker ≠ [] := by decide
  rw [Capture.emitMarker, if_neg (by simp [opened.quiet, opened.unmarked]),
    emit_silent (c := { c with markerEmitted := true, truncated := true }) opened.quiet said]
  obtain ⟨marker, truncated, _⟩ := keep_rest (c := { c with markerEmitted := true, truncated := true })
   
  have kept (other : Stream) := captured_keep stream other shellTruncationMarker
    { c with markerEmitted := true, truncated := true }
  have own (other : Stream) : ({ c with markerEmitted := true, truncated := true } : Capture).captured other = texts other := by
    rw [← opened.kept]
    cases other <;> rfl
  have captured := funext kept
  simp only [own, ← appended_apply] at captured
  constructor
  · rfl
  · exact marker
  · exact truncated
  · exact exceeds
  · have sum : c.progressBytes + textBytes shellTruncationMarker = total (appended texts stream shellTruncationMarker) := by
      rw [opened.counted, total_appended]
    exact sum.trans (congrArg total captured.symm)
  · change c.progressBytes + _ ≤ _
    rw [opened.counted]
    omega
  · refine ⟨c.published, stream, rfl, fun other => ?_, fun other => ?_⟩
    · rw [opened.told, ← appended_apply]
      exact congrFun captured other
    · rw [opened.told]
      exact begins other

theorem Capture.Open.captureText (opened : c.Open texts) (fits : total texts ≤ dataBudget) :
    (Capture.captureText silent c stream text).Sound (appended texts stream text) := by
  by_cases empty : text = []
  · rw [Capture.captureText, if_pos (.inl empty), empty, appended_nil]
    exact .inl ⟨opened, fits⟩
  · rw [Capture.captureText, if_neg (by simp [empty, opened.quiet, opened.unmarked])]
    simp only [truncateUtf8_eq, opened.emitted]
    have room : ((dataBudget - total texts).toNat : ℤ) = dataBudget - total texts := Int.toNat_of_nonneg (by omega)
    generalize (dataBudget - total texts).toNat = n at room
    by_cases whole : textBytes text ≤ n
    · have length := textBytes_pos empty
      rw [Utf8.cut_all _ _ whole, if_pos length, if_neg (lt_irrefl _), ← opened.emitted]
      refine .inl ⟨opened.emit empty, ?_⟩
      rw [total_appended]
      omega
    · have short := cut_bytes n text
      have begins := cut_prefix n text
      rw [if_pos (by omega)]
      have kept : (if 0 < textBytes (cut n text) then
          Capture.emit silent { c with emittedDataBytes := total texts + textBytes (cut n text) } stream (cut n text)
          else c).Open (appended texts stream (cut n text)) := by
        split
        · next some =>
          rw [← opened.emitted]
          refine opened.emit fun nothing => ?_
          rw [nothing, Utf8.textBytes_nil] at some
          omega
        · next none =>
          have nothing : cut n text = [] := by
            by_contra nonempty
            exact none (textBytes_pos nonempty)
          rw [nothing, appended_nil]
          exact opened
      refine .inr (kept.emitMarker ?_ (fun other => appended_mono texts stream other begins) ?_)
      · rw [total_appended]
        omega
      · rw [total_appended]
        omega

theorem Capture.Marked.captureText (marked : c.Marked texts) :
    (Capture.captureText silent c stream text).Marked (appended texts stream text) := by
  rw [Capture.captureText, if_pos (.inr (.inl marked.marked))]
  obtain ⟨before, at_, published, kept, begins⟩ := marked.last
  refine { marked with exceeds := ?_, last := ⟨before, at_, published, kept, fun other => ?_⟩ }
  · have exceeds := marked.exceeds
    rw [total_appended]
    omega
  · rw [appended_apply]
    exact (begins other).trans (List.prefix_append _ _)

theorem Capture.Sound.captureText (sound : c.Sound texts) (stream : Stream) (text : List Char) :
    (Capture.captureText silent c stream text).Sound (appended texts stream text) := by
  rcases sound with ⟨opened, fits⟩ | marked
  · exact opened.captureText fits
  · exact .inr marked.captureText

theorem Capture.decoders_emit (onProgress : OnProgress) : (emit onProgress c stream text).decoders = c.decoders := by
  unfold emit
  split
  · rfl
  · exact keep_rest.2.2.2

theorem Capture.decoders_captureText (onProgress : OnProgress) :
    (Capture.captureText onProgress c stream text).decoders = c.decoders := by
  unfold Capture.captureText
  split
  · rfl
  · have marking (c : Capture) : (Capture.emitMarker onProgress c stream).decoders = c.decoders := by
      unfold Capture.emitMarker
      split
      · rfl
      · exact decoders_emit onProgress
    have kept : (if 0 < textBytes (truncateUtf8 text (dataBudget - c.emittedDataBytes)) then
        Capture.emit onProgress
          { c with emittedDataBytes := c.emittedDataBytes + textBytes (truncateUtf8 text (dataBudget - c.emittedDataBytes)) }
          stream (truncateUtf8 text (dataBudget - c.emittedDataBytes))
        else c).decoders = c.decoders := by
      split
      · exact decoders_emit onProgress
      · rfl
    dsimp only
    split
    · exact (marking _).trans kept
    · exact kept

end Capturing

section Listening

/-- A decoder and the text it has given, after an event. -/
def hear (stream : Stream) (heard : StringDecoder × List Char) : Event → StringDecoder × List Char
  | .data from_ chunk =>
    if stream = from_ then ((heard.1.write chunk).1, heard.2 ++ (heard.1.write chunk).2) else heard
  | .end_ from_ => if stream = from_ then (heard.1.finish.1, heard.2 ++ heard.1.finish.2) else heard

/-- The decoders are where the events leave them, and the capture is sound for the texts they have given. -/
structure Capture.Hears (c : Capture) (heard : Stream → StringDecoder × List Char) : Prop where
  decoders : ∀ stream, c.decoders stream = (heard stream).1
  sound : c.Sound fun stream => (heard stream).2

variable {c : Capture} {heard : Stream → StringDecoder × List Char}

theorem Capture.Sound.of_same {texts : Stream → List Char} {d : Capture} (sound : c.Sound texts)
    (error : d.progressError = c.progressError) (marker : d.markerEmitted = c.markerEmitted)
    (truncated : d.truncated = c.truncated) (emitted : d.emittedDataBytes = c.emittedDataBytes)
    (counted : d.progressBytes = c.progressBytes) (published : d.published = c.published)
    (captured : d.captured = c.captured) : d.Sound texts := by
  rcases sound with ⟨opened, fits⟩ | marked
  · refine .inl ⟨⟨?_, ?_, ?_, ?_, ?_, ?_, ?_⟩, fits⟩
    · exact error.trans opened.quiet
    · exact marker.trans opened.unmarked
    · exact truncated.trans opened.untruncated
    · exact emitted.trans opened.emitted
    · exact counted.trans opened.counted
    · exact captured ▸ opened.kept
    · exact published ▸ opened.told
  · refine .inr ⟨?_, ?_, ?_, marked.exceeds, ?_, ?_, ?_⟩
    · exact error.trans marked.quiet
    · exact marker.trans marked.marked
    · exact truncated.trans marked.truncated
    · rw [counted, captured, marked.counted]
    · exact counted ▸ marked.bounded
    · rw [published, captured]
      exact marked.last

theorem Capture.Hears.told (hears : c.Hears heard) (stream : Stream) (decoder : StringDecoder) (text : List Char)
    (totalBytes : ℕ) :
    (Capture.captureText silent { c.setDecoder stream decoder with totalBytes } stream text).Hears
      (Function.update heard stream (decoder, (heard stream).2 ++ text)) := by
  constructor
  · intro other
    rw [decoders_captureText]
    change Function.update c.decoders stream decoder other = _
    by_cases same : other = stream
    · rw [same, Function.update_self, Function.update_self]
    · rw [Function.update_of_ne same, Function.update_of_ne same, hears.decoders]
  · have before : ({ c.setDecoder stream decoder with totalBytes } : Capture).Sound fun stream => (heard stream).2 :=
      hears.sound.of_same rfl rfl rfl rfl rfl rfl (funext fun other => by cases other <;> rfl)
    have after := before.captureText stream text
    have same : (fun other => (Function.update heard stream (decoder, (heard stream).2 ++ text) other).2)
        = appended (fun stream => (heard stream).2) stream text := by
      funext other
      unfold appended
      by_cases same : other = stream
      · rw [same, Function.update_self, Function.update_self]
      · rw [Function.update_of_ne same, Function.update_of_ne same]
    rw [same]
    exact after

theorem Capture.Hears.step (hears : c.Hears heard) (event : Event) :
    (Capture.step silent c event).Hears fun stream => hear stream (heard stream) event := by
  have spread (from_ : Stream) (value : StringDecoder × List Char)
      (told : ∀ stream, hear stream (heard stream) event = if stream = from_ then value else heard stream) :
      (fun stream => hear stream (heard stream) event) = Function.update heard from_ value := by
    funext stream
    rw [told, Function.update_apply]
  cases event with
  | data from_ chunk =>
    rw [spread from_ (((heard from_).1.write chunk).1, (heard from_).2 ++ ((heard from_).1.write chunk).2)]
    · change (Capture.capture silent c from_ chunk).Hears _
      unfold Capture.capture
      rw [hears.decoders]
      exact hears.told from_ _ _ _
    · intro stream
      change (if stream = from_ then _ else _) = _
      split
      · next same => rw [same]
      · rfl
  | end_ from_ =>
    rw [spread from_ ((heard from_).1.finish.1, (heard from_).2 ++ (heard from_).1.finish.2)]
    · unfold Capture.step
      dsimp only
      rw [hears.decoders]
      exact hears.told from_ _ _ c.totalBytes
    · intro stream
      change (if stream = from_ then _ else _) = _
      split
      · next same => rw [same]
      · rfl

theorem Capture.Hears.run (hears : c.Hears heard) (events : List Event) :
    (events.foldl (Capture.step silent) c).Hears fun stream => events.foldl (hear stream) (heard stream) := by
  induction events generalizing c heard with
  | nil => exact hears
  | cons event rest ih => exact ih (hears.step event)

theorem Capture.hears_initial : Capture.initial.Hears fun _ => (.empty, []) := by
  have budget : (0 : ℤ) ≤ dataBudget := by decide
  refine ⟨fun _ => rfl, .inl ⟨⟨rfl, rfl, rfl, rfl, rfl, ?_, ?_⟩, budget⟩⟩
  · intro stream
    cases stream <;> rfl
  · intro stream
    rfl

theorem hear_filter (stream : Stream) (events : List Event) (heard : StringDecoder × List Char) :
    events.foldl (hear stream) heard = (events.filter fun event => event.stream = stream).foldl (hear stream) heard := by
  induction events generalizing heard with
  | nil => rfl
  | cons event rest ih =>
    rw [List.foldl_cons, ih, List.filter_cons]
    split
    · rfl
    · next other =>
      have apart : ¬stream = event.stream := fun same => other (decide_eq_true same.symm)
      have unheard : hear stream heard event = heard := by
        cases event with
        | data from_ chunk => exact if_neg apart
        | end_ from_ => exact if_neg apart
      rw [unheard]

theorem received_filter (stream : Stream) (events : List Event) :
    received stream events = received stream (events.filter fun event => event.stream = stream) := by
  induction events with
  | nil => rfl
  | cons event rest ih =>
    rw [List.filter_cons]
    split
    · rw [received, List.flatMap_cons, ← received, ih]
      rfl
    · next other =>
      rw [← ih]
      cases event with
      | data from_ chunk =>
        have apart : (if from_ = stream then chunk else []) = [] := if_neg fun same => other (decide_eq_true same)
        change (if from_ = stream then chunk else []) ++ received stream rest = _
        rw [apart, List.nil_append]
      | end_ from_ => rfl

theorem received_chunks (stream : Stream) (chunks : List Bytes) :
    received stream (chunks.map (.data stream) ++ [.end_ stream]) = chunks.flatten := by
  induction chunks with
  | nil => rfl
  | cons chunk rest ih =>
    have first : (if stream = stream then chunk else []) = chunk := if_pos rfl
    rw [List.map_cons, List.cons_append, List.flatten_cons, ← ih]
    exact congrArg (· ++ received stream (rest.map (.data stream) ++ [.end_ stream])) first

theorem hear_chunks (stream : Stream) (chunks : List Bytes) {bytes : Bytes} {heard : StringDecoder × List Char}
    (reads : StringDecoder.Reads bytes heard.1 heard.2) :
    ((chunks.map (Event.data stream) ++ [Event.end_ stream]).foldl (hear stream) heard).2
      = decodeChars (bytes ++ chunks.flatten) := by
  induction chunks generalizing bytes heard with
  | nil =>
    rw [List.flatten_nil, List.append_nil, ← reads.finish]
    change (if stream = stream then _ else heard).2 = _
    rw [if_pos rfl]
  | cons chunk rest ih =>
    have next_ := reads.write chunk
    rw [List.flatten_cons, ← List.append_assoc]
    have heardNext : hear stream heard (.data stream chunk)
        = ((heard.1.write chunk).1, heard.2 ++ (heard.1.write chunk).2) := if_pos rfl
    rw [List.map_cons, List.cons_append, List.foldl_cons, heardNext]
    exact ih next_

/-- What is heard of a stream that has ended is the text of its bytes. -/
theorem heard_arrivals (arrivals : Arrivals) (stream : Stream) :
    (arrivals.events.foldl (hear stream) (.empty, [])).2 = decodeChars (received stream arrivals.events) := by
  obtain ⟨chunks, spelled⟩ := arrivals.ended stream
  rw [hear_filter, received_filter, spelled, received_chunks, hear_chunks stream chunks StringDecoder.reads_empty,
    List.nil_append]

end Listening

section Captured

def decoded (arrivals : Arrivals) (stream : Stream) : List Char := decodeChars (received stream arrivals.events)

theorem capturing_sound (arrivals : Arrivals) : (capturing silent arrivals.events).Sound (decoded arrivals) := by
  have sound := (Capture.hears_initial.run arrivals.events).sound
  simp only [heard_arrivals] at sound
  exact sound

/-- The decoded streams are captured if they fit the budget together. Otherwise the last text that is captured is the marker, and
what is captured before it begins each stream. -/
theorem runShell_captured (arrivals : Arrivals) :
    ∃ result, runShell silent arrivals.events = .ok result
      ∧ (total (decoded arrivals) ≤ dataBudget →
        result.stdout = decoded arrivals .stdout ∧ result.stderr = decoded arrivals .stderr ∧ result.truncated = false)
      ∧ (dataBudget < total (decoded arrivals) →
        result.truncated = true ∧ ∃ before stream,
          (capturing silent arrivals.events).published = before ++ [(stream, shellTruncationMarker)]
            ∧ result.stdout = pieces .stdout before ++ (if stream = .stdout then shellTruncationMarker else [])
            ∧ result.stderr = pieces .stderr before ++ (if stream = .stderr then shellTruncationMarker else [])
            ∧ pieces .stdout before <+: decoded arrivals .stdout ∧ pieces .stderr before <+: decoded arrivals .stderr)
      ∧ result.capturedBytes = result.progressBytes ∧ result.progressBytes ≤ maxShellCaptureBytes := by
  have closed (c : Capture) (quiet : c.progressError = none) : c.close = .ok {
      stdout := c.stdout
      stderr := c.stderr
      truncated := c.truncated
      totalBytes := c.totalBytes
      capturedBytes := textBytes c.stdout + textBytes c.stderr
      progressBytes := c.progressBytes } := by
    rw [Capture.close, quiet]
  unfold runShell
  rcases capturing_sound arrivals with ⟨opened, fits⟩ | marked
  · have limit : dataBudget ≤ maxShellCaptureBytes := by decide
    have counted := opened.counted
    refine ⟨_, closed _ opened.quiet, fun _ => ⟨?_, ?_, opened.untruncated⟩, fun exceeds => ?_, ?_, ?_⟩
    · exact opened.kept .stdout
    · exact opened.kept .stderr
    · omega
    · rw [counted, total, ← opened.kept .stdout, ← opened.kept .stderr]
      rfl
    · dsimp only
      omega
  · have exceeds := marked.exceeds
    obtain ⟨before, stream, published, kept, begins⟩ := marked.last
    refine ⟨_, closed _ marked.quiet, fun fits => ?_, fun _ => ⟨marked.truncated, before, stream, published, ?_⟩, ?_, ?_⟩
    · omega
    · have out := kept .stdout
      have err := kept .stderr
      simp only [eq_comm (b := stream)] at out err
      exact ⟨out, err, begins .stdout, begins .stderr⟩
    · exact marked.counted.symm
    · exact marked.bounded

/-- A character that is cut by a chunk of the other stream. -/
example : (capturing silent [.data .stdout [0xE2, 0x82], .data .stderr [0x21], .data .stdout [0xAC], .end_ .stderr,
    .end_ .stdout]).published = [(.stderr, ['!']), (.stdout, ['€'])] := by
  decide +kernel

end Captured

end PersistentHarness.ShellOutput
