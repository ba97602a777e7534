import PersistentHarness.Model.EventStream

/-! # What a chunked event stream yields

Reading the chunks of a response yields what the whole text comes to: its lines, its blocks, and a value for each block.
What is read so far and what is still in the buffer come together in `Reading`, whose outcome does not depend on where the
chunks end.
-/

namespace PersistentHarness.EventStream

open Utf8

/-! ## The text as a whole -/

/-- The lines that a CRLF, a CR or a LF ends, and the text behind the last of them. -/
def splitLines : JsString → List JsString × JsString
  | [] => ([], [])
  | u :: rest =>
    let (complete, last) := splitLines rest
    if u = CR ∧ rest.head? = some LF then (complete, last)
    else if u = CR ∨ u = LF then ([] :: complete, last)
    else
      match complete with
      | [] => ([], u :: last)
      | line :: others => ((u :: line) :: others, last)

/-- The data lines of each block that a blank line ends, behind some data of the first block. -/
def dataBlocks (data : List JsString) : List JsString → List (List JsString)
  | [] => []
  | line :: rest =>
    if line = [] then data :: dataBlocks [] rest
    else dataBlocks (if isData line then data ++ [dataPart line] else data) rest

/-- The texts of the blocks that are to be parsed. -/
def texts (data lines : List JsString) : List JsString :=
  ((dataBlocks data lines).map (List.intercalate [LF])).filter fun text => text ≠ [] ∧ text ≠ js "[DONE]"

/-- The values of some texts, up to the first that is not JSON. -/
def parseAll : List JsString → List Value × Option Failure
  | [] => ([], none)
  | text :: rest =>
    match Json.parse text with
    | none => ([], some .invalid_provider_json)
    | some value => (value :: (parseAll rest).1, (parseAll rest).2)

/-- The events of a text: one for each of its blocks that a blank line ends. -/
def eventsOf (text : JsString) : List Value × Option Failure := parseAll (texts [] (splitLines text).1)

def textOf (cs : List Char) : JsString := (withoutMark cs).flatMap utf16

/-! ## Lines -/

theorem splitLines_exec {buffer line found behind : JsString} (hit : exec buffer = some (line, found, behind)) :
    splitLines buffer = (line :: (splitLines behind).1, (splitLines behind).2) := by
  induction buffer generalizing line with
  | nil => cases hit
  | cons u rest ih =>
    rw [exec.eq_def] at hit
    rw [splitLines]
    dsimp only at hit ⊢
    split at hit
    next same =>
      subst same
      cases rest with
      | nil =>
        cases hit
        rfl
      | cons v more =>
        dsimp only at hit
        split at hit
        next same =>
          subst same
          cases hit
          rw [if_pos ⟨rfl, rfl⟩, splitLines]
          dsimp only
          rw [if_neg (fun both => absurd both.1 (by decide)), if_pos (.inr rfl)]
        next different =>
          cases hit
          rw [if_neg fun both => different (Option.some.inj both.2), if_pos (.inl rfl)]
    next notCR =>
      split at hit
      next same =>
        subst same
        cases hit
        rw [if_neg fun both => notCR both.1, if_pos (.inr rfl)]
      next notLF =>
        obtain ⟨⟨before, other, after⟩, earlier, same⟩ := Option.map_eq_some_iff.1 hit
        cases same
        rw [ih earlier, if_neg fun both => notCR both.1, if_neg (by rintro (cr | lf) <;> contradiction)]

theorem splitLines_none {buffer : JsString} (miss : exec buffer = none) : (splitLines buffer).1 = [] := by
  induction buffer with
  | nil => rfl
  | cons u rest ih =>
    rw [exec.eq_def] at miss
    dsimp only at miss
    split at miss
    next =>
      cases rest with
      | nil => cases miss
      | cons v more =>
        dsimp only at miss
        split at miss <;> cases miss
    next notCR =>
      split at miss
      · cases miss
      next notLF =>
        rw [splitLines]
        dsimp only
        rw [ih (Option.map_eq_none_iff.1 miss), if_neg fun both => notCR both.1,
          if_neg (by rintro (cr | lf) <;> contradiction)]

/-- A match that is not a carriage return at the end does not depend on what follows. -/
theorem exec_append {buffer line found behind : JsString} (hit : exec buffer = some (line, found, behind))
    (settled : ¬(found = [CR] ∧ behind = [])) (more : JsString) :
    exec (buffer ++ more) = some (line, found, behind ++ more) := by
  induction buffer generalizing line with
  | nil => cases hit
  | cons u rest ih =>
    rw [exec.eq_def] at hit
    rw [List.cons_append, exec.eq_def]
    dsimp only at hit ⊢
    split at hit
    next same =>
      rw [if_pos same]
      cases rest with
      | nil =>
        cases hit
        exact absurd ⟨rfl, rfl⟩ settled
      | cons v others =>
        dsimp only [List.cons_append] at hit ⊢
        split at hit
        next same =>
          cases hit
          rw [if_pos same]
        next different =>
          cases hit
          rw [if_neg different, List.cons_append]
    next notCR =>
      rw [if_neg notCR]
      split at hit
      next same =>
        cases hit
        rw [if_pos same]
      next notLF =>
        obtain ⟨⟨before, other, after⟩, earlier, same⟩ := Option.map_eq_some_iff.1 hit
        cases same
        rw [if_neg notLF, ih earlier]
        rfl

/-! ## What a state comes to -/

/-- What the values yielded so far and the lines to come amount to. -/
def State.outcome (s : State) (lines : List JsString) : List Value × Option Failure :=
  (s.yielded ++ (parseAll (texts s.data lines)).1, (parseAll (texts s.data lines)).2)

variable {s next : State} {line found behind : JsString} {limit : ℕ}

theorem outcome_nil (s : State) : s.outcome [] = (s.yielded, none) := by
  show (s.yielded ++ [], none) = _
  rw [List.append_nil]

theorem outcome_collect (s : State) (written : line ≠ []) (rest : List JsString) :
    s.outcome (line :: rest) = (s.collect line).outcome rest := by
  unfold State.outcome texts
  rw [dataBlocks, if_neg written, State.collect]
  split <;> rfl

/-- A blank line yields the value of its block, or ends the stream. -/
theorem outcome_dispatch (s : State) (rest : List JsString) :
    s.outcome ([] :: rest) =
      match s.dispatch with
      | (next, none) => next.outcome rest
      | (next, some failure) => (next.yielded, some failure) := by
  unfold State.dispatch
  by_cases spoken : List.intercalate [LF] s.data ≠ [] ∧ List.intercalate [LF] s.data ≠ js "[DONE]"
  · rw [if_pos spoken]
    have whole : texts s.data ([] :: rest) = List.intercalate [LF] s.data :: texts [] rest := by
      rw [texts, dataBlocks, if_pos rfl, List.map_cons, List.filter_cons_of_pos (by simpa using spoken)]
      rfl
    rw [State.outcome, whole, parseAll]
    cases Json.parse (List.intercalate [LF] s.data) with
    | none =>
      dsimp only
      rw [List.append_nil]
    | some value =>
      dsimp only [State.outcome]
      rw [List.append_assoc]
      rfl
  · rw [if_neg spoken]
    have whole : texts s.data ([] :: rest) = texts [] rest := by
      rw [texts, dataBlocks, if_pos rfl, List.map_cons, List.filter_cons_of_neg (by simpa using spoken)]
      rfl
    rw [State.outcome, whole]
    rfl

/-! ## Bytes -/

def State.Counted (s : State) : Prop := s.bufferBytes = s.buffer.utf8Length

def State.load (s : State) : ℕ := s.bufferBytes + s.dataBytes

theorem utf8Length_break {rest : JsString} (u : UInt16) (cut : u = CR ∨ u = LF) (line : JsString) :
    JsString.utf8Length (line ++ u :: rest) = line.utf8Length + (1 + rest.utf8Length) := by
  have ascii : u < 0x80 := by rcases cut with rfl | rfl <;> decide
  rw [JsString.utf8Length_append, JsString.utf8Length_ascii ascii]
  rintro _ ⟨⟩ ⟨low, _⟩
  rw [UInt16.le_iff_toNat_le] at low
  rw [UInt16.lt_iff_toNat_lt] at ascii
  simp only [UInt16.reduceToNat] at low ascii
  omega

theorem utf8Length_exec {buffer : JsString} (hit : exec buffer = some (line, found, behind)) :
    buffer.utf8Length = line.utf8Length + found.length + behind.utf8Length := by
  obtain ⟨rfl, rfl | ⟨rfl, _⟩ | rfl⟩ := exec_spec hit
  · show JsString.utf8Length (line ++ CR :: LF :: behind) = _
    rw [utf8Length_break CR (.inl rfl), JsString.utf8Length_ascii (by decide)]
    simp only [List.length_cons, List.length_nil]
    omega
  · show JsString.utf8Length (line ++ CR :: behind) = _
    rw [utf8Length_break CR (.inl rfl)]
    simp only [List.length_cons, List.length_nil]
    omega
  · show JsString.utf8Length (line ++ LF :: behind) = _
    rw [utf8Length_break LF (.inr rfl)]
    simp only [List.length_cons, List.length_nil]
    omega

theorem utf8Length_pos (written : line ≠ []) : 0 < line.utf8Length := by
  cases line with
  | nil => exact absurd rfl written
  | cons u rest =>
    have width : 0 < JsString.unitWidth u := by
      unfold JsString.unitWidth
      split
      · omega
      · split <;> omega
    cases rest with
    | nil => exact width
    | cons v rest =>
      rw [JsString.utf8Length]
      split <;> omega

theorem utf8Length_dataPart (data : isData line = true) : (dataPart line).utf8Length + 1 ≤ line.utf8Length := by
  obtain ⟨rest, rfl⟩ := List.isPrefixOf_iff_prefix.1 data
  have spelled : js "data:" = [0x64, 0x61, 0x74, 0x61, 0x3A] := by decide
  have whole : JsString.utf8Length (js "data:" ++ rest) = 5 + JsString.utf8Length rest := by
    rw [spelled]
    show JsString.utf8Length (0x64 :: 0x61 :: 0x74 :: 0x61 :: 0x3A :: rest) = _
    rw [JsString.utf8Length_ascii (by decide), JsString.utf8Length_ascii (by decide), JsString.utf8Length_ascii (by decide),
      JsString.utf8Length_ascii (by decide), JsString.utf8Length_ascii (by decide)]
    omega
  have part : (dataPart (js "data:" ++ rest)).utf8Length ≤ JsString.utf8Length rest := by
    have dropped : (js "data:" ++ rest).drop 5 = rest := by
      rw [spelled]
      rfl
    unfold dataPart
    rw [dropped]
    split
    next part =>
      have spaced := JsString.utf8Length_ascii (u := 0x20) (by decide) part
      omega
    next => exact le_refl _
  omega

/-- What one turn of the inner loop does to the counters. -/
structure Took (s next : State) (line found behind : JsString) : Prop where
  buffer : next.buffer = behind
  counted : next.Counted
  decoder : next.decoder = s.decoder
  lighter : next.load + found.length ≤ s.load
  written : line ≠ [] → next.load + found.length + 1 ≤ s.load
  blank : line = [] → next.dataBytes = 0

theorem dispatch_frame (s : State) :
    s.dispatch.1.buffer = s.buffer ∧ s.dispatch.1.bufferBytes = s.bufferBytes ∧ s.dispatch.1.decoder = s.decoder ∧
      s.dispatch.1.dataBytes = 0 := by
  unfold State.dispatch
  dsimp only
  split
  · split <;> exact ⟨rfl, rfl, rfl, rfl⟩
  · exact ⟨rfl, rfl, rfl, rfl⟩

theorem takeLine_took (limit : ℕ) (counted : s.Counted) (hit : exec s.buffer = some (line, found, behind)) :
    Took s (s.takeLine limit line found behind).1 line found behind := by
  have bytes := utf8Length_exec hit
  unfold State.Counted at counted
  rw [← counted] at bytes
  unfold State.takeLine
  dsimp only
  by_cases blank : line = []
  · rw [if_pos blank]
    have frame := dispatch_frame
      { s with buffer := behind, bufferBytes := s.bufferBytes - (line.utf8Length + found.length) }
    dsimp only at frame ⊢
    refine ⟨frame.1, ?_, frame.2.2.1, ?_, fun written => absurd blank written, fun _ => frame.2.2.2⟩
    · rw [State.Counted, frame.1, frame.2.1]
      omega
    · rw [State.load, State.load, frame.2.1, frame.2.2.2]
      omega
  · rw [if_neg blank]
    have more := utf8Length_pos blank
    unfold State.collect
    by_cases data : isData line = true
    · have part := utf8Length_dataPart data
      rw [if_pos data]
      refine ⟨rfl, ?_, rfl, ?_, fun _ => ?_, fun other => absurd other blank⟩
      · show s.bufferBytes - (line.utf8Length + found.length) = behind.utf8Length
        omega
      · show s.bufferBytes - (line.utf8Length + found.length) + (s.dataBytes + (dataPart line).utf8Length) + _ ≤
          s.bufferBytes + s.dataBytes
        omega
      · show s.bufferBytes - (line.utf8Length + found.length) + (s.dataBytes + (dataPart line).utf8Length) + _ + 1 ≤
          s.bufferBytes + s.dataBytes
        omega
    · rw [if_neg data]
      refine ⟨rfl, ?_, rfl, ?_, fun _ => ?_, fun other => absurd other blank⟩
      · show s.bufferBytes - (line.utf8Length + found.length) = behind.utf8Length
        omega
      · show s.bufferBytes - (line.utf8Length + found.length) + s.dataBytes + _ ≤ s.bufferBytes + s.dataBytes
        omega
      · show s.bufferBytes - (line.utf8Length + found.length) + s.dataBytes + _ + 1 ≤ s.bufferBytes + s.dataBytes
        omega

/-- A turn of the inner loop within the limit does what its line comes to. -/
theorem takeLine_outcome (within : (s.takeLine limit line found behind).1.load ≤ limit) (rest : List JsString) :
    s.outcome (line :: rest) =
      match s.takeLine limit line found behind with
      | (next, none) => next.outcome rest
      | (next, some failure) => (next.yielded, some failure) := by
  unfold State.load State.takeLine at within
  unfold State.takeLine
  dsimp only at within ⊢
  by_cases blank : line = []
  · subst blank
    rw [if_pos rfl] at within ⊢
    rw [if_neg (not_lt.2 within), Option.or_none]
    exact outcome_dispatch
      { s with buffer := behind, bufferBytes := s.bufferBytes - (JsString.utf8Length [] + found.length) } rest
  · rw [if_neg blank] at within ⊢
    dsimp only at within ⊢
    rw [if_neg (not_lt.2 within), Option.or_none]
    exact outcome_collect
      { s with buffer := behind, bufferBytes := s.bufferBytes - (line.utf8Length + found.length) } blank rest

/-! ## Loops -/

/-- What the inner loop does to a state whose bytes are within the limit: the lines it takes come to the same as before. -/
structure Drained (done : Bool) (s : State) (p : Progress) : Prop where
  counted : ∀ point ∈ p.points, point.Counted
  final : p.state.Counted
  decoder : p.state.decoder = s.decoder
  lighter : p.state.load ≤ s.load
  outcome : ∀ more, (done = true → more = []) →
    s.outcome (splitLines (s.buffer ++ more)).1 =
      match p.failure with
      | none => p.state.outcome (splitLines (p.state.buffer ++ more)).1
      | some failure => (p.state.yielded, some failure)
  rest : p.failure = none → ∀ line found behind, exec p.state.buffer = some (line, found, behind) →
    done = false ∧ found = [CR] ∧ behind = []

/-- The loop ends where there is no line to take. -/
theorem Drained.stop {done : Bool} (counted : s.Counted) (within : s.load ≤ limit)
    (rest : ∀ line found behind, exec s.buffer = some (line, found, behind) → done = false ∧ found = [CR] ∧ behind = []) :
    Drained done s ⟨s, [], if limit < s.bufferBytes then some .provider_frame_limit else none⟩ := by
  have fits : ¬limit < s.bufferBytes := by
    unfold State.load at within
    omega
  rw [if_neg fits]
  exact ⟨nofun, counted, rfl, le_refl _, fun _ _ => rfl, fun _ => rest⟩

/-- The bytes of the state, or those after its first line, are within the limit. -/
def Fits (limit : ℕ) (done : Bool) (s : State) : Prop :=
  s.load ≤ limit ∨ ∃ line found behind, exec s.buffer = some (line, found, behind) ∧
    ¬(done = false ∧ found = [CR] ∧ behind = []) ∧ (s.takeLine limit line found behind).1.load ≤ limit

theorem drain_drained {done : Bool} (counted : s.Counted) (fits : Fits limit done s) :
    Drained done s (drain limit done s) := by
  induction size : s.buffer.length using Nat.strong_induction_on generalizing s with
  | _ n ih =>
    subst size
    rw [drain]
    split
    next miss =>
      have within : s.load ≤ limit := by
        rcases fits with within | ⟨line, found, behind, hit, _⟩
        · exact within
        · rw [miss] at hit
          cases hit
      apply Drained.stop counted within
      intro line found behind hit
      rw [miss] at hit
      cases hit
    next line found behind hit =>
      split
      next held =>
        simp only [Bool.and_eq_true, Bool.not_eq_true', decide_eq_true_eq] at held
        have within : s.load ≤ limit := by
          rcases fits with within | ⟨line', found', behind', hit', free, _⟩
          · exact within
          · rw [hit] at hit'
            cases hit'
            exact absurd ⟨held.1.1, held.1.2, held.2⟩ free
        apply Drained.stop counted within
        intro line' found' behind' hit'
        rw [hit] at hit'
        cases hit'
        exact ⟨held.1.1, held.1.2, held.2⟩
      next free =>
        have took := takeLine_took limit counted hit
        have lighter : (s.takeLine limit line found behind).1.load ≤ s.load := le_trans (Nat.le_add_right ..) took.lighter
        have within : (s.takeLine limit line found behind).1.load ≤ limit := by
          rcases fits with within | ⟨line', found', behind', hit', _, within⟩
          · exact le_trans lighter within
          · rw [hit] at hit'
            cases hit'
            exact within
        have settled (more : JsString) (only : done = true → more = []) :
            (splitLines (s.buffer ++ more)).1 = line :: (splitLines (behind ++ more)).1 := by
          by_cases held : found = [CR] ∧ behind = []
          · have ended : done = true := by
              rw [← Bool.not_eq_false]
              intro open_
              apply free
              simp only [open_, held.1, held.2, Bool.not_false, decide_true, Bool.and_self]
            rw [only ended, List.append_nil, List.append_nil, splitLines_exec hit]
          · rw [splitLines_exec (exec_append hit held more)]
        have turn (rest : List JsString) := takeLine_outcome within rest
        split
        next next failure taken =>
          rw [taken] at took turn lighter
          clear within
          refine ⟨?_, took.counted, took.decoder, lighter, ?_, fun clean => absurd clean (Option.some_ne_none _)⟩
          · intro point member
            rw [List.mem_singleton.1 member]
            exact took.counted
          · intro more only
            rw [settled more only, turn]
        next next taken =>
          rw [taken] at took turn lighter within
          have shorter : next.buffer.length < s.buffer.length := by
            rw [took.buffer]
            exact exec_shorter hit
          have later := ih _ shorter took.counted (.inl within) rfl
          refine ⟨?_, later.final, later.decoder.trans took.decoder, le_trans later.lighter lighter, ?_, later.rest⟩
          · intro point member
            rcases List.mem_cons.1 member with rfl | member
            · exact took.counted
            · exact later.counted point member
          · intro more only
            rw [settled more only, turn]
            have whole := later.outcome more only
            rw [took.buffer] at whole
            exact whole

theorem exec_ending {buffer : JsString}
    (open_ : ∀ line found behind, exec buffer = some (line, found, behind) → found = [CR] ∧ behind = []) :
    ∃ line found, exec (buffer ++ [LF, LF]) = some (line, found, [LF]) ∧ 0 < found.length := by
  induction buffer with
  | nil => exact ⟨[], [LF], rfl, Nat.succ_pos _⟩
  | cons u rest ih =>
    rw [List.cons_append, exec.eq_def]
    rw [exec.eq_def] at open_
    dsimp only at open_ ⊢
    by_cases cr : u = CR
    · subst cr
      rw [if_pos rfl] at open_ ⊢
      cases rest with
      | nil => exact ⟨[], [CR, LF], rfl, Nat.succ_pos _⟩
      | cons v more =>
        dsimp only at open_
        split at open_
        · cases (open_ _ _ _ rfl).1
        · cases (open_ _ _ _ rfl).2
    · rw [if_neg cr] at open_ ⊢
      by_cases lf : u = LF
      · rw [if_pos lf] at open_
        cases (open_ _ _ _ rfl).1
      · rw [if_neg lf] at open_ ⊢
        obtain ⟨line, found, hit, some_⟩ := ih (by
          intro line found behind hit
          exact open_ (u :: line) found behind (by rw [hit]; rfl))
        exact ⟨u :: line, found, by rw [hit]; rfl, some_⟩

/-! ## The chunks -/

/-- The state after some bytes: its buffer and what it has collected come to the same as their text. -/
structure Reading (bytes : Bytes) (cs : List Char) (s : State) : Prop where
  decoded : Decoder.start.strict bytes = some (s.decoder.decoder, cs)
  begun : s.decoder.begun = !cs.isEmpty
  counted : s.Counted
  light : s.load ≤ textBytes cs
  open_ : ∀ line found behind, exec s.buffer = some (line, found, behind) → found = [CR] ∧ behind = []
  outcome : ∀ more, State.initial.outcome (splitLines (textOf cs ++ more)).1 = s.outcome (splitLines (s.buffer ++ more)).1

theorem Reading.initial : Reading [] [] .initial where
  decoded := rfl
  begun := rfl
  counted := rfl
  light := Nat.zero_le _
  open_ := nofun
  outcome := fun _ => rfl

theorem textOf_append (cs ds : List Char) :
    textOf (cs ++ ds) = textOf cs ++ (if cs.isEmpty then withoutMark ds else ds).flatMap utf16 := by
  rw [textOf, withoutMark_append, List.flatMap_append]
  rfl

def State.receive (s : State) (decoder : FatalDecoder) (cs : List Char) (ending : JsString) : State :=
  { s with
    decoder
    buffer := s.buffer ++ cs.flatMap utf16 ++ ending
    bufferBytes := s.bufferBytes + JsString.utf8Length (cs.flatMap utf16) + ending.length }

theorem read_chunk {value : Bytes} {decoder : FatalDecoder} {cs : List Char}
    (decoded : s.decoder.decode value = some (decoder, cs)) :
    read limit s (some value) =
      let next := s.receive decoder cs []
      ⟨(drain limit false next).state, next :: (drain limit false next).points, (drain limit false next).failure⟩ := by
  unfold read
  dsimp only
  rw [decoded]
  rfl

theorem read_end {decoder : FatalDecoder} {cs : List Char} (decoded : s.decoder.finish = some (decoder, cs)) :
    read limit s none =
      let next := s.receive decoder cs [LF, LF]
      ⟨(drain limit true next).state, next :: (drain limit true next).points, (drain limit true next).failure⟩ := by
  unfold read
  dsimp only
  rw [decoded]
  rfl

theorem Reading.chunk {bytes value : Bytes} {cs ds : List Char} {d : Decoder} (reading : Reading bytes cs s)
    (decoded : s.decoder.decoder.strict value = some (d, ds)) (within : textBytes (cs ++ ds) ≤ limit) :
    (∀ point ∈ (read limit s (some value)).points, point.Counted) ∧
      match (read limit s (some value)).failure with
      | none => Reading (bytes ++ value) (cs ++ ds) (read limit s (some value)).state
      | some failure => ∀ more, State.initial.outcome (splitLines (textOf (cs ++ ds) ++ more)).1 =
          ((read limit s (some value)).state.yielded, some failure) := by
  have found : s.decoder.decode value =
      some (⟨d, s.decoder.begun || !ds.isEmpty⟩, if cs.isEmpty then withoutMark ds else ds) := by
    rw [FatalDecoder.decode, decoded, reading.begun]
    cases cs <;> rfl
  have bytesOf : textBytes (if cs.isEmpty then withoutMark ds else ds) ≤ textBytes ds := by
    split
    · exact textBytes_withoutMark ds
    · exact le_refl _
  have whole := textOf_append cs ds
  rw [read_chunk found]
  dsimp only
  generalize (if cs.isEmpty then withoutMark ds else ds) = emitted at bytesOf whole ⊢
  generalize next_eq : s.receive ⟨d, s.decoder.begun || !ds.isEmpty⟩ emitted [] = next
  have counted : next.Counted := by
    rw [← next_eq, State.Counted, State.receive]
    dsimp only
    rw [List.append_nil, JsString.utf8Length_append _ (text_head emitted), reading.counted]
    rfl
  have load : next.load = s.load + textBytes emitted := by
    rw [← next_eq, State.load, State.load, State.receive]
    dsimp only
    rw [utf8Length_text, List.length_nil]
    omega
  have light := reading.light
  rw [textBytes_append] at within
  have fits : Fits limit false next := .inl (by omega)
  have drained := drain_drained counted fits
  have outcome (more : JsString) : State.initial.outcome (splitLines (textOf (cs ++ ds) ++ more)).1 =
      next.outcome (splitLines (next.buffer ++ more)).1 := by
    rw [whole, List.append_assoc, reading.outcome, ← next_eq, State.receive]
    dsimp only
    rw [List.append_nil, List.append_assoc]
    rfl
  refine ⟨?_, ?_⟩
  · intro point member
    rcases List.mem_cons.1 member with rfl | member
    · exact counted
    · exact drained.counted point member
  · split
    next fine =>
      refine ⟨?_, ?_, drained.final, ?_, fun line found behind hit => (drained.rest fine line found behind hit).2, ?_⟩
      · rw [drained.decoder, ← next_eq, Decoder.strict_append, reading.decoded, Option.bind_some]
        dsimp only
        rw [decoded]
        rfl
      · rw [drained.decoder, ← next_eq]
        show (s.decoder.begun || !ds.isEmpty) = _
        rw [reading.begun]
        cases cs <;> rfl
      · have lighter := drained.lighter
        rw [textBytes_append]
        omega
      · intro more
        rw [outcome, drained.outcome more nofun, fine]
    next failure failed =>
      intro more
      rw [outcome, drained.outcome more nofun, failed]

/-- The end of the input, which terminates the line and the block that are open. -/
theorem Reading.ending {bytes : Bytes} {cs : List Char} (reading : Reading bytes cs s)
    (closed : s.decoder.decoder = .start) (within : textBytes cs ≤ limit) (positive : 0 < limit) :
    (∀ point ∈ (read limit s none).points, point.Counted) ∧
      State.initial.outcome (splitLines (textOf cs ++ [LF, LF])).1 =
        ((read limit s none).state.yielded, (read limit s none).failure) := by
  have found : s.decoder.finish = some (.initial, []) := by rw [FatalDecoder.finish, closed]
  rw [read_end found]
  dsimp only
  generalize next_eq : s.receive .initial [] [LF, LF] = next
  have buffer : next.buffer = s.buffer ++ [LF, LF] := by
    rw [← next_eq, State.receive]
    dsimp only
    rw [List.flatMap_nil, List.append_nil]
  have counted : next.Counted := by
    rw [State.Counted, buffer, utf8Length_break LF (.inr rfl), ← next_eq, ← reading.counted]
    rfl
  have load : next.load = s.load + 2 := by
    rw [← next_eq, State.load, State.load, State.receive]
    show s.bufferBytes + 0 + 2 + s.dataBytes = _
    omega
  obtain ⟨line, ended, hit, some_⟩ := exec_ending reading.open_
  rw [← buffer] at hit
  have took := takeLine_took limit counted hit
  have light := reading.light
  have fits : Fits limit true next := by
    refine .inr ⟨line, ended, [LF], hit, nofun, ?_⟩
    by_cases blank : line = []
    · have bytes := took.counted
      rw [State.Counted, took.buffer] at bytes
      rw [State.load, bytes, took.blank blank]
      exact positive
    · have written := took.written blank
      omega
  have drained := drain_drained counted fits
  have outcome : State.initial.outcome (splitLines (textOf cs ++ [LF, LF])).1 = next.outcome (splitLines next.buffer).1 := by
    rw [reading.outcome, buffer, ← next_eq]
    rfl
  refine ⟨?_, ?_⟩
  · intro point member
    rcases List.mem_cons.1 member with rfl | member
    · exact counted
    · exact drained.counted point member
  · have whole := drained.outcome [] fun _ => rfl
    rw [List.append_nil, List.append_nil] at whole
    rw [outcome, whole]
    cases failed : (drain limit true next).failure with
    | some failure => rfl
    | none =>
      have miss : exec (drain limit true next).state.buffer = none := by
        cases hit : exec (drain limit true next).state.buffer with
        | none => rfl
        | some parts =>
          obtain ⟨line, found, behind⟩ := parts
          cases (drained.rest failed line found behind hit).1
      dsimp only
      rw [splitLines_none miss, outcome_nil]

theorem Reading.stream {bytes : Bytes} {read_ cs : List Char} {chunks : List Bytes} (reading : Reading bytes read_ s)
    (valid : Decoder.start.strict (bytes ++ chunks.flatten) = some (.start, cs)) (within : textBytes cs ≤ limit)
    (positive : 0 < limit) :
    (∀ point ∈ (sse limit s chunks).points, point.Counted) ∧
      State.initial.outcome (splitLines (textOf cs ++ [LF, LF])).1 =
        ((sse limit s chunks).state.yielded, (sse limit s chunks).failure) := by
  induction chunks generalizing bytes read_ s with
  | nil =>
    rw [List.flatten_nil, List.append_nil] at valid
    have same := Option.some.inj (reading.decoded.symm.trans valid)
    rw [Prod.mk.injEq] at same
    obtain ⟨closed, rfl⟩ := same
    exact reading.ending closed within positive
  | cons chunk rest ih =>
    rw [List.flatten_cons, ← List.append_assoc] at valid
    have parts := valid
    rw [Decoder.strict_append, Option.bind_eq_some_iff] at parts
    obtain ⟨⟨d, all⟩, earlier, later⟩ := parts
    obtain ⟨⟨_, others⟩, _, same⟩ := Option.map_eq_some_iff.1 later
    have prefix_ : cs = all ++ others := (congrArg Prod.snd same).symm
    rw [Decoder.strict_append, reading.decoded, Option.bind_some] at earlier
    obtain ⟨⟨_, ds⟩, decoded, same⟩ := Option.map_eq_some_iff.1 earlier
    cases same
    have part : textBytes (read_ ++ ds) ≤ limit := by
      rw [prefix_, textBytes_append] at within
      omega
    obtain ⟨counted, result⟩ := reading.chunk decoded part
    rw [sse]
    dsimp only
    cases failed : (read limit s (some chunk)).failure with
    | some failure =>
      rw [failed] at result
      refine ⟨counted, ?_⟩
      dsimp only at result ⊢
      have whole := textOf_append (read_ ++ ds) others
      rw [← prefix_] at whole
      rw [whole, List.append_assoc, result]
    | none =>
      rw [failed] at result
      obtain ⟨counted', outcome⟩ := ih result valid
      dsimp only
      refine ⟨?_, outcome⟩
      intro point member
      rcases List.mem_append.1 member with member | member
      · exact counted point member
      · exact counted' point member

theorem sse_outcome {chunks : List Bytes} {cs : List Char} (valid : chunks.flatten = cs.flatMap charBytes) (limit : ℕ)
    (positive : 0 < limit) (within : chunks.flatten.length ≤ limit) :
    (∀ point ∈ (sse limit .initial chunks).points, point.Counted) ∧
      eventsOf (textOf cs ++ [LF, LF]) = ((sse limit .initial chunks).state.yielded, (sse limit .initial chunks).failure) := by
  have decoded : Decoder.start.strict ([] ++ chunks.flatten) = some (.start, cs) := by
    rw [List.nil_append, valid]
    exact strict_valid cs
  rw [valid] at within
  exact Reading.initial.stream decoded within positive

/-- However a valid response within the limit is cut into chunks, what is yielded is what the blocks of its decoded text
come to when the end of the input terminates the last line and the last block, and the counter is right after every read
and every line. -/
theorem sse_yields (chunks : List Bytes) (cs : List Char) (valid : chunks.flatten = cs.flatMap charBytes) (limit : ℕ)
    (positive : 0 < limit) (within : chunks.flatten.length ≤ limit) :
    (sse limit .initial chunks).state.yielded = (eventsOf (textOf cs ++ [LF, LF])).1 ∧
      (sse limit .initial chunks).failure = (eventsOf (textOf cs ++ [LF, LF])).2 ∧
      ∀ point ∈ (sse limit .initial chunks).points, point.bufferBytes = point.buffer.utf8Length := by
  obtain ⟨counted, outcome⟩ := sse_outcome valid limit positive within
  rw [outcome]
  exact ⟨rfl, rfl, counted⟩

/-- A value in two chunks, cut inside a line break. -/
theorem sse_yields_cut :
    (sse 20 .initial [[0x64, 0x61, 0x74, 0x61, 0x3A, 0x31, 0x0D], [0x0A, 0x0A]]).state.yielded =
      (eventsOf (textOf ['d', 'a', 't', 'a', ':', '1', '\r', '\n', '\n'] ++ [LF, LF])).1 :=
  (sse_yields _ ['d', 'a', 't', 'a', ':', '1', '\r', '\n', '\n'] (by decide) 20 (by decide) (by decide)).1

/-- The last block of a response is yielded without a blank line behind it; and an empty response is over a limit of no
bytes. -/
theorem last_block_yielded :
    ([[0x64, 0x61, 0x74, 0x61, 0x3A, 0x31]] : List Bytes).flatten = ['d', 'a', 't', 'a', ':', '1'].flatMap charBytes ∧
      eventsOf (textOf ['d', 'a', 't', 'a', ':', '1']) = ([], none) ∧
      (sse 20 .initial [[0x64, 0x61, 0x74, 0x61, 0x3A, 0x31]]).state.yielded ≠ [] ∧
      (sse 0 .initial []).failure = some .provider_frame_limit := by
  have valid : ([[0x64, 0x61, 0x74, 0x61, 0x3A, 0x31]] : List Bytes).flatten =
      ['d', 'a', 't', 'a', ':', '1'].flatMap charBytes := by decide
  refine ⟨valid, ?_, ?_, ?_⟩
  · rfl
  · have outcome := (sse_outcome valid 20 (by decide) (by decide)).2
    have yielded : (eventsOf (textOf ['d', 'a', 't', 'a', ':', '1'] ++ [LF, LF])).1 = (sse 20 .initial _).state.yielded :=
      congrArg Prod.fst outcome
    rw [← yielded]
    decide
  · have closed : State.initial.decoder.finish = some (.initial, []) := rfl
    rw [sse, read_end closed]
    dsimp only
    rw [drain]
    rfl

end PersistentHarness.EventStream
