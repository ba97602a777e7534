import PersistentHarness.Model.ProgressHeadings

/-! # Headings and the cuts of a text

The lines of a text are complete in an order that does not depend on how the text was cut. Where no line beyond the bound is a
heading, the latest heading is that of the last line that has one.
-/

namespace PersistentHarness.ProgressHeadings

section Lines

/-- The lines that are complete, without empty ones, and the line that is not. -/
def feed (pending : JsString) : JsString → List JsString × JsString
  | [] => ([], pending)
  | c :: rest =>
    if isLineBreak c then
      if pending = [] then feed [] rest else (pending :: (feed [] rest).1, (feed [] rest).2)
    else feed (pending ++ [c]) rest

theorem feed_append (pending first second : JsString) : feed pending (first ++ second) =
    ((feed pending first).1 ++ (feed (feed pending first).2 second).1, (feed (feed pending first).2 second).2) := by
  induction first generalizing pending with
  | nil => rfl
  | cons c first ih =>
    rw [List.cons_append, feed, feed]
    by_cases ends : isLineBreak c = true
    · rw [if_pos ends, if_pos ends]
      by_cases empty : pending = []
      · rw [if_pos empty, if_pos empty, ih]
      · rw [if_neg empty, if_neg empty, ih]
        rfl
    · rw [if_neg ends, if_neg ends, ih]

/-- Text without a line break only makes the line longer. -/
theorem feed_open {text : JsString} (whole : ∀ c ∈ text, isLineBreak c = false) (pending rest : JsString) :
    feed pending (text ++ rest) = feed (pending ++ text) rest := by
  induction text generalizing pending with
  | nil => rw [List.nil_append, List.append_nil]
  | cons c text ih =>
    rw [List.cons_append, feed, if_neg (Bool.eq_false_iff.mp (whole c (List.mem_cons_self ..))),
      ih (fun d member => whole d (List.mem_cons_of_mem _ member)), List.append_assoc, List.singleton_append]

/-- The texts that are not finished, and the lines that are, in the order in which they were completed. -/
structure Reading where
  pending : ℤ → JsString
  lines : List JsString

def Reading.initial : Reading := ⟨fun _ => [], []⟩

/-- What an event adds to the texts: an end completes the line that is left. -/
def Reading.read (reading : Reading) : Event → Reading
  | .thinkingStart index => { reading with pending := Function.update reading.pending index [] }
  | .thinkingDelta index delta =>
    { pending := Function.update reading.pending index (feed (reading.pending index) delta).2
      lines := reading.lines ++ (feed (reading.pending index) delta).1 }
  | .thinkingEnd index =>
    { pending := Function.update reading.pending index []
      lines := reading.lines ++ if reading.pending index = [] then [] else [reading.pending index] }
  | .other => reading

def readAll (events : List Event) : Reading := events.foldl Reading.read .initial

/-- The lines of all texts, in the order in which they are completed. -/
def completedLines (events : List Event) : List JsString := (readAll events).lines

/-- A delta in several parts is read as the whole. -/
theorem foldl_read_pieces (reading : Reading) (index : ℤ) (pieces : List JsString) :
    (pieces.map (.thinkingDelta index)).foldl Reading.read reading = reading.read (.thinkingDelta index pieces.flatten) := by
  induction pieces generalizing reading with
  | nil =>
    rw [List.map_nil, List.foldl_nil, List.flatten_nil, Reading.read, feed, List.append_nil, Function.update_eq_self]
  | cons piece pieces ih =>
    rw [List.map_cons, List.foldl_cons, ih, List.flatten_cons, Reading.read, Reading.read, Reading.read, feed_append]
    simp only [Function.update_self, Function.update_idem, List.append_assoc]

/-- The lines of the texts do not depend on how the deltas are cut. -/
theorem completedLines_split (before after : List Event) (index : ℤ) (pieces : List JsString) :
    completedLines (before ++ pieces.map (.thinkingDelta index) ++ after) =
      completedLines (before ++ .thinkingDelta index pieces.flatten :: after) := by
  unfold completedLines readAll
  rw [List.foldl_append, List.foldl_append, foldl_read_pieces, List.foldl_append, List.foldl_cons]

end Lines

section Tracking

variable {unicode : Unicode}

theorem headingFromLine_nil : headingFromLine unicode [] = none := rfl

def lastHeading (unicode : Unicode) (latest : Option JsString) (lines : List JsString) : Option JsString :=
  lines.foldl (fun latest line => (headingFromLine unicode line).or latest) latest

/-- A line beyond the bound is no heading. -/
def Short (unicode : Unicode) (lines : List JsString) : Prop :=
  ∀ line ∈ lines, maxPendingLineCharacters < line.length → headingFromLine unicode line = none

/-- A buffer stands for the line that is not finished, or for a line beyond the bound. -/
def Holds (state : Buffer) (pending : JsString) : Prop :=
  if state.overflowed then maxPendingLineCharacters < pending.length ∧ state.text = [] else state.text = pending

theorem holds_empty : Holds .empty [] := rfl

theorem Holds.append {state : Buffer} {pending : JsString} (holds : Holds state pending) (remaining : JsString) :
    Holds (state.append remaining) (pending ++ remaining) := by
  unfold Buffer.append
  unfold Holds at holds
  by_cases dropped : state.overflowed = true
  · rw [if_pos dropped] at holds ⊢
    rw [Holds, if_pos dropped, List.length_append]
    exact ⟨by omega, holds.2⟩
  · rw [if_neg dropped] at holds ⊢
    rw [holds]
    by_cases fits : pending.length + remaining.length ≤ maxPendingLineCharacters
    · rw [if_pos fits]
      rfl
    · rw [if_neg fits, Holds, if_pos rfl, List.length_append]
      exact ⟨by omega, rfl⟩

/-- A complete line gives its heading, whether it was kept or dropped. -/
theorem finishLine_eq {state : Buffer} {pending : JsString} (holds : Holds state pending) (segment : JsString) (latest : Option JsString)
    (short : maxPendingLineCharacters < (pending ++ segment).length → headingFromLine unicode (pending ++ segment) = none) :
    finishLine unicode state.overflowed (state.text ++ segment) latest = (headingFromLine unicode (pending ++ segment)).or latest := by
  unfold Holds at holds
  unfold finishLine
  by_cases dropped : state.overflowed = true
  · rw [if_pos dropped] at holds ⊢
    rw [short (by rw [List.length_append]; omega), Option.none_or]
  · rw [if_neg dropped] at holds ⊢
    rw [holds]

theorem feed_break {separator : UInt16} (ends : isLineBreak separator = true) (line rest : JsString) :
    feed line (separator :: rest) = ((if line = [] then [] else [line]) ++ (feed [] rest).1, (feed [] rest).2) := by
  rw [feed, if_pos ends]
  by_cases empty : line = []
  · rw [if_pos empty, if_pos empty, List.nil_append]
  · rw [if_neg empty, if_neg empty, List.singleton_append]

theorem feed_newline (rest : JsString) : feed [] (0x0A :: rest) = feed [] rest := by
  rw [feed_break (by decide), if_pos rfl, List.nil_append]

theorem consumeLines_eq {state : Buffer} {pending : JsString} (holds : Holds state pending) (latest : Option JsString)
    (remaining : JsString) (short : Short unicode (feed pending remaining).1) :
    Holds (consumeLines unicode state latest remaining).1 (feed pending remaining).2 ∧
      (consumeLines unicode state latest remaining).2 = lastHeading unicode latest (feed pending remaining).1 := by
  induction length : remaining.length using Nat.strong_induction_on generalizing state pending latest remaining with
  | _ n ih =>
    have cut := (List.takeWhile_append_dropWhile (l := remaining) (p := fun c => decide (isLineBreak c = false))).symm
    have whole : ∀ c ∈ remaining.takeWhile fun c => decide (isLineBreak c = false), isLineBreak c = false :=
      fun c member => of_decide_eq_true (List.all_eq_true.mp List.all_takeWhile c member)
    rw [consumeLines]
    split
    · next behind =>
      rw [behind, List.append_nil] at cut
      have open_ := feed_open whole pending []
      rw [List.append_nil, ← cut] at open_
      rw [open_]
      exact ⟨holds.append remaining, rfl⟩
    · next separator rest behind =>
      generalize isSegment : (remaining.takeWhile fun c => decide (isLineBreak c = false)) = segment at *
      rw [behind] at cut
      have ends : isLineBreak separator = true := by
        have head := List.head?_dropWhile_not (fun c => decide (isLineBreak c = false)) remaining
        rw [behind] at head
        simpa using head
      generalize isNext : (if separator = 0x0D ∧ rest.head? = some 0x0A then rest.tail else rest) = next
      -- A newline behind its carriage return ends an empty line.
      have skipped : feed [] rest = feed [] next := by
        rw [← isNext]
        split
        · next both =>
          cases rest with
          | nil => rfl
          | cons c rest =>
            obtain rfl : c = 0x0A := Option.some.inj both.2
            exact feed_newline rest
        · rfl
      have lines : feed pending remaining =
          ((if pending ++ segment = [] then [] else [pending ++ segment]) ++ (feed [] next).1, (feed [] next).2) := by
        rw [cut, feed_open whole, feed_break ends, skipped]
      have shorter : next.length < n := by
        have behindLength := congrArg List.length cut
        rw [List.length_append, List.length_cons, length] at behindLength
        rw [← isNext]
        split
        · rw [List.length_tail]
          omega
        · omega
      rw [lines] at short ⊢
      have rest := ih next.length shorter holds_empty
        (finishLine unicode state.overflowed (state.text ++ segment) latest) next
        (fun line member => short line (List.mem_append_right _ member)) rfl
      refine ⟨rest.1, rest.2.trans ?_⟩
      rw [lastHeading, lastHeading, List.foldl_append]
      congr 1
      by_cases empty : pending ++ segment = []
      · rw [if_pos empty, finishLine_eq holds segment latest (by rw [empty]; exact fun _ => rfl), empty, headingFromLine_nil]
        rfl
      · rw [if_neg empty, finishLine_eq holds segment latest (short _ (by rw [if_neg empty]; exact List.mem_append_left _ (List.mem_singleton_self _)))]
        rfl

variable {tracker : Tracker} {reading : Reading} {message : Value}

structure Tracks (unicode : Unicode) (tracker : Tracker) (reading : Reading) : Prop where
  buffers : ∀ i, Holds ((tracker.buffers i).getD .empty) (reading.pending i)
  latest : tracker.latest = lastHeading unicode none reading.lines

theorem tracks_initial : Tracks unicode .initial .initial := ⟨fun _ => holds_empty, rfl⟩

theorem holds_update (tracks : Tracks unicode tracker reading) {index : ℤ} {state : Option Buffer} {pending : JsString}
    (holds : Holds (state.getD .empty) pending) (i : ℤ) :
    Holds ((Function.update tracker.buffers index state i).getD .empty) (Function.update reading.pending index pending i) := by
  by_cases here : i = index
  · rw [here, Function.update_self, Function.update_self]
    exact holds
  · rw [Function.update_of_ne here, Function.update_of_ne here]
    exact tracks.buffers i

theorem lastHeading_append (lines more : List JsString) :
    lastHeading unicode none (lines ++ more) = lastHeading unicode (lastHeading unicode none lines) more := List.foldl_append

theorem update_tracks (tracks : Tracks unicode tracker reading) (eligible : isEligibleProgressMessage message = true) (event : Event)
    (short : Short unicode (reading.read event).lines) : Tracks unicode (tracker.update unicode message event) (reading.read event) := by
  unfold Tracker.update
  rw [if_pos eligible]
  cases event with
  | thinkingStart index => exact ⟨holds_update tracks holds_empty, tracks.latest⟩
  | thinkingDelta index delta =>
    have consumed := consumeLines_eq (tracks.buffers index) tracker.latest delta
      fun line member => short line (List.mem_append_right _ member)
    refine ⟨holds_update tracks consumed.1, consumed.2.trans ?_⟩
    rw [tracks.latest, Reading.read, lastHeading_append]
  | thinkingEnd index =>
    refine ⟨holds_update tracks holds_empty, ?_⟩
    have held := tracks.buffers index
    rw [Reading.read, lastHeading_append, ← tracks.latest]
    simp only
    split
    · next state kept =>
      rw [kept, Option.getD_some] at held
      have opened : consumeLines unicode state tracker.latest [] = (state.append [], tracker.latest) := by
        rw [consumeLines]
        rfl
      have ended := @finishLine_eq unicode _ _ (held.append []) [] tracker.latest
      rw [List.append_nil, List.append_nil, List.append_nil] at ended
      have finished : (consume unicode state tracker.latest [] true).2 =
          finishLine unicode (state.append []).overflowed (state.append []).text tracker.latest := by
        rw [consume, opened]
        rfl
      rw [finished]
      by_cases empty : reading.pending index = []
      · rw [if_pos empty, ended (by rw [empty]; exact fun _ => rfl), empty, headingFromLine_nil]
        rfl
      · rw [if_neg empty, ended]
        · rfl
        · refine short _ (List.mem_append_right _ ?_)
          rw [if_neg empty]
          exact List.mem_singleton_self _
    · next absent =>
      rw [absent, Option.getD_none] at held
      rw [if_pos (show reading.pending index = [] from Eq.symm held)]
      rfl
  | other => exact tracks

theorem lines_foldl (events : List Event) (reading : Reading) : reading.lines ⊆ (events.foldl Reading.read reading).lines := by
  induction events generalizing reading with
  | nil => exact fun line member => member
  | cons event events ih =>
    refine List.Subset.trans ?_ (ih (reading.read event))
    cases event with
    | thinkingStart index => exact fun line member => member
    | thinkingDelta index delta => exact List.subset_append_left ..
    | thinkingEnd index => exact List.subset_append_left ..
    | other => exact fun line member => member

theorem foldl_tracks (events : List Event) (tracks : Tracks unicode tracker reading) (eligible : isEligibleProgressMessage message = true)
    (short : Short unicode (events.foldl Reading.read reading).lines) :
    Tracks unicode (events.foldl (fun tracker event => tracker.update unicode message event) tracker)
      (events.foldl Reading.read reading) := by
  induction events generalizing tracker reading with
  | nil => exact tracks
  | cons event events ih =>
    refine ih (update_tracks tracks eligible event fun line member => ?_) short
    exact short line (lines_foldl events _ member)

theorem run_latest (eligible : isEligibleProgressMessage message = true) (events : List Event)
    (short : Short unicode (completedLines events)) :
    (run unicode message events).latest = lastHeading unicode none (completedLines events) :=
  (foldl_tracks events tracks_initial eligible short).latest

/-- A delta in several parts leaves the lines and the latest heading as they are, where no line beyond the bound is a heading. -/
theorem run_split (unicode : Unicode) {message : Value} (eligible : isEligibleProgressMessage message = true) (before after : List Event)
    (index : ℤ) (pieces : List JsString)
    (short : Short unicode (completedLines (before ++ .thinkingDelta index pieces.flatten :: after))) :
    (run unicode message (before ++ pieces.map (.thinkingDelta index) ++ after)).latest =
        (run unicode message (before ++ .thinkingDelta index pieces.flatten :: after)).latest ∧
      (run unicode message (before ++ .thinkingDelta index pieces.flatten :: after)).latest =
        lastHeading unicode none (completedLines (before ++ .thinkingDelta index pieces.flatten :: after)) := by
  have split := completedLines_split before after index pieces
  have whole := run_latest eligible _ short
  refine ⟨?_, whole⟩
  rw [whole, run_latest eligible _ (split ▸ short), split]

def sampleUnicode : Unicode := ⟨id, fun _ => false⟩

def sampleMessage : Value :=
  .record [("role", .text "assistant"), ("api", .text "openai-codex-responses"), ("provider", .text "openai-codex")]

theorem run_split_heading :
    (run sampleUnicode sampleMessage ([.thinkingStart 0] ++ [js "**A", js "**\n"].map (.thinkingDelta 0) ++ [.thinkingEnd 0])).latest =
        (run sampleUnicode sampleMessage ([.thinkingStart 0] ++ .thinkingDelta 0 [js "**A", js "**\n"].flatten :: [.thinkingEnd 0])).latest ∧
      (run sampleUnicode sampleMessage ([.thinkingStart 0] ++ .thinkingDelta 0 [js "**A", js "**\n"].flatten :: [.thinkingEnd 0])).latest =
        lastHeading sampleUnicode none
          (completedLines ([.thinkingStart 0] ++ .thinkingDelta 0 [js "**A", js "**\n"].flatten :: [.thinkingEnd 0])) :=
  run_split sampleUnicode (by decide) [.thinkingStart 0] [.thinkingEnd 0] 0 [js "**A", js "**\n"] (by
    intro line member long
    have lines : completedLines ([.thinkingStart 0] ++ .thinkingDelta 0 [js "**A", js "**\n"].flatten :: [.thinkingEnd 0]) =
      [js "**A**"] := by decide
    rw [lines] at member
    rw [List.mem_singleton.mp member] at long
    exact absurd long (by decide))

/-- A heading behind more white space than a line may have while it is not finished. -/
def sampleSpaces : JsString := List.replicate 600 0x20

/-- It is the latest heading where it arrives at once, and is dropped where it arrives in two parts. -/
theorem run_spaces :
    (run sampleUnicode sampleMessage [.thinkingStart 0, .thinkingDelta 0 (sampleSpaces ++ js "**A**\n")]).latest = some (js "A") ∧
      (run sampleUnicode sampleMessage [.thinkingStart 0, .thinkingDelta 0 sampleSpaces, .thinkingDelta 0 (js "**A**\n")]).latest =
        none := by
  decide +kernel

end Tracking

end PersistentHarness.ProgressHeadings
