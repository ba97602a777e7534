import Mathlib.Data.List.Induction
import Mathlib.Data.List.TakeWhile
import PersistentHarness.Model.PresentationDirective

/-! # What a presentation filter emits

A filter that reads a text at once and one that reads it in chunks do the same: `push` over two texts is `push` over the
one and then over the other. What becomes of a line depends on the line alone, which `Scrubbed`, `Withheld` and `Kept` say.
-/

namespace PersistentHarness.PresentationDirective

variable {c : Config} {f : Filter} {u : UInt16} {text line other rest : JsString}

/-! ## Chunks -/

theorem cutLine_append (text other : JsString) :
    cutLine (text ++ other) =
      match cutLine text with
      | some (line, rest) => some (line, rest ++ other)
      | none => (cutLine other).map fun (line, rest) => (text ++ line, rest) := by
  induction text with
  | nil =>
    cases found : cutLine other with
    | none => simp only [cutLine, List.nil_append, found, Option.map_none]
    | some cut => simp only [cutLine, List.nil_append, found, Option.map_some]
  | cons u text ih =>
    rw [List.cons_append, cutLine, cutLine]
    split
    · rfl
    · rw [ih]
      cases cutLine text with
      | some cut => rfl
      | none => cases cutLine other <;> rfl

/-- The byte bound of a reserved line does not see how the line was cut. -/
theorem appendReserved_append (c : Config) (f : Filter) (text other : JsString) :
    (f.appendReserved c text).appendReserved c other = f.appendReserved c (text ++ other) := by
  unfold Filter.appendReserved
  cases overlong : f.reservedOverlong with
  | true => simp only [if_true, overlong]
  | false =>
    have grows := JsString.utf8Length_le_append (f.buffer ++ text) other
    simp only [Bool.false_eq_true, if_false, ← List.append_assoc]
    by_cases long : c.maxBytes < (f.buffer ++ text).utf8Length
    · have longer : c.maxBytes < JsString.utf8Length (f.buffer ++ text ++ other) := by omega
      simp only [if_pos long, if_pos longer, if_true]
    · simp only [if_neg long, Bool.false_eq_true, if_false]

theorem appendReserved_state (c : Config) (f : Filter) (text : JsString) : (f.appendReserved c text).state = f.state := by
  unfold Filter.appendReserved
  split
  · rfl
  · dsimp only
    split <;> rfl

theorem push_nil (c : Config) (f : Filter) : f.push c [] = (f, []) := by rw [Filter.push]

theorem push_candidate (candidate : f.state = .candidate) (u : UInt16) (rest : JsString) :
    f.push c (u :: rest) =
      (((f.examine c u).1.push c rest).1, (f.examine c u).2 ++ ((f.examine c u).1.push c rest).2) := by
  rw [Filter.push, candidate]

/-- An ordinary line passes through; the next line is a candidate. -/
theorem push_ordinary (ordinary : f.state = .ordinary) (text : JsString) :
    f.push c text =
      match cutLine text with
      | none => (f, text)
      | some (line, others) =>
        let next := ({ f with firstLine := false, state := .candidate, buffer := [] } : Filter).push c others
        (next.1, line ++ next.2) := by
  cases text with
  | nil => exact push_nil c f
  | cons u rest =>
    rw [Filter.push, ordinary]
    dsimp only
    split
    next cut => rw [cut]
    next cut => rw [cut]

theorem push_reserved (reserved : f.state = .reserved) {text : JsString} (more : text ≠ []) :
    f.push c text =
      match cutLine text with
      | none => (f.appendReserved c text, [])
      | some (line, others) => ((f.appendReserved c line).finishReservedLine c).push c others := by
  cases text with
  | nil => exact absurd rfl more
  | cons u rest =>
    rw [Filter.push, reserved]
    dsimp only
    split
    next cut => rw [cut]
    next cut => rw [cut]

theorem push_append (c : Config) (f : Filter) (text other : JsString) :
    f.push c (text ++ other) =
      (((f.push c text).1.push c other).1, (f.push c text).2 ++ ((f.push c text).1.push c other).2) := by
  induction size : text.length using Nat.strong_induction_on generalizing text f with
  | _ n ih =>
    subst size
    cases text with
    | nil => rw [push_nil]; rfl
    | cons u rest =>
      cases state : f.state with
      | candidate =>
        rw [List.cons_append, push_candidate state, push_candidate state, ih _ (Nat.lt_succ_self _) _ rest rfl]
        simp only [List.append_assoc]
      | ordinary =>
        rw [push_ordinary state, push_ordinary state (u :: rest), cutLine_append]
        cases cut : cutLine (u :: rest) with
        | some parts =>
          obtain ⟨line, others⟩ := parts
          dsimp only
          rw [ih _ (cutLine_length cut) _ others rfl]
          simp only [List.append_assoc]
        | none =>
          dsimp only
          rw [push_ordinary state other]
          cases cutLine other with
          | none => rfl
          | some parts => simp only [Option.map_some, List.append_assoc]
      | reserved =>
        rw [push_reserved state (by simp), push_reserved state (List.cons_ne_nil u rest), cutLine_append]
        cases cut : cutLine (u :: rest) with
        | some parts =>
          obtain ⟨line, others⟩ := parts
          dsimp only
          exact ih _ (cutLine_length cut) _ others rfl
        | none =>
          dsimp only
          have still := (appendReserved_state c f (u :: rest)).trans state
          cases other with
          | nil => rw [push_nil, List.append_nil]; rfl
          | cons v more =>
            rw [push_reserved still (List.cons_ne_nil v more)]
            cases cutLine (v :: more) with
            | none => simp only [Option.map_none, appendReserved_append, List.append_nil]
            | some parts => simp only [Option.map_some, appendReserved_append, List.nil_append]

theorem feed_flatten (c : Config) (f : Filter) (chunks : List JsString) : f.feed c chunks = f.push c chunks.flatten := by
  induction chunks generalizing f with
  | nil => exact (push_nil c f).symm
  | cons chunk rest ih =>
    rw [List.flatten_cons, push_append, Filter.feed, ← ih]

/-- However a text is cut into chunks, the filter emits the same text, and selects the same presentation, as on the whole. -/
theorem sanitizeChunks_eq (c : Config) (chunks : List JsString) :
    sanitizeChunks c chunks = sanitizePresentationText c chunks.flatten := by
  unfold sanitizeChunks sanitizePresentationText
  rw [feed_flatten]

/-! ## Lines -/

def indentation (line : JsString) : JsString := line.takeWhile isIndent

def content (line : JsString) : JsString := line.dropWhile isIndent

/-- The line starts, after any run of spaces and tabs, with the reserved prefix. -/
def Reserved (c : Config) (line : JsString) : Prop := c.reservedPrefix <+: content line

/-- The filter takes the line for a reserved one. -/
def Scrubbed (c : Config) (line : JsString) : Prop := Reserved c line ∧ (indentation line).length ≤ c.maxBytes

/-- The filter cannot tell yet what the line is. -/
def Withheld (c : Config) (line : JsString) : Prop :=
  content line <+: c.reservedPrefix ∧ ¬Reserved c line ∧ (indentation line).length ≤ c.maxBytes

instance : Decidable (Reserved c line) := inferInstanceAs (Decidable (_ <+: _))
instance : Decidable (Scrubbed c line) := inferInstanceAs (Decidable (_ ∧ _))
instance : Decidable (Withheld c line) := inferInstanceAs (Decidable (_ ∧ _ ∧ _))

/-- The complete lines of a text, without their line feeds, and what is behind the last of them. -/
def lines : JsString → List JsString × JsString
  | [] => ([], [])
  | u :: rest =>
    let (complete, last) := lines rest
    if u = lineFeed then ([] :: complete, last)
    else
      match complete with
      | [] => ([], u :: last)
      | line :: others => ((u :: line) :: others, last)

def allLines (text : JsString) : List JsString := (lines text).1 ++ [(lines text).2]

def unlines (complete : List JsString) (last : JsString) : JsString := complete.flatMap (· ++ [lineFeed]) ++ last

theorem lines_feed (rest : JsString) : lines (lineFeed :: rest) = ([] :: (lines rest).1, (lines rest).2) := by
  rw [lines]
  exact if_pos rfl

theorem lines_unit (different : u ≠ lineFeed) (rest : JsString) :
    lines (u :: rest) =
      match (lines rest).1 with
      | [] => ([], u :: (lines rest).2)
      | line :: others => ((u :: line) :: others, (lines rest).2) := by
  rw [lines]
  exact if_neg different

theorem lines_of_free (free : lineFeed ∉ line) : lines line = ([], line) := by
  induction line with
  | nil => rfl
  | cons u line ih =>
    rw [List.mem_cons, not_or] at free
    rw [lines_unit (Ne.symm free.1), ih free.2]

theorem lines_line (free : lineFeed ∉ line) (rest : JsString) :
    lines (line ++ lineFeed :: rest) = (line :: (lines rest).1, (lines rest).2) := by
  induction line with
  | nil => exact lines_feed rest
  | cons u line ih =>
    rw [List.mem_cons, not_or] at free
    rw [List.cons_append, lines_unit (Ne.symm free.1), ih free.2]

theorem unlines_cons (line : JsString) (others : List JsString) (last : JsString) :
    unlines (line :: others) last = line ++ lineFeed :: unlines others last := by
  simp only [unlines, List.flatMap_cons, List.append_assoc, List.cons_append, List.nil_append]

theorem unlines_lines (text : JsString) : unlines (lines text).1 (lines text).2 = text := by
  induction text with
  | nil => rfl
  | cons u rest ih =>
    by_cases feed : u = lineFeed
    · rw [feed, lines_feed, unlines_cons, ih]
      rfl
    · rw [lines_unit feed]
      cases complete : (lines rest).1 with
      | nil =>
        rw [complete] at ih
        exact congrArg (u :: ·) ih
      | cons line others =>
        rw [complete, unlines_cons] at ih
        rw [unlines_cons]
        exact congrArg (u :: ·) ih

theorem lines_unlines {complete : List JsString} {last : JsString} (closed : ∀ line ∈ complete, lineFeed ∉ line)
    (final : lineFeed ∉ last) : lines (unlines complete last) = (complete, last) := by
  induction complete with
  | nil => exact lines_of_free final
  | cons line others ih =>
    have later := ih fun other member => closed other (List.mem_cons_of_mem _ member)
    rw [unlines_cons, lines_line (closed line (List.mem_cons_self ..)), later]

theorem lines_closed (text : JsString) : (∀ line ∈ (lines text).1, lineFeed ∉ line) ∧ lineFeed ∉ (lines text).2 := by
  induction text with
  | nil => exact ⟨nofun, nofun⟩
  | cons u rest ih =>
    have free {line : JsString} (different : u ≠ lineFeed) (free : lineFeed ∉ line) : lineFeed ∉ u :: line := by
      rw [List.mem_cons, not_or]
      exact ⟨Ne.symm different, free⟩
    by_cases feed : u = lineFeed
    · rw [feed, lines_feed]
      refine ⟨?_, ih.2⟩
      intro line member
      rcases List.mem_cons.1 member with rfl | member
      · exact List.not_mem_nil
      · exact ih.1 line member
    · rw [lines_unit feed]
      cases complete : (lines rest).1 with
      | nil => exact ⟨nofun, free feed ih.2⟩
      | cons line others =>
        rw [complete] at ih
        refine ⟨?_, ih.2⟩
        intro other member
        rcases List.mem_cons.1 member with rfl | member
        · exact free feed (ih.1 line (List.mem_cons_self ..))
        · exact ih.1 other (List.mem_cons_of_mem _ member)

/-! ## What becomes of one line -/

theorem reservedPrefix_free (c : Config) : lineFeed ∉ c.reservedPrefix := by
  have named := c.named
  unfold Config.reservedPrefix
  cases name : c.name with
  | nil =>
    rw [name] at named
    cases named
  | cons first rest =>
    rw [name, validNamespace, Bool.and_eq_true, Bool.and_eq_true, List.all_eq_true] at named
    obtain ⟨⟨letter, _⟩, units⟩ := named
    have apart : lineFeed ∉ first :: rest := by
      rw [List.mem_cons, not_or]
      constructor
      · rintro rfl
        exact absurd letter (by decide)
      · intro member
        exact absurd (units _ member) (by decide)
    rw [List.mem_append, List.mem_append, not_or, not_or]
    exact ⟨⟨by decide, apart⟩, by decide⟩

theorem reservedPrefix_ne_nil (c : Config) : c.reservedPrefix ≠ [] := by
  intro empty
  have length := congrArg List.length empty
  simp only [Config.reservedPrefix, List.length_append, List.length_nil] at length
  have opening : (js "<!-- ").length = 5 := by decide
  omega

theorem content_snoc (begun : content line ≠ []) (u : UInt16) : content (line ++ [u]) = content line ++ [u] := by
  unfold content at begun ⊢
  rw [List.dropWhile_append, List.isEmpty_eq_false_iff.2 begun]
  rfl

theorem indentation_snoc (begun : content line ≠ []) (u : UInt16) : indentation (line ++ [u]) = indentation line := by
  have whole := List.takeWhile_append_dropWhile (p := isIndent) (l := line ++ [u])
  have part := List.takeWhile_append_dropWhile (p := isIndent) (l := line)
  have same := content_snoc begun u
  unfold content at same
  rw [same, ← List.append_assoc] at whole
  have parted := (List.append_inj' whole rfl).1
  exact List.append_cancel_right (parted.trans part.symm)

theorem blank_iff : content line = [] ↔ line.all isIndent = true := by
  rw [content, List.dropWhile_eq_nil_iff, List.all_eq_true]

theorem indentation_of_blank (blank : content line = []) : indentation line = line := by
  have whole := List.takeWhile_append_dropWhile (p := isIndent) (l := line)
  unfold content at blank
  rwa [blank, List.append_nil] at whole

theorem utf8Length_of_blank (blank : line.all isIndent = true) : line.utf8Length = line.length := by
  induction line using JsString.utf8Length.induct with
  | case1 => rfl
  | case2 u =>
    have indent : u = 0x20 ∨ u = 0x09 := by simpa [isIndent] using blank
    rcases indent with rfl | rfl <;> decide
  | case3 u v rest paired ih =>
    have indent : u = 0x20 ∨ u = 0x09 := by simpa [isIndent] using (Bool.and_eq_true_iff.1 blank).1
    rcases indent with rfl | rfl <;> exact absurd paired.1 (by decide)
  | case4 u v rest unpaired ih =>
    have indent : u = 0x20 ∨ u = 0x09 := by simpa [isIndent] using (Bool.and_eq_true_iff.1 blank).1
    rw [JsString.utf8Length, if_neg unpaired, ih (Bool.and_eq_true_iff.1 blank).2]
    rcases indent with rfl | rfl <;> rfl

theorem content_snoc_blank (blank : content line = []) (written : isIndent u = false) : content (line ++ [u]) = [u] := by
  unfold content at blank ⊢
  rw [List.dropWhile_append, blank, List.isEmpty_nil, if_pos rfl, List.dropWhile_cons_of_neg (by simp [written])]

/-- A unit that begins the content leaves the indentation as it is. -/
theorem indentation_le_snoc (u : UInt16) (begun : content (line ++ [u]) ≠ []) :
    (indentation (line ++ [u])).length = (indentation line).length := by
  by_cases blank : content line = []
  · have written : isIndent u = false := by
      rw [← Bool.not_eq_true]
      intro indent
      apply begun
      rw [blank_iff, List.all_append, Bool.and_eq_true]
      exact ⟨blank_iff.1 blank, by simp [indent]⟩
    have whole := List.takeWhile_append_dropWhile (p := isIndent) (l := line ++ [u])
    have same := content_snoc_blank blank written
    unfold content at same
    rw [same] at whole
    rw [indentation_of_blank blank]
    exact congrArg List.length (List.append_inj' whole rfl).1
  · rw [indentation_snoc blank]

theorem content_snoc_feed (line : JsString) : content (line ++ [lineFeed]) = content line ++ [lineFeed] := by
  by_cases blank : content line = []
  · rw [content_snoc_blank blank (by decide), blank, List.nil_append]
  · exact content_snoc blank lineFeed

/-- The mode of the filter inside a line. -/
def modeOf (c : Config) (line : JsString) : Mode :=
  if Scrubbed c line then .reserved else if Withheld c line then .candidate else .ordinary

theorem modeOf_candidate (mode : modeOf c line = .candidate) : Withheld c line := by
  unfold modeOf at mode
  split at mode
  · cases mode
  · split at mode
    · assumption
    · cases mode

theorem modeOf_reserved (mode : modeOf c line = .reserved) : Scrubbed c line := by
  unfold modeOf at mode
  split at mode
  · assumption
  · split at mode <;> cases mode

theorem modeOf_snoc_reserved (mode : modeOf c line = .reserved) (u : UInt16) : modeOf c (line ++ [u]) = .reserved := by
  have scrubbed := modeOf_reserved mode
  have begun : content line ≠ [] := by
    intro blank
    have empty := scrubbed.1
    rw [Reserved, blank, List.prefix_nil] at empty
    exact reservedPrefix_ne_nil c empty
  apply if_pos
  refine ⟨?_, ?_⟩
  · rw [Reserved, content_snoc begun]
    exact scrubbed.1.trans (List.prefix_append ..)
  · rw [indentation_snoc begun]
    exact scrubbed.2

/-- A line is ordinary where it is indented too far, or where its content and the reserved prefix part ways. -/
theorem modeOf_ordinary_iff : modeOf c line = .ordinary ↔
    c.maxBytes < (indentation line).length ∨ (¬c.reservedPrefix <+: content line ∧ ¬content line <+: c.reservedPrefix) := by
  unfold modeOf Scrubbed Withheld Reserved
  by_cases far : c.maxBytes < (indentation line).length
  · have beyond : ¬(indentation line).length ≤ c.maxBytes := by omega
    simp only [beyond, and_false, if_false, far, true_or]
  · have near : (indentation line).length ≤ c.maxBytes := by omega
    simp only [near, and_true, far, false_or]
    by_cases reserved : c.reservedPrefix <+: content line
    · simp only [reserved, if_true, not_true, false_and, reduceCtorEq]
    · by_cases withheld : content line <+: c.reservedPrefix
      · simp only [reserved, withheld, not_false_eq_true, and_true, not_true, if_false, if_true, and_false, reduceCtorEq]
      · simp only [reserved, withheld, not_false_eq_true, and_true, if_false]

theorem modeOf_snoc_ordinary (mode : modeOf c line = .ordinary) (u : UInt16) : modeOf c (line ++ [u]) = .ordinary := by
  rw [modeOf_ordinary_iff] at mode ⊢
  rcases mode with far | ⟨unreserved, parted⟩
  · left
    by_cases blank : content (line ++ [u]) = []
    · have short : (indentation line).length ≤ line.length := (List.takeWhile_sublist isIndent).length_le
      rw [indentation_of_blank blank, List.length_append]
      omega
    · rw [indentation_le_snoc u blank]
      exact far
  · right
    have begun : content line ≠ [] := by
      intro blank
      rw [blank] at parted
      exact parted List.nil_prefix
    rw [content_snoc begun]
    have shorter : content line <+: content line ++ [u] := List.prefix_append ..
    constructor
    · intro whole
      rcases List.prefix_or_prefix_of_prefix whole shorter with reserved | held
      · exact unreserved reserved
      · exact parted held
    · intro held
      exact parted (shorter.trans held)

/-- The filter after an unfinished line, and what it has emitted of the line. -/
structure After (c : Config) (line : JsString) (f : Filter) (emitted : JsString) : Prop where
  state : f.state = modeOf c line
  emitted : emitted = if modeOf c line = .ordinary then line else []
  buffer : modeOf c line = .candidate → f.buffer = line

structure LineStart (f : Filter) : Prop where
  state : f.state = .candidate
  buffer : f.buffer = []

theorem LineStart.after (start : LineStart f) : After c [] f [] := by
  have mode : modeOf c [] = .candidate := by
    have unreserved : ¬Reserved c [] := fun empty => reservedPrefix_ne_nil c (List.prefix_nil.1 empty)
    rw [modeOf, if_neg fun scrubbed => unreserved scrubbed.1, if_pos ⟨List.nil_prefix, unreserved, Nat.zero_le _⟩]
  exact ⟨start.state.trans mode.symm, by rw [mode]; rfl, fun _ => start.buffer⟩

theorem examine_held (buffer : f.buffer = line)
    (held : content (line ++ [u]) ≠ [] ∧
      (content (line ++ [u]) <+: c.reservedPrefix ∨ c.reservedPrefix <+: content (line ++ [u]))) :
    f.examine c u =
      ({ f with buffer := line ++ [u],
                state := if c.reservedPrefix <+: content (line ++ [u]) then .reserved else f.state }, []) := by
  unfold Filter.examine
  simp only [buffer, List.isPrefixOf_iff_prefix]
  exact if_pos held

theorem examine_blank (buffer : f.buffer = line)
    (blank : content (line ++ [u]) = [] ∧ (line ++ [u]).utf8Length ≤ c.maxBytes) :
    f.examine c u = ({ f with buffer := line ++ [u] }, []) := by
  unfold Filter.examine
  simp only [buffer, List.isPrefixOf_iff_prefix]
  rw [if_neg fun held => held.1 blank.1]
  exact if_pos ⟨blank.1, blank_iff.1 blank.1, blank.2⟩

/-- The line can be told from a reserved one: what was held back is emitted. -/
theorem examine_parted (buffer : f.buffer = line)
    (held : ¬(content (line ++ [u]) ≠ [] ∧
      (content (line ++ [u]) <+: c.reservedPrefix ∨ c.reservedPrefix <+: content (line ++ [u]))))
    (blank : ¬(content (line ++ [u]) = [] ∧ (line ++ [u]).utf8Length ≤ c.maxBytes)) :
    (f.examine c u).1.state = (if u = lineFeed then .candidate else .ordinary) ∧
      (f.examine c u).1.buffer = [] ∧ (f.examine c u).2 = line ++ [u] := by
  unfold Filter.examine
  simp only [buffer, List.isPrefixOf_iff_prefix]
  unfold content at held blank
  rw [if_neg held, if_neg fun all => blank ⟨all.1, all.2.2⟩]
  split <;> exact ⟨rfl, rfl, rfl⟩

theorem After.unit {emitted : JsString} (after : After c line f emitted) (different : u ≠ lineFeed) :
    After c (line ++ [u]) (f.push c [u]).1 (emitted ++ (f.push c [u]).2) := by
  have uncut : cutLine [u] = none := by rw [cutLine, if_neg different]; rfl
  cases mode : modeOf c line with
  | ordinary =>
    have still := modeOf_snoc_ordinary mode u
    rw [push_ordinary (after.state.trans mode), uncut]
    refine ⟨(after.state.trans mode).trans still.symm, ?_, fun other => ?_⟩
    · rw [after.emitted, if_pos mode, if_pos still]
    · rw [still] at other
      cases other
  | reserved =>
    have still := modeOf_snoc_reserved mode u
    rw [push_reserved (after.state.trans mode) (List.cons_ne_nil u []), uncut]
    refine ⟨(appendReserved_state ..).trans ((after.state.trans mode).trans still.symm), ?_, fun other => ?_⟩
    · rw [after.emitted, mode, still]
      rfl
    · rw [still] at other
      cases other
  | candidate =>
    have withheld := modeOf_candidate mode
    have state := after.state.trans mode
    have nothing : emitted = [] := by rw [after.emitted, mode]; rfl
    rw [push_candidate state, push_nil, List.append_nil, nothing, List.nil_append]
    have near : (indentation (line ++ [u])).length ≤ c.maxBytes ↔
        content (line ++ [u]) ≠ [] ∨ content (line ++ [u]) = [] ∧ (line ++ [u]).utf8Length ≤ c.maxBytes := by
      by_cases blank : content (line ++ [u]) = []
      · rw [indentation_of_blank blank, utf8Length_of_blank (blank_iff.1 blank)]
        simp only [blank, ne_eq, not_true, false_or, true_and]
      · rw [indentation_le_snoc u blank]
        simp only [withheld.2.2, blank, ne_eq, not_false_eq_true, true_or]
    by_cases held : content (line ++ [u]) ≠ [] ∧
        (content (line ++ [u]) <+: c.reservedPrefix ∨ c.reservedPrefix <+: content (line ++ [u]))
    · rw [examine_held (after.buffer mode) held, state]
      have bounded := near.2 (.inl held.1)
      by_cases reserved : c.reservedPrefix <+: content (line ++ [u])
      · have next : modeOf c (line ++ [u]) = .reserved := if_pos ⟨reserved, bounded⟩
        refine ⟨?_, ?_, fun _ => rfl⟩
        · rw [next]
          exact if_pos reserved
        · rw [next]
          rfl
      · have next : modeOf c (line ++ [u]) = .candidate := by
          rw [modeOf, if_neg fun scrubbed => reserved scrubbed.1,
            if_pos ⟨held.2.resolve_right reserved, reserved, bounded⟩]
        refine ⟨?_, ?_, fun _ => rfl⟩
        · rw [next]
          exact if_neg reserved
        · rw [next]
          rfl
    · by_cases blank : content (line ++ [u]) = [] ∧ (line ++ [u]).utf8Length ≤ c.maxBytes
      · rw [examine_blank (after.buffer mode) blank]
        have unreserved : ¬Reserved c (line ++ [u]) := by
          rw [Reserved, blank.1, List.prefix_nil]
          exact reservedPrefix_ne_nil c
        have next : modeOf c (line ++ [u]) = .candidate := by
          rw [modeOf, if_neg fun scrubbed => unreserved scrubbed.1,
            if_pos ⟨by rw [blank.1]; exact List.nil_prefix, unreserved, near.2 (.inr blank)⟩]
        exact ⟨state.trans next.symm, by rw [next]; rfl, fun _ => rfl⟩
      · have next : modeOf c (line ++ [u]) = .ordinary := by
          rw [modeOf_ordinary_iff]
          by_cases begun : content (line ++ [u]) = []
          · left
            rw [← not_le, near]
            rintro (content | bounded)
            · exact content begun
            · exact blank bounded
          · right
            exact ⟨fun reserved => held ⟨begun, .inr reserved⟩, fun shorter => held ⟨begun, .inl shorter⟩⟩
        obtain ⟨ordinary, _, output⟩ := examine_parted (after.buffer mode) held blank
        refine ⟨?_, ?_, fun other => ?_⟩
        · rw [ordinary, if_neg different, next]
        · rw [output, if_pos next]
        · rw [next] at other
          cases other

theorem LineStart.reads (start : LineStart f) (free : lineFeed ∉ line) : After c line (f.push c line).1 (f.push c line).2 := by
  induction line using List.reverseRecOn with
  | nil =>
    rw [push_nil]
    exact start.after
  | append_singleton line u ih =>
    rw [List.mem_append, not_or, List.mem_singleton] at free
    rw [push_append]
    exact (ih free.1).unit (Ne.symm free.2)

theorem After.feed {emitted : JsString} (after : After c line f emitted) :
    LineStart (f.push c [lineFeed]).1 ∧
      emitted ++ (f.push c [lineFeed]).2 = if Scrubbed c line then [] else line ++ [lineFeed] := by
  have cut : cutLine [lineFeed] = some ([lineFeed], []) := rfl
  cases mode : modeOf c line with
  | ordinary =>
    have unscrubbed : ¬Scrubbed c line := by
      intro scrubbed
      rw [modeOf, if_pos scrubbed] at mode
      cases mode
    rw [push_ordinary (after.state.trans mode), cut, after.emitted, if_pos mode, if_neg unscrubbed]
    dsimp only
    rw [push_nil]
    exact ⟨⟨rfl, rfl⟩, rfl⟩
  | reserved =>
    have scrubbed := modeOf_reserved mode
    rw [push_reserved (after.state.trans mode) (List.cons_ne_nil lineFeed []), cut, after.emitted, mode, if_pos scrubbed]
    dsimp only
    rw [push_nil]
    exact ⟨⟨rfl, rfl⟩, rfl⟩
  | candidate =>
    have withheld := modeOf_candidate mode
    have begun : content (line ++ [lineFeed]) ≠ [] := by
      rw [content_snoc_feed]
      exact List.concat_ne_nil _ _
    have member : lineFeed ∈ content (line ++ [lineFeed]) := by
      rw [content_snoc_feed]
      exact List.mem_append_right _ (List.mem_singleton_self _)
    -- The reserved prefix has no line feed, so the line is neither a part of it nor reserved.
    have parted : ¬(content (line ++ [lineFeed]) ≠ [] ∧ (content (line ++ [lineFeed]) <+: c.reservedPrefix ∨
        c.reservedPrefix <+: content (line ++ [lineFeed]))) := by
      rintro ⟨_, shorter | longer⟩
      · exact reservedPrefix_free c (shorter.subset member)
      · rw [content_snoc_feed, List.prefix_concat_iff] at longer
        rcases longer with same | reserved
        · apply reservedPrefix_free c
          rw [same]
          exact List.mem_append_right _ (List.mem_singleton_self _)
        · exact withheld.2.1 reserved
    obtain ⟨state, buffer, output⟩ := examine_parted (after.buffer mode) parted fun blank => begun blank.1
    rw [push_candidate (after.state.trans mode), push_nil, List.append_nil, output, after.emitted, mode,
      if_neg fun scrubbed : Scrubbed c line => withheld.2.1 scrubbed.1]
    exact ⟨⟨state, buffer⟩, rfl⟩

/-- An unfinished line is left out where it is reserved, or begins like the reserved prefix. -/
def CutOff (c : Config) (line : JsString) : Prop := Scrubbed c line ∨ Withheld c line ∧ content line ≠ []

instance : Decidable (CutOff c line) := inferInstanceAs (Decidable (_ ∨ _))

theorem After.finish {emitted : JsString} (after : After c line f emitted) :
    emitted ++ (f.finish c).2 = if CutOff c line then [] else line := by
  unfold Filter.finish
  rw [after.state, after.emitted]
  cases mode : modeOf c line with
  | ordinary =>
    have kept : ¬CutOff c line := by
      rintro (scrubbed | ⟨withheld, _⟩)
      · rw [modeOf, if_pos scrubbed] at mode
        cases mode
      · rw [modeOf, if_neg fun scrubbed : Scrubbed c line => withheld.2.1 scrubbed.1, if_pos withheld] at mode
        cases mode
    rw [if_pos rfl, if_neg kept, List.append_nil]
  | reserved =>
    have scrubbed := modeOf_reserved mode
    rw [if_pos (show CutOff c line from .inl scrubbed)]
    rfl
  | candidate =>
    have withheld := modeOf_candidate mode
    simp only [after.buffer mode, List.isPrefixOf_iff_prefix]
    by_cases begun : content line ≠ []
    · have held : List.dropWhile isIndent line ≠ [] ∧ List.dropWhile isIndent line <+: c.reservedPrefix :=
        ⟨begun, withheld.1⟩
      rw [if_pos (show CutOff c line from .inr ⟨withheld, begun⟩), if_pos held]
      rfl
    · have kept : ¬CutOff c line := by
        rintro (scrubbed | ⟨_, other⟩)
        · exact withheld.2.1 scrubbed.1
        · exact begun other
      rw [if_neg kept, if_neg fun both : List.dropWhile isIndent line ≠ [] ∧ _ => begun both.1]
      rfl

/-! ## What becomes of a text -/

theorem LineStart.sanitizes (start : LineStart f) {complete : List JsString} {last : JsString}
    (closed : ∀ line ∈ complete, lineFeed ∉ line) (final : lineFeed ∉ last) :
    (f.push c (unlines complete last)).2 ++ ((f.push c (unlines complete last)).1.finish c).2 =
      unlines (complete.filter (¬Scrubbed c ·)) (if CutOff c last then [] else last) := by
  induction complete generalizing f with
  | nil => exact (start.reads final).finish
  | cons line others ih =>
    obtain ⟨next, output⟩ := (start.reads (c := c) (closed line (List.mem_cons_self ..))).feed
    have later := ih next fun other member => closed other (List.mem_cons_of_mem _ member)
    have same : unlines (line :: others) last = (line ++ [lineFeed]) ++ unlines others last := by
      rw [unlines_cons, List.append_assoc]
      rfl
    rw [same, push_append, push_append]
    dsimp only
    rw [List.append_assoc, later, output]
    by_cases scrubbed : Scrubbed c line
    · rw [if_pos scrubbed, List.filter_cons_of_neg (by simpa using scrubbed), List.nil_append]
    · rw [if_neg scrubbed, List.filter_cons_of_pos (by simpa using scrubbed), unlines_cons, List.append_assoc]
      rfl

/-- The filter leaves out the lines that it takes for reserved ones, and an unfinished line that begins like one. -/
theorem sanitize_text (c : Config) (text : JsString) :
    (sanitizePresentationText c text).text =
      unlines ((lines text).1.filter (¬Scrubbed c ·)) (if CutOff c (lines text).2 then [] else (lines text).2) := by
  obtain ⟨closed, final⟩ := lines_closed text
  have start : LineStart (Filter.initial c) := ⟨rfl, rfl⟩
  have whole := start.sanitizes (c := c) closed final
  rw [unlines_lines] at whole
  exact whole

/-- Exactly the reserved lines are removed: none is left, every other complete line stays where it was, and there is
nothing more to remove. -/
structure Removes (c : Config) (text : JsString) : Prop where
  clean : ∀ line ∈ allLines (sanitizePresentationText c text).text, ¬Reserved c line
  kept : (lines (sanitizePresentationText c text).text).1 = (lines text).1.filter (¬Reserved c ·)
  stable : (sanitizePresentationText c (sanitizePresentationText c text).text).text = (sanitizePresentationText c text).text

theorem lines_sanitized (c : Config) (text : JsString) :
    lines (sanitizePresentationText c text).text =
      ((lines text).1.filter (¬Scrubbed c ·), if CutOff c (lines text).2 then [] else (lines text).2) := by
  obtain ⟨closed, final⟩ := lines_closed text
  rw [sanitize_text]
  apply lines_unlines
  · intro line member
    exact closed line (List.mem_of_mem_filter member)
  · split
    · exact List.not_mem_nil
    · exact final

/-- The filter finds nothing to remove in what it emitted. -/
theorem sanitize_stable (c : Config) (text : JsString) :
    (sanitizePresentationText c (sanitizePresentationText c text).text).text = (sanitizePresentationText c text).text := by
  rw [sanitize_text c (sanitizePresentationText c text).text, lines_sanitized, sanitize_text c text, List.filter_filter]
  simp only [Bool.and_self]
  by_cases cutOff : CutOff c (lines text).2
  · simp only [cutOff, if_true, ite_self]
  · simp only [cutOff, if_false]

/-- The reserved lines are removed exactly where none of them is indented farther than the filter buffers. -/
theorem removes_iff (c : Config) (text : JsString) :
    Removes c text ↔ ∀ line ∈ allLines text, Reserved c line → (indentation line).length ≤ c.maxBytes := by
  have near {line : JsString} (bounded : Reserved c line → (indentation line).length ≤ c.maxBytes) :
      Scrubbed c line ↔ Reserved c line := ⟨And.left, fun reserved => ⟨reserved, bounded reserved⟩⟩
  constructor
  · intro removes line member reserved
    by_contra far
    have unscrubbed : ¬Scrubbed c line := fun scrubbed => far scrubbed.2
    apply removes.clean line _ reserved
    rw [allLines, lines_sanitized]
    rcases List.mem_append.1 member with complete | last
    · exact List.mem_append_left _ (List.mem_filter.2 ⟨complete, by simpa using unscrubbed⟩)
    · rw [List.mem_singleton] at last
      have kept : ¬CutOff c (lines text).2 := by
        rw [← last]
        rintro (scrubbed | ⟨withheld, _⟩)
        · exact unscrubbed scrubbed
        · exact withheld.2.1 reserved
      rw [if_neg kept, ← last]
      exact List.mem_append_right _ (List.mem_singleton_self _)
  · intro bounded
    have same : (lines text).1.filter (¬Scrubbed c ·) = (lines text).1.filter (¬Reserved c ·) := by
      apply List.filter_congr
      intro line member
      rw [decide_eq_decide, near (bounded line (List.mem_append_left _ member))]
    refine ⟨?_, ?_, sanitize_stable c text⟩
    · intro line member
      rw [allLines, lines_sanitized, same] at member
      rcases List.mem_append.1 member with complete | last
      · simpa using (List.mem_filter.1 complete).2
      · rw [List.mem_singleton] at last
        split at last
        · rw [last]
          exact fun empty => reservedPrefix_ne_nil c (List.prefix_nil.1 empty)
        next kept =>
          rw [last]
          intro reserved
          apply kept
          left
          exact (near (bounded _ (List.mem_append_right _ (List.mem_singleton_self _)))).2 reserved
    · rw [lines_sanitized, same]

/-- A marker behind 257 spaces. -/
def farMarker : JsString := List.replicate 257 0x20 ++ js "<!-- harness.presentation.v1 body=sad face=shy -->"

theorem farMarker_leaks : ¬Removes defaultConfig farMarker := by
  intro removes
  have marked : content farMarker = js "<!-- harness.presentation.v1 body=sad face=shy -->" := by
    rw [content, farMarker, List.dropWhile_append_of_pos]
    · decide
    · intro u member
      rw [List.eq_of_mem_replicate member]
      rfl
  have reserved : Reserved defaultConfig farMarker := by
    rw [Reserved, marked]
    decide
  have far : 256 < (indentation farMarker).length := by
    have whole := congrArg List.length (List.takeWhile_append_dropWhile (p := isIndent) (l := farMarker))
    unfold content at marked
    rw [marked, List.length_append, farMarker, List.length_append, List.length_replicate] at whole
    rw [indentation, farMarker]
    omega
  have single : lines farMarker = ([], farMarker) := by
    apply lines_of_free
    rw [farMarker, List.mem_append, not_or, List.mem_replicate]
    exact ⟨fun both => absurd both.2 (by decide), by decide⟩
  have kept : ¬CutOff defaultConfig farMarker := by
    rintro (scrubbed | ⟨withheld, _⟩)
    · exact absurd scrubbed.2 (not_le.2 far)
    · exact withheld.2.1 reserved
  apply removes.clean farMarker _ reserved
  rw [allLines, lines_sanitized, single, if_neg kept]
  exact List.mem_singleton_self _

end PersistentHarness.PresentationDirective
