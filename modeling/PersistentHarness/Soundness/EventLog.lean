import PersistentHarness.Model.EventLog

/-! # The newest lines

The lines that the reader takes are those of the files, whatever blocks they are read in. A line that is behind a position is kept
in parts, in which there is no newline, until the newline before it is found.
-/

namespace PersistentHarness.EventLog

section Lines

def nonEmptyLines (content : Bytes) : List Bytes := (content.splitOnP (· == 0x0A)).filter (· ≠ [])

theorem nonEmptyLines_append (before after : Bytes) :
    nonEmptyLines (before ++ 0x0A :: after) = nonEmptyLines before ++ nonEmptyLines after := by
  rw [nonEmptyLines, List.splitOnP_append_cons _ _ (by decide), List.filter_append]
  rfl

theorem nonEmptyLines_single {line : Bytes} (whole : 0x0A ∉ line) : nonEmptyLines line = if line = [] then [] else [line] := by
  have none : ∀ b ∈ line, (b == (0x0A : UInt8)) = false := by
    intro b member
    refine beq_false_of_ne ?_
    rintro rfl
    exact whole member
  rw [nonEmptyLines, List.splitOnP_eq_singleton none]
  by_cases empty : line = []
  · rw [if_pos empty, empty]
    rfl
  · rw [if_neg empty]
    exact List.filter_cons_of_pos (decide_eq_true empty)

end Lines

section Blocks

variable {file : File} {buffer : Bytes}

theorem fill_eq (file : File) (position wanted : ℕ) : fill file position wanted = (file.content.drop position).take wanted := by
  induction wanted using Nat.strong_induction_on generalizing position with
  | _ wanted ih =>
    cases wanted with
    | zero => rw [fill, List.take_zero]
    | succ wanted =>
      have some := file.some position (wanted + 1) (Nat.succ_pos wanted)
      have most := file.most position (wanted + 1)
      rw [fill, ih _ (by omega), ← List.drop_drop, ← List.take_add, Nat.add_sub_cancel' most]

theorem lastNewline_none {end_ : ℕ} (absent : lastNewline buffer end_ = none) : 0x0A ∉ buffer.take end_ := by
  induction end_ with
  | zero => exact List.not_mem_nil
  | succ end_ ih =>
    rw [lastNewline] at absent
    split at absent
    · cases absent
    · next other =>
      rw [List.take_add_one, List.mem_append, not_or]
      refine ⟨ih absent, fun member => other ?_⟩
      exact Option.mem_toList.mp member

theorem lastNewline_some {end_ newline : ℕ} (found : lastNewline buffer end_ = some newline) :
    buffer[newline]? = some 0x0A ∧ 0x0A ∉ subarray buffer (newline + 1) end_ := by
  induction end_ with
  | zero => cases found
  | succ end_ ih =>
    rw [lastNewline] at found
    split at found
    · next here =>
      obtain rfl := Option.some.inj found
      refine ⟨here, ?_⟩
      rw [subarray, List.drop_eq_nil_of_le (List.length_take_le _ _)]
      exact List.not_mem_nil
    · next other =>
      obtain ⟨here, clear⟩ := ih found
      refine ⟨here, ?_⟩
      rw [subarray, List.take_add_one, List.drop_append, List.mem_append, not_or]
      refine ⟨clear, fun member => other ?_⟩
      exact Option.mem_toList.mp (List.mem_of_mem_drop member)

theorem take_lastNewline {end_ newline : ℕ} (found : lastNewline buffer end_ = some newline) :
    buffer.take end_ = buffer.take newline ++ 0x0A :: subarray buffer (newline + 1) end_ := by
  have within := lastNewline_lt found
  obtain ⟨inside, here⟩ := List.getElem?_eq_some_iff.mp (lastNewline_some found).1
  have bound : newline < (buffer.take end_).length := by
    rw [List.length_take]
    omega
  have first := List.drop_eq_getElem_cons bound
  rw [List.getElem_take, here] at first
  calc buffer.take end_ = (buffer.take end_).take newline ++ (buffer.take end_).drop newline := (List.take_append_drop ..).symm
    _ = buffer.take newline ++ 0x0A :: subarray buffer (newline + 1) end_ := by
      rw [first, List.take_take, Nat.min_eq_left within.le, subarray]

/-- The parts of a line: some bytes each, and no newline. -/
def Parts (parts : List Bytes) : Prop := ∀ part ∈ parts, part ≠ [] ∧ 0x0A ∉ part

theorem Parts.clear {parts : List Bytes} (kept : Parts parts) : 0x0A ∉ concat parts := by
  intro member
  obtain ⟨part, among, newline⟩ := List.mem_flatten.mp member
  exact (kept part (List.mem_reverse.mp among)).2 newline

theorem Parts.concat_eq_nil {parts : List Bytes} (kept : Parts parts) : concat parts = [] ↔ parts = [] := by
  constructor
  · intro empty
    refine List.eq_nil_iff_forall_not_mem.mpr fun part among => (kept part among).1 ?_
    exact List.flatten_eq_nil_iff.mp empty part (List.mem_reverse.mpr among)
  · rintro rfl
    rfl

theorem Parts.append {parts : List Bytes} {part : Bytes} (kept : Parts parts) (some : part ≠ []) (clear : 0x0A ∉ part) :
    Parts (parts ++ [part]) := by
  intro other among
  rcases List.mem_append.mp among with before | last
  · exact kept other before
  · rw [List.mem_singleton.mp last]
    exact ⟨some, clear⟩

theorem concat_append (parts : List Bytes) (part : Bytes) : concat (parts ++ [part]) = part ++ concat parts := by
  rw [concat, concat, List.reverse_append]
  rfl

theorem Parts.line {parts : List Bytes} (kept : Parts parts) :
    nonEmptyLines (concat parts) = if parts ≠ [] then [concat parts] else [] := by
  rw [nonEmptyLines_single kept.clear]
  by_cases empty : parts = []
  · rw [if_pos (kept.concat_eq_nil.mpr empty), if_neg (not_not.mpr empty)]
  · rw [if_neg fun nothing => empty (kept.concat_eq_nil.mp nothing), if_pos empty]

/-- A block is scanned: the lines that begin in it are given, and what is kept stands for the rest. -/
theorem scanBlock_lines {end_ : ℕ} (within : end_ ≤ buffer.length) {parts : List Bytes} (kept : Parts parts) (before : Bytes) :
    Parts (scanBlock buffer end_ parts).2 ∧ (nonEmptyLines (before ++ buffer.take end_ ++ concat parts)).reverse =
      (scanBlock buffer end_ parts).1 ++ (nonEmptyLines (before ++ concat (scanBlock buffer end_ parts).2)).reverse := by
  induction end_ using Nat.strong_induction_on generalizing parts with
  | _ end_ ih =>
    rw [scanBlock]
    split
    · next absent =>
      by_cases some : 0 < end_
      · have filled : subarray buffer 0 end_ ≠ [] := by
          apply List.ne_nil_of_length_pos
          rw [subarray, List.drop_zero, List.length_take]
          omega
        rw [if_pos some]
        refine ⟨kept.append filled (lastNewline_none absent), ?_⟩
        rw [concat_append, List.nil_append, subarray, List.drop_zero, List.append_assoc]
      · obtain rfl : end_ = 0 := by omega
        rw [if_neg some, List.take_zero, List.append_nil]
        exact ⟨kept, rfl⟩
    · next newline found =>
      have earlier := lastNewline_lt found
      generalize isLine : (if newline + 1 < end_ then parts ++ [subarray buffer (newline + 1) end_] else parts) = line
      -- Behind the newline is what the block has of the line, and then its parts.
      have behind : Parts line ∧ concat line = subarray buffer (newline + 1) end_ ++ concat parts := by
        by_cases some : newline + 1 < end_
        · have filled : subarray buffer (newline + 1) end_ ≠ [] := by
            apply List.ne_nil_of_length_pos
            rw [subarray, List.length_drop, List.length_take]
            omega
          rw [← isLine, if_pos some]
          exact ⟨kept.append filled (lastNewline_some found).2, concat_append ..⟩
        · have empty : subarray buffer (newline + 1) end_ = [] := by
            apply List.drop_eq_nil_of_le
            rw [List.length_take]
            omega
          rw [← isLine, if_neg some, empty]
          exact ⟨kept, rfl⟩
      have none_ : Parts [] := fun part member => absurd member List.not_mem_nil
      obtain ⟨rest, lines⟩ := ih newline earlier (by omega) none_
      have split : (nonEmptyLines (before ++ buffer.take end_ ++ concat parts)).reverse =
          (if line ≠ [] then [concat line] else []) ++ (nonEmptyLines (before ++ buffer.take newline ++ concat [])).reverse := by
        rw [take_lastNewline found, List.append_assoc, List.append_assoc, List.cons_append, ← behind.2, ← List.append_assoc,
          nonEmptyLines_append, List.reverse_append, behind.1.line, show concat [] = [] from rfl, List.append_nil]
        congr 1
        by_cases some : line ≠ []
        · rw [if_pos some]
          rfl
        · rw [if_neg some]
          rfl
      rw [split, lines]
      by_cases some : line ≠ []
      · rw [if_pos some, if_pos some]
        exact ⟨rest, rfl⟩
      · rw [if_neg some, if_neg some]
        exact ⟨rest, rfl⟩

/-- The blocks before a position give the lines there, newest first. -/
theorem readBefore_lines (chunk : ℕ+) {position : ℕ} (within : position ≤ file.content.length) {parts : List Bytes} (kept : Parts parts) :
    readBefore file chunk position parts = (nonEmptyLines (file.content.take position ++ concat parts)).reverse := by
  induction position using Nat.strong_induction_on generalizing parts with
  | _ position ih =>
    rw [readBefore]
    by_cases begun : 0 < position
    · have size := chunk.pos
      generalize isLength : min position (chunk : ℕ) = length
      have whole : fill file (position - length) length = (file.content.drop (position - length)).take length := fill_eq ..
      have full : (fill file (position - length) length).length = length := by
        rw [whole, List.length_take, List.length_drop]
        omega
      obtain ⟨rest, lines⟩ := scanBlock_lines full.ge kept
        (file.content.take (position - length))
      have joined : file.content.take (position - length) ++ (fill file (position - length) length).take length =
          file.content.take position := by
        rw [whole, List.take_take, Nat.min_self, ← List.take_add, Nat.sub_add_cancel (by omega)]
      rw [joined] at lines
      rw [dif_pos begun, lines]
      exact congrArg _ (ih (position - length) (by omega) (by omega) rest)
    · obtain rfl : position = 0 := by omega
      rw [dif_neg begun, List.take_zero, List.nil_append, kept.line]
      split
      · rfl
      · rfl

theorem reverseLines_eq (chunk : ℕ+) (file : File) : reverseLines file chunk = (nonEmptyLines file.content).reverse := by
  rw [reverseLines, readBefore_lines chunk le_rfl (by rintro part ⟨⟩), List.take_length, show concat [] = [] from rfl, List.append_nil]

end Blocks

section Recent

theorem takeLines_eq {limit : ℕ} {lines : List Bytes} (source : List Bytes) (short : lines.length ≤ limit) :
    takeLines limit lines source = (lines ++ source).take (limit + 1) := by
  induction source generalizing lines with
  | nil => rw [takeLines, List.append_nil, List.take_of_length_le (by omega)]
  | cons line source ih =>
    rw [takeLines, List.append_cons lines line source]
    by_cases over_ : limit < (lines ++ [line]).length
    · rw [if_pos over_, List.take_append_of_le_length (by omega), List.take_of_length_le]
      rw [List.length_append, List.length_singleton]
      omega
    · rw [if_neg over_, ih (by omega)]

theorem takeFiles_eq (chunk : ℕ+) {limit : ℕ} {lines : List Bytes} (files : List File) (short : lines.length ≤ limit) :
    takeFiles chunk limit lines files =
      (lines ++ files.flatMap fun file => (nonEmptyLines file.content).reverse).take (limit + 1) := by
  induction files generalizing lines with
  | nil => rw [takeFiles, List.flatMap_nil, List.append_nil, List.take_of_length_le (by omega)]
  | cons file files ih =>
    rw [takeFiles, List.flatMap_cons, reverseLines_eq, takeLines_eq _ short, ← List.append_assoc]
    by_cases over_ : limit < ((lines ++ (nonEmptyLines file.content).reverse).take (limit + 1)).length
    · rw [List.length_take, lt_min_iff] at over_
      rw [if_pos (by rw [List.length_take]; exact lt_min_iff.mpr over_), List.take_append_of_le_length over_.2]
    · have all : (lines ++ (nonEmptyLines file.content).reverse).length ≤ limit := by
        rw [List.length_take, lt_min_iff] at over_
        omega
      rw [if_neg over_, List.take_of_length_le (by omega), ih all]

/-- A rotation at the end of a line is not seen by a reader, nor are the blocks it reads. -/
theorem readRecentEvents_rotated {α : Type} (chunk other : ℕ+) (parse : Bytes → Option α) {rotated current whole : File}
    (ended : rotated.content.getLast? = some 0x0A) (joined : whole.content = rotated.content ++ current.content) (limit : ℕ) :
    readRecentEvents chunk parse (some rotated) (some current) limit = readRecentEvents other parse none (some whole) limit := by
  have lines : nonEmptyLines whole.content = nonEmptyLines rotated.content ++ nonEmptyLines current.content := by
    obtain ⟨front, last⟩ := List.getLast?_eq_some_iff.mp ended
    rw [joined, last, nonEmptyLines_append, List.append_assoc, List.singleton_append, nonEmptyLines_append]
    simp [nonEmptyLines]
  simp only [readRecentEvents]
  rw [takeFiles_eq chunk _ (Nat.zero_le _), takeFiles_eq other _ (Nat.zero_le _)]
  simp [lines]

def plainFile (content : Bytes) : File := ⟨content, fun _ wanted => wanted, fun _ _ positive => positive, fun _ _ => le_rfl⟩

theorem readRecentEvents_rotated_sample : readRecentEvents 1 some (some (plainFile [0x31, 0x0A])) (some (plainFile [0x32, 0x0A])) 2 =
    readRecentEvents 4 some none (some (plainFile [0x31, 0x0A, 0x32, 0x0A])) 2 :=
  readRecentEvents_rotated 1 4 some rfl rfl 2

/-- The lines of both files, the rotated one first. -/
def allLines (rotated current : Option File) : List Bytes :=
  (rotated.toList ++ current.toList).flatMap fun file => nonEmptyLines file.content

/-- The events of the last lines are given, oldest first, and whether there are more lines; blocks do not matter. -/
theorem readRecentEvents_eq {α : Type} (chunk : ℕ+) (parse : Bytes → Option α) (rotated current : Option File) (limit : ℕ) :
    readRecentEvents chunk parse rotated current limit =
      { events := ((allLines rotated current).drop ((allLines rotated current).length - limit)).filterMap parse
        truncated := limit < (allLines rotated current).length } := by
  have lines : takeFiles chunk limit [] (rotated.toList ++ current.toList).reverse =
      (allLines rotated current).reverse.take (limit + 1) := by
    rw [takeFiles_eq chunk _ (Nat.zero_le _), List.nil_append, allLines, List.reverse_flatMap]
    rfl
  unfold readRecentEvents
  simp only
  rw [lines, List.take_take, Nat.min_eq_left (Nat.le_succ _), List.reverse_take, List.reverse_reverse, List.length_reverse,
    List.length_take, List.length_reverse]
  congr 1
  rw [decide_eq_decide]
  omega

end Recent

end PersistentHarness.EventLog
