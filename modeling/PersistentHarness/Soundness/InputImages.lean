import PersistentHarness.Lib.Checked
import PersistentHarness.Model.InputImages

/-! # Images are what they say

The walk over the markers of a JPEG ends on all bytes and finds what the grammar of its segments says. It reads nothing
outside the bytes but the one index behind fill bytes that reach the end. Images that are accepted are canonical base64 and
within the bounds.
-/

namespace PersistentHarness.InputImages

section Reads

variable {α β : Type} {bytes rest : List UInt8} {seen : List ℕ} {offset fuel : ℕ}

theorem bind_apply (first : Reading α) (next : α → Reading β) (seen : List ℕ) :
    (first >>= next) seen = (first seen).bind fun result => next result.1 result.2 := rfl

theorem byteAt_apply (bytes : List UInt8) (index : ℕ) (seen : List ℕ) :
    byteAt bytes index seen = some (bytes[index]?, index :: seen) := rfl

theorem readUIntBE_apply {width index : ℕ} (inside : index + width ≤ bytes.length) (seen : List ℕ) :
    readUIntBE bytes width index seen =
      some (bigEndian ((bytes.drop index).take width), (List.range' index width).reverse ++ seen) := if_pos inside

theorem skipFill_apply (n : ℕ) (behind : rest.head? ≠ some 0xFF) (fill : bytes.drop offset = List.replicate n 0xFF ++ rest)
    (enough : n < fuel) (seen : List ℕ) :
    skipFill bytes fuel offset seen = some (offset + n, (List.range' offset (n + 1)).reverse ++ seen) := by
  induction n generalizing fuel offset seen with
  | zero =>
    obtain ⟨fuel, rfl⟩ : ∃ more, fuel = more + 1 := ⟨fuel - 1, by omega⟩
    have here : bytes[offset]? = rest.head? := by
      rw [← List.head?_drop, fill]
      rfl
    rw [skipFill, bind_apply, byteAt_apply, Option.bind_some, here, if_neg behind]
    rfl
  | succ n ih =>
    obtain ⟨fuel, rfl⟩ : ∃ more, fuel = more + 1 := ⟨fuel - 1, by omega⟩
    have here : bytes[offset]? = some 0xFF := by
      rw [← List.head?_drop, fill]
      rfl
    have next : bytes.drop (offset + 1) = List.replicate n 0xFF ++ rest := by
      rw [← List.drop_drop, fill]
      rfl
    have reads : List.range' offset (n + 1 + 1) = offset :: List.range' (offset + 1) (n + 1) := List.range'_succ
    rw [skipFill, bind_apply, byteAt_apply, Option.bind_some, here, if_pos rfl, ih next (by omega), reads, List.reverse_cons,
      List.append_assoc, Nat.add_right_comm]
    rfl

end Reads

section Turns

variable {bytes tail : List UInt8} {offset n : ℕ} {marker : UInt8}

/-- The dimensions that a start-of-frame segment tells, from its length on. -/
def frameDimensions (segment : List UInt8) : Dimensions :=
  ⟨bigEndian ((segment.drop 5).take 2), bigEndian ((segment.drop 3).take 2), none⟩

/-- What a marker comes to, with the bytes behind it and their index. -/
def afterMarker (start : ℕ) (marker : UInt8) (tail : List UInt8) : Turn :=
  let length := bigEndian (tail.take 2)
  if endsWalk marker = true ∨ tail.length < 2 then .leave none
  else if standsAlone marker then .next start
  else if length < 2 ∨ tail.length < length then .leave none
  else if isStartOfFrame marker = true ∧ 7 ≤ length then .leave (some (frameDimensions tail))
  else .next (start + length)

theorem getElem?_of_drop {rest : List UInt8} (here : bytes.drop offset = marker :: rest) : bytes[offset]? = some marker := by
  rw [← List.head?_drop, here]
  rfl

theorem segmentTurn_end (outside : bytes.length ≤ offset) (seen : List ℕ) :
    segmentTurn bytes offset seen = some (.leave none, offset :: seen) := by
  rw [segmentTurn, bind_apply, byteAt_apply, Option.bind_some, List.getElem?_eq_none outside]
  simp only
  rw [if_pos (.inr (by omega))]
  rfl

theorem segmentTurn_apply (here : bytes.drop offset = marker :: tail) (seen : List ℕ) :
    ∃ reads, segmentTurn bytes offset seen = some (afterMarker (offset + 1) marker tail, reads ++ seen)
      ∧ ∀ i ∈ reads, i < bytes.length := by
  have length := congrArg List.length here
  rw [List.length_drop, List.length_cons] at length
  have behind : bytes.drop (offset + 1) = tail := by
    rw [← List.drop_drop, here]
    rfl
  have further : ∀ k, bytes.drop (offset + 1 + k) = tail.drop k := by
    intro k
    rw [← List.drop_drop, behind]
  have inside : ∀ width index : ℕ, index + width ≤ bytes.length → ∀ i ∈ (List.range' index width).reverse, i < bytes.length := by
    intro width index fits i member
    rw [List.mem_reverse, List.mem_range'_1] at member
    omega
  have first : ∀ i ∈ [offset], i < bytes.length := by
    intro i member
    rw [List.mem_singleton.mp member]
    omega
  rw [segmentTurn, bind_apply, byteAt_apply, Option.bind_some, getElem?_of_drop here, afterMarker]
  simp only [Option.any_some]
  by_cases ends : endsWalk marker = true ∨ tail.length < 2
  · rw [if_pos ends, if_pos (ends.imp_right fun short => by omega)]
    exact ⟨[offset], rfl, first⟩
  rw [if_neg ends, if_neg fun stops => ends (stops.imp_right fun short => by omega)]
  rw [not_or, not_lt] at ends
  by_cases alone : standsAlone marker = true
  · rw [if_pos alone, if_pos alone]
    exact ⟨[offset], rfl, first⟩
  have size : offset + 1 + 2 ≤ bytes.length := by omega
  rw [if_neg alone, if_neg alone, bind_apply, readUIntBE_apply size, Option.bind_some, behind]
  have sized : ∀ i ∈ (List.range' (offset + 1) 2).reverse ++ [offset], i < bytes.length := by
    intro i member
    rcases List.mem_append.mp member with read | read
    · exact inside _ _ size i read
    · exact first i read
  by_cases bad : bigEndian (tail.take 2) < 2 ∨ tail.length < bigEndian (tail.take 2)
  · rw [if_pos bad, if_pos (bad.imp_right fun short => by omega)]
    exact ⟨_, by rw [List.append_assoc]; rfl, sized⟩
  rw [if_neg bad, if_neg fun stops => bad (stops.imp_right fun short => by omega)]
  rw [not_or, not_lt, not_lt] at bad
  by_cases frame : isStartOfFrame marker = true ∧ 7 ≤ bigEndian (tail.take 2)
  · have tall : offset + 1 + 3 + 2 ≤ bytes.length := by omega
    have wide : offset + 1 + 5 + 2 ≤ bytes.length := by omega
    rw [if_pos frame, if_pos frame, bind_apply, readUIntBE_apply tall, Option.bind_some, bind_apply, readUIntBE_apply wide,
      Option.bind_some, further, further]
    refine ⟨(List.range' (offset + 1 + 5) 2).reverse ++ ((List.range' (offset + 1 + 3) 2).reverse
      ++ ((List.range' (offset + 1) 2).reverse ++ [offset])), ?_, ?_⟩
    · simp only [List.append_assoc, List.singleton_append]
      rfl
    · intro i member
      rcases List.mem_append.mp member with read | member
      · exact inside _ _ wide i read
      · rcases List.mem_append.mp member with read | read
        · exact inside _ _ tall i read
        · exact sized i read
  · rw [if_neg frame, if_neg frame]
    exact ⟨_, by rw [List.append_assoc]; rfl, sized⟩

/-- What a turn of the walk finds, by the bytes that it begins with. -/
theorem markerTurn_stray {byte : UInt8} {rest : List UInt8} (here : bytes.drop offset = byte :: rest) (other : byte ≠ 0xFF)
    (seen : List ℕ) : markerTurn bytes offset seen = some (.next (offset + 1), offset :: seen) := by
  have apart : some byte ≠ some 0xFF := fun same => other (Option.some.inj same)
  rw [markerTurn, bind_apply, byteAt_apply, Option.bind_some, getElem?_of_drop here, if_pos apart]
  rfl

theorem markerTurn_fill {rest : List UInt8} (behind : rest.head? ≠ some 0xFF)
    (fill : bytes.drop offset = List.replicate (n + 1) 0xFF ++ rest) (seen : List ℕ) : markerTurn bytes offset seen =
      segmentTurn bytes (offset + (n + 1)) ((List.range' offset (n + 1 + 1)).reverse ++ (offset :: seen)) := by
  have length := congrArg List.length fill
  rw [List.length_drop, List.length_append, List.length_replicate] at length
  have first : bytes[offset]? = some 0xFF := getElem?_of_drop fill
  rw [markerTurn, bind_apply, byteAt_apply, Option.bind_some, first, if_neg fun apart => apart rfl, bind_apply,
    skipFill_apply (n + 1) behind fill (by omega), Option.bind_some]

/-- Fill bytes up to the end leave the walk; the index behind them is read. -/
theorem markerTurn_end (fill : bytes.drop offset = List.replicate (n + 1) 0xFF) (seen : List ℕ) :
    ∃ reads, markerTurn bytes offset seen = some (.leave none, reads ++ seen) ∧ ∀ i ∈ reads, i ≤ bytes.length := by
  have length := congrArg List.length fill
  rw [List.length_drop, List.length_replicate] at length
  have whole : bytes.drop offset = List.replicate (n + 1) 0xFF ++ [] := fill.trans (List.append_nil _).symm
  refine ⟨(offset + (n + 1)) :: ((List.range' offset (n + 1 + 1)).reverse ++ [offset]), ?_, ?_⟩
  · rw [markerTurn_fill (by decide) whole, segmentTurn_end (by omega), List.cons_append, List.append_assoc]
    rfl
  · intro i member
    simp only [List.mem_cons, List.mem_append, List.mem_reverse, List.mem_range'_1, List.not_mem_nil, or_false] at member
    omega

theorem markerTurn_marker (other : marker ≠ 0xFF) (fill : bytes.drop offset = List.replicate (n + 1) 0xFF ++ marker :: tail)
    (seen : List ℕ) : ∃ reads, markerTurn bytes offset seen = some (afterMarker (offset + (n + 2)) marker tail, reads ++ seen)
      ∧ ∀ i ∈ reads, i < bytes.length := by
  have length := congrArg List.length fill
  rw [List.length_drop, List.length_append, List.length_replicate, List.length_cons] at length
  have apart : (marker :: tail).head? ≠ some 0xFF := fun same => other (Option.some.inj same)
  have behind : bytes.drop (offset + (n + 1)) = marker :: tail := by
    rw [← List.drop_drop, fill, List.drop_left' (List.length_replicate ..)]
  obtain ⟨reads, read, within⟩ := segmentTurn_apply behind ((List.range' offset (n + 1 + 1)).reverse ++ (offset :: seen))
  refine ⟨reads ++ ((List.range' offset (n + 1 + 1)).reverse ++ [offset]), ?_, ?_⟩
  · rw [markerTurn_fill apart fill, read, List.append_assoc, List.append_assoc]
    rfl
  · intro i member
    rcases List.mem_append.mp member with read | member
    · exact within i read
    · simp only [List.mem_append, List.mem_reverse, List.mem_range'_1, List.mem_singleton] at member
      omega

end Turns

section Grammar

/-- What the walk passes over: stray bytes, markers that stand alone, and segments that tell no dimensions. A segment begins
with its length, and a marker stands behind one fill byte or more. -/
inductive Skipped : List UInt8 → Prop
  | nil : Skipped []
  | stray {byte : UInt8} {rest : List UInt8} (other : byte ≠ 0xFF) (then_ : Skipped rest) : Skipped (byte :: rest)
  | alone (n : ℕ) {marker : UInt8} {rest : List UInt8} (alone : standsAlone marker = true) (then_ : Skipped rest) :
      Skipped (List.replicate (n + 1) 0xFF ++ marker :: rest)
  | segment (n : ℕ) {marker : UInt8} {segment rest : List UInt8} (other : marker ≠ 0xFF) (joined : standsAlone marker = false)
      (goes : endsWalk marker = false) (some_ : 2 ≤ segment.length) (length : bigEndian (segment.take 2) = segment.length)
      (noFrame : isStartOfFrame marker = true → segment.length < 7) (then_ : Skipped rest) :
      Skipped (List.replicate (n + 1) 0xFF ++ marker :: (segment ++ rest))

/-- The bytes begin with what is passed over and the first start-of-frame segment of seven bytes or more, which tells the
dimensions. -/
def Framed (bytes : List UInt8) (dimensions : Dimensions) : Prop :=
  ∃ skipped n marker segment rest, Skipped skipped ∧ bytes = skipped ++ (List.replicate (n + 1) 0xFF ++ marker :: (segment ++ rest))
    ∧ isStartOfFrame marker = true ∧ 7 ≤ segment.length ∧ bigEndian (segment.take 2) = segment.length
    ∧ dimensions = frameDimensions segment

variable {bytes tail : List UInt8} {dimensions : Dimensions} {marker : UInt8} {n : ℕ}

theorem startOfFrame_marker (frame : isStartOfFrame marker = true) :
    marker ≠ 0xFF ∧ standsAlone marker = false ∧ endsWalk marker = false := by
  simp only [isStartOfFrame, decide_eq_true_eq, UInt8.le_iff_toNat_le] at frame
  simp only [standsAlone, endsWalk, decide_eq_false_iff_not, UInt8.le_iff_toNat_le, ← UInt8.toNat_inj, ne_eq]
  simp only [UInt8.reduceToNat] at frame ⊢
  omega

theorem alone_marker (alone : standsAlone marker = true) : marker ≠ 0xFF := by
  rintro rfl
  exact absurd alone (by decide)

/-- Fill bytes and the marker behind them are told apart. -/
theorem fill_inj {k : ℕ} {other : UInt8} {rest : List UInt8} (first : marker ≠ 0xFF) (second : other ≠ 0xFF)
    (same : List.replicate n 0xFF ++ marker :: tail = List.replicate k 0xFF ++ other :: rest) :
    n = k ∧ marker = other ∧ tail = rest := by
  induction n generalizing k with
  | zero =>
    cases k with
    | zero =>
      obtain ⟨rfl, rfl⟩ := List.cons.inj same
      exact ⟨rfl, rfl, rfl⟩
    | succ k => exact absurd (List.cons.inj same).1 first
  | succ n ih =>
    cases k with
    | zero => exact absurd (List.cons.inj same).1.symm second
    | succ k =>
      obtain ⟨rfl, markers, tails⟩ := ih (List.cons.inj same).2
      exact ⟨rfl, markers, tails⟩

theorem length_framed (framed : Framed bytes dimensions) : 9 ≤ bytes.length := by
  obtain ⟨skipped, n, marker, segment, rest, _, rfl, _, long, _⟩ := framed
  simp only [List.length_append, List.length_replicate, List.length_cons]
  omega

theorem framed_stray {byte : UInt8} (other : byte ≠ 0xFF) : Framed (byte :: tail) dimensions ↔ Framed tail dimensions := by
  constructor
  · rintro ⟨skipped, n, marker, segment, rest, passed, same, frame⟩
    cases passed with
    | nil => exact absurd (List.cons.inj same).1 other
    | stray _ passed =>
      obtain ⟨rfl, rfl⟩ := List.cons.inj same
      exact ⟨_, n, marker, segment, rest, passed, rfl, frame⟩
    | alone k alone passed => exact absurd (List.cons.inj same).1 other
    | segment k _ _ _ _ _ _ passed => exact absurd (List.cons.inj same).1 other
  · rintro ⟨skipped, n, marker, segment, rest, passed, rfl, frame⟩
    exact ⟨byte :: skipped, n, marker, segment, rest, .stray other passed, rfl, frame⟩

theorem framed_alone (alone : standsAlone marker = true) :
    Framed (List.replicate (n + 1) 0xFF ++ marker :: tail) dimensions ↔ Framed tail dimensions := by
  constructor
  · rintro ⟨skipped, k, other, segment, rest, passed, same, frame⟩
    cases passed with
    | nil =>
      obtain ⟨-, rfl, -⟩ := fill_inj (alone_marker alone) (startOfFrame_marker frame.1).1 same
      rw [(startOfFrame_marker frame.1).2.1] at alone
      cases alone
    | stray wrong _ => exact absurd (List.cons.inj same).1.symm wrong
    | @alone l own others own_ passed =>
      rw [List.append_assoc] at same
      obtain ⟨-, rfl, rfl⟩ := fill_inj (alone_marker alone) (alone_marker own_) same
      exact ⟨_, k, other, segment, rest, passed, rfl, frame⟩
    | segment l apart joined _ _ _ _ passed =>
      rw [List.append_assoc] at same
      obtain ⟨-, rfl, -⟩ := fill_inj (alone_marker alone) apart same
      rw [joined] at alone
      cases alone
  · rintro ⟨skipped, k, other, segment, rest, passed, rfl, frame⟩
    exact ⟨_, k, other, segment, rest, .alone n alone passed, by rw [List.append_assoc, List.cons_append], frame⟩

theorem segment_take {segment rest : List UInt8} (some_ : 2 ≤ segment.length)
    (length : bigEndian (segment.take 2) = segment.length) : bigEndian ((segment ++ rest).take 2) = segment.length := by
  rw [List.take_append_of_le_length some_, length]

theorem frameDimensions_append {segment : List UInt8} (long : 7 ≤ segment.length) (rest : List UInt8) :
    frameDimensions (segment ++ rest) = frameDimensions segment := by
  rw [frameDimensions, frameDimensions, List.drop_append_of_le_length (by omega), List.drop_append_of_le_length (by omega),
    List.take_append_of_le_length (by rw [List.length_drop]; omega), List.take_append_of_le_length (by rw [List.length_drop]; omega)]

theorem framed_segment (other : marker ≠ 0xFF) (joined : standsAlone marker = false) (goes : endsWalk marker = false) :
    Framed (List.replicate (n + 1) 0xFF ++ marker :: tail) dimensions ↔
      2 ≤ bigEndian (tail.take 2) ∧ bigEndian (tail.take 2) ≤ tail.length
        ∧ if isStartOfFrame marker = true ∧ 7 ≤ bigEndian (tail.take 2) then dimensions = frameDimensions tail
          else Framed (tail.drop (bigEndian (tail.take 2))) dimensions := by
  constructor
  · rintro ⟨skipped, k, own, segment, rest, passed, same, isFrame, long, length, rfl⟩
    cases passed with
    | nil =>
      obtain ⟨-, rfl, rfl⟩ := fill_inj other (startOfFrame_marker isFrame).1 same
      rw [segment_take (by omega) length, if_pos ⟨isFrame, long⟩, frameDimensions_append long, List.length_append]
      exact ⟨by omega, by omega, rfl⟩
    | stray wrong _ => exact absurd (List.cons.inj same).1.symm wrong
    | alone l alone passed =>
      rw [List.append_assoc] at same
      obtain ⟨-, rfl, -⟩ := fill_inj other (alone_marker alone) same
      rw [joined] at alone
      cases alone
    | @segment l found passage others apart _ _ some_ size noFrame passed =>
      rw [List.append_assoc, List.cons_append, List.append_assoc] at same
      obtain ⟨-, rfl, rfl⟩ := fill_inj other apart same
      rw [segment_take some_ size, List.drop_left, List.length_append]
      refine ⟨some_, by omega, ?_⟩
      rw [if_neg fun both => absurd (noFrame both.1) (not_lt.mpr both.2)]
      exact ⟨_, k, own, segment, rest, passed, rfl, isFrame, long, length, rfl⟩
  · rintro ⟨some_, fits, rest⟩
    have size : (tail.take (bigEndian (tail.take 2))).length = bigEndian (tail.take 2) := by
      rw [List.length_take]
      omega
    have length : bigEndian ((tail.take (bigEndian (tail.take 2))).take 2) = (tail.take (bigEndian (tail.take 2))).length := by
      rw [size, List.take_take, Nat.min_eq_left some_]
    have whole := List.take_append_drop (bigEndian (tail.take 2)) tail
    split at rest
    · next frame =>
      refine ⟨[], n, marker, tail.take (bigEndian (tail.take 2)), tail.drop (bigEndian (tail.take 2)), .nil, ?_, frame.1, ?_,
        length, ?_⟩
      · rw [whole, List.nil_append]
      · rw [size]
        exact frame.2
      · rw [rest]
        have long : 7 ≤ (tail.take (bigEndian (tail.take 2))).length := by
          rw [size]
          exact frame.2
        have same := frameDimensions_append long (tail.drop (bigEndian (tail.take 2)))
        rwa [whole] at same
    · next noFrame =>
      obtain ⟨skipped, k, own, segment, others, passed, same, frame⟩ := rest
      refine ⟨List.replicate (n + 1) 0xFF ++ marker :: (tail.take (bigEndian (tail.take 2)) ++ skipped), k, own, segment, others,
        .segment n other joined goes (by omega) length ?_ passed, ?_, frame⟩
      · intro isFrame
        by_contra long
        exact noFrame ⟨isFrame, by omega⟩
      · rw [List.append_assoc, List.cons_append, List.append_assoc, ← same, whole]

theorem not_framed_ends (ends : endsWalk marker = true) :
    ¬Framed (List.replicate (n + 1) 0xFF ++ marker :: tail) dimensions := by
  have other : marker ≠ 0xFF := by
    rintro rfl
    exact absurd ends (by decide)
  rintro ⟨skipped, k, own, segment, rest, passed, same, frame⟩
  cases passed with
  | nil =>
    obtain ⟨-, rfl, -⟩ := fill_inj other (startOfFrame_marker frame.1).1 same
    rw [(startOfFrame_marker frame.1).2.2] at ends
    cases ends
  | stray wrong _ => exact absurd (List.cons.inj same).1.symm wrong
  | alone l alone passed =>
    rw [List.append_assoc] at same
    obtain ⟨-, rfl, -⟩ := fill_inj other (alone_marker alone) same
    simp only [standsAlone, endsWalk, decide_eq_true_eq] at alone ends
    rcases ends with rfl | rfl <;> exact absurd alone (by decide)
  | segment l apart _ goes _ _ _ passed =>
    rw [List.append_assoc] at same
    obtain ⟨-, rfl, -⟩ := fill_inj other apart same
    rw [goes] at ends
    cases ends

theorem not_framed_fill : ¬Framed (List.replicate n 0xFF) dimensions := by
  rintro ⟨skipped, k, own, segment, rest, _, same, frame, _⟩
  have member : own ∈ List.replicate n 0xFF := by
    rw [same]
    simp
  exact (startOfFrame_marker frame).1 (List.eq_of_mem_replicate member)

end Grammar

section Walk

variable {bytes : List UInt8} {offset : ℕ}

/-- What the rest of the walk comes to: the grammar says what it finds, and an index outside the bytes is read only where fill
bytes reach their end, and nothing is found then. -/
structure Walked (bytes : List UInt8) (offset : ℕ) (found : Option Dimensions) (reads : List ℕ) : Prop where
  framed : ∀ dimensions, found = some dimensions ↔ Framed (bytes.drop offset) dimensions
  inside : ∀ i ∈ reads, i < bytes.length ∨ i = bytes.length ∧ found = none ∧ bytes.getLast? = some 0xFF

theorem Walked.before {next : ℕ} {found : Option Dimensions} {reads earlier : List ℕ} (walked : Walked bytes next found reads)
    (same : ∀ dimensions, Framed (bytes.drop offset) dimensions ↔ Framed (bytes.drop next) dimensions)
    (inside : ∀ i ∈ earlier, i < bytes.length) : Walked bytes offset found (reads ++ earlier) where
  framed := by
    intro dimensions
    rw [same]
    exact walked.framed dimensions
  inside := by
    intro i member
    rcases List.mem_append.mp member with later | read
    · exact walked.inside i later
    · exact .inl (inside i read)

theorem exists_fill (list : List UInt8) : ∃ n rest, list = List.replicate n 0xFF ++ rest ∧ rest.head? ≠ some 0xFF := by
  induction list with
  | nil => exact ⟨0, [], rfl, by decide⟩
  | cons byte list ih =>
    by_cases fill : byte = 0xFF
    · obtain ⟨n, rest, rfl, behind⟩ := ih
      exact ⟨n + 1, rest, by rw [fill]; rfl, behind⟩
    · exact ⟨0, byte :: list, rfl, fun same => fill (Option.some.inj same)⟩

theorem none_framed (unframed : ∀ dimensions, ¬Framed bytes dimensions) (dimensions : Dimensions) :
    none = some dimensions ↔ Framed bytes dimensions :=
  iff_of_false (Option.some_ne_none dimensions).symm (unframed dimensions)

/-- A marker takes the walk on or ends it, as the grammar says. -/
theorem framed_afterMarker {n start : ℕ} {marker : UInt8} {tail : List UInt8} (other : marker ≠ 0xFF)
    (here : bytes.drop offset = List.replicate (n + 1) 0xFF ++ marker :: tail) (behind : bytes.drop start = tail) :
    (∃ next, afterMarker start marker tail = .next next ∧ start ≤ next
      ∧ ∀ dimensions, Framed (bytes.drop offset) dimensions ↔ Framed (bytes.drop next) dimensions)
    ∨ ∃ found, afterMarker start marker tail = .leave found
      ∧ ∀ dimensions, found = some dimensions ↔ Framed (bytes.drop offset) dimensions := by
  rw [here, afterMarker]
  by_cases ends : endsWalk marker = true
  · rw [if_pos (.inl ends)]
    exact .inr ⟨none, rfl, none_framed fun _ => not_framed_ends ends⟩
  by_cases alone : standsAlone marker = true
  · by_cases short : tail.length < 2
    · rw [if_pos (.inr short)]
      refine .inr ⟨none, rfl, none_framed fun dimensions framed => ?_⟩
      have long := length_framed ((framed_alone alone).mp framed)
      omega
    · rw [if_neg fun either => either.elim ends short, if_pos alone]
      refine .inl ⟨start, rfl, le_refl _, fun dimensions => ?_⟩
      rw [framed_alone alone, behind]
  have segment := fun dimensions => @framed_segment tail dimensions marker n other (Bool.eq_false_iff.mpr alone)
    (Bool.eq_false_iff.mpr ends)
  by_cases short : tail.length < 2
  · rw [if_pos (.inr short)]
    refine .inr ⟨none, rfl, none_framed fun dimensions framed => ?_⟩
    obtain ⟨some_, fits, _⟩ := (segment dimensions).mp framed
    omega
  rw [if_neg fun either => either.elim ends short, if_neg alone]
  by_cases bad : bigEndian (tail.take 2) < 2 ∨ tail.length < bigEndian (tail.take 2)
  · rw [if_pos bad]
    refine .inr ⟨none, rfl, none_framed fun dimensions framed => ?_⟩
    obtain ⟨some_, fits, _⟩ := (segment dimensions).mp framed
    omega
  rw [if_neg bad]
  rw [not_or, not_lt, not_lt] at bad
  by_cases frame : isStartOfFrame marker = true ∧ 7 ≤ bigEndian (tail.take 2)
  · rw [if_pos frame]
    refine .inr ⟨_, rfl, fun dimensions => ?_⟩
    rw [segment, if_pos frame, Option.some.injEq]
    exact ⟨fun same => ⟨bad.1, bad.2, same.symm⟩, fun both => both.2.2.symm⟩
  · rw [if_neg frame]
    refine .inl ⟨_, rfl, Nat.le_add_right _ _, fun dimensions => ?_⟩
    rw [segment, if_neg frame, ← List.drop_drop, behind]
    exact ⟨fun both => both.2.2, fun framed => ⟨bad.1, bad.2, framed⟩⟩

/-- The walk ends: every turn but the last takes it on. -/
theorem walk_apply (fuel offset : ℕ) (enough : bytes.length < fuel + offset) (positive : 0 < fuel) (seen : List ℕ) :
    ∃ found reads, walk bytes fuel offset seen = some (found, reads ++ seen) ∧ Walked bytes offset found reads := by
  induction fuel generalizing offset seen with
  | zero => exact absurd positive (lt_irrefl 0)
  | succ fuel ih =>
    rw [walk]
    by_cases more : offset + 3 < bytes.length
    · rw [if_pos more, bind_apply]
      have goes : ∀ next earlier, offset < next → (∀ i ∈ earlier, i < bytes.length) →
          (∀ dimensions, Framed (bytes.drop offset) dimensions ↔ Framed (bytes.drop next) dimensions) →
          ∃ found reads, walk bytes fuel next (earlier ++ seen) = some (found, reads ++ seen) ∧ Walked bytes offset found reads := by
        intro next earlier onward inside same
        obtain ⟨found, reads, ended, walked⟩ := ih next (by omega) (by omega) (earlier ++ seen)
        exact ⟨found, reads ++ earlier, by rw [ended, List.append_assoc], walked.before same inside⟩
      obtain ⟨n, rest, begins, behind⟩ := exists_fill (bytes.drop offset)
      cases n with
      | zero =>
        cases rest with
        | nil =>
          have length := congrArg List.length begins
          rw [List.length_drop] at length
          simp only [List.replicate_zero, List.nil_append, List.length_nil] at length
          omega
        | cons byte rest =>
          have other : byte ≠ 0xFF := fun same => behind (congrArg some same)
          rw [markerTurn_stray begins other, Option.bind_some]
          refine goes (offset + 1) [offset] (by omega) ?_ fun dimensions => ?_
          · intro i member
            rw [List.mem_singleton.mp member]
            omega
          · rw [← List.drop_drop, begins]
            exact framed_stray other
      | succ n =>
        cases rest with
        | nil =>
          rw [List.append_nil] at begins
          obtain ⟨reads, read, within⟩ := markerTurn_end begins seen
          rw [read, Option.bind_some]
          refine ⟨none, reads, rfl, ?_, ?_⟩
          · rw [begins]
            exact none_framed fun _ => not_framed_fill
          · intro i member
            have last : bytes.getLast? = some 0xFF := by
              rw [← List.take_append_drop offset bytes, begins, List.getLast?_append, List.getLast?_replicate,
                if_neg (Nat.succ_ne_zero n)]
              rfl
            rcases Nat.lt_or_eq_of_le (within i member) with inside | outside
            · exact .inl inside
            · exact .inr ⟨outside, rfl, last⟩
        | cons marker tail =>
          have other : marker ≠ 0xFF := fun same => behind (congrArg some same)
          obtain ⟨reads, read, within⟩ := markerTurn_marker other begins seen
          have rest : bytes.drop (offset + (n + 2)) = tail := by
            rw [show offset + (n + 2) = offset + (n + 1) + 1 by omega, ← List.drop_drop, ← List.drop_drop, begins,
              List.drop_left' (List.length_replicate ..)]
            rfl
          rw [read, Option.bind_some]
          rcases framed_afterMarker other begins rest with ⟨next, turn, onward, same⟩ | ⟨found, turn, framed⟩
          · rw [turn]
            exact goes next reads (by omega) within same
          · rw [turn]
            exact ⟨found, reads, rfl, framed, fun i member => .inl (within i member)⟩
    · rw [if_neg more]
      refine ⟨none, [], rfl, none_framed fun dimensions framed => ?_, fun i member => absurd member List.not_mem_nil⟩
      have long := length_framed framed
      rw [List.length_drop] at long
      omega

end Walk

section Dimensions

variable {α β : Type} {bytes : List UInt8}

/-- A computation that neither throws nor reads outside the bytes. -/
def Inside (bytes : List UInt8) (reading : Reading α) : Prop :=
  ∀ seen, (∀ i ∈ seen, i < bytes.length) →
    ∃ value reads, reading seen = some (value, reads) ∧ ∀ i ∈ reads, i < bytes.length

namespace Inside

theorem pure (value : α) : Inside bytes (pure value : Reading α) := fun seen inside => ⟨value, seen, rfl, inside⟩

theorem bind {first : Reading α} {next : α → Reading β} (inside : Inside bytes first) (then_ : ∀ value, Inside bytes (next value)) :
    Inside bytes (first >>= next) := by
  intro seen within
  obtain ⟨value, reads, read, further⟩ := inside seen within
  rw [bind_apply, read]
  exact then_ value reads further

theorem ite {condition : Prop} [Decidable condition] {first second : Reading α} (yes : Inside bytes first)
    (no : ¬condition → Inside bytes second) : Inside bytes (if condition then first else second) := by
  split
  · exact yes
  · next fails => exact no fails

theorem byteAt {index : ℕ} (inside : index < bytes.length) : Inside bytes (byteAt bytes index) := by
  intro seen within
  exact ⟨_, _, rfl, List.forall_mem_cons.mpr ⟨inside, within⟩⟩

theorem readBytes (start count : ℕ) : Inside bytes (readBytes bytes start count) := by
  intro seen within
  refine ⟨_, _, rfl, ?_⟩
  intro i member
  rcases List.mem_append.mp member with read | earlier
  · rw [List.mem_reverse, List.mem_range'_1] at read
    omega
  · exact within i earlier

theorem readUIntBE {width index : ℕ} (fits : index + width ≤ bytes.length) : Inside bytes (readUIntBE bytes width index) := by
  intro seen within
  refine ⟨_, _, readUIntBE_apply fits seen, ?_⟩
  intro i member
  rcases List.mem_append.mp member with read | earlier
  · rw [List.mem_reverse, List.mem_range'_1] at read
    omega
  · exact within i earlier

end Inside

theorem inside_pngDimensions (bytes : List UInt8) : Inside bytes (pngDimensions bytes) := by
  unfold pngDimensions
  refine .ite (.pure _) fun long => ?_
  refine .bind (.readBytes 0 8) fun signature => .ite (.pure _) fun _ => ?_
  refine .bind (.readBytes 12 4) fun name => .ite (.pure _) fun _ => ?_
  have deep : 25 < bytes.length := by omega
  refine .bind (.byteAt deep) fun colorType => .bind (.byteAt (by omega)) fun bitDepth => ?_
  split
  · exact .pure _
  · refine .ite (.pure _) fun _ => ?_
    have wide : 16 + 4 ≤ bytes.length := by omega
    have tall : 20 + 4 ≤ bytes.length := by omega
    exact .bind (.readUIntBE wide) fun width => .bind (.readUIntBE tall) fun height => .pure _

theorem jpegDimensions_apply (bytes : List UInt8) : ∃ found reads, jpegDimensions bytes [] = some (found, reads)
    ∧ (∀ dimensions, found = some dimensions ↔ ∃ rest, bytes = 0xFF :: 0xD8 :: rest ∧ Framed rest dimensions)
    ∧ ∀ i ∈ reads, i < bytes.length ∨ i = bytes.length ∧ found = none ∧ bytes.getLast? = some 0xFF := by
  have nothing : (∀ rest, bytes = 0xFF :: 0xD8 :: rest → rest.length < 2) → ∀ dimensions,
      none = some dimensions ↔ ∃ rest, bytes = 0xFF :: 0xD8 :: rest ∧ Framed rest dimensions := by
    intro short dimensions
    refine iff_of_false (Option.some_ne_none dimensions).symm ?_
    rintro ⟨rest, begins, framed⟩
    have long := length_framed framed
    have few := short rest begins
    omega
  unfold jpegDimensions
  by_cases short : bytes.length < 4
  · rw [if_pos short]
    refine ⟨none, [], rfl, nothing ?_, fun i member => absurd member List.not_mem_nil⟩
    rintro rest rfl
    simp only [List.length_cons] at short
    omega
  rw [if_neg short, bind_apply, byteAt_apply, Option.bind_some]
  by_cases first : bytes[0]? = some 0xFF
  · rw [if_neg fun apart => apart first, bind_apply, byteAt_apply, Option.bind_some]
    by_cases second : bytes[1]? = some 0xD8
    · rw [if_neg fun apart => apart second]
      have enough : bytes.length < bytes.length + 1 + 2 := by omega
      obtain ⟨found, reads, ended, walked⟩ := walk_apply (bytes.length + 1) 2 enough (by omega) [1, 0]
      refine ⟨found, reads ++ [1, 0], ended, ?_, ?_⟩
      · intro dimensions
        rw [walked.framed]
        constructor
        · intro framed
          refine ⟨bytes.drop 2, ?_, framed⟩
          rcases bytes with _ | ⟨a, _ | ⟨b, rest⟩⟩
          · cases first
          · cases second
          · rw [List.getElem?_cons_zero] at first
            rw [List.getElem?_cons_succ, List.getElem?_cons_zero] at second
            cases first
            cases second
            rfl
        · rintro ⟨rest, rfl, framed⟩
          exact framed
      · intro i member
        rcases List.mem_append.mp member with later | early
        · exact walked.inside i later
        · left
          simp only [List.mem_cons, List.not_mem_nil, or_false] at early
          omega
    · rw [if_pos second]
      refine ⟨none, [1, 0], rfl, nothing ?_, ?_⟩
      · rintro rest rfl
        exact absurd rfl second
      · intro i member
        left
        simp only [List.mem_cons, List.not_mem_nil, or_false] at member
        omega
  · rw [if_pos first]
    refine ⟨none, [0], rfl, nothing ?_, ?_⟩
    · rintro rest rfl
      exact absurd rfl first
    · intro i member
      left
      rw [List.mem_singleton.mp member]
      omega

/-- The dimensions of an image are read to an end, and within the bytes but for the index behind fill bytes at their end. -/
structure Measured (bytes : List UInt8) (mimeType : JsString) (found : Option Dimensions) (reads : List ℕ) : Prop where
  inside : ∀ i ∈ reads, i < bytes.length ∨ i = bytes.length ∧ found = none ∧ mimeType = js "image/jpeg" ∧ bytes.getLast? = some 0xFF
  jpeg : mimeType = js "image/jpeg" → ∀ dimensions,
    found = some dimensions ↔ ∃ rest, bytes = 0xFF :: 0xD8 :: rest ∧ Framed rest dimensions

theorem imageDimensions_apply (bytes : List UInt8) (mimeType : JsString) :
    ∃ found reads, imageDimensions bytes mimeType [] = some (found, reads) ∧ Measured bytes mimeType found reads := by
  unfold imageDimensions
  by_cases png : mimeType = js "image/png"
  · obtain ⟨found, reads, read, inside⟩ := inside_pngDimensions bytes [] fun i member => absurd member List.not_mem_nil
    rw [if_pos png]
    refine ⟨found, reads, read, fun i member => .inl (inside i member), ?_⟩
    rintro rfl
    exact absurd png (by decide)
  rw [if_neg png]
  by_cases jpeg : mimeType = js "image/jpeg"
  · obtain ⟨found, reads, read, framed, inside⟩ := jpegDimensions_apply bytes
    rw [if_pos jpeg]
    refine ⟨found, reads, read, ?_, fun _ => framed⟩
    intro i member
    exact (inside i member).imp_right fun outside => ⟨outside.1, outside.2.1, jpeg, outside.2.2⟩
  · rw [if_neg jpeg]
    exact ⟨none, [], rfl, fun i member => absurd member List.not_mem_nil, fun same => absurd same jpeg⟩

end Dimensions

section Normalized

variable {allowMetadata : Bool} {index totalBytes next : ℕ} {raw image : Value}

/-- An image that was accepted, with its bytes: canonical base64 of a container whose dimensions are within the bounds. -/
structure Accepted (image : Value) (bytes : List UInt8) : Prop where
  typed : image.get (js "mimeType") = .text "image/png" ∨ image.get (js "mimeType") = .text "image/jpeg"
  canonical : image.get (js "data") = .str (encodeBase64 bytes)
  bounded : ∃ dimensions reads, imageDimensions bytes (image.get (js "mimeType")).units [] = some (some dimensions, reads)
    ∧ 1 ≤ dimensions.width ∧ dimensions.width ≤ 8192 ∧ 1 ≤ dimensions.height ∧ dimensions.height ≤ 8192
    ∧ dimensions.width * dimensions.height ≤ 16000000
    ∧ dimensions.decodedBytes.getD (dimensions.width * dimensions.height * 4) ≤ 64 * 1024 * 1024

theorem data_imageFields (allowMetadata : Bool) (index : ℕ) (raw : Value) (size : ℕ) :
    (Value.record (imageFields allowMetadata index raw size)).get (js "data") = raw.get (js "data") := by
  rw [Value.get_record]
  rfl

theorem mimeType_imageFields (allowMetadata : Bool) (index : ℕ) (raw : Value) (size : ℕ) :
    (Value.record (imageFields allowMetadata index raw size)).get (js "mimeType") = raw.get (js "mimeType") := by
  rw [Value.get_record]
  rfl

theorem normalizeImage_ok (normal : normalizeImage allowMetadata index raw totalBytes = .ok (image, next)) :
    ∃ bytes, Accepted image bytes ∧ next = totalBytes + bytes.length ∧ next ≤ MAX_INPUT_IMAGE_BYTES := by
  unfold normalizeImage at normal
  simp only at normal
  split at normal
  · cases normal
  split at normal
  · cases normal
  split at normal
  · cases normal
  split at normal
  · cases normal
  next typed =>
  split at normal
  · cases normal
  next data =>
  split at normal
  · cases normal
  next canonical =>
  split at normal
  · cases normal
  next small =>
  split at normal
  · cases normal
  next bounded =>
  cases normal
  rw [ne_eq, not_not] at canonical
  rw [not_or, Bool.not_eq_false] at data
  refine ⟨decodeBase64 (raw.get (js "data")).units, ⟨?_, ?_, ?_⟩, rfl, by omega⟩
  · rw [mimeType_imageFields]
    tauto
  · rw [data_imageFields, canonical]
    exact Value.str_units data.1
  · rw [mimeType_imageFields]
    rw [Bool.not_eq_false] at bounded
    obtain ⟨found, reads, read, _⟩ := imageDimensions_apply (decodeBase64 (raw.get (js "data")).units)
      (raw.get (js "mimeType")).units
    rw [StateT.run', read] at bounded
    cases found with
    | none => cases bounded
    | some dimensions =>
      have within : withinBounds dimensions = true := bounded
      rw [withinBounds, decide_eq_true_iff] at within
      exact ⟨dimensions, reads, read, within.1, within.2.2.1, within.2.1, within.2.2.2⟩

theorem normalizeFrom_ok (raws : List Value) : ∀ {index totalBytes : ℕ} {images : List Value},
    totalBytes ≤ MAX_INPUT_IMAGE_BYTES → normalizeFrom allowMetadata index totalBytes raws = .ok images →
    ∃ decoded, List.Forall₂ Accepted images decoded ∧ images.length = raws.length
      ∧ totalBytes + (decoded.map List.length).sum ≤ MAX_INPUT_IMAGE_BYTES := by
  induction raws with
  | nil =>
    intro index totalBytes images fits normal
    cases normal
    exact ⟨[], .nil, rfl, fits⟩
  | cons raw raws ih =>
    intro index totalBytes images fits normal
    rw [normalizeFrom] at normal
    cases first : normalizeImage allowMetadata index raw totalBytes with
    | error text =>
      rw [first] at normal
      cases normal
    | ok result =>
      obtain ⟨image, next⟩ := result
      obtain ⟨bytes, accepted, total, below⟩ := normalizeImage_ok first
      rw [first, Checked.ok_bind] at normal
      dsimp only at normal
      cases later : normalizeFrom allowMetadata (index + 1) next raws with
      | error text =>
        rw [later] at normal
        cases normal
      | ok rest =>
        rw [later, Checked.ok_bind] at normal
        cases normal
        obtain ⟨decoded, all, same, sum⟩ := ih below later
        refine ⟨bytes :: decoded, .cons accepted all, congrArg (· + 1) same, ?_⟩
        rw [List.map_cons, List.sum_cons]
        omega

theorem normalizeInputImages_ok {value : Value} {images : List Value}
    (normal : normalizeInputImages value allowMetadata = .ok images) : ∃ decoded, List.Forall₂ Accepted images decoded
      ∧ images.length ≤ MAX_INPUT_IMAGE_COUNT ∧ (decoded.map List.length).sum ≤ MAX_INPUT_IMAGE_BYTES := by
  have none_ : ∃ decoded, List.Forall₂ Accepted [] decoded
      ∧ ([] : List Value).length ≤ MAX_INPUT_IMAGE_COUNT ∧ (decoded.map List.length).sum ≤ MAX_INPUT_IMAGE_BYTES :=
    ⟨[], .nil, Nat.zero_le _, Nat.zero_le _⟩
  cases value with
  | undefined | null =>
    cases normal
    exact none_
  | bool | num | str | obj => cases normal
  | arr raws =>
    rw [normalizeInputImages] at normal
    split at normal
    · cases normal
    next few =>
      obtain ⟨decoded, all, same, sum⟩ := normalizeFrom_ok raws (Nat.zero_le _) normal
      rw [Nat.zero_add] at sum
      exact ⟨decoded, all, by omega, sum⟩

end Normalized

/-- The dimensions of all bytes are read to an end, inside of them but for the index at their end, and are those of the first
frame; so the images of a request are within the bounds. -/
theorem images_bounded :
    (∀ (bytes : List UInt8) (mimeType : JsString),
      ∃ found reads, imageDimensions bytes mimeType [] = some (found, reads) ∧ Measured bytes mimeType found reads)
    ∧ ∀ (value : Value) (allowMetadata : Bool) (images : List Value), normalizeInputImages value allowMetadata = .ok images →
      ∃ decoded, List.Forall₂ Accepted images decoded ∧ images.length ≤ 4
        ∧ (decoded.map List.length).sum ≤ 3 * 1024 * 1024 :=
  ⟨imageDimensions_apply, fun _ _ _ normal => normalizeInputImages_ok normal⟩

/-- Fill bytes are read on to the index behind the bytes, and a frame of less than seven bytes is passed over. -/
theorem images_bounded_fill :
    imageDimensions [0xFF, 0xD8, 0xFF, 0xFF, 0xFF, 0xFF] (js "image/jpeg") [] = some (none, [6, 6, 5, 4, 3, 2, 2, 1, 0])
    ∧ (imageDimensions [0xFF, 0xD8, 0xFF, 0xC0, 0, 2, 0xFF, 0xC1, 0, 7, 8, 0, 1, 0, 2] (js "image/jpeg")).run' []
      = some (some ⟨2, 1, none⟩) := by
  decide +kernel

end PersistentHarness.InputImages
