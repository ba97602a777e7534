import PersistentHarness.Model.Kernel.OutputCollector

/-! # One chunk of a stream

What is retained of a chunk ends at the last character that fits, and the entries of `outputs` spell it at their end.
-/

namespace PersistentHarness.Kernel

open Json Utf8

/-! ## The end of a capture -/

theorem backUp_stop {bytes : Bytes} {n : ℕ} (stops : ∀ b ∈ bytes[n]?, isContinuation b = false) : backUp bytes n = n := by
  cases n with
  | zero => rfl
  | succ n =>
    rw [backUp, if_neg]
    cases found : bytes[n + 1]? with
    | none => exact Bool.false_ne_true
    | some b =>
      have outside := stops b found
      rw [Option.any_some, decide_eq_true_eq, masked_iff, outside]
      exact Bool.false_ne_true

theorem backUp_inside {bytes : Bytes} {n : ℕ}
    (inside : ∀ i, 0 < i → i ≤ n → ∃ b ∈ bytes[i]?, isContinuation b = true) : backUp bytes n = 0 := by
  induction n with
  | zero => rfl
  | succ n ih =>
    obtain ⟨b, found, continues⟩ := inside (n + 1) n.succ_pos le_rfl
    rw [Option.mem_def] at found
    rw [backUp, if_pos]
    · exact ih fun i positive within => inside i positive (Nat.le_succ_of_le within)
    · rw [found, Option.any_some, decide_eq_true_eq, masked_iff, continues]

theorem backUp_append {first second : Bytes} (boundary : ∀ b ∈ second.head?, isContinuation b = false) (n : ℕ) :
    backUp (first ++ second) (first.length + n) = first.length + backUp second n := by
  induction n with
  | zero =>
    refine backUp_stop ?_
    rw [Nat.add_zero, List.getElem?_append_right le_rfl, Nat.sub_self, ← List.head?_eq_getElem?]
    exact boundary
  | succ n ih =>
    have same : (first ++ second)[first.length + n + 1]? = second[n + 1]? := by
      rw [List.getElem?_append_right (by omega)]
      congr 1
      omega
    rw [← Nat.add_assoc, backUp, backUp, same, ih]
    split
    · rfl
    · rfl

theorem head_flatMap (cs : List Char) : ∀ b ∈ (cs.flatMap charBytes).head?, isContinuation b = false := by
  cases cs with
  | nil => nofun
  | cons c cs =>
    obtain ⟨first, rest, spelled, outside, _⟩ := charBytes_shape c
    rw [List.flatMap_cons, spelled]
    rintro b ⟨⟩
    exact outside

/-- What is retained of a chunk is the longest beginning that fits. -/
theorem take_backUp (cs : List Char) (limit : ℕ) :
    (cs.flatMap charBytes).take (backUp (cs.flatMap charBytes) (min (textBytes cs) limit)) = (cut limit cs).flatMap charBytes := by
  induction cs generalizing limit with
  | nil => rfl
  | cons c cs ih =>
    rw [List.flatMap_cons, cut, textBytes_cons]
    split
    · next fits =>
      have bound : min ((charBytes c).length + textBytes cs) limit
          = (charBytes c).length + min (textBytes cs) (limit - (charBytes c).length) := by omega
      rw [bound, backUp_append (head_flatMap cs), List.take_length_add_append, ih, List.flatMap_cons]
    · next exceeds =>
      have bound : min ((charBytes c).length + textBytes cs) limit = limit := by omega
      obtain ⟨first, rest, spelled, _, continues⟩ := charBytes_shape c
      rw [bound, backUp_inside, List.take_zero, List.flatMap_nil]
      intro i positive within
      rw [spelled] at exceeds ⊢
      rw [List.length_cons] at exceeds
      obtain ⟨i, rfl⟩ := Nat.exists_eq_succ_of_ne_zero positive.ne'
      have small : i < rest.length := by omega
      refine ⟨rest[i], ?_, continues _ (List.getElem_mem small)⟩
      rw [List.cons_append, Nat.succ_eq_add_one, List.getElem?_cons_succ, List.getElem?_append_left small]
      exact List.getElem?_eq_getElem small

/-! ## What the entries spell -/

/-- One code unit or one record. -/
inductive Piece where
  | unit (u : UInt16)
  | record (mime : Value)
deriving DecidableEq

def Output.pieces : Output → List Piece
  | .text content => content.map .unit
  | .mime record => [.record record]

/-- The entries without the boundaries between texts. -/
def contents (outputs : List Output) : List Piece := outputs.flatMap Output.pieces

def records (outputs : List Output) : List Value :=
  outputs.filterMap fun
    | .text _ => none
    | .mime mime => some mime

/-- The text between and around the records. -/
def textOf (pieces : List Piece) : JsString :=
  pieces.filterMap fun
    | .unit u => some u
    | .record _ => none

theorem textOf_units (text : JsString) : textOf (text.map .unit) = text := by
  rw [textOf, List.filterMap_map]
  exact List.filterMap_some

theorem textOf_append (first second : List Piece) : textOf (first ++ second) = textOf first ++ textOf second :=
  List.filterMap_append

theorem contents_append (first second : List Output) : contents (first ++ second) = contents first ++ contents second :=
  List.flatMap_append

theorem records_append (first second : List Output) : records (first ++ second) = records first ++ records second :=
  List.filterMap_append

theorem contents_joinText (outputs : List Output) (text : JsString) :
    contents (joinText outputs text) = contents outputs ++ text.map .unit ∧ records (joinText outputs text) = records outputs := by
  unfold joinText
  split
  · next last found =>
    obtain ⟨front, rfl⟩ := List.getLast?_eq_some_iff.mp found
    rw [List.dropLast_concat, contents_append, contents_append, List.append_assoc]
    refine ⟨congrArg _ ?_, by rw [records_append, records_append]; rfl⟩
    simp only [contents, List.flatMap_cons, List.flatMap_nil, List.append_nil, Output.pieces, List.map_append]
  · rw [contents_append, records_append]
    exact ⟨by simp only [contents, List.flatMap_cons, List.flatMap_nil, List.append_nil, Output.pieces], List.append_nil _⟩

namespace OutputCollector

variable {c : OutputCollector}

theorem contents_addText (c : OutputCollector) (text : JsString) :
    contents (c.addText text).outputs = contents c.outputs ++ text.map .unit ∧ records (c.addText text).outputs = records c.outputs := by
  unfold addText
  split
  · next empty => exact ⟨by rw [empty, List.map_nil, List.append_nil], rfl⟩
  · exact contents_joinText c.outputs text

/-- The record side of a collector. -/
def rich (c : OutputCollector) : Value × ℤ × ℤ × Bool := (c.mime, c.richOutputBytes, c.richOutputLimit, c.richTruncated)

@[simp] theorem outputs_onUpdate (c : OutputCollector) (stream : StreamName) (text : JsString) :
    (c.onUpdate stream text).outputs = c.outputs := by
  unfold onUpdate
  split <;> rfl

@[simp] theorem rich_onUpdate (c : OutputCollector) (stream : StreamName) (text : JsString) :
    (c.onUpdate stream text).rich = c.rich := by
  unfold onUpdate
  split <;> rfl

@[simp] theorem captured_onUpdate (c : OutputCollector) (stream other : StreamName) (text : JsString) :
    (c.onUpdate stream text).captured other = c.captured other := by
  unfold onUpdate
  split <;> rfl

@[simp] theorem maxBytes_onUpdate (c : OutputCollector) (stream : StreamName) (text : JsString) :
    (c.onUpdate stream text).maxBytes = c.maxBytes := by
  unfold onUpdate
  split <;> rfl

@[simp] theorem rich_addText (c : OutputCollector) (text : JsString) : (c.addText text).rich = c.rich := by
  unfold addText
  split <;> rfl

@[simp] theorem captured_addText (c : OutputCollector) (stream : StreamName) (text : JsString) :
    (c.addText text).captured stream = c.captured stream := by
  unfold addText
  split <;> rfl

@[simp] theorem maxBytes_addText (c : OutputCollector) (text : JsString) : (c.addText text).maxBytes = c.maxBytes := by
  unfold addText
  split <;> rfl

@[simp] theorem rich_setCaptured (c : OutputCollector) (stream : StreamName) (key : Captured) :
    (c.setCaptured stream key).rich = c.rich := by
  cases stream <;> rfl

@[simp] theorem outputs_setCaptured (c : OutputCollector) (stream : StreamName) (key : Captured) :
    (c.setCaptured stream key).outputs = c.outputs := by
  cases stream <;> rfl

@[simp] theorem maxBytes_setCaptured (c : OutputCollector) (stream : StreamName) (key : Captured) :
    (c.setCaptured stream key).maxBytes = c.maxBytes := by
  cases stream <;> rfl

theorem captured_setCaptured (c : OutputCollector) (stream other : StreamName) (key : Captured) :
    (c.setCaptured stream key).captured other = if stream = other then key else c.captured other := by
  cases stream <;> cases other <;> rfl

def captures (c : OutputCollector) (stream : StreamName) (chunk : Bytes) : Captured :=
  let cs := decodeChars chunk
  let kept := cut (c.maxBytes - (c.captured stream).bytes) cs
  if (c.captured stream).truncated then { truncated := true }
  else ⟨kept.flatMap utf16, textBytes kept, c.maxBytes - (c.captured stream).bytes < textBytes cs⟩

/-- The text a chunk adds, with the marker where the limit is reached. -/
def addedText (c : OutputCollector) (stream : StreamName) (chunk : Bytes) : JsString :=
  (c.captures stream chunk).text
    ++ if (c.captured stream).truncated = false ∧ (c.captures stream chunk).truncated = true then marker c.maxBytes else []

theorem add_spec (c : OutputCollector) (stream : StreamName) (chunk : Bytes) :
    (∀ other, (c.add stream chunk).captured other = if stream = other then
        ⟨(c.captured stream).text ++ (c.captures stream chunk).text, (c.captured stream).bytes + (c.captures stream chunk).bytes,
          (c.captures stream chunk).truncated⟩
      else c.captured other)
    ∧ contents (c.add stream chunk).outputs = contents c.outputs ++ (c.addedText stream chunk).map .unit
    ∧ records (c.add stream chunk).outputs = records c.outputs
    ∧ (c.add stream chunk).rich = c.rich ∧ (c.add stream chunk).maxBytes = c.maxBytes := by
  have read : Utf8.encode (toText chunk) = (decodeChars chunk).flatMap charBytes := encode_flatMap _
  have retained := take_backUp (decodeChars chunk) (c.maxBytes - (c.captured stream).bytes)
  have back (cs : List Char) : toText (cs.flatMap charBytes) = cs.flatMap utf16 := by rw [toText, decodeChars_charBytes]
  have total (n : ℕ) (other : StreamName) : ({ c with totalBytes := n } : OutputCollector).captured other = c.captured other := by
    cases other <;> rfl
  have length (cs : List Char) : (cs.flatMap charBytes).length = textBytes cs := rfl
  simp only [add, read, total, length, retained, back]
  cases full : (c.captured stream).truncated with
  | true =>
    rw [if_pos rfl, addedText, captures]
    simp only [full, if_true]
    refine ⟨fun other => ?_, by simp, trivial, rfl, trivial⟩
    rw [total, List.append_nil, Nat.add_zero]
    split
    · next same =>
      rw [← same]
      generalize c.captured stream = key at full
      cases key
      cases full
      rfl
    · rfl
  | false =>
    rw [if_neg Bool.false_ne_true, addedText, captures]
    simp only [full, Bool.false_eq_true, if_false, true_and]
    cases reached : decide (c.maxBytes - (c.captured stream).bytes < textBytes (decodeChars chunk)) with
    | true =>
      simp only [if_true]
      refine ⟨fun other => by simp only [captured_onUpdate, captured_addText, captured_setCaptured, total], ?_, ?_, ?_, ?_⟩
      · rw [outputs_onUpdate, (contents_addText _ _).1, (contents_addText _ _).1, outputs_setCaptured, List.append_assoc,
          ← List.map_append]
      · rw [outputs_onUpdate, (contents_addText _ _).2, (contents_addText _ _).2, outputs_setCaptured]
      · rw [rich_onUpdate, rich_addText, rich_addText, rich_setCaptured]
        rfl
      · rw [maxBytes_onUpdate, maxBytes_addText, maxBytes_addText, maxBytes_setCaptured]
    | false =>
      simp only [Bool.false_eq_true, if_false]
      refine ⟨fun other => by simp only [captured_onUpdate, captured_addText, captured_setCaptured, total], ?_, ?_, ?_, ?_⟩
      · rw [outputs_onUpdate, (contents_addText _ _).1, outputs_setCaptured, List.append_nil]
      · rw [outputs_onUpdate, (contents_addText _ _).2, outputs_setCaptured]
      · rw [rich_onUpdate, rich_addText, rich_setCaptured]
        rfl
      · rw [maxBytes_onUpdate, maxBytes_addText, maxBytes_setCaptured]

end OutputCollector

end PersistentHarness.Kernel
