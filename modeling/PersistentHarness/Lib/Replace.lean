import Mathlib.Data.List.Basic
import Mathlib.Tactic.Common

/-! # Replacing parts of a text

A text is split at the occurrences of another one, from left to right and without overlaps. Under a code whose words tell where
they begin, splitting the coded text is splitting the text.
-/

namespace PersistentHarness.Replace

variable {α β : Type*} [DecidableEq α] [DecidableEq β]

/-- The parts of a text; `skip` counts the items of an occurrence that are still to be passed over. -/
def partsFrom (separator : List α) : ℕ → List α → List (List α)
  | _, [] => [[]]
  | skip + 1, _ :: rest => partsFrom separator skip rest
  | 0, a :: rest =>
    if separator <+: a :: rest then [] :: partsFrom separator (separator.length - 1) rest
    else (partsFrom separator 0 rest).modifyHead (a :: ·)

/-- `text.split(separator)`, for a separator that is not empty. -/
def split (separator text : List α) : List (List α) := partsFrom separator 0 text

/-- `text.split(separator).join(other)`. -/
def replaced (separator other text : List α) : List α := other.intercalate (split separator text)

/-- How often a text occurs in another one. -/
def occurrences (separator text : List α) : ℕ := (split separator text).length - 1

section Splitting

variable (separator : List α)

theorem partsFrom_skip (skip : ℕ) (text : List α) : partsFrom separator skip text = split separator (text.drop skip) := by
  induction text generalizing skip with
  | nil => cases skip <;> rfl
  | cons a rest ih =>
    cases skip with
    | zero => rfl
    | succ skip => exact ih skip

theorem split_occurrence {a : α} {rest : List α} (here : separator <+: a :: rest) (nonempty : separator ≠ []) :
    split separator (a :: rest) = [] :: split separator ((a :: rest).drop separator.length) := by
  obtain ⟨head, tail, rfl⟩ := List.exists_cons_of_ne_nil nonempty
  rw [split, partsFrom, if_pos here, partsFrom_skip]
  rfl

theorem split_other {a : α} {rest : List α} (absent : ¬separator <+: a :: rest) :
    split separator (a :: rest) = (split separator rest).modifyHead (a :: ·) := by
  rw [split, partsFrom, if_neg absent]
  rfl

/-- Items at which no occurrence begins belong to the first part. -/
theorem split_append {text : List α} (inner : List α)
    (absent : ∀ front back, inner = front ++ back → back ≠ [] → ¬separator <+: back ++ text) :
    split separator (inner ++ text) = (split separator text).modifyHead (inner ++ ·) := by
  induction inner with
  | nil =>
    rw [List.nil_append]
    cases split separator text with
    | nil => rfl
    | cons part parts => rfl
  | cons a inner ih =>
    have here : ¬separator <+: a :: (inner ++ text) := absent [] (a :: inner) rfl (List.cons_ne_nil a inner)
    have later := ih fun front back spelled => absent (a :: front) back (congrArg (a :: ·) spelled)
    rw [List.cons_append, split_other separator here, later, List.modifyHead_modifyHead]
    rfl

end Splitting

/-- A code whose words begin with an item that nothing else begins or goes on with, and can be told apart. -/
structure Code (word : α → List β) (starts : β → Bool) : Prop where
  shape : ∀ a, ∃ first rest, word a = first :: rest ∧ starts first = true ∧ ∀ b ∈ rest, starts b = false
  apart : ∀ {a b : α} {x y : List β}, word a ++ x = word b ++ y → a = b

namespace Code

variable {word : α → List β} {starts : β → Bool} (code : Code word starts)
include code

omit [DecidableEq α] [DecidableEq β] in
theorem prefix_iff (old text : List α) : old.flatMap word <+: text.flatMap word ↔ old <+: text := by
  constructor
  · intro begins
    induction old generalizing text with
    | nil => exact List.nil_prefix
    | cons o old ih =>
      obtain ⟨first, rest, spelled, _⟩ := code.shape o
      obtain ⟨tail, same⟩ := begins
      rw [List.flatMap_cons, List.append_assoc] at same
      cases text with
      | nil =>
        rw [spelled] at same
        cases same
      | cons t text =>
        rw [List.flatMap_cons] at same
        obtain rfl := code.apart same
        rw [List.prefix_cons_inj]
        exact ih text ⟨tail, List.append_cancel_left same⟩
  · rintro ⟨tail, rfl⟩
    rw [List.flatMap_append]
    exact List.prefix_append _ _

/-- Splitting what is coded is coding the parts. -/
theorem split_flatMap {old : List α} (nonempty : old ≠ []) (text : List α) :
    split (old.flatMap word) (text.flatMap word) = (split old text).map (·.flatMap word) := by
  obtain ⟨o, others, rfl⟩ := List.exists_cons_of_ne_nil nonempty
  obtain ⟨first, rest, spelled, begins, _⟩ := code.shape o
  have coded : (o :: others).flatMap word = first :: (rest ++ others.flatMap word) := by
    rw [List.flatMap_cons, spelled, List.cons_append]
  induction length : text.length using Nat.strongRecOn generalizing text with
  | ind n ih =>
    cases text with
    | nil => rfl
    | cons a text =>
      obtain ⟨head, inner, shape, headStarts, innerStarts⟩ := code.shape a
      by_cases here : (o :: others) <+: a :: text
      · have codedHere := (code.prefix_iff (o :: others) (a :: text)).mpr here
        have shorter : ((a :: text).drop (o :: others).length).length < n := by
          rw [← length, List.length_drop, List.length_cons, List.length_cons]
          omega
        obtain ⟨tail, whole⟩ := here
        have dropped : ((a :: text).flatMap word).drop ((o :: others).flatMap word).length
            = ((a :: text).drop (o :: others).length).flatMap word := by
          rw [← whole, List.drop_left, List.flatMap_append, List.drop_left]
        have spelledText : (a :: text).flatMap word = head :: (inner ++ text.flatMap word) := by
          rw [List.flatMap_cons, shape, List.cons_append]
        rw [split_occurrence _ ⟨tail, whole⟩ nonempty, List.map_cons, ← ih _ shorter _ rfl, ← dropped]
        rw [spelledText] at codedHere ⊢
        exact split_occurrence _ codedHere (by rw [coded]; exact List.cons_ne_nil _ _)
      · have codedAbsent : ¬(o :: others).flatMap word <+: word a ++ text.flatMap word := by
          rw [← List.flatMap_cons, code.prefix_iff]
          exact here
        have shorter : text.length < n := by
          rw [← length]
          exact Nat.lt_succ_self _
        have spelledText : (a :: text).flatMap word = word a ++ text.flatMap word := List.flatMap_cons
        rw [spelledText, split_append _ (word a), split_other _ here, ih text.length shorter text rfl]
        · cases split (o :: others) text with
          | nil => rfl
          | cons part parts =>
            rw [List.map_cons, List.modifyHead_cons, List.modifyHead_cons, List.map_cons, List.flatMap_cons]
        · intro front back spelledWord some
          cases front with
          | nil =>
            rw [List.nil_append] at spelledWord
            rw [← spelledWord]
            exact codedAbsent
          | cons f front =>
            obtain ⟨b, back, rfl⟩ := List.exists_cons_of_ne_nil some
            rw [shape, List.cons_append] at spelledWord
            have member : b ∈ inner := by
              rw [(List.cons.inj spelledWord).2]
              exact List.mem_append_right front (List.mem_cons_self ..)
            rintro ⟨tail, same⟩
            rw [coded] at same
            have firstSame : first = b := (List.cons.inj same).1
            rw [← firstSame] at member
            rw [innerStarts first member] at begins
            cases begins

theorem occurrences_flatMap {old : List α} (nonempty : old ≠ []) (text : List α) :
    occurrences (old.flatMap word) (text.flatMap word) = occurrences old text := by
  rw [occurrences, code.split_flatMap nonempty, List.length_map, occurrences]

theorem replaced_flatMap {old : List α} (nonempty : old ≠ []) (new text : List α) :
    replaced (old.flatMap word) (new.flatMap word) (text.flatMap word) = (replaced old new text).flatMap word := by
  unfold replaced
  rw [code.split_flatMap nonempty]
  induction split old text with
  | nil => rfl
  | cons part parts ih =>
    cases parts with
    | nil => rw [List.map_singleton, List.intercalate_singleton, List.intercalate_singleton]
    | cons next_ parts =>
      rw [List.map_cons, List.map_cons, List.intercalate_cons_cons, List.intercalate_cons_cons, List.flatMap_append,
        List.flatMap_append, ← ih, List.map_cons]

end Code

end PersistentHarness.Replace
