import PersistentHarness.Data.JsonRoundTrip
import PersistentHarness.Data.Utf8

/-! # The characters of JSON text

`stringify` escapes control characters and lone surrogates, so its text is printable. It starts with an ASCII
character.
-/

namespace PersistentHarness.Json

open Utf8 (Printable)

/-- A printable ASCII character. -/
def IsAscii (u : UInt16) : Prop := 0x20 ≤ u ∧ u < 0x80

instance (u : UInt16) : Decidable (IsAscii u) := inferInstanceAs (Decidable (_ ∧ _))

theorem printable_of_ascii {s : JsString} (ascii : ∀ u ∈ s, IsAscii u) : Printable s := by
  refine .of_units fun u member => ⟨(ascii u member).1, ?_⟩
  have small := (ascii u member).2
  simp only [UInt16.lt_iff_toNat_lt, UInt16.reduceToNat] at small ⊢
  omega

theorem ascii_of_all {s : JsString} (all : s.all (fun u => IsAscii u) = true) : ∀ u ∈ s, IsAscii u :=
  fun u member => of_decide_eq_true (List.all_eq_true.mp all u member)

theorem printable_of_all {s : JsString} (all : s.all (fun u => IsAscii u) = true) : Printable s :=
  printable_of_ascii (ascii_of_all all)

theorem ascii_of_digit {u : UInt16} (digit : isDigit u = true) : IsAscii u := by
  have lower : (unit '0').toNat = 48 := rfl
  have upper : (unit '9').toNat = 57 := rfl
  simp only [isDigit, Bool.and_eq_true, decide_eq_true_eq, UInt16.le_iff_toNat_le, lower, upper] at digit
  simp only [IsAscii, UInt16.le_iff_toNat_le, UInt16.lt_iff_toNat_lt, UInt16.reduceToNat]
  omega

section Tokens

theorem printable_decimal (n : ℕ) : Printable (decimal n) :=
  printable_of_ascii fun u member => ascii_of_digit (decimal_digits n u member)

private theorem ascii_hexUnit : ∀ n, n < 16 → IsAscii (hexUnit n) := by decide

theorem printable_escapeUnit (u : UInt16) : Printable (escapeUnit u) := by
  have pair : ∀ v, IsAscii v → Printable [unit '\\', v] := fun v ascii =>
    printable_of_ascii fun w member => by
      rcases List.mem_cons.mp member with rfl | member
      · decide
      · rwa [List.mem_singleton.mp member]
  unfold escapeUnit
  split
  · next quoted => rcases quoted with rfl | rfl <;> exact pair _ (by decide)
  · repeat' split
    all_goals first
      | exact pair _ (by decide)
      | skip
    · refine printable_of_ascii fun v member => ?_
      simp only [unicodeEscape, List.mem_cons, List.not_mem_nil, or_false] at member
      rcases member with rfl | rfl | rfl | rfl | rfl | rfl
      · decide
      · decide
      all_goals exact ascii_hexUnit _ (Nat.mod_lt _ (by decide))
    · next plain =>
      rw [not_or] at plain
      exact .unit (UInt16.not_lt.mp plain.1) plain.2 .nil

theorem printable_escapeUnits (s : JsString) : Printable (escapeUnits s) := by
  induction s using escapeUnits.induct with
  | case1 => exact .nil
  | case2 u =>
    rw [escapeUnits]
    exact printable_escapeUnit u
  | case3 u v rest pair ih =>
    rw [escapeUnits, if_pos pair]
    exact .pair (by simpa [isHighSurrogate] using pair.1) (by simpa [isLowSurrogate] using pair.2) ih
  | case4 u v rest single ih =>
    rw [escapeUnits, if_neg single]
    exact (printable_escapeUnit u).append ih

theorem printable_quote (s : JsString) : Printable (quote s) :=
  .append (printable_of_all (s := [unit '"']) (by decide))
    ((printable_escapeUnits s).append (printable_of_all (s := [unit '"']) (by decide)))

theorem ascii_magnitudeText (digits : ℕ) (exponent : ℤ) : ∀ u ∈ magnitudeText digits exponent, IsAscii u := by
  have number : ∀ n, ∀ u ∈ decimal n, IsAscii u := fun n u member => ascii_of_digit (decimal_digits n u member)
  have zeros : ∀ n, ∀ u ∈ List.replicate n (unit '0'), IsAscii u := by
    intro n u member
    rw [List.eq_of_mem_replicate member]
    decide
  have cons : ∀ {u : UInt16} {s : JsString}, IsAscii u → (∀ v ∈ s, IsAscii v) → ∀ v ∈ u :: s, IsAscii v :=
    fun first rest => List.forall_mem_cons.mpr ⟨first, rest⟩
  have append : ∀ {s t : JsString}, (∀ v ∈ s, IsAscii v) → (∀ v ∈ t, IsAscii v) → ∀ v ∈ s ++ t, IsAscii v :=
    fun first rest => List.forall_mem_append.mpr ⟨first, rest⟩
  unfold magnitudeText
  dsimp only
  split
  · exact append (number _) (zeros _)
  · split
    · exact append (fun u member => number _ u (List.mem_of_mem_take member))
        (cons (by decide) fun u member => number _ u (List.mem_of_mem_drop member))
    · split
      · exact cons (by decide) (cons (by decide) (append (zeros _) (number _)))
      · have sign : IsAscii (if (decimal digits).length + exponent - 1 < 0 then unit '-' else unit '+') := by
          split <;> decide
        have shown := number digits
        split
        · simp
        · next d text =>
          rw [text] at shown
          exact cons (shown d (by simp)) (cons (by decide) (cons sign (number _)))
        · next d rest _ text =>
          rw [text] at shown
          exact cons (shown d (by simp)) (cons (by decide)
            (append (fun u member => shown u (by simp [member])) (cons (by decide) (cons sign (number _)))))

theorem ascii_numberText (n : JsNumber) : ∀ u ∈ numberText n, IsAscii u := by
  unfold numberText
  split
  · exact ascii_of_all (by decide)
  · split
    · exact List.forall_mem_cons.mpr ⟨by decide, ascii_magnitudeText _ _⟩
    · exact ascii_magnitudeText _ _

end Tokens

section Texts

theorem printable_intercalate {texts : List JsString} (printable : ∀ text ∈ texts, Printable text) :
    Printable (List.intercalate [unit ','] texts) := by
  cases texts with
  | nil => exact .nil
  | cons first texts =>
    rw [intercalate_comma]
    refine (printable first (by simp)).append ?_
    have later : ∀ text ∈ texts, Printable text := fun text member => printable text (by simp [member])
    clear printable
    induction texts with
    | nil => exact .nil
    | cons text texts ih =>
      rw [following, List.flatMap_cons]
      have comma : Printable [unit ','] := printable_of_all (by decide)
      exact (comma.append (later text (by simp))).append (ih fun text member => later text (by simp [member]))

theorem printable_enclosed {opening closing : UInt16} (ascii : IsAscii opening ∧ IsAscii closing) {texts : List JsString}
    (printable : ∀ text ∈ texts, Printable text) :
    Printable (opening :: (List.intercalate [unit ','] texts ++ [closing])) := by
  have single : ∀ u, IsAscii u → Printable [u] := fun u ascii => printable_of_ascii (by simpa using ascii)
  exact (single _ ascii.1).append ((printable_intercalate printable).append (single _ ascii.2))

mutual

theorem printable_stringify : ∀ (v : Value) (text : JsString), stringify? v = some text → Printable text
  | .undefined, _, shown => by cases shown
  | .null, _, shown | .bool true, _, shown | .bool false, _, shown => by
    cases shown
    exact printable_of_all (by decide)
  | .num n, _, shown => by
    cases shown
    exact printable_of_ascii (ascii_numberText n)
  | .str s, _, shown => by
    cases shown
    exact printable_quote s
  | .arr items, _, shown => by
    cases shown
    exact printable_enclosed (by decide) (printable_stringifyItems items)
  | .obj fields, _, shown => by
    cases shown
    exact printable_enclosed (by decide) (printable_stringifyMembers fields)

theorem printable_stringifyItems : ∀ items : List Value, ∀ text ∈ stringifyItems items, Printable text
  | [], _, member => by cases member
  | v :: rest, text, member => by
    rw [stringifyItems] at member
    rcases List.mem_cons.mp member with rfl | member
    · cases shown : stringify? v with
      | none => exact printable_of_all (by decide)
      | some text => exact printable_stringify v text shown
    · exact printable_stringifyItems rest text member

theorem printable_stringifyMembers : ∀ fields : List (JsString × Value), ∀ text ∈ stringifyMembers fields, Printable text
  | [], _, member => by cases member
  | (k, v) :: rest, text, member => by
    rw [stringifyMembers] at member
    cases shown : stringify? v with
    | none =>
      rw [shown] at member
      exact printable_stringifyMembers rest text member
    | some shownText =>
      rw [shown] at member
      rcases List.mem_cons.mp member with rfl | member
      · have colon : Printable [unit ':'] := printable_of_all (by decide)
        exact (printable_quote k).append (colon.append (printable_stringify v shownText shown))
      · exact printable_stringifyMembers rest text member

end

/-- JSON text starts with an ASCII character. -/
theorem ascii_head {v : Value} {text : JsString} (shown : stringify? v = some text) :
    ∃ u rest, text = u :: rest ∧ u < 0x80 := by
  cases v with
  | undefined => cases shown
  | null => exact ⟨unit 'n', js "ull", by cases shown; rfl, by decide⟩
  | bool b =>
    cases b with
    | false => exact ⟨unit 'f', js "alse", by cases shown; rfl, by decide⟩
    | true => exact ⟨unit 't', js "rue", by cases shown; rfl, by decide⟩
  | num n =>
    obtain ⟨u, rest, same, _⟩ := exists_stringify (v := .num n) (by rintro ⟨⟩)
    rw [same, Option.some.injEq] at shown
    rw [stringify?, Option.some.injEq] at same
    exact ⟨u, rest, shown.symm, (ascii_numberText n u (by rw [same]; exact List.mem_cons_self ..)).2⟩
  | str s =>
    cases shown
    exact ⟨unit '"', _, rfl, by decide⟩
  | arr items =>
    cases shown
    exact ⟨unit '[', _, rfl, by decide⟩
  | obj fields =>
    cases shown
    exact ⟨unit '\x7b', _, rfl, by decide⟩

end Texts

end PersistentHarness.Json
