import PersistentHarness.Data.JsonRoundTrip
import PersistentHarness.Data.Text

/-! # Bytes of JSON text

How many UTF-8 bytes the JSON text of a value takes. Brackets, commas and quotes take one byte each, and an escaped text
takes the bytes of its parts wherever no surrogate pair is torn.
-/

namespace PersistentHarness.Json

open JsString (utf8Length utf8Length_ascii utf8Length_append)

/-- `Buffer.byteLength(JSON.stringify(value), "utf8")`. -/
def jsonBytes (value : Value) : ℕ := utf8Length (stringify value)

/-- The bytes of a text between its quotes. -/
def escapedBytes (text : JsString) : ℕ := utf8Length (escapeUnits text)

/-- No surrogate pair reaches from one text into the other. -/
def Apart (text other : JsString) : Prop :=
  ∀ u ∈ text.getLast?, ∀ v ∈ other.head?, ¬((0xD800 ≤ u ∧ u ≤ 0xDBFF) ∧ 0xDC00 ≤ v ∧ v ≤ 0xDFFF)

section Escapes

theorem escapeUnits_append {text other : JsString} (apart : Apart text other) :
    escapeUnits (text ++ other) = escapeUnits text ++ escapeUnits other := by
  induction text using escapeUnits.induct with
  | case1 => rfl
  | case2 u =>
    cases other with
    | nil => rw [List.append_nil, escapeUnits, List.append_nil]
    | cons v rest =>
      rw [List.singleton_append, escapeUnits.eq_3, if_neg (apart u rfl v rfl), escapeUnits.eq_2]
  | case3 u v rest paired ih =>
    rw [List.cons_append, List.cons_append, escapeUnits, escapeUnits, if_pos paired, if_pos paired, ih, List.cons_append,
      List.cons_append]
    intro x last y first
    refine apart x ?_ y first
    cases rest with
    | nil => cases last
    | cons w rest => simpa only [Option.mem_def, List.getLast?_cons_cons] using last
  | case4 u v rest unpaired ih =>
    rw [List.cons_append, List.cons_append, escapeUnits, escapeUnits, if_neg unpaired, if_neg unpaired, ← List.cons_append, ih,
      List.append_assoc]
    intro x last y first
    exact apart x (by simpa only [Option.mem_def, List.getLast?_cons_cons] using last) y first

/-- An escaped text does not begin inside a surrogate pair. -/
theorem head_escapeUnits (text : JsString) : ∀ v ∈ (escapeUnits text).head?, ¬(0xDC00 ≤ v ∧ v ≤ 0xDFFF) := by
  have single : ∀ u : UInt16, ∀ v ∈ (escapeUnit u).head?, ¬(0xDC00 ≤ v ∧ v ≤ 0xDFFF) := by
    intro u v first
    unfold escapeUnit unicodeEscape at first
    split_ifs at first with _ _ _ _ _ _ plain <;> cases first
    any_goals decide
    intro low
    have above : (0xD800 : UInt16) ≤ 0xDC00 := by decide
    exact plain (.inr ⟨UInt16.le_trans above low.1, low.2⟩)
  have nonempty : ∀ u : UInt16, escapeUnit u ≠ [] := by
    intro u
    unfold escapeUnit unicodeEscape
    split_ifs <;> exact List.cons_ne_nil _ _
  cases text with
  | nil => exact nofun
  | cons u rest =>
    cases rest with
    | nil => exact single u
    | cons v rest =>
      rw [escapeUnits]
      split
      · next paired =>
        rintro _ ⟨⟩ low
        have high := paired.1.2
        rw [UInt16.le_iff_toNat_le] at high
        have low := low.1
        rw [UInt16.le_iff_toNat_le] at low
        simp only [UInt16.reduceToNat] at high low
        omega
      · rw [List.head?_append_of_ne_nil _ (nonempty u)]
        exact single u

theorem escapedBytes_append {text other : JsString} (apart : Apart text other) :
    escapedBytes (text ++ other) = escapedBytes text + escapedBytes other := by
  rw [escapedBytes, escapeUnits_append apart, utf8Length_append _ (head_escapeUnits other)]
  rfl

theorem utf8Length_concat_ascii (text : JsString) {u : UInt16} (ascii : u < 0x80) :
    utf8Length (text ++ [u]) = utf8Length text + 1 := by
  rw [utf8Length_append, utf8Length_ascii ascii]
  · rfl
  · rintro _ ⟨⟩ low
    have low := low.1
    rw [UInt16.le_iff_toNat_le] at low
    rw [UInt16.lt_iff_toNat_lt] at ascii
    simp only [UInt16.reduceToNat] at ascii low
    omega

theorem utf8Length_append_ascii (text rest : JsString) {u : UInt16} (ascii : u < 0x80) :
    utf8Length (text ++ u :: rest) = utf8Length text + 1 + utf8Length rest := by
  rw [utf8Length_append, utf8Length_ascii ascii]
  · omega
  · rintro _ ⟨⟩ low
    have low := low.1
    rw [UInt16.le_iff_toNat_le] at low
    rw [UInt16.lt_iff_toNat_lt] at ascii
    simp only [UInt16.reduceToNat] at ascii low
    omega

theorem utf8Length_quote (text : JsString) : utf8Length (quote text) = escapedBytes text + 2 := by
  rw [quote, utf8Length_ascii (by decide), utf8Length_concat_ascii _ (by decide), escapedBytes]
  omega

end Escapes

section Lists

theorem utf8Length_following (texts : List JsString) :
    utf8Length (following texts) = (texts.map utf8Length).sum + texts.length := by
  induction texts with
  | nil => rfl
  | cons text texts ih =>
    have split : following (text :: texts) = unit ',' :: (text ++ following texts) := rfl
    rw [split, utf8Length_ascii (by decide), List.map_cons, List.sum_cons, List.length_cons]
    cases texts with
    | nil =>
      rw [show following ([] : List JsString) = [] from rfl, List.append_nil]
      simp only [List.map_nil, List.sum_nil, List.length_nil]
      omega
    | cons next texts =>
      have head : ∀ v ∈ (following (next :: texts)).head?, ¬(0xDC00 ≤ v ∧ v ≤ 0xDFFF) := by
        rintro _ ⟨⟩
        decide
      rw [utf8Length_append _ head, ih]
      simp only [List.length_cons]
      omega

theorem utf8Length_intercalate (texts : List JsString) :
    utf8Length (List.intercalate [unit ','] texts) = (texts.map utf8Length).sum + (texts.length - 1) := by
  cases texts with
  | nil => rfl
  | cons first texts =>
    have head : ∀ v ∈ (following texts).head?, ¬(0xDC00 ≤ v ∧ v ≤ 0xDFFF) := by
      cases texts with
      | nil => exact nofun
      | cons next texts =>
        rintro _ ⟨⟩
        decide
    rw [intercalate_comma, utf8Length_append _ head, utf8Length_following, List.map_cons, List.sum_cons, List.length_cons]
    omega

end Lists

section Values

theorem stringify_obj (fields : List (JsString × Value)) : stringify (.obj fields) =
    unit '\x7b' :: (List.intercalate [unit ','] (stringifyMembers fields) ++ [unit '\x7d']) := rfl

theorem stringify_arr (items : List Value) : stringify (.arr items) =
    unit '[' :: (List.intercalate [unit ','] (stringifyItems items) ++ [unit ']']) := rfl

theorem jsonBytes_obj (fields : List (JsString × Value)) : jsonBytes (.obj fields) =
    ((stringifyMembers fields).map utf8Length).sum + ((stringifyMembers fields).length - 1) + 2 := by
  rw [jsonBytes, stringify_obj, utf8Length_ascii (by decide), utf8Length_concat_ascii _ (by decide), utf8Length_intercalate]
  omega

/-- The bytes of a value between the commas of an array. -/
def elementBytes (item : Value) : ℕ := utf8Length ((stringify? item).getD (js "null"))

theorem stringifyItems_eq_map (items : List Value) :
    stringifyItems items = items.map fun item => (stringify? item).getD (js "null") := by
  induction items with
  | nil => rfl
  | cons item items ih => rw [stringifyItems, ih, List.map_cons]

theorem jsonBytes_items (items : List Value) :
    jsonBytes (.arr items) = (items.map elementBytes).sum + (items.length - 1) + 2 := by
  rw [jsonBytes, stringify_arr, utf8Length_ascii (by decide), utf8Length_concat_ascii _ (by decide), utf8Length_intercalate,
    stringifyItems_eq_map, List.map_map, List.length_map, Nat.add_comm 1]
  rfl

/-- What an array loses with its first elements. -/
theorem jsonBytes_items_append {before items : List Value} (some_ : before ≠ []) (left_ : items ≠ []) :
    jsonBytes (.arr (before ++ items)) + 1 = jsonBytes (.arr before) + jsonBytes (.arr items) := by
  have first := List.length_pos_iff.mpr some_
  have second := List.length_pos_iff.mpr left_
  rw [jsonBytes_items, jsonBytes_items, jsonBytes_items, List.map_append, List.sum_append, List.length_append]
  omega

theorem jsonBytes_arr (items : List (List (JsString × Value))) : jsonBytes (.arr (items.map .obj)) =
    (items.map fun fields => jsonBytes (.obj fields)).sum + (items.length - 1) + 2 := by
  have texts : stringifyItems (items.map .obj) = items.map fun fields => stringify (.obj fields) := by
    induction items with
    | nil => rfl
    | cons fields items ih => rw [List.map_cons, stringifyItems, ih]; rfl
  rw [jsonBytes, stringify_arr, utf8Length_ascii (by decide), utf8Length_concat_ascii _ (by decide), utf8Length_intercalate, texts,
    List.map_map, List.length_map, Nat.add_comm 1]
  rfl

theorem jsonBytes_arr_cons (fields : List (JsString × Value)) (items : List (List (JsString × Value))) :
    jsonBytes (.arr (.obj fields :: items.map .obj)) =
      jsonBytes (.obj fields) + (if items.length ≠ 0 then 1 else 0) + jsonBytes (.arr (items.map .obj)) := by
  have all := jsonBytes_arr (fields :: items)
  rw [List.map_cons, List.map_cons, List.sum_cons, List.length_cons] at all
  rw [all, jsonBytes_arr]
  split <;> omega

theorem exists_jsonBytes_set (fields : List (JsString × Value)) (key : JsString) :
    ∃ rest, ∀ text, jsonBytes (.obj (Assoc.set fields key (.str text))) = rest + escapedBytes text := by
  have members : ∃ before after, ∀ text, stringifyMembers (Assoc.set fields key (.str text)) =
      before ++ (quote key ++ unit ':' :: quote text) :: after := by
    induction fields with
    | nil => exact ⟨[], [], fun text => rfl⟩
    | cons field fields ih =>
      obtain ⟨name, value⟩ := field
      by_cases same : name = key
      · subst same
        exact ⟨[], stringifyMembers fields, fun text => by rw [Assoc.set, if_pos rfl]; rfl⟩
      · obtain ⟨before, after, shown⟩ := ih
        have step : ∀ text, stringifyMembers (Assoc.set ((name, value) :: fields) key (.str text)) =
            stringifyMembers ((name, value) :: Assoc.set fields key (.str text)) := by
          intro text
          rw [Assoc.set, if_neg same]
        cases written : stringify? value with
        | none => exact ⟨before, after, fun text => by rw [step, stringifyMembers, written]; exact shown text⟩
        | some own =>
          refine ⟨(quote name ++ unit ':' :: own) :: before, after, fun text => ?_⟩
          rw [step, stringifyMembers, written]
          simp only [shown text, List.cons_append]
  obtain ⟨before, after, shown⟩ := members
  refine ⟨(before.map utf8Length).sum + (after.map utf8Length).sum + utf8Length (quote key) + 1 + 2
    + (before.length + after.length) + 2, fun text => ?_⟩
  rw [jsonBytes_obj, shown text]
  simp only [List.map_append, List.map_cons, List.sum_append, List.sum_cons, List.length_append, List.length_cons]
  rw [utf8Length_append_ascii _ _ (by decide), utf8Length_quote text]
  omega

end Values

end PersistentHarness.Json
