import PersistentHarness.Data.JsonText
import PersistentHarness.Data.Digest

/-! # What a value digest tells apart

Every value is delimited in the text that is hashed: a quoted string ends at its closing quote, a number and the length
of an array at the mark after them, and the members of an object at the first mark that is no quote.
-/

namespace PersistentHarness.PlainData

open Json (unit)

variable {spelling : Spelling}

theorem induct {motive : PlainData → Prop} (undefined : motive .undefined) (null : motive .null) (bool : ∀ b, motive (.bool b))
    (num : ∀ n, motive (.num n)) (str : ∀ s, motive (.str s))
    (arr : ∀ items, (∀ v, some v ∈ items → motive v) → motive (.arr items))
    (obj : ∀ fields, (∀ field ∈ fields, motive field.2) → motive (.obj fields)) (a : PlainData) : motive a := by
  refine @PlainData.rec motive (fun items => ∀ v, some v ∈ items → motive v) (fun fields => ∀ field ∈ fields, motive field.2)
    (fun item => ∀ v, item = some v → motive v) (fun field => motive field.2) undefined null bool num str arr obj
    ?_ ?_ ?_ ?_ ?_ ?_ ?_ a
  · exact fun v member => absurd member List.not_mem_nil
  · intro item rest own later v member
    rcases List.mem_cons.mp member with here | member
    · exact own v here.symm
    · exact later v member
  · exact List.forall_mem_nil _
  · intro field rest own later
    exact List.forall_mem_cons.mpr ⟨own, later⟩
  · exact fun v none_ => absurd none_.symm (Option.some_ne_none v)
  · intro v own w here
    exact Option.some.inj here ▸ own
  · exact fun _ _ own => own

section Tokens

theorem quote_inj {s t rest more : JsString} (same : Json.quote s ++ rest = Json.quote t ++ more) : s = t ∧ rest = more := by
  simp only [Json.quote, List.cons_append, List.append_assoc, List.cons.injEq, true_and, List.nil_append] at same
  have read := congrArg Json.parseString same
  rw [Json.parseString_escapeUnits, Json.parseString_escapeUnits] at read
  exact Prod.mk.inj (Option.some.inj read)

theorem ends_mark (rest : JsString) : Json.Ends (unit ';' :: rest) := by
  rintro u ⟨⟩
  decide

/-- A number reads back from its text, with the sign of zero. -/
theorem parseNumber_numText (n : JsNumber) (rest : JsString) :
    Json.parseNumber (numText n ++ unit ';' :: rest) = some (n, unit ';' :: rest) := by
  unfold numText
  split
  · next zero =>
    obtain ⟨negative, digits, exponent, normal⟩ := n
    obtain ⟨rfl, rfl⟩ := zero
    obtain ⟨-, rfl⟩ | nonzero := normal
    · rfl
    · exact absurd rfl nonzero
  · next signed =>
    rw [Json.parseNumber_text n (ends_mark rest), Json.unsigned]
    split
    · next zero =>
      obtain ⟨negative, digits, exponent, normal⟩ := n
      obtain rfl : digits = 0 := zero
      cases negative with
      | true => exact absurd ⟨rfl, rfl⟩ signed
      | false =>
        obtain ⟨-, rfl⟩ | nonzero := normal
        · rfl
        · exact absurd rfl nonzero
    · rfl

theorem numText_inj {n m : JsNumber} {rest more : JsString} (same : numText n ++ unit ';' :: rest = numText m ++ unit ';' :: more) :
    n = m ∧ rest = more := by
  have read := congrArg Json.parseNumber same
  rw [parseNumber_numText, parseNumber_numText] at read
  obtain ⟨number, tail⟩ := Prod.mk.inj (Option.some.inj read)
  exact ⟨number, (List.cons.inj tail).2⟩

theorem decimal_inj {n m : ℕ} {rest more : JsString} (same : Json.decimal n ++ unit ':' :: rest = Json.decimal m ++ unit ':' :: more) :
    n = m ∧ rest = more := by
  have ends : ∀ tail : JsString, ∀ u ∈ (unit ':' :: tail).head?, Json.isDigit u = false := by
    rintro tail u ⟨⟩
    decide
  have read := congrArg (List.span Json.isDigit) same
  rw [Json.span_digits (Json.decimal_digits n) (ends rest), Json.span_digits (Json.decimal_digits m) (ends more)] at read
  obtain ⟨digits, tail⟩ := Prod.mk.inj read
  have value := congrArg Json.digitsValue digits
  rw [Json.digitsValue_decimal, Json.digitsValue_decimal] at value
  exact ⟨value, (List.cons.inj tail).2⟩

end Tokens

section Members

/-- Whatever text begins with that of the value begins with that of an equal one. -/
def Delimited (spelling : Spelling) (a : PlainData) : Prop :=
  ∀ (b : PlainData) (rest more : JsString), a.stream spelling ++ rest = b.stream spelling ++ more → a.equal b ∧ rest = more

theorem Delimited.stream {a : PlainData} (delimited : a.Delimited spelling) {b : PlainData} {rest more : JsString}
    (same : a.stream spelling ++ rest = b.stream spelling ++ more) : a.stream spelling = b.stream spelling := by
  rw [(delimited b rest more same).2] at same
  exact List.append_cancel_right same

/-- Members in one order have one text only if they are the same. -/
theorem streamMembers_inj {members others : List (JsString × JsString)} {rest more : JsString}
    (values : ∀ entry ∈ members, ∃ v : PlainData, v.Delimited spelling ∧ entry.2 = v.stream spelling)
    (valuesToo : ∀ entry ∈ others, ∃ v : PlainData, entry.2 = v.stream spelling)
    (same : streamMembers members ++ unit ';' :: rest = streamMembers others ++ unit ';' :: more) :
    members = others ∧ rest = more := by
  induction members generalizing others with
  | nil =>
    cases others with
    | nil => exact ⟨rfl, (List.cons.inj same).2⟩
    | cons other others => cases (List.cons.inj same).1
  | cons entry members ih =>
    cases others with
    | nil => cases (List.cons.inj same).1
    | cons other others =>
      obtain ⟨k, text⟩ := entry
      obtain ⟨l, other⟩ := other
      obtain ⟨v, delimited, rfl⟩ := values _ (List.mem_cons_self ..)
      obtain ⟨w, rfl⟩ := valuesToo _ (List.mem_cons_self ..)
      simp only [streamMembers, List.append_assoc] at same
      obtain ⟨rfl, tail⟩ := quote_inj same
      have value := List.append_cancel_left tail
      obtain ⟨-, later⟩ := delimited w _ _ value
      obtain ⟨rfl, rfl⟩ := ih (fun entry member => values entry (List.mem_cons_of_mem _ member))
        (fun entry member => valuesToo entry (List.mem_cons_of_mem _ member)) later
      rw [delimited.stream value]
      exact ⟨rfl, rfl⟩

theorem lookup_sortMembers (members : List (JsString × JsString)) (k : JsString) :
    Assoc.lookup (sortMembers members) k = Assoc.lookup members k := by
  induction members with
  | nil => rfl
  | cons entry rest ih =>
    obtain ⟨l, text⟩ := entry
    rw [sortMembers, Assoc.lookup_insertSorted, Assoc.lookup_cons, ih]

theorem sortMembers_sorted (members : List (JsString × JsString)) : Assoc.Sorted Value.keyLt (sortMembers members) := by
  induction members with
  | nil => exact List.Pairwise.nil
  | cons entry rest ih => exact ih.insertSorted _ _

theorem mem_sortMembers {members : List (JsString × JsString)} {entry : JsString × JsString}
    (member : entry ∈ sortMembers members) : entry ∈ members := by
  induction members with
  | nil => exact member
  | cons head rest ih =>
    rcases Assoc.mem_insertSorted member with rfl | later
    · exact List.mem_cons_self ..
    · exact List.mem_cons_of_mem _ (ih later)

/-- Sorted members are the same when they bind every key to one text. -/
theorem sortMembers_eq_iff {members others : List (JsString × JsString)} :
    sortMembers members = sortMembers others ↔ ∀ k, Assoc.lookup members k = Assoc.lookup others k := by
  constructor
  · intro same k
    rw [← lookup_sortMembers, same, lookup_sortMembers]
  · intro same
    apply Assoc.Sorted.ext (sortMembers_sorted members) (sortMembers_sorted others)
    intro k
    rw [lookup_sortMembers, lookup_sortMembers, same]

end Members

section Children

theorem mem_streamItems {items : List (Option PlainData)} {from_ : ℕ} {entry : JsString × JsString}
    (member : entry ∈ streamItems spelling from_ items) : ∃ v, some v ∈ items ∧ entry.2 = v.stream spelling := by
  induction items generalizing from_ with
  | nil => cases member
  | cons item rest ih =>
    have later : entry ∈ streamItems spelling (from_ + 1) rest → ∃ v, some v ∈ item :: rest ∧ entry.2 = v.stream spelling := by
      intro member
      obtain ⟨v, listed, text⟩ := ih member
      exact ⟨v, List.mem_cons_of_mem _ listed, text⟩
    cases item with
    | none => exact later member
    | some v =>
      rcases List.mem_cons.mp member with rfl | member
      · exact ⟨v, List.mem_cons_self .., rfl⟩
      · exact later member

theorem decimal_injective {n m : ℕ} (same : Json.decimal n = Json.decimal m) : n = m :=
  (decimal_inj (congrArg (· ++ unit ':' :: []) same)).1

theorem lookup_streamItems_before (items : List (Option PlainData)) {from_ j : ℕ} (before : j < from_) :
    Assoc.lookup (streamItems spelling from_ items) (Json.decimal j) = none := by
  induction items generalizing from_ with
  | nil => rfl
  | cons item rest ih =>
    cases item with
    | none => exact ih (Nat.lt_succ_of_lt before)
    | some v =>
      have other : Json.decimal from_ ≠ Json.decimal j := fun same => Nat.ne_of_gt before (decimal_injective same)
      rw [streamItems, streamItem, Assoc.lookup_cons, if_neg other]
      exact ih (Nat.lt_succ_of_lt before)

/-- The key of a place names what is there, and no hole. -/
theorem lookup_streamItems (items : List (Option PlainData)) (from_ j : ℕ) :
    Assoc.lookup (streamItems spelling from_ items) (Json.decimal (from_ + j)) = items[j]?.join.map (stream spelling) := by
  induction items generalizing from_ j with
  | nil => rfl
  | cons item rest ih =>
    cases j with
    | zero =>
      cases item with
      | none => exact lookup_streamItems_before rest (Nat.lt_succ_self from_)
      | some v =>
        rw [streamItems, streamItem, Assoc.lookup_cons]
        exact if_pos rfl
    | succ j =>
      have later := ih (from_ + 1) j
      rw [Nat.succ_add_eq_add_succ] at later
      rw [List.getElem?_cons_succ, ← later]
      cases item with
      | none => rfl
      | some v =>
        have other : Json.decimal from_ ≠ Json.decimal (from_ + (j + 1)) := by
          intro same
          have := decimal_injective same
          omega
        rw [streamItems, streamItem, Assoc.lookup_cons, if_neg other]

theorem lookup_streamFields (fields : List (JsString × PlainData)) (k : JsString) :
    Assoc.lookup (streamFields spelling fields) k = (Assoc.lookup fields k).map (stream spelling) := by
  induction fields with
  | nil => rfl
  | cons entry rest ih =>
    obtain ⟨l, v⟩ := entry
    rw [streamFields, Assoc.lookup_cons, Assoc.lookup_cons, ih]
    split <;> rfl

theorem mem_streamFields {fields : List (JsString × PlainData)} {entry : JsString × JsString}
    (member : entry ∈ streamFields spelling fields) : ∃ field ∈ fields, entry.2 = field.2.stream spelling := by
  induction fields with
  | nil => cases member
  | cons field rest ih =>
    rcases List.mem_cons.mp member with rfl | member
    · exact ⟨field, List.mem_cons_self .., rfl⟩
    · obtain ⟨field, listed, text⟩ := ih member
      exact ⟨field, List.mem_cons_of_mem _ listed, text⟩

theorem canonItems_eq_map (items : List (Option PlainData)) : canonItems items = items.map (Option.map canon) := by
  induction items with
  | nil => rfl
  | cons item rest ih =>
    rw [canonItems, ih, List.map_cons]
    cases item <;> rfl

theorem lookup_canonFields (fields : List (JsString × PlainData)) (k : JsString) :
    Assoc.lookup (canonFields fields) k = (Assoc.lookup fields k).map canon := by
  induction fields with
  | nil => rfl
  | cons entry rest ih =>
    obtain ⟨l, v⟩ := entry
    rw [canonFields, Assoc.lookup_insertSorted, Assoc.lookup_cons, ih]
    split <;> rfl

theorem canonFields_sorted (fields : List (JsString × PlainData)) : Assoc.Sorted Value.keyLt (canonFields fields) := by
  induction fields with
  | nil => exact List.Pairwise.nil
  | cons entry rest ih => exact ih.insertSorted _ _

theorem canonFields_eq_iff {fields others : List (JsString × PlainData)} :
    canonFields fields = canonFields others ↔
      ∀ k, (Assoc.lookup fields k).map canon = (Assoc.lookup others k).map canon := by
  constructor
  · intro same k
    rw [← lookup_canonFields, same, lookup_canonFields]
  · intro same
    apply Assoc.Sorted.ext (canonFields_sorted fields) (canonFields_sorted others)
    intro k
    rw [lookup_canonFields, lookup_canonFields, same]

end Children

section Injective

/-- Optional values with one text are equal. -/
theorem map_canon_of_stream {item other : Option PlainData} (delimited : ∀ v, item = some v → v.Delimited spelling)
    (same : item.map (stream spelling) = other.map (stream spelling)) : item.map canon = other.map canon := by
  cases item with
  | none =>
    cases other with
    | none => rfl
    | some w => cases same
  | some v =>
    cases other with
    | none => cases same
    | some w =>
      have text : v.stream spelling ++ [] = w.stream spelling ++ [] := congrArg (· ++ []) (Option.some.inj same)
      exact congrArg some (delimited v rfl w [] [] text).1

theorem canonItems_of_stream {items others : List (Option PlainData)} (delimited : ∀ v, some v ∈ items → v.Delimited spelling)
    (length : items.length = others.length)
    (same : ∀ j : ℕ, items[j]?.join.map (stream spelling) = others[j]?.join.map (stream spelling)) : canonItems items = canonItems others := by
  rw [canonItems_eq_map, canonItems_eq_map]
  apply List.ext_getElem
  · rw [List.length_map, List.length_map, length]
  · intro j first second
    rw [List.length_map] at first second
    rw [List.getElem_map, List.getElem_map]
    have here := same j
    rw [List.getElem?_eq_getElem first, List.getElem?_eq_getElem second] at here
    apply map_canon_of_stream _ here
    intro v there
    exact delimited v (there ▸ List.getElem_mem first)

theorem delimited_arr {items : List (Option PlainData)} (delimited : ∀ v, some v ∈ items → v.Delimited spelling) :
    (arr items).Delimited spelling := by
  intro b rest more same
  cases b with
  | arr others =>
    simp only [stream, List.append_assoc] at same
    obtain ⟨length, tail⟩ := decimal_inj (List.append_cancel_left same)
    have values : ∀ entry ∈ sortMembers (streamItems spelling 0 items), ∃ v : PlainData, v.Delimited spelling ∧ entry.2 = v.stream spelling := by
      intro entry member
      obtain ⟨v, listed, text⟩ := mem_streamItems (mem_sortMembers member)
      exact ⟨v, delimited v listed, text⟩
    have valuesToo : ∀ entry ∈ sortMembers (streamItems spelling 0 others), ∃ v : PlainData, entry.2 = v.stream spelling := by
      intro entry member
      obtain ⟨v, -, text⟩ := mem_streamItems (mem_sortMembers member)
      exact ⟨v, text⟩
    obtain ⟨members, rfl⟩ := streamMembers_inj values valuesToo tail
    refine ⟨congrArg arr (canonItems_of_stream delimited length fun j => ?_), rfl⟩
    have here := sortMembers_eq_iff.mp members (Json.decimal (0 + j))
    rwa [lookup_streamItems, lookup_streamItems] at here
  | _ => cases spelling <;> cases same

theorem nullText_ne_object (members : List (JsString × JsString)) (rest more : JsString) :
    spelling.nullText ++ rest ≠ (spelling.objectTag ++ streamMembers members ++ js ";") ++ more := by
  intro same
  cases spelling with
  | value => cases same
  | matching => cases members <;> cases same

theorem delimited_obj {fields : List (JsString × PlainData)} (delimited : ∀ field ∈ fields, field.2.Delimited spelling) :
    (obj fields).Delimited spelling := by
  intro b rest more same
  cases b with
  | obj others =>
    simp only [stream, List.append_assoc] at same
    have values : ∀ entry ∈ sortMembers (streamFields spelling fields), ∃ v : PlainData, v.Delimited spelling ∧ entry.2 = v.stream spelling := by
      intro entry member
      obtain ⟨field, listed, text⟩ := mem_streamFields (mem_sortMembers member)
      exact ⟨field.2, delimited field listed, text⟩
    have valuesToo : ∀ entry ∈ sortMembers (streamFields spelling others), ∃ v : PlainData, entry.2 = v.stream spelling := by
      intro entry member
      obtain ⟨field, -, text⟩ := mem_streamFields (mem_sortMembers member)
      exact ⟨field.2, text⟩
    obtain ⟨members, rfl⟩ := streamMembers_inj values valuesToo (List.append_cancel_left same)
    refine ⟨congrArg obj (canonFields_eq_iff.mpr fun k => ?_), rfl⟩
    have here := sortMembers_eq_iff.mp members k
    rw [lookup_streamFields, lookup_streamFields] at here
    apply map_canon_of_stream _ here
    intro v found
    exact delimited (k, v) (Assoc.mem_of_lookup found)
  | null => exact absurd same.symm (nullText_ne_object _ _ _)
  | _ => cases spelling <;> cases same

theorem delimited_undefined : undefined.Delimited spelling := by
  intro b rest more same
  cases b with
  | undefined => exact ⟨rfl, List.append_cancel_left same⟩
  | _ => cases spelling <;> cases same

theorem delimited_null : null.Delimited spelling := by
  intro b rest more same
  cases b with
  | null => exact ⟨rfl, List.append_cancel_left same⟩
  | obj fields => exact absurd same (nullText_ne_object _ _ _)
  | _ => cases spelling <;> cases same

theorem delimited_bool (value : Bool) : (bool value).Delimited spelling := by
  intro b rest more same
  cases b with
  | bool other =>
    cases value <;> cases other
    · exact ⟨rfl, List.append_cancel_left same⟩
    · cases same
    · cases same
    · exact ⟨rfl, List.append_cancel_left same⟩
  | _ => cases spelling <;> cases same

theorem delimited_num (n : JsNumber) : (num n).Delimited spelling := by
  intro b rest more same
  cases b with
  | num m =>
    simp only [stream, List.append_assoc] at same
    obtain ⟨rfl, tail⟩ := numText_inj (List.append_cancel_left same)
    exact ⟨rfl, tail⟩
  | _ => cases spelling <;> cases same

theorem delimited_str (s : JsString) : (str s).Delimited spelling := by
  intro b rest more same
  cases b with
  | str t =>
    simp only [stream, List.append_assoc] at same
    obtain ⟨rfl, tail⟩ := quote_inj (List.append_cancel_left same)
    exact ⟨rfl, List.append_cancel_left tail⟩
  | _ => cases spelling <;> cases same

/-- The text of a value ends where the value ends. -/
theorem delimited (a : PlainData) : a.Delimited spelling := by
  induction a using induct with
  | undefined => exact delimited_undefined
  | null => exact delimited_null
  | bool value => exact delimited_bool value
  | num n => exact delimited_num n
  | str s => exact delimited_str s
  | arr items delimited => exact delimited_arr delimited
  | obj fields delimited => exact delimited_obj delimited

end Injective

section Canonical

theorem streamItems_canon {items : List (Option PlainData)} (same : ∀ v, some v ∈ items → v.canon.stream spelling = v.stream spelling)
    (from_ : ℕ) : streamItems spelling from_ (canonItems items) = streamItems spelling from_ items := by
  induction items generalizing from_ with
  | nil => rfl
  | cons item rest ih =>
    have later := ih (fun v member => same v (List.mem_cons_of_mem _ member)) (from_ + 1)
    cases item with
    | none => exact later
    | some v =>
      simp only [canonItems, canonItem, streamItems, streamItem]
      rw [later, same v (List.mem_cons_self ..)]

theorem streamFields_canon {fields : List (JsString × PlainData)} (same : ∀ field ∈ fields, field.2.canon.stream spelling = field.2.stream spelling) :
    sortMembers (streamFields spelling (canonFields fields)) = sortMembers (streamFields spelling fields) := by
  apply sortMembers_eq_iff.mpr
  intro k
  rw [lookup_streamFields, lookup_streamFields, lookup_canonFields, Option.map_map]
  apply Option.map_congr
  intro v found
  exact same (k, v) (Assoc.mem_of_lookup found)

theorem length_canonItems (items : List (Option PlainData)) : (canonItems items).length = items.length := by
  rw [canonItems_eq_map, List.length_map]

/-- The order of keys does not change the text. -/
theorem stream_canon (a : PlainData) : a.canon.stream spelling = a.stream spelling := by
  induction a using induct with
  | arr items same => rw [canon, stream, stream, length_canonItems, streamItems_canon same]
  | obj fields same => rw [canon, stream, stream, streamFields_canon same]
  | _ => rfl

/-- Two values have one text exactly when they are equal. -/
theorem stream_eq_iff {a b : PlainData} : a.stream spelling = b.stream spelling ↔ a.equal b := by
  constructor
  · intro same
    exact (delimited a b [] [] (congrArg (· ++ []) same)).1
  · intro same
    rw [← stream_canon a, same, stream_canon b]

end Canonical

section Printable

open Utf8 (Printable)

theorem printable_numText (n : JsNumber) : Printable (numText n) := by
  unfold numText
  split
  · exact Json.printable_of_all (by decide)
  · exact Json.printable_of_ascii (Json.ascii_numberText n)

theorem printable_streamMembers {members : List (JsString × JsString)} (printable : ∀ entry ∈ members, Printable entry.2) :
    Printable (streamMembers members) := by
  induction members with
  | nil => exact .nil
  | cons entry rest ih =>
    have later := ih fun entry member => printable entry (List.mem_cons_of_mem _ member)
    have own := printable entry (List.mem_cons_self ..)
    exact (((Json.printable_quote _).append (Json.printable_of_all (by decide))).append own).append later

theorem printable_enclosed {front back middle : JsString} (ascii : front.all (fun u => Json.IsAscii u) = true)
    (asciiToo : back.all (fun u => Json.IsAscii u) = true) (printable : Printable middle) : Printable (front ++ middle ++ back) :=
  ((Json.printable_of_all ascii).append printable).append (Json.printable_of_all asciiToo)

/-- No piece of the text holds a lone surrogate. -/
theorem printable_stream (a : PlainData) : Printable (a.stream spelling) := by
  induction a using induct with
  | undefined => exact Json.printable_of_all (by decide : (js "undefined:undefined;").all _ = true)
  | null => cases spelling <;> exact Json.printable_of_all (by decide)
  | bool value => cases value <;> cases spelling <;> exact Json.printable_of_all (by decide)
  | num n => exact printable_enclosed (by decide) (by decide) (printable_numText n)
  | str s => exact printable_enclosed (by decide) (by decide) (Json.printable_quote s)
  | arr items printable =>
    have members : Printable (streamMembers (sortMembers (streamItems spelling 0 items))) := by
      apply printable_streamMembers
      intro entry member
      obtain ⟨v, listed, text⟩ := mem_streamItems (mem_sortMembers member)
      rw [text]
      exact printable v listed
    have tag : spelling.arrayTag.all (fun u => Json.IsAscii u) = true := by cases spelling <;> decide
    have length := printable_enclosed tag (by decide : (js ":").all _ = true) (Json.printable_decimal items.length)
    exact (length.append members).append (Json.printable_of_all (by decide))
  | obj fields printable =>
    have tag : spelling.objectTag.all (fun u => Json.IsAscii u) = true := by cases spelling <;> decide
    apply printable_enclosed tag (by decide)
    apply printable_streamMembers
    intro entry member
    obtain ⟨field, listed, text⟩ := mem_streamFields (mem_sortMembers member)
    rw [text]
    exact printable field listed

/-- The bytes of a text without lone surrogates name it. -/
theorem encode_stream_iff {a b : PlainData} : Utf8.encode (a.stream spelling) = Utf8.encode (b.stream spelling) ↔ a.equal b := by
  rw [← stream_eq_iff]
  constructor
  · intro same
    have units := congrArg Utf8.decodeUnits same
    rw [Utf8.decodeUnits_encode (printable_stream a), Utf8.decodeUnits_encode (printable_stream b)] at units
    exact Option.some.inj units
  · intro same
    rw [same]

end Printable

section Distinguished

/-- An own member that holds `undefined` is not a missing one. -/
theorem equal_member {fields : List (JsString × PlainData)} {k : JsString} (missing : Assoc.lookup fields k = none) :
    ¬(obj (fields ++ [(k, .undefined)])).equal (obj fields) := by
  intro same
  have here := canonFields_eq_iff.mp (PlainData.obj.inj same) k
  rw [Assoc.lookup_append, missing, Option.none_or, Assoc.lookup_cons, if_pos rfl] at here
  cases here

theorem equal_hole (before after : List (Option PlainData)) :
    ¬(arr (before ++ none :: after)).equal (arr (before ++ some .undefined :: after)) := by
  intro same
  have items : canonItems (before ++ none :: after) = canonItems (before ++ some .undefined :: after) := PlainData.arr.inj same
  rw [canonItems_eq_map, canonItems_eq_map, List.map_append, List.map_append] at items
  cases (List.cons.inj (List.append_cancel_left items)).1

/-- The hashed bytes of two values are the same exactly when the values are deeply strictly equal up to the order of keys. -/
theorem valueDigest_bytes_iff :
    (∀ a b : PlainData, Utf8.encode (a.stream .value) = Utf8.encode (b.stream .value) ↔ a.equal b)
      ∧ Utf8.encode ((num (.ofDecimal true 0 0)).stream .value) ≠ Utf8.encode ((num (.ofNat 0)).stream .value)
      ∧ (∀ fields k, Assoc.lookup fields k = none →
        Utf8.encode ((obj (fields ++ [(k, .undefined)])).stream .value) ≠ Utf8.encode ((obj fields).stream .value))
      ∧ (∀ before after, Utf8.encode ((arr (before ++ none :: after)).stream .value)
        ≠ Utf8.encode ((arr (before ++ some .undefined :: after)).stream .value))
      ∧ ∀ items fields, Utf8.encode ((arr items).stream .value) ≠ Utf8.encode ((obj fields).stream .value) := by
  refine ⟨fun a b => encode_stream_iff, ?_, ?_, ?_, ?_⟩
  · decide
  · exact fun fields k missing same => equal_member missing (encode_stream_iff.mp same)
  · exact fun before after same => equal_hole before after (encode_stream_iff.mp same)
  · intro items fields same
    cases encode_stream_iff.mp same

end Distinguished

end PersistentHarness.PlainData
