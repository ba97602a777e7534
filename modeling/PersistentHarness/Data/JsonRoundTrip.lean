import PersistentHarness.Data.JsonNumber

/-! # JSON text read back

`parse` inverts `stringify` on JSON data, up to the sign of zero, and every value that `parse`
returns is JSON data. Values that print alike are therefore the same data.
-/

namespace PersistentHarness.Json

/-! ## JSON data -/

mutual

/-- A value that JSON text can carry: nothing is `undefined` and member names are distinct. -/
def IsData : Value → Prop
  | .undefined => False
  | .arr items => AreData items
  | .obj fields => (Assoc.keys fields).Nodup ∧ HaveData fields
  | _ => True

def AreData : List Value → Prop
  | [] => True
  | v :: rest => IsData v ∧ AreData rest

def HaveData : List (JsString × Value) → Prop
  | [] => True
  | (_, v) :: rest => IsData v ∧ HaveData rest

end

mutual

/-- The value that JSON text carries: there is one zero. -/
def carried : Value → Value
  | .num n => .num (unsigned n)
  | .arr items => .arr (carriedItems items)
  | .obj fields => .obj (carriedFields fields)
  | v => v

def carriedItems : List Value → List Value
  | [] => []
  | v :: rest => carried v :: carriedItems rest

def carriedFields : List (JsString × Value) → List (JsString × Value)
  | [] => []
  | (k, v) :: rest => (k, carried v) :: carriedFields rest

end

mutual

/-- What is read back of the text of a value: items without a value are `null`, members without one are left out,
and the last of equal names counts. -/
def readBack : Value → Value
  | .undefined => .null
  | .num n => .num (unsigned n)
  | .arr items => .arr (readBackItems items)
  | .obj fields => .obj (readBackFields fields [])
  | v => v

def readBackItems : List Value → List Value
  | [] => []
  | v :: rest => readBack v :: readBackItems rest

/-- The members after those that are read already. -/
def readBackFields : List (JsString × Value) → List (JsString × Value) → List (JsString × Value)
  | [], read => read
  | (k, v) :: rest, read => readBackFields rest (if v = .undefined then read else Assoc.set read k (readBack v))

end

theorem haveData_iff {fields : List (JsString × Value)} : HaveData fields ↔ ∀ entry ∈ fields, IsData entry.2 := by
  induction fields with
  | nil => simp [HaveData]
  | cons entry rest ih => simp [HaveData, ih]

theorem areData_iff {items : List Value} : AreData items ↔ ∀ v ∈ items, IsData v := by
  induction items with
  | nil => simp [AreData]
  | cons v rest ih => simp [AreData, ih]

/-! ## Strings -/

private theorem hexDigit_hexUnit : ∀ n, n < 16 → hexDigit? (hexUnit n) = some n := by decide

private theorem hex4_escape (u : UInt16) : hex4? (hexUnit (u.toNat / 4096 % 16)) (hexUnit (u.toNat / 256 % 16))
    (hexUnit (u.toNat / 16 % 16)) (hexUnit (u.toNat % 16)) = some u := by
  have digit : ∀ n, hexDigit? (hexUnit (n % 16)) = some (n % 16) := fun n => hexDigit_hexUnit _ (Nat.mod_lt _ (by decide))
  have value : ((u.toNat / 4096 % 16 * 16 + u.toNat / 256 % 16) * 16 + u.toNat / 16 % 16) * 16 + u.toNat % 16 = u.toNat := by
    have := u.toNat_lt
    omega
  simp only [hex4?, digit, Option.bind_eq_bind, Option.bind_some, Option.pure_def, value, UInt16.ofNat_toNat]

private theorem parseString_raw {u : UInt16} (plain : u ≠ unit '"' ∧ u ≠ unit '\\' ∧ ¬u < 0x20) (tail : JsString) :
    parseString (u :: tail) = (parseString tail).map fun (s, rest) => (u :: s, rest) := by
  rw [parseString.eq_def]
  simp only [plain.1, plain.2.1, plain.2.2, ↓reduceIte]
  cases parseString tail <;> rfl

private theorem parseString_short {u e : UInt16} (letter : e ≠ unit 'u') (named : unescape? e = some u) (tail : JsString) :
    parseString (unit '\\' :: e :: tail) = (parseString tail).map fun (s, rest) => (u :: s, rest) := by
  have ne : unit '\\' ≠ unit '"' := by decide
  rw [parseString.eq_def]
  simp only [ne, ↓reduceIte, letter, named]
  cases parseString tail <;> rfl

private theorem parseString_unicode (u : UInt16) (tail : JsString) :
    parseString (unicodeEscape u ++ tail) = (parseString tail).map fun (s, rest) => (u :: s, rest) := by
  have ne : unit '\\' ≠ unit '"' := by decide
  rw [unicodeEscape, parseString.eq_def]
  simp only [List.cons_append, List.nil_append, ne, ↓reduceIte, hex4_escape]
  cases parseString tail <;> rfl

/-- The spelling of one code unit reads back as this unit. -/
private theorem parseString_escapeUnit (u : UInt16) (tail : JsString) :
    parseString (escapeUnit u ++ tail) = (parseString tail).map fun (s, rest) => (u :: s, rest) := by
  unfold escapeUnit
  split
  · next quoted =>
    refine parseString_short ?_ ?_ tail
    · rcases quoted with rfl | rfl <;> decide
    · rw [unescape?, if_pos (by rcases quoted with rfl | rfl <;> simp)]
  · next plain =>
    rw [not_or] at plain
    split
    · next same => exact same ▸ parseString_short (by decide) (by decide) tail
    · split
      · next same => exact same ▸ parseString_short (by decide) (by decide) tail
      · split
        · next same => exact same ▸ parseString_short (by decide) (by decide) tail
        · split
          · next same => exact same ▸ parseString_short (by decide) (by decide) tail
          · split
            · next same => exact same ▸ parseString_short (by decide) (by decide) tail
            · split
              · exact parseString_unicode u tail
              · next printable => exact parseString_raw ⟨plain.1, plain.2, fun low => printable (.inl low)⟩ tail

private theorem parseString_surrogate {u : UInt16} (high : 0xD800 ≤ u) (tail : JsString) :
    parseString (u :: tail) = (parseString tail).map fun (s, rest) => (u :: s, rest) := by
  refine parseString_raw ⟨?_, ?_, ?_⟩ tail
  · rintro rfl
    exact absurd high (by decide)
  · rintro rfl
    exact absurd high (by decide)
  · intro low
    have above : (0xD800 : UInt16) < 0x20 := UInt16.lt_of_le_of_lt high low
    exact absurd above (by decide)

/-- A string token reads back as its string. -/
theorem parseString_escapeUnits (s rest : JsString) : parseString (escapeUnits s ++ unit '"' :: rest) = some (s, rest) := by
  fun_induction escapeUnits s with
  | case1 => rw [List.nil_append, parseString.eq_def]; simp
  | case2 u =>
    rw [parseString_escapeUnit, parseString.eq_def]
    simp
  | case3 u v tail pair ih =>
    rw [List.cons_append, List.cons_append, parseString_surrogate pair.1.1,
      parseString_surrogate (UInt16.le_trans (by decide : (0xD800 : UInt16) ≤ 0xDC00) pair.2.1), ih]
    rfl
  | case4 u v tail single ih =>
    rw [List.append_assoc, parseString_escapeUnit, ih]
    rfl

/-! ## Values -/

@[simp] theorem skipSpace_cons {u : UInt16} (ink : isSpace u = false) (tail : JsString) :
    skipSpace (u :: tail) = u :: tail := by
  rw [skipSpace, List.dropWhile_cons_of_neg (by simp [ink])]

theorem stripPrefix_append (word rest : JsString) : stripPrefix? word (word ++ rest) = some rest := by
  induction word with
  | nil => rfl
  | cons w word ih => rw [List.cons_append, stripPrefix?, if_pos rfl, ih]

/-- A number token starts with a digit or a minus sign. -/
private theorem parseNumber_head {u : UInt16} {tail : JsString} {result : JsNumber × JsString}
    (parsed : parseNumber (u :: tail) = some result) : isDigit u = true ∨ u = unit '-' := by
  by_cases minus : u = unit '-'
  · exact .inr minus
  · left
    rw [parseNumber, if_neg minus] at parsed
    by_contra digit
    simp [parseMagnitude, List.span_eq_takeWhile_dropWhile, digit] at parsed

private theorem digit_dispatch {u : UInt16} (starts : isDigit u = true ∨ u = unit '-') : isSpace u = false
    ∧ u ≠ unit '\x7b' ∧ u ≠ unit '[' ∧ u ≠ unit '"' ∧ u ≠ unit 't' ∧ u ≠ unit 'f' ∧ u ≠ unit 'n' ∧ u ≠ unit ']' := by
  have other : ∀ v : UInt16, ¬(isDigit v = true ∨ v = unit '-') → u ≠ v := by
    rintro v apart rfl
    exact apart starts
  have space : isSpace u = false := by
    simp [isSpace, other 0x20 (by decide), other 0x09 (by decide), other 0x0A (by decide), other 0x0D (by decide)]
  exact ⟨space, other _ (by decide), other _ (by decide), other _ (by decide), other _ (by decide), other _ (by decide),
    other _ (by decide), other _ (by decide)⟩

private theorem parseValue_number (n : JsNumber) {rest : JsString} (ends : Ends rest) (fuel : ℕ) :
    parseValue (fuel + 1) (numberText n ++ rest) = some (.num (unsigned n), rest) := by
  have parsed := parseNumber_text n ends
  cases text : numberText n ++ rest with
  | nil =>
    rw [text] at parsed
    cases parsed
  | cons u tail =>
    rw [text] at parsed
    obtain ⟨ink, brace, bracket, quote, t, f, null, _⟩ := digit_dispatch (parseNumber_head parsed)
    rw [parseValue, skipSpace_cons ink]
    simp only [brace, bracket, quote, t, f, null, ↓reduceIte, parsed, Option.map_some]

/-- The elements after the first, each behind a comma. -/
def following (texts : List JsString) : JsString := texts.flatMap fun text => unit ',' :: text

theorem intercalate_comma (first : JsString) (texts : List JsString) :
    List.intercalate [unit ','] (first :: texts) = first ++ following texts := by
  induction texts generalizing first with
  | nil => simp [List.intercalate, following]
  | cons text texts ih =>
    have step : List.intercalate [unit ','] (first :: text :: texts) =
        first ++ ([unit ','] ++ List.intercalate [unit ','] (text :: texts)) := by
      simp [List.intercalate, List.intersperse]
    rw [step, ih]
    simp [following]

theorem ends_of_closer {u : UInt16} (closer : u = unit ',' ∨ u = unit ']' ∨ u = unit '\x7d') (rest : JsString) :
    Ends (u :: rest) := by
  rintro _ ⟨⟩
  rcases closer with rfl | rfl | rfl <;> decide

private theorem ends_following (texts : List JsString) {u : UInt16} (closer : u = unit ']' ∨ u = unit '\x7d')
    (rest : JsString) : Ends (following texts ++ u :: rest) := by
  cases texts with
  | nil => exact ends_of_closer (.inr closer) rest
  | cons text texts =>
    simp only [following, List.flatMap_cons, List.cons_append]
    exact ends_of_closer (.inl rfl) _

/-- The text of a value starts with a mark that opens a value. -/
theorem exists_stringify {v : Value} (defined : v ≠ .undefined) :
    ∃ u tail, stringify? v = some (u :: tail) ∧ isSpace u = false ∧ u ≠ unit ']' := by
  cases v with
  | undefined => exact absurd rfl defined
  | null => exact ⟨unit 'n', _, rfl, by decide, by decide⟩
  | bool b => cases b <;> exact ⟨_, _, rfl, by decide, by decide⟩
  | num n =>
    have parsed : parseNumber (numberText n ++ []) = _ := parseNumber_text n fun _ absent => by cases absent
    rw [List.append_nil] at parsed
    cases text : numberText n with
    | nil =>
      rw [text] at parsed
      cases parsed
    | cons u tail =>
      rw [text] at parsed
      obtain ⟨ink, _, _, _, _, _, _, bracket⟩ := digit_dispatch (parseNumber_head parsed)
      exact ⟨u, tail, by rw [stringify?, text], ink, bracket⟩
  | str s => exact ⟨unit '"', _, by rw [stringify?, quote], by decide, by decide⟩
  | arr items => exact ⟨unit '[', _, by rw [stringify?], by decide, by decide⟩
  | obj fields => exact ⟨unit '\x7b', _, by rw [stringify?], by decide, by decide⟩

/-- An item prints what its reading back prints: `undefined` is `null`. -/
private theorem exists_item (v : Value) :
    ∃ u tail, (stringify? v).getD (js "null") = u :: tail ∧ isSpace u = false ∧ u ≠ unit ']' := by
  by_cases defined : v = .undefined
  · exact ⟨unit 'n', js "ull", by rw [defined]; rfl, by decide, by decide⟩
  · obtain ⟨u, tail, shown, ink, bracket⟩ := exists_stringify defined
    exact ⟨u, tail, by rw [shown, Option.getD_some], ink, bracket⟩

private theorem exists_fuel {v : Value} {text : JsString} {fuel : ℕ} (shown : stringify? v = some text)
    (enough : text.length ≤ fuel) : ∃ k, fuel = k + 1 := by
  have defined : v ≠ .undefined := by
    rintro rfl
    cases shown
  obtain ⟨u, tail, same, _⟩ := exists_stringify defined
  rw [shown, Option.some.injEq] at same
  rw [same, List.length_cons] at enough
  exact ⟨fuel - 1, by omega⟩

/-- Members without a value are not printed: the first one that is opens the text of the rest. -/
private theorem members_cases (fields : List (JsString × Value)) :
    (stringifyMembers fields = [] ∧ ∀ read, readBackFields fields read = read)
      ∨ ∃ k v rest, v ≠ .undefined ∧ stringifyMembers fields = stringifyMembers ((k, v) :: rest)
        ∧ ∀ read, readBackFields fields read = readBackFields rest (Assoc.set read k (readBack v)) := by
  induction fields with
  | nil => exact .inl ⟨rfl, fun _ => rfl⟩
  | cons entry rest ih =>
    obtain ⟨k, v⟩ := entry
    by_cases defined : v = .undefined
    · subst defined
      simpa only [stringifyMembers, stringify?, readBackFields, ↓reduceIte] using ih
    · exact .inr ⟨k, v, rest, defined, rfl, fun _ => by rw [readBackFields, if_neg defined]⟩

private theorem parseValue_word {fuel : ℕ} (rest : JsString) :
    parseValue (fuel + 1) (js "null" ++ rest) = some (.null, rest)
      ∧ parseValue (fuel + 1) (js "true" ++ rest) = some (.bool true, rest)
      ∧ parseValue (fuel + 1) (js "false" ++ rest) = some (.bool false, rest) := by
  have null : js "null" ++ rest = unit 'n' :: (js "ull" ++ rest) := rfl
  have true_ : js "true" ++ rest = unit 't' :: (js "rue" ++ rest) := rfl
  have false_ : js "false" ++ rest = unit 'f' :: (js "alse" ++ rest) := rfl
  rw [null, true_, false_]
  refine ⟨?_, ?_, ?_⟩
  all_goals
    rw [parseValue, skipSpace_cons (by decide)]
    simp +decide only [↓reduceIte, stripPrefix_append, Option.map_some]

mutual

theorem parseValue_stringify : ∀ (v : Value) (text rest : JsString) (fuel : ℕ), stringify? v = some text →
    Ends rest → text.length ≤ fuel → parseValue fuel (text ++ rest) = some (readBack v, rest)
  | .undefined, _, _, _, shown, _, _ => by cases shown
  | .null, _, rest, _, shown, _, enough => by
    obtain ⟨fuel, rfl⟩ := exists_fuel shown enough
    cases shown
    exact (parseValue_word rest).1
  | .bool true, _, rest, _, shown, _, enough => by
    obtain ⟨fuel, rfl⟩ := exists_fuel shown enough
    cases shown
    exact (parseValue_word rest).2.1
  | .bool false, _, rest, _, shown, _, enough => by
    obtain ⟨fuel, rfl⟩ := exists_fuel shown enough
    cases shown
    exact (parseValue_word rest).2.2
  | .num n, _, rest, _, shown, ends, enough => by
    obtain ⟨fuel, rfl⟩ := exists_fuel shown enough
    cases shown
    exact parseValue_number n ends fuel
  | .str s, _, rest, _, shown, _, enough => by
    obtain ⟨fuel, rfl⟩ := exists_fuel shown enough
    cases shown
    have text : quote s ++ rest = unit '"' :: (escapeUnits s ++ unit '"' :: rest) := by simp [quote]
    rw [text, parseValue, skipSpace_cons (by decide)]
    simp +decide only [↓reduceIte, parseString_escapeUnits, Option.map_some, readBack]
  | .arr [], _, rest, _, shown, _, enough => by
    obtain ⟨fuel, rfl⟩ := exists_fuel shown enough
    cases shown
    have text : unit '[' :: (List.intercalate [unit ','] (stringifyItems []) ++ [unit ']']) ++ rest =
        unit '[' :: unit ']' :: rest := rfl
    rw [text, parseValue, skipSpace_cons (by decide)]
    simp +decide only [↓reduceIte]
    rw [skipSpace_cons (by decide)]
    simp only [↓reduceIte, readBack, readBackItems]
  | .arr (v :: items), _, rest, _, shown, _, enough => by
    obtain ⟨fuel, rfl⟩ := exists_fuel shown enough
    cases shown
    obtain ⟨u, tail, first, ink, bracket⟩ := exists_item v
    have parsed := parseItems_stringify v items [] rest fuel ?_
    · have text : unit '[' :: (List.intercalate [unit ','] (stringifyItems (v :: items)) ++ [unit ']']) ++ rest =
          unit '[' :: ((stringify? v).getD (js "null") ++ (following (stringifyItems items) ++ unit ']' :: rest)) := by
        simp [stringifyItems, intercalate_comma]
      rw [text, parseValue, skipSpace_cons (by decide)]
      simp +decide only [↓reduceIte]
      rw [first, List.cons_append] at parsed ⊢
      rw [skipSpace_cons ink]
      simp only [bracket, ↓reduceIte, readBack, List.nil_append] at parsed ⊢
      exact parsed
    · simp only [stringifyItems, intercalate_comma, List.length_cons, List.length_append, List.length_nil] at enough ⊢
      omega
  | .obj fields, _, rest, _, shown, _, enough => by
    obtain ⟨fuel, rfl⟩ := exists_fuel shown enough
    cases shown
    rcases members_cases fields with ⟨nothing, same⟩ | ⟨k, v, more, defined, shown, same⟩
    · have text : unit '\x7b' :: (List.intercalate [unit ','] (stringifyMembers fields) ++ [unit '\x7d']) ++ rest =
          unit '\x7b' :: unit '\x7d' :: rest := by rw [nothing]; rfl
      rw [text, parseValue, skipSpace_cons (by decide)]
      simp only [↓reduceIte]
      rw [skipSpace_cons (by decide)]
      simp only [↓reduceIte, readBack, same]
    · obtain ⟨u, tail, first, _⟩ := exists_stringify defined
      have parsed := parseMembers_stringify k v more [] rest fuel defined ?_
      · have text : unit '\x7b' :: (List.intercalate [unit ','] (stringifyMembers fields) ++ [unit '\x7d']) ++ rest =
            unit '\x7b' :: unit '"' :: (escapeUnits k ++ unit '"' :: unit ':' :: ((stringify? v).getD (js "null") ++
              (following (stringifyMembers more) ++ unit '\x7d' :: rest))) := by
          simp [shown, stringifyMembers, first, intercalate_comma, quote]
        rw [text, parseValue, skipSpace_cons (by decide)]
        simp only [↓reduceIte]
        rw [skipSpace_cons (by decide)]
        simp +decide only [↓reduceIte, readBack, same] at parsed ⊢
        exact parsed
      · simp only [shown, stringifyMembers, first, intercalate_comma, List.length_cons, List.length_append, List.length_nil,
          quote, Option.getD_some] at enough ⊢
        omega
termination_by _ _ _ fuel => fuel

theorem parseItems_stringify : ∀ (v : Value) (items acc : List Value) (rest : JsString) (fuel : ℕ),
    ((stringify? v).getD (js "null")).length + (following (stringifyItems items)).length + 1 ≤ fuel →
      parseItems fuel ((stringify? v).getD (js "null") ++ (following (stringifyItems items) ++ unit ']' :: rest)) acc =
        some (.arr (acc ++ readBackItems (v :: items)), rest)
  | v, items, acc, rest, fuel, enough => by
    obtain ⟨fuel, rfl⟩ : ∃ k, fuel = k + 1 := ⟨fuel - 1, by omega⟩
    have parsed : parseValue fuel ((stringify? v).getD (js "null") ++ (following (stringifyItems items) ++ unit ']' :: rest)) =
        some (readBack v, following (stringifyItems items) ++ unit ']' :: rest) := by
      by_cases defined : v = .undefined
      · obtain ⟨u, tail, shown, _⟩ := exists_item v
        rw [shown, List.length_cons] at enough
        obtain ⟨fuel, rfl⟩ : ∃ k, fuel = k + 1 := ⟨fuel - 1, by omega⟩
        rw [defined]
        exact (parseValue_word _).1
      · obtain ⟨u, tail, first, _⟩ := exists_stringify defined
        rw [first, Option.getD_some] at enough ⊢
        exact parseValue_stringify v _ _ fuel first (ends_following _ (.inl rfl) rest) (by omega)
    rw [parseItems, parsed]
    cases items with
    | nil =>
      simp only [following, stringifyItems, List.flatMap_nil, List.nil_append, Option.bind_eq_bind, Option.bind_some]
      rw [skipSpace_cons (by decide)]
      simp +decide only [↓reduceIte, readBackItems]
    | cons w items =>
      have tail := parseItems_stringify w items (acc ++ [readBack v]) rest fuel
      simp only [stringifyItems, following, List.flatMap_cons, List.length_cons, List.length_append, List.cons_append,
        Option.bind_eq_bind, Option.bind_some, List.append_assoc] at enough tail ⊢
      rw [skipSpace_cons (by decide)]
      simp only [↓reduceIte]
      rw [tail (by omega)]
      simp [readBackItems]
termination_by _ _ _ _ fuel => fuel

theorem parseMembers_stringify : ∀ (k : JsString) (v : Value) (fields acc : List (JsString × Value)) (rest : JsString)
    (fuel : ℕ), v ≠ .undefined →
    (escapeUnits k).length + ((stringify? v).getD (js "null")).length + (following (stringifyMembers fields)).length + 1 ≤ fuel →
      parseMembers fuel (unit '"' :: (escapeUnits k ++ unit '"' :: unit ':' :: ((stringify? v).getD (js "null") ++
          (following (stringifyMembers fields) ++ unit '\x7d' :: rest)))) acc =
        some (.obj (readBackFields fields (Assoc.set acc k (readBack v))), rest)
  | k, v, fields, acc, rest, fuel, defined, enough => by
    obtain ⟨fuel, rfl⟩ : ∃ n, fuel = n + 1 := ⟨fuel - 1, by omega⟩
    obtain ⟨u, tail, first, _⟩ := exists_stringify defined
    rw [first, Option.getD_some] at enough ⊢
    rw [parseMembers, skipSpace_cons (by decide)]
    simp only [↓reduceIte, parseString_escapeUnits, Option.bind_eq_bind, Option.bind_some]
    rw [skipSpace_cons (by decide)]
    simp only [↓reduceIte]
    rw [parseValue_stringify v _ _ fuel first (ends_following _ (.inr rfl) rest) (by omega)]
    simp only [Option.bind_some]
    rcases members_cases fields with ⟨nothing, same⟩ | ⟨l, w, more, present, shown, same⟩
    · simp only [following, nothing, List.flatMap_nil, List.nil_append]
      rw [skipSpace_cons (by decide)]
      simp +decide only [↓reduceIte, same]
    · obtain ⟨u', tail', next, _⟩ := exists_stringify present
      have tail := parseMembers_stringify l w more (Assoc.set acc k (readBack v)) rest fuel present
      rw [shown] at enough ⊢
      simp only [stringifyMembers, next, following, List.flatMap_cons, List.length_cons, List.length_append,
        List.cons_append, List.append_assoc, quote, Option.getD_some, List.nil_append] at enough tail ⊢
      rw [skipSpace_cons (by decide)]
      simp only [↓reduceIte]
      rw [tail (by omega), same]
termination_by _ _ _ _ _ fuel => fuel

end

theorem parse_stringify_readBack {v : Value} (defined : v ≠ .undefined) : parse (stringify v) = some (readBack v) := by
  obtain ⟨u, tail, shown, _⟩ := exists_stringify defined
  have parsed := parseValue_stringify v _ [] ((stringify v).length + 1) shown (fun _ absent => by cases absent)
    (by rw [stringify, shown, Option.getD_some]; exact Nat.le_succ _)
  rw [List.append_nil] at parsed
  rw [parse, stringify, shown, Option.getD_some]
  rw [stringify, shown, Option.getD_some] at parsed
  rw [parsed]
  rfl

mutual

theorem readBack_of_isData : ∀ v : Value, IsData v → readBack v = carried v
  | .undefined, data => by cases data
  | .null, _ | .bool _, _ | .num _, _ | .str _, _ => rfl
  | .arr items, data => by rw [readBack, carried, readBackItems_of_areData items data]
  | .obj fields, data => by
    rw [readBack, carried, readBackFields_of_haveData fields [] data.2 (by simpa using data.1), List.nil_append]

theorem readBackItems_of_areData : ∀ items : List Value, AreData items → readBackItems items = carriedItems items
  | [], _ => rfl
  | v :: rest, data => by
    rw [readBackItems, carriedItems, readBack_of_isData v data.1, readBackItems_of_areData rest data.2]

theorem readBackFields_of_haveData : ∀ (fields read : List (JsString × Value)), HaveData fields →
    (Assoc.keys (read ++ fields)).Nodup → readBackFields fields read = read ++ carriedFields fields
  | [], read, _, _ => by rw [readBackFields, carriedFields, List.append_nil]
  | (k, v) :: rest, read, data, unique => by
    have defined : v ≠ .undefined := by
      rintro rfl
      exact data.1
    have fresh : Assoc.lookup read k = none := by
      refine Assoc.lookup_eq_none_iff.mpr fun known => ?_
      rw [Assoc.keys_append, List.nodup_append] at unique
      exact unique.2.2 k known k (List.mem_cons_self ..) rfl
    rw [readBackFields, if_neg defined, Assoc.set_of_lookup_none fresh, readBack_of_isData v data.1,
      readBackFields_of_haveData rest _ data.2 (by simpa [Assoc.keys] using unique), carriedFields, List.append_assoc]
    rfl

end

/-! ## What `parse` returns -/

private theorem haveData_set {fields : List (JsString × Value)} {name : JsString} {v : Value} (have_ : HaveData fields)
    (data : IsData v) : HaveData (Assoc.set fields name v) := by
  induction fields with
  | nil => exact ⟨data, trivial⟩
  | cons entry rest ih =>
    obtain ⟨l, w⟩ := entry
    rw [Assoc.set]
    split
    · exact ⟨data, have_.2⟩
    · exact ⟨have_.1, ih have_.2⟩

/-- Every reader returns JSON data when what it has so far is. -/
private theorem isData_of_readers (fuel : ℕ) :
    (∀ text v rest, parseValue fuel text = some (v, rest) → IsData v)
      ∧ (∀ text acc v rest, (Assoc.keys acc).Nodup → HaveData acc → parseMembers fuel text acc = some (v, rest) → IsData v)
      ∧ ∀ text acc v rest, AreData acc → parseItems fuel text acc = some (v, rest) → IsData v := by
  induction fuel with
  | zero =>
    refine ⟨fun _ _ _ read => ?_, fun _ _ _ _ _ _ read => ?_, fun _ _ _ _ _ read => ?_⟩
    · rw [parseValue] at read
      cases read
    · rw [parseMembers] at read
      cases read
    · rw [parseItems] at read
      cases read
  | succ fuel ih =>
    obtain ⟨values, members, elements⟩ := ih
    refine ⟨fun text v rest read => ?_, fun text acc v rest unique have_ read => ?_, fun text acc v rest all read => ?_⟩
    · rw [parseValue] at read
      split at read
      · cases read
      · split at read
        · split at read
          · cases read
          · split at read
            · cases read
              exact ⟨List.nodup_nil, trivial⟩
            · exact members _ [] _ _ List.nodup_nil trivial read
        · split at read
          · split at read
            · cases read
            · split at read
              · cases read
                trivial
              · exact elements _ [] _ _ trivial read
          · split at read
            · obtain ⟨_, _, same⟩ := Option.map_eq_some_iff.mp read
              cases same
              trivial
            · split at read
              · obtain ⟨_, _, same⟩ := Option.map_eq_some_iff.mp read
                cases same
                trivial
              · split at read
                · obtain ⟨_, _, same⟩ := Option.map_eq_some_iff.mp read
                  cases same
                  trivial
                · split at read
                  all_goals
                    obtain ⟨_, _, same⟩ := Option.map_eq_some_iff.mp read
                    cases same
                    trivial
    · rw [parseMembers] at read
      split at read
      · cases read
      · split at read
        · simp only [Option.bind_eq_bind, Option.bind_eq_some_iff, Prod.exists] at read
          obtain ⟨name, afterName, _, read⟩ := read
          split at read
          · cases read
          · split at read
            · simp only [Option.bind_eq_some_iff, Prod.exists] at read
              obtain ⟨value, afterValue, readValue, read⟩ := read
              have unique' := Assoc.keys_nodup_set unique name value
              have have' : HaveData (Assoc.set acc name value) := haveData_set have_ (values _ _ _ readValue)
              split at read
              · cases read
              · split at read
                · exact members _ _ _ _ unique' have' read
                · split at read
                  · cases read
                    exact ⟨unique', have'⟩
                  · cases read
            · cases read
        · cases read
    · rw [parseItems] at read
      simp only [Option.bind_eq_bind, Option.bind_eq_some_iff, Prod.exists] at read
      obtain ⟨value, afterValue, readValue, read⟩ := read
      have all' : AreData (acc ++ [value]) := by
        rw [areData_iff] at all ⊢
        intro w member
        rcases List.mem_append.mp member with old | new
        · exact all w old
        · rw [List.mem_singleton.mp new]
          exact values _ _ _ readValue
      split at read
      · cases read
      · split at read
        · exact elements _ _ _ _ all' read
        · split at read
          · cases read
            exact all'
          · cases read

/-- `parse` returns JSON data. -/
theorem isData_of_parse {text : JsString} {v : Value} (parsed : parse text = some v) : IsData v := by
  unfold parse at parsed
  split at parsed
  · next read =>
    split at parsed
    · cases parsed
      exact (isData_of_readers _).1 _ _ _ read
    · cases parsed
  · cases parsed

theorem IsData.set {v w : Value} (data : IsData v) (isObject : v.isObject = true) (written : IsData w) (key : JsString) :
    IsData (v.set key w) := by
  cases v with
  | obj fields =>
    obtain ⟨unique, have_⟩ := data
    exact ⟨Assoc.keys_nodup_set unique _ _, haveData_set have_ written⟩
  | _ => cases isObject

/-! ## What is read back -/

private theorem unsigned_unsigned (n : JsNumber) : unsigned (unsigned n) = unsigned n := by
  unfold unsigned
  by_cases zero : n.digits = 0
  · simp only [zero, ↓reduceIte, ite_self]
  · simp only [zero, ↓reduceIte]

mutual

theorem carried_carried : ∀ v : Value, carried (carried v) = carried v
  | .undefined | .null | .bool _ | .str _ => rfl
  | .num n => by rw [carried, carried, unsigned_unsigned]
  | .arr items => by rw [carried, carried, carriedItems_carriedItems items]
  | .obj fields => by rw [carried, carried, carriedFields_carriedFields fields]

theorem carriedItems_carriedItems : ∀ items : List Value, carriedItems (carriedItems items) = carriedItems items
  | [] => rfl
  | v :: rest => by rw [carriedItems, carriedItems, carried_carried v, carriedItems_carriedItems rest]

theorem carriedFields_carriedFields : ∀ fields : List (JsString × Value),
    carriedFields (carriedFields fields) = carriedFields fields
  | [] => rfl
  | (k, v) :: rest => by rw [carriedFields, carriedFields, carried_carried v, carriedFields_carriedFields rest]

end

/-- A member as it is read back: without a value it is left out. -/
def readBackMember (v : Value) : Value := if v = .undefined then .undefined else readBack v

theorem lookup_readBackFields {fields : List (JsString × Value)} (unique : (Assoc.keys fields).Nodup)
    (read : List (JsString × Value)) (k : JsString) :
    Assoc.lookup (readBackFields fields read) k =
      if (Assoc.lookup fields k).getD .undefined = .undefined then Assoc.lookup read k
      else some (readBack ((Assoc.lookup fields k).getD .undefined)) := by
  induction fields generalizing read with
  | nil => rfl
  | cons entry rest ih =>
    obtain ⟨l, v⟩ := entry
    obtain ⟨fresh, unique⟩ := List.nodup_cons.mp unique
    rw [readBackFields, ih unique, Assoc.lookup_cons]
    by_cases same : l = k
    · subst same
      rw [Assoc.lookup_eq_none_iff.mpr fresh, if_pos rfl, Option.getD_none, if_pos rfl, Option.getD_some]
      by_cases absent : v = .undefined
      · rw [if_pos absent, if_pos absent]
      · rw [if_neg absent, if_neg absent, Assoc.lookup_set_self]
    · rw [if_neg same]
      have kept : Assoc.lookup (if v = .undefined then read else Assoc.set read l (readBack v)) k = Assoc.lookup read k := by
        split
        · rfl
        · exact Assoc.lookup_set_of_ne read _ same
      rw [kept]

theorem get_readBack {v : Value} (unique : (Assoc.keys v.fields).Nodup) (k : JsString) :
    (readBack v).get k = readBackMember (v.get k) := by
  cases v with
  | obj fields =>
    rw [Value.fields] at unique
    rw [readBack, Value.get, Value.fields, lookup_readBackFields unique, readBackMember, Value.get, Value.fields]
    split <;> rfl
  | _ => rfl

private theorem carriedFields_set (fields : List (JsString × Value)) (k : JsString) (v : Value) :
    carriedFields (Assoc.set fields k v) = Assoc.set (carriedFields fields) k (carried v) := by
  induction fields with
  | nil => rfl
  | cons entry rest ih =>
    obtain ⟨l, w⟩ := entry
    rw [carriedFields, Assoc.set, Assoc.set]
    split
    · rw [carriedFields]
    · rw [carriedFields, ih]

mutual

theorem carried_readBack : ∀ v : Value, carried (readBack v) = readBack v
  | .undefined | .null | .bool _ | .str _ => rfl
  | .num n => carried_carried (.num n)
  | .arr items => by rw [readBack, carried, carriedItems_readBackItems items]
  | .obj fields => by rw [readBack, carried, carriedFields_readBackFields fields, carriedFields]

theorem carriedItems_readBackItems : ∀ items : List Value, carriedItems (readBackItems items) = readBackItems items
  | [] => rfl
  | v :: rest => by rw [readBackItems, carriedItems, carried_readBack v, carriedItems_readBackItems rest]

theorem carriedFields_readBackFields : ∀ fields read : List (JsString × Value),
    carriedFields (readBackFields fields read) = readBackFields fields (carriedFields read)
  | [], _ => rfl
  | (k, v) :: rest, read => by
    rw [readBackFields, readBackFields, carriedFields_readBackFields rest]
    split
    · rfl
    · rw [carriedFields_set, carried_readBack v]

end

theorem isData_readBack (v : Value) : IsData (readBack v) := by
  by_cases defined : v = .undefined
  · rw [defined]
    trivial
  · exact isData_of_parse (parse_stringify_readBack defined)

@[simp] theorem readBack_readBack (v : Value) : readBack (readBack v) = readBack v := by
  rw [readBack_of_isData _ (isData_readBack v), carried_readBack]

theorem readBack_set {v w : Value} (fixed : readBack v = v) (isObject : v.isObject = true) (value : readBack w = w)
    (key : JsString) : readBack (v.set key w) = v.set key w := by
  have data := fixed ▸ isData_readBack v
  have item := value ▸ isData_readBack w
  rw [readBack_of_isData _ data] at fixed
  rw [readBack_of_isData _ item] at value
  rw [readBack_of_isData _ (data.set isObject item key)]
  cases v with
  | obj fields =>
    rw [carried, Value.obj.injEq] at fixed
    rw [Value.set, Value.fields, carried, carriedFields_set, fixed, value]
  | _ => cases isObject

theorem readBackMember_ne_undefined {v : Value} (defined : v ≠ .undefined) : readBackMember v = readBack v := if_neg defined

/-! ## The text of what is read back -/

mutual

/-- No object names a member twice. -/
def Distinct : Value → Prop
  | .arr items => DistinctItems items
  | .obj fields => (Assoc.keys fields).Nodup ∧ DistinctFields fields
  | _ => True

def DistinctItems : List Value → Prop
  | [] => True
  | v :: rest => Distinct v ∧ DistinctItems rest

def DistinctFields : List (JsString × Value) → Prop
  | [] => True
  | (_, v) :: rest => Distinct v ∧ DistinctFields rest

end

theorem numberText_unsigned (n : JsNumber) : numberText (unsigned n) = numberText n := by
  unfold unsigned
  split
  · next zero =>
    rw [numberText, numberText, if_pos zero]
    decide
  · rfl

theorem stringifyMembers_append (first second : List (JsString × Value)) :
    stringifyMembers (first ++ second) = stringifyMembers first ++ stringifyMembers second := by
  induction first with
  | nil => rfl
  | cons entry rest ih =>
    obtain ⟨k, v⟩ := entry
    rw [List.cons_append, stringifyMembers, stringifyMembers, ih]
    cases stringify? v with
    | none => rfl
    | some text => rfl

mutual

theorem stringify?_readBack : ∀ v : Value, Distinct v → v ≠ .undefined → stringify? (readBack v) = stringify? v
  | .undefined, _, defined => absurd rfl defined
  | .null, _, _ | .bool _, _, _ | .str _, _, _ => rfl
  | .num n, _, _ => by rw [readBack, stringify?, stringify?, numberText_unsigned]
  | .arr items, distinct, _ => by rw [readBack, stringify?, stringify?, stringifyItems_readBackItems items distinct]
  | .obj fields, distinct, _ => by
    rw [readBack, stringify?, stringify?, stringifyMembers_readBackFields fields [] distinct.2 (by simpa using distinct.1)]
    rfl

theorem stringifyItems_readBackItems : ∀ items : List Value, DistinctItems items →
    stringifyItems (readBackItems items) = stringifyItems items
  | [], _ => rfl
  | v :: rest, distinct => by
    rw [readBackItems, stringifyItems, stringifyItems, stringifyItems_readBackItems rest distinct.2]
    by_cases undefined : v = .undefined
    · rw [undefined]
      rfl
    · rw [stringify?_readBack v distinct.1 undefined]

theorem stringifyMembers_readBackFields : ∀ fields read : List (JsString × Value), DistinctFields fields →
    (Assoc.keys (read ++ fields)).Nodup →
      stringifyMembers (readBackFields fields read) = stringifyMembers read ++ stringifyMembers fields
  | [], read, _, _ => by rw [readBackFields, stringifyMembers, List.append_nil]
  | (k, v) :: rest, read, distinct, unique => by
    have fresh : Assoc.lookup read k = none := by
      refine Assoc.lookup_eq_none_iff.mpr fun known => ?_
      rw [Assoc.keys_append, List.nodup_append] at unique
      exact unique.2.2 k known k (List.mem_cons_self ..) rfl
    rw [readBackFields]
    by_cases undefined : v = .undefined
    · have without : (Assoc.keys (read ++ rest)).Nodup := by
        refine unique.sublist ?_
        rw [Assoc.keys_append, Assoc.keys_append]
        exact List.Sublist.append_left (List.sublist_cons_self k (Assoc.keys rest)) _
      rw [if_pos undefined, stringifyMembers_readBackFields rest read distinct.2 without, undefined]
      rfl
    · obtain ⟨u, tail, shown, _⟩ := exists_stringify undefined
      rw [if_neg undefined, Assoc.set_of_lookup_none fresh, stringifyMembers_readBackFields rest _ distinct.2
        (by simpa [Assoc.keys] using unique), stringifyMembers_append, List.append_assoc, stringifyMembers, stringifyMembers,
        stringifyMembers, stringify?_readBack v distinct.1 undefined, shown]
      rfl

end

end PersistentHarness.Json
