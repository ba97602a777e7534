import Mathlib.Data.List.TakeWhile
import PersistentHarness.Data.Json

/-! # JSON text with every member kept

`parse` keeps only the last of several members with one name. A tree keeps them all, in the order of the text. `read`
follows the grammar of `parse`, and the value of the tree it reads is the value that `parse` returns.
-/

namespace PersistentHarness.Json

/-- JSON data as written. -/
inductive Tree where
  | leaf (value : Value)
  | arr (items : List Tree)
  | obj (members : List (JsString × Tree))

namespace Tree

mutual

/-- The value of a tree: a later member of one name replaces the value of an earlier one. -/
def value : Tree → Value
  | .leaf value => value
  | .arr items => .arr (values items)
  | .obj members => .obj (assign [] members)

def values : List Tree → List Value
  | [] => []
  | tree :: rest => tree.value :: values rest

def assign (fields : List (JsString × Value)) : List (JsString × Tree) → List (JsString × Value)
  | [] => fields
  | (name, tree) :: rest => assign (Assoc.set fields name tree.value) rest

end

/-- A tree occurs in another one, at any depth. -/
inductive Occurs : Tree → Tree → Prop
  | self (tree : Tree) : Occurs tree tree
  | item {inner tree : Tree} {items : List Tree} (member : tree ∈ items) (deeper : Occurs inner tree) :
    Occurs inner (.arr items)
  | member {inner tree : Tree} {name : JsString} {members : List (JsString × Tree)} (member : (name, tree) ∈ members)
    (deeper : Occurs inner tree) : Occurs inner (.obj members)

/-- Some object, at any depth, has two members of one name. -/
def RepeatsName (tree : Tree) : Prop :=
  ∃ members, Occurs (.obj members) tree ∧ ¬(members.map Prod.fst).Nodup

mutual

/-- The search for a repeated name. -/
def repeats : Tree → Bool
  | .leaf _ => false
  | .arr items => anyRepeats items
  | .obj members => !decide (members.map Prod.fst).Nodup || memberRepeats members

def anyRepeats : List Tree → Bool
  | [] => false
  | tree :: rest => tree.repeats || anyRepeats rest

def memberRepeats : List (JsString × Tree) → Bool
  | [] => false
  | (_, tree) :: rest => tree.repeats || memberRepeats rest

end

theorem repeats_leaf (value : Value) : (leaf value).repeats = false := rfl

theorem anyRepeats_iff {items : List Tree} : anyRepeats items = true ↔ ∃ tree ∈ items, tree.repeats = true := by
  induction items with
  | nil => simp [anyRepeats]
  | cons tree rest ih => simp only [anyRepeats, Bool.or_eq_true, ih, List.exists_mem_cons_iff]

theorem memberRepeats_iff {members : List (JsString × Tree)} :
    memberRepeats members = true ↔ ∃ entry ∈ members, entry.2.repeats = true := by
  induction members with
  | nil => simp [memberRepeats]
  | cons entry rest ih => simp only [memberRepeats, Bool.or_eq_true, ih, List.exists_mem_cons_iff]

theorem repeats_of_occurs {inner tree : Tree} (occurs : Occurs inner tree) (found : inner.repeats = true) :
    tree.repeats = true := by
  induction occurs with
  | self => exact found
  | item member _ ih =>
    rw [repeats, anyRepeats_iff]
    exact ⟨_, member, ih⟩
  | member member _ ih =>
    rw [repeats, Bool.or_eq_true, memberRepeats_iff]
    exact .inr ⟨_, member, ih⟩

theorem RepeatsName.outward {inner tree : Tree} (found : inner.RepeatsName)
    (out : ∀ deep, Occurs deep inner → Occurs deep tree) : tree.RepeatsName := by
  obtain ⟨members, occurs, repeated⟩ := found
  exact ⟨members, out _ occurs, repeated⟩

mutual

theorem repeatsName_of_repeats : ∀ tree : Tree, tree.repeats = true → tree.RepeatsName
  | .leaf value, found => by
    rw [repeats_leaf] at found
    cases found
  | .arr items, found => by
    rw [repeats] at found
    obtain ⟨tree, member, deeper⟩ := exists_of_anyRepeats items found
    exact deeper.outward fun _ occurs => .item member occurs
  | .obj members, found => by
    rw [repeats, Bool.or_eq_true] at found
    rcases found with here | deep
    · refine ⟨members, .self _, ?_⟩
      simpa using here
    · obtain ⟨name, tree, member, deeper⟩ := exists_of_memberRepeats members deep
      exact deeper.outward fun _ occurs => .member member occurs

theorem exists_of_anyRepeats : ∀ items : List Tree, anyRepeats items = true → ∃ tree ∈ items, tree.RepeatsName
  | [], found => by
    rw [anyRepeats] at found
    cases found
  | tree :: rest, found => by
    rw [anyRepeats, Bool.or_eq_true] at found
    rcases found with first | later
    · exact ⟨tree, List.mem_cons_self, repeatsName_of_repeats tree first⟩
    · obtain ⟨other, member, deeper⟩ := exists_of_anyRepeats rest later
      exact ⟨other, List.mem_cons_of_mem _ member, deeper⟩

theorem exists_of_memberRepeats : ∀ members : List (JsString × Tree), memberRepeats members = true →
    ∃ name tree, (name, tree) ∈ members ∧ tree.RepeatsName
  | [], found => by
    rw [memberRepeats] at found
    cases found
  | (name, tree) :: rest, found => by
    rw [memberRepeats, Bool.or_eq_true] at found
    rcases found with first | later
    · exact ⟨name, tree, List.mem_cons_self, repeatsName_of_repeats tree first⟩
    · obtain ⟨name, other, member, deeper⟩ := exists_of_memberRepeats rest later
      exact ⟨name, other, List.mem_cons_of_mem _ member, deeper⟩

end

theorem repeats_iff {tree : Tree} : tree.repeats = true ↔ tree.RepeatsName := by
  constructor
  · exact repeatsName_of_repeats tree
  · rintro ⟨members, occurs, repeated⟩
    refine repeats_of_occurs occurs ?_
    rw [repeats, Bool.or_eq_true]
    exact .inl (by simpa using repeated)

instance (tree : Tree) : Decidable tree.RepeatsName := decidable_of_iff (tree.repeats = true) repeats_iff

end Tree

/-! ## Reading -/

mutual

/-- One value and the text after it; every nested call spends one unit of fuel. -/
def readValue : ℕ → JsString → Option (Tree × JsString)
  | 0, _ => none
  | fuel + 1, text =>
    match skipSpace text with
    | [] => none
    | u :: rest =>
      if u = unit '\x7b' then
        match skipSpace rest with
        | [] => none
        | v :: tail =>
          if v = unit '\x7d' then some (.obj [], tail)
          else (readMembers fuel (v :: tail)).map fun (members, tail) => (.obj members, tail)
      else if u = unit '[' then
        match skipSpace rest with
        | [] => none
        | v :: tail =>
          if v = unit ']' then some (.arr [], tail)
          else (readItems fuel (v :: tail)).map fun (items, tail) => (.arr items, tail)
      else if u = unit '"' then (parseString rest).map fun (s, tail) => (.leaf (.str s), tail)
      else if u = unit 't' then (stripPrefix? (js "rue") rest).map fun tail => (.leaf (.bool true), tail)
      else if u = unit 'f' then (stripPrefix? (js "alse") rest).map fun tail => (.leaf (.bool false), tail)
      else if u = unit 'n' then (stripPrefix? (js "ull") rest).map fun tail => (.leaf .null, tail)
      else (parseNumber (u :: rest)).map fun (n, tail) => (.leaf (.num n), tail)

/-- The members of an object from a member name on. -/
def readMembers : ℕ → JsString → Option (List (JsString × Tree) × JsString)
  | 0, _ => none
  | fuel + 1, text =>
    match skipSpace text with
    | [] => none
    | u :: rest =>
      if u = unit '"' then do
        let (name, rest) ← parseString rest
        match skipSpace rest with
        | [] => none
        | c :: rest =>
          if c = unit ':' then do
            let (tree, rest) ← readValue fuel rest
            match skipSpace rest with
            | [] => none
            | s :: rest =>
              if s = unit ',' then (readMembers fuel rest).map fun (members, tail) => ((name, tree) :: members, tail)
              else if s = unit '\x7d' then some ([(name, tree)], rest)
              else none
          else none
      else none

/-- The elements of an array from an element on. -/
def readItems : ℕ → JsString → Option (List Tree × JsString)
  | 0, _ => none
  | fuel + 1, text => do
    let (tree, rest) ← readValue fuel text
    match skipSpace rest with
    | [] => none
    | s :: rest =>
      if s = unit ',' then (readItems fuel rest).map fun (items, tail) => (tree :: items, tail)
      else if s = unit ']' then some ([tree], rest)
      else none

end

/-- The tree of a JSON text, with a syntax error as `none`. -/
def read (text : JsString) : Option Tree :=
  match readValue (text.length + 1) text with
  | some (tree, rest) => if skipSpace rest = [] then some tree else none
  | none => none

private theorem parse_of_readers (fuel : ℕ) :
    (∀ text, parseValue fuel text = (readValue fuel text).map fun (tree, rest) => (tree.value, rest))
      ∧ (∀ text fields, parseMembers fuel text fields =
        (readMembers fuel text).map fun (members, rest) => (.obj (Tree.assign fields members), rest))
      ∧ ∀ text items, parseItems fuel text items =
        (readItems fuel text).map fun (trees, rest) => (.arr (items ++ Tree.values trees), rest) := by
  induction fuel with
  | zero =>
    refine ⟨fun text => ?_, fun text fields => ?_, fun text items => ?_⟩
    · rw [parseValue, readValue, Option.map_none]
    · rw [parseMembers, readMembers, Option.map_none]
    · rw [parseItems, readItems, Option.map_none]
  | succ fuel ih =>
    obtain ⟨values, members, elements⟩ := ih
    refine ⟨fun text => ?_, fun text fields => ?_, fun text items => ?_⟩
    · rw [parseValue, readValue]
      cases skipSpace text with
      | nil => rfl
      | cons u rest =>
        dsimp only
        split
        · cases skipSpace rest with
          | nil => rfl
          | cons v tail =>
            dsimp only
            split
            · rfl
            · rw [members, Option.map_map]
              rfl
        · split
          · cases skipSpace rest with
            | nil => rfl
            | cons v tail =>
              dsimp only
              split
              · rfl
              · rw [elements, Option.map_map]
                rfl
          · repeat' split
            all_goals
              rw [Option.map_map]
              rfl
    · rw [parseMembers, readMembers]
      cases skipSpace text with
      | nil => rfl
      | cons u rest =>
        dsimp only
        split
        · cases parseString rest with
          | none => rfl
          | some read =>
            obtain ⟨name, rest⟩ := read
            simp only [Option.bind_eq_bind, Option.bind_some]
            cases skipSpace rest with
            | nil => rfl
            | cons c rest =>
              dsimp only
              split
              · rw [values]
                cases readValue fuel rest with
                | none => rfl
                | some read =>
                  obtain ⟨tree, rest⟩ := read
                  simp only [Option.map_some, Option.bind_some]
                  cases skipSpace rest with
                  | nil => rfl
                  | cons s rest =>
                    dsimp only
                    split
                    · rw [members, Option.map_map]
                      rfl
                    · split <;> rfl
              · rfl
        · rfl
    · rw [parseItems, readItems, values]
      cases readValue fuel text with
      | none => rfl
      | some read =>
        obtain ⟨tree, rest⟩ := read
        simp only [Option.map_some, Option.bind_eq_bind, Option.bind_some]
        cases skipSpace rest with
        | nil => rfl
        | cons s rest =>
          dsimp only
          split
          · rw [elements, Option.map_map]
            cases readItems fuel rest with
            | none => rfl
            | some read => simp [Tree.values]
          · split
            · rfl
            · rfl

/-- `parse` returns the value of the tree that the text spells. -/
theorem parse_eq_read (text : JsString) : parse text = (read text).map Tree.value := by
  unfold parse read
  rw [(parse_of_readers _).1]
  cases readValue (text.length + 1) text with
  | none => rfl
  | some read =>
    obtain ⟨tree, rest⟩ := read
    dsimp only [Option.map_some]
    split <;> rfl

/-! ## The characters between tokens -/

/-- The characters that delimit strings, objects, arrays and their parts. -/
def isStructural (u : UInt16) : Bool :=
  u == unit '"' || u == unit '\x7b' || u == unit '\x7d' || u == unit '[' || u == unit ']' || u == unit ',' || u == unit ':'

/-- A stretch of text without strings and delimiters. -/
def Plain (text : JsString) : Prop := ∀ u ∈ text, isStructural u = false

instance (text : JsString) : Decidable (Plain text) := List.decidableBAll _ text

theorem Plain.nil : Plain [] := fun _ member => absurd member List.not_mem_nil

theorem Plain.cons {u : UInt16} {text : JsString} (first : isStructural u = false) (rest : Plain text) : Plain (u :: text) :=
  List.forall_mem_cons.mpr ⟨first, rest⟩

theorem Plain.append {s t : JsString} (first : Plain s) (rest : Plain t) : Plain (s ++ t) :=
  List.forall_mem_append.mpr ⟨first, rest⟩

/-- The text starts with a plain stretch before the rest. -/
def Passes (text rest : JsString) : Prop := ∃ plain, Plain plain ∧ text = plain ++ rest

theorem Passes.refl (text : JsString) : Passes text text := ⟨[], .nil, rfl⟩

theorem Passes.cons {u : UInt16} {text rest : JsString} (first : isStructural u = false) (passes : Passes text rest) :
    Passes (u :: text) rest := by
  obtain ⟨plain, isPlain, rfl⟩ := passes
  exact ⟨u :: plain, isPlain.cons first, rfl⟩

theorem Passes.trans {text middle rest : JsString} (first : Passes text middle) (second : Passes middle rest) :
    Passes text rest := by
  obtain ⟨s, isPlain, rfl⟩ := first
  obtain ⟨t, alsoPlain, rfl⟩ := second
  exact ⟨s ++ t, isPlain.append alsoPlain, (List.append_assoc s t rest).symm⟩

/-- Dropping plain characters passes over them. -/
theorem passes_dropWhile {accept : UInt16 → Bool} (accepted : ∀ u, accept u = true → isStructural u = false)
    (text : JsString) : Passes text (text.dropWhile accept) :=
  ⟨text.takeWhile accept, fun u member => accepted u (List.mem_takeWhile_imp member),
    (List.takeWhile_append_dropWhile).symm⟩

theorem plain_of_space {u : UInt16} (space : isSpace u = true) : isStructural u = false := by
  simp only [isSpace, Bool.or_eq_true, beq_iff_eq] at space
  rcases space with ((rfl | rfl) | rfl) | rfl <;> decide

theorem plain_of_digit {u : UInt16} (digit : isDigit u = true) : isStructural u = false := by
  have lower : (unit '0').toNat = 48 := rfl
  have upper : (unit '9').toNat = 57 := rfl
  simp only [isDigit, Bool.and_eq_true, decide_eq_true_eq, UInt16.le_iff_toNat_le, lower, upper] at digit
  simp only [isStructural, Bool.or_eq_false_iff, beq_eq_false_iff_ne, ne_eq]
  refine ⟨⟨⟨⟨⟨⟨?_, ?_⟩, ?_⟩, ?_⟩, ?_⟩, ?_⟩, ?_⟩ <;>
    · rintro rfl
      revert digit
      decide

theorem passes_skipSpace (text : JsString) : Passes text (skipSpace text) := passes_dropWhile (fun _ => plain_of_space) text

theorem passes_digits (text : JsString) : Passes text (text.span isDigit).2 := by
  rw [List.span_eq_takeWhile_dropWhile]
  exact passes_dropWhile (fun _ => plain_of_digit) text

private theorem passes_fraction {text digits rest : JsString} (read : parseFraction text = some (digits, rest)) :
    Passes text rest := by
  unfold parseFraction at read
  split at read
  · cases read
    exact .refl _
  · next u tail =>
    split at read
    · next dot =>
      split at read
      next digits' rest' spanned =>
      split at read
      · cases read
      · cases read
        subst dot
        have passes := passes_digits tail
        rw [spanned] at passes
        exact passes.cons (by decide)
    · cases read
      exact .refl _

private theorem passes_exponent {text rest : JsString} {exponent : ℤ} (read : parseExponent text = some (exponent, rest)) :
    Passes text rest := by
  unfold parseExponent at read
  split at read
  · cases read
    exact .refl _
  · next u tail =>
    split at read
    · next mark =>
      have first : isStructural u = false := by
        rcases mark with rfl | rfl <;> decide
      have afterSign : ∀ after, Passes tail after → Passes (u :: tail) (after.span isDigit).2 := fun after signed =>
        (signed.trans (passes_digits after)).cons first
      split at read
      next negative after signed =>
      have sign : Passes tail after := by
        split at signed
        · cases signed
          exact .refl _
        · split at signed
          · next minus =>
            cases signed
            subst minus
            exact (Passes.refl _).cons (by decide)
          · split at signed
            · next plus =>
              cases signed
              subst plus
              exact (Passes.refl _).cons (by decide)
            · cases signed
              exact .refl _
      have passes := afterSign after sign
      split at read
      next digits rest' spanned =>
      rw [spanned] at passes
      split at read
      · cases read
      · cases read
        exact passes
    · cases read
      exact .refl _

private theorem passes_magnitude {negative : Bool} {text rest : JsString} {n : JsNumber}
    (read : parseMagnitude negative text = some (n, rest)) : Passes text rest := by
  unfold parseMagnitude at read
  split at read
  next whole afterWhole spanned =>
  have passes := passes_digits text
  rw [spanned] at passes
  split at read
  · cases read
  · simp only [Option.bind_eq_bind, Option.bind_eq_some_iff, Prod.exists, Option.pure_def, Option.some.injEq,
      Prod.mk.injEq] at read
    obtain ⟨fraction, afterFraction, readFraction, exponent, afterExponent, readExponent, _, rfl⟩ := read
    exact (passes.trans (passes_fraction readFraction)).trans (passes_exponent readExponent)

theorem passes_number {text rest : JsString} {n : JsNumber} (read : parseNumber text = some (n, rest)) :
    Passes text rest := by
  unfold parseNumber at read
  split at read
  · cases read
  · split at read
    · next minus =>
      subst minus
      exact (passes_magnitude read).cons (by decide)
    · exact passes_magnitude read

theorem passes_word {word text rest : JsString} (plain : Plain word) (read : stripPrefix? word text = some rest) :
    Passes text rest := by
  induction word generalizing text with
  | nil =>
    rw [stripPrefix?] at read
    cases read
    exact .refl _
  | cons w word ih =>
    cases text with
    | nil =>
      rw [stripPrefix?] at read
      cases read
    | cons u text =>
      rw [stripPrefix?] at read
      split at read
      · next same =>
        subst same
        exact (ih (fun v member => plain v (List.mem_cons_of_mem _ member)) read).cons (plain w List.mem_cons_self)
      · cases read

/-! ## What a reader goes through -/

/-- The ways to read a value. -/
inductive ValueRead (fuel : ℕ) (text rest : JsString) : Tree → Prop
  | leaf (value : Value) (passes : Passes text rest) : ValueRead fuel text rest (.leaf value)
  | string {s tail : JsString} (opens : Passes text (unit '"' :: tail)) (read : parseString tail = some (s, rest)) :
    ValueRead fuel text rest (.leaf (.str s))
  | emptyArr {tail : JsString} (opens : Passes text (unit '[' :: tail)) (closes : Passes tail (unit ']' :: rest)) :
    ValueRead fuel text rest (.arr [])
  | arr {tail inner : JsString} {items : List Tree} (opens : Passes text (unit '[' :: tail)) (space : Passes tail inner)
    (read : readItems fuel inner = some (items, rest)) : ValueRead fuel text rest (.arr items)
  | emptyObj {tail : JsString} (opens : Passes text (unit '\x7b' :: tail)) (closes : Passes tail (unit '\x7d' :: rest)) :
    ValueRead fuel text rest (.obj [])
  | obj {tail inner : JsString} {members : List (JsString × Tree)} (opens : Passes text (unit '\x7b' :: tail))
    (space : Passes tail inner) (read : readMembers fuel inner = some (members, rest)) :
    ValueRead fuel text rest (.obj members)

private theorem passes_to {text : JsString} {u : UInt16} {rest : JsString} (skipped : skipSpace text = u :: rest) :
    Passes text (u :: rest) := skipped ▸ passes_skipSpace text

theorem valueRead_of_read {fuel : ℕ} {text rest : JsString} {tree : Tree}
    (read : readValue (fuel + 1) text = some (tree, rest)) : ValueRead fuel text rest tree := by
  rw [readValue] at read
  split at read
  · cases read
  · next u tail skipped =>
    have start := passes_to skipped
    split at read
    · next opens =>
      subst opens
      split at read
      · cases read
      · next v inner between =>
        have space := passes_to between
        split at read
        · next closes =>
          cases read
          subst closes
          exact .emptyObj start space
        · obtain ⟨⟨members, after⟩, inside, same⟩ := Option.map_eq_some_iff.mp read
          cases same
          exact .obj start space inside
    · split at read
      · next opens =>
        subst opens
        split at read
        · cases read
        · next v inner between =>
          have space := passes_to between
          split at read
          · next closes =>
            cases read
            subst closes
            exact .emptyArr start space
          · obtain ⟨⟨items, after⟩, inside, same⟩ := Option.map_eq_some_iff.mp read
            cases same
            exact .arr start space inside
      · split at read
        · next opens =>
          subst opens
          obtain ⟨⟨s, after⟩, inside, same⟩ := Option.map_eq_some_iff.mp read
          cases same
          exact .string start inside
        · have word : ∀ {letter : UInt16} {word : JsString} {value : Value}, u = letter → isStructural letter = false →
              Plain word → ((stripPrefix? word tail).map fun tail => (Tree.leaf value, tail)) = some (tree, rest) →
              ValueRead fuel text rest tree := by
            intro letter word value same plain plainWord found
            obtain ⟨after, stripped, paired⟩ := Option.map_eq_some_iff.mp found
            cases paired
            subst same
            exact .leaf value (start.trans ((passes_word plainWord stripped).cons plain))
          split at read
          · next letter => exact word letter (by decide) (by decide) read
          · split at read
            · next letter => exact word letter (by decide) (by decide) read
            · split at read
              · next letter => exact word letter (by decide) (by decide) read
              · obtain ⟨⟨n, after⟩, number, same⟩ := Option.map_eq_some_iff.mp read
                cases same
                exact .leaf (.num n) (start.trans (passes_number number))

/-- The ways to go on after a member or an element: the closing delimiter, or a comma and the rest of the list. -/
def Continues {α : Type} (more : JsString → Option (List α × JsString)) (closer : Char) (text : JsString) (rest : JsString)
    (others : List α) : Prop :=
  Passes text (unit closer :: rest) ∧ others = [] ∨ ∃ next, Passes text (unit ',' :: next) ∧ more next = some (others, rest)

theorem readMembers_spec {fuel : ℕ} {text rest : JsString} {members : List (JsString × Tree)}
    (read : readMembers (fuel + 1) text = some (members, rest)) : ∃ name tree others opened named valued after,
      members = (name, tree) :: others ∧ Passes text (unit '"' :: opened) ∧ parseString opened = some (name, named)
        ∧ Passes named (unit ':' :: valued) ∧ readValue fuel valued = some (tree, after)
        ∧ Continues (readMembers fuel) '\x7d' after rest others := by
  rw [readMembers] at read
  split at read
  · cases read
  · next u opened skipped =>
    split at read
    · next quoted =>
      subst quoted
      simp only [Option.bind_eq_bind, Option.bind_eq_some_iff, Prod.exists] at read
      obtain ⟨name, named, string, read⟩ := read
      split at read
      · cases read
      · next c valued colon =>
        split at read
        · next isColon =>
          subst isColon
          simp only [Option.bind_eq_some_iff, Prod.exists] at read
          obtain ⟨tree, after, inside, read⟩ := read
          split at read
          · cases read
          · next s next separator =>
            split at read
            · next comma =>
              subst comma
              obtain ⟨⟨others, ending⟩, further, same⟩ := Option.map_eq_some_iff.mp read
              cases same
              exact ⟨name, tree, others, opened, named, valued, after, rfl, passes_to skipped, string, passes_to colon,
                inside, .inr ⟨next, passes_to separator, further⟩⟩
            · split at read
              · next closes =>
                subst closes
                cases read
                exact ⟨name, tree, [], opened, named, valued, after, rfl, passes_to skipped, string, passes_to colon,
                  inside, .inl ⟨passes_to separator, rfl⟩⟩
              · cases read
        · cases read
    · cases read

theorem readItems_spec {fuel : ℕ} {text rest : JsString} {items : List Tree}
    (read : readItems (fuel + 1) text = some (items, rest)) : ∃ tree others after,
      items = tree :: others ∧ readValue fuel text = some (tree, after)
        ∧ Continues (readItems fuel) ']' after rest others := by
  rw [readItems] at read
  simp only [Option.bind_eq_bind, Option.bind_eq_some_iff, Prod.exists] at read
  obtain ⟨tree, after, inside, read⟩ := read
  split at read
  · cases read
  · next s next separator =>
    split at read
    · next comma =>
      subst comma
      obtain ⟨⟨others, ending⟩, further, same⟩ := Option.map_eq_some_iff.mp read
      cases same
      exact ⟨tree, others, after, rfl, inside, .inr ⟨next, passes_to separator, further⟩⟩
    · split at read
      · next closes =>
        subst closes
        cases read
        exact ⟨tree, [], after, rfl, inside, .inl ⟨passes_to separator, rfl⟩⟩
      · cases read

end PersistentHarness.Json
