import Mathlib.Data.List.TakeWhile
import PersistentHarness.Model.SessionHistory

/-! # The query language of the history

A query is terms and quoted phrases between white space. The parser accepts exactly the texts of that grammar, with the clauses
that they spell, and what it asks the full-text index for reads back as these clauses: no text of a clause ends its quotes.
-/

namespace PersistentHarness.SessionHistory

section Phrases

/-- The text between the quotes of a phrase, with its value. -/
inductive Quoted : JsString → JsString → Prop
  | nil : Quoted [] []
  | escaped {v : UInt16} {value body : JsString} (named : v = 0x22 ∨ v = 0x5C) (rest : Quoted value body) :
      Quoted (v :: value) (0x5C :: v :: body)
  | plain {u : UInt16} {value body : JsString} (other : u ≠ 0x22)
      (alone : u = 0x5C → ∃ v more, body = v :: more ∧ ¬(v = 0x22 ∨ v = 0x5C)) (rest : Quoted value body) :
      Quoted (u :: value) (u :: body)

variable {text value after : JsString}

theorem quoted_of_readPhrase (read : readPhrase text = some (value, after)) :
    ∃ body, text = body ++ 0x22 :: after ∧ Quoted value body := by
  induction text using readPhrase.induct generalizing value with
  | case1 => cases read
  | case2 =>
    cases read
    exact ⟨[], rfl, .nil⟩
  | case3 u other =>
    rw [readPhrase, if_neg other] at read
    cases read
  | case4 v rest =>
    rw [readPhrase, if_pos rfl] at read
    cases read
    exact ⟨[], rfl, .nil⟩
  | case5 u v rest other named ih =>
    rw [readPhrase, if_neg other, if_pos named] at read
    obtain ⟨⟨later, behind⟩, found, same⟩ := Option.map_eq_some_iff.mp read
    cases same
    obtain ⟨body, rfl, quoted⟩ := ih found
    exact ⟨u :: v :: body, rfl, named.1 ▸ .escaped named.2 quoted⟩
  | case6 u v rest other plain ih =>
    rw [readPhrase, if_neg other, if_neg plain] at read
    obtain ⟨⟨later, behind⟩, found, same⟩ := Option.map_eq_some_iff.mp read
    cases same
    obtain ⟨body, split, quoted⟩ := ih found
    refine ⟨u :: body, by rw [split]; rfl, .plain other (fun backslash => ?_) quoted⟩
    cases body with
    | nil => exact absurd ⟨backslash, .inl (List.cons.inj split).1⟩ plain
    | cons w more =>
      obtain ⟨rfl, -⟩ := List.cons.inj split
      exact ⟨v, more, rfl, fun named => plain ⟨backslash, named⟩⟩

theorem readPhrase_of_quoted {body : JsString} (quoted : Quoted value body) :
    readPhrase (body ++ 0x22 :: after) = some (value, after) := by
  induction quoted with
  | nil =>
    cases after with
    | nil => rfl
    | cons u rest => rfl
  | escaped named rest ih =>
    rw [List.cons_append, List.cons_append, readPhrase, if_neg (by decide), if_pos ⟨rfl, named⟩, ih]
    rfl
  | @plain u value body other alone rest ih =>
    obtain ⟨v, more, same, free⟩ : ∃ v more, body ++ 0x22 :: after = v :: more ∧ ¬(u = 0x5C ∧ (v = 0x22 ∨ v = 0x5C)) := by
      cases body with
      | nil =>
        refine ⟨0x22, after, rfl, fun named => ?_⟩
        obtain ⟨v, more, same, -⟩ := alone named.1
        cases same
      | cons v more =>
        refine ⟨v, more ++ 0x22 :: after, rfl, fun named => ?_⟩
        obtain ⟨_, _, same, free⟩ := alone named.1
        cases same
        exact free named.2
    rw [List.cons_append, same, readPhrase, if_neg other, if_neg free, ← same, ih]
    rfl

end Phrases

section Clauses

/-- A clause as a query spells it. -/
inductive Spelled : Clause → JsString → Prop
  | phrase {value body : JsString} (quoted : Quoted value body) (filled : value.trim ≠ []) :
      Spelled ⟨value, true, false⟩ (0x22 :: (body ++ [0x22]))
  | term {value : JsString} {isPrefix : Bool} (filled : value ≠ []) (bare : value.head? ≠ some 0x22)
      (solid : ∀ u ∈ value, isWhiteSpace u = false ∧ u ≠ 0x2A) :
      Spelled ⟨value, false, isPrefix⟩ (value ++ if isPrefix then [0x2A] else [])

/-- A clause ends with the text or at white space. -/
def Ends (after : JsString) : Prop := ∀ u ∈ after.head?, isWhiteSpace u = true

variable {text rest after : JsString} {clause : Clause}

theorem phraseClause_eq_ok : phraseClause rest = .ok (clause, after) ↔
    ∃ value body, rest = body ++ 0x22 :: after ∧ Quoted value body ∧ value.trim ≠ [] ∧ Ends after ∧ clause = ⟨value, true, false⟩ := by
  have ends_iff : ∀ after : JsString, ¬(after.head?.any fun u => !isWhiteSpace u) = true ↔ Ends after := by
    intro after
    cases after <;> simp [Ends]
  constructor
  · intro done
    unfold phraseClause at done
    split at done
    · cases done
    · next value behind read =>
      split at done
      · cases done
      · next filled =>
        split at done
        · cases done
        · next ends =>
          cases done
          obtain ⟨body, split, quoted⟩ := quoted_of_readPhrase read
          exact ⟨value, body, split, quoted, filled, (ends_iff _).mp ends, rfl⟩
  · rintro ⟨value, body, rfl, quoted, filled, ends, rfl⟩
    simp only [phraseClause, readPhrase_of_quoted quoted, if_neg filled, if_neg ((ends_iff _).mpr ends)]
    rfl

theorem termClause_of_spelled {value : JsString} {isPrefix : Bool} (filled : value ≠ [])
    (solid : ∀ u ∈ value, isWhiteSpace u = false ∧ u ≠ 0x2A) (ends : Ends after) :
    termClause ((value ++ if isPrefix then [0x2A] else []) ++ after) = .ok (⟨value, false, isPrefix⟩, after) := by
  have word : ∀ u ∈ value ++ (if isPrefix then [0x2A] else []), (!isWhiteSpace u) = true := by
    intro u present
    rcases List.mem_append.mp present with present | present
    · simp [(solid u present).1]
    · cases isPrefix <;> simp_all [isWhiteSpace]
  have none : value.count 0x2A = 0 := List.count_eq_zero.mpr fun star => (solid _ star).2 rfl
  have open_ : after.takeWhile (fun u => !isWhiteSpace u) = [] ∧ after.dropWhile (fun u => !isWhiteSpace u) = after := by
    cases after <;> simp_all [Ends]
  simp only [termClause, List.takeWhile_append_of_pos word, List.dropWhile_append_of_pos word, open_, List.append_nil]
  cases isPrefix
  · simp [none, filled]
  · simp [none, filled]

theorem spelled_of_termClause (done : termClause text = .ok (clause, after)) :
    ∃ value isPrefix, text = (value ++ if isPrefix then [0x2A] else []) ++ after ∧ value ≠ [] ∧
      (∀ u ∈ value, isWhiteSpace u = false ∧ u ≠ 0x2A) ∧ Ends after ∧ clause = ⟨value, false, isPrefix⟩ := by
  have split := (List.takeWhile_append_dropWhile (p := fun u => !isWhiteSpace u) (l := text)).symm
  have solid : ∀ u ∈ text.takeWhile (fun u => !isWhiteSpace u), isWhiteSpace u = false := fun u present => by
    simpa using List.all_eq_true.mp List.all_takeWhile u present
  have ends : Ends (text.dropWhile fun u => !isWhiteSpace u) := fun u first => by
    have fact := List.head?_dropWhile_not (fun u => !isWhiteSpace u) text
    rw [first] at fact
    simpa using fact
  simp only [termClause] at done
  generalize text.takeWhile (fun u => !isWhiteSpace u) = word at *
  generalize text.dropWhile (fun u => !isWhiteSpace u) = behind at *
  by_cases starred : word.count 0x2A = 1 ∧ word.getLast? = some 0x2A
  · obtain ⟨value, rfl⟩ := List.getLast?_eq_some_iff.mp starred.2
    have none : value.count 0x2A = 0 := by simpa using starred.1
    rw [if_neg (fun bad => bad.2 starred), if_pos starred, List.dropLast_concat] at done
    split_ifs at done with empty
    cases done
    exact ⟨value, true, split, empty, fun u present => ⟨solid u (List.mem_append_left _ present),
      fun star => List.count_eq_zero.mp none (star ▸ present)⟩, ends, by rw [decide_eq_true starred]⟩
  · split_ifs at done with bad empty
    cases done
    have none : word.count 0x2A = 0 := by tauto
    exact ⟨word, false, by simpa using split, empty, fun u present => ⟨solid u present,
      fun star => List.count_eq_zero.mp none (star ▸ present)⟩, ends, by rw [decide_eq_false starred]⟩

/-- Reading one clause of a text is splitting off what spells it. -/
theorem readClause_eq_ok {u : UInt16} : (if u = 0x22 then phraseClause rest else termClause (u :: rest)) = .ok (clause, after) ↔
    ∃ written, Spelled clause written ∧ u :: rest = written ++ after ∧ Ends after := by
  constructor
  · intro done
    split_ifs at done with quote
    · obtain ⟨value, body, rfl, quoted, filled, ends, rfl⟩ := phraseClause_eq_ok.mp done
      exact ⟨_, .phrase quoted filled, by simp [quote], ends⟩
    · obtain ⟨value, isPrefix, split, filled, solid, ends, rfl⟩ := spelled_of_termClause done
      refine ⟨_, .term filled (fun first => quote ?_) solid, split, ends⟩
      obtain ⟨later, rfl⟩ := List.head?_eq_some_iff.mp first
      exact (List.cons.inj split).1
  · rintro ⟨written, ⟨quoted, filled⟩ | ⟨filled, bare, solid⟩, split, ends⟩
    · obtain ⟨rfl, rfl⟩ := List.cons.inj split
      exact phraseClause_eq_ok.mpr ⟨_, _, by simp, quoted, filled, ends, rfl⟩
    · rw [if_neg, split, termClause_of_spelled filled solid ends]
      rintro rfl
      obtain ⟨v, later, rfl⟩ := List.exists_cons_of_ne_nil filled
      exact bare (congrArg some (List.cons.inj split).1.symm)

end Clauses

section Queries

/-- A query spells its clauses between white space. -/
inductive Renders : List Clause → JsString → Prop
  | blank {white : JsString} (all : ∀ u ∈ white, isWhiteSpace u = true) : Renders [] white
  | clause {clause : Clause} {clauses : List Clause} {white written after : JsString} (all : ∀ u ∈ white, isWhiteSpace u = true)
      (one : Spelled clause written) (ends : Ends after) (rest : Renders clauses after) :
      Renders (clause :: clauses) (white ++ (written ++ after))

variable {text asked : JsString} {clauses : List Clause}

theorem Spelled.head {clause : Clause} {written : JsString} (one : Spelled clause written) :
    ∃ u later, written = u :: later ∧ isWhiteSpace u = false := by
  rcases one with ⟨quoted, filled⟩ | ⟨filled, bare, solid⟩
  · exact ⟨_, _, rfl, by decide⟩
  · obtain ⟨v, later, rfl⟩ := List.exists_cons_of_ne_nil filled
    exact ⟨v, _, rfl, (solid v (List.mem_cons_self ..)).1⟩

theorem renders_nil (blank : text.dropWhile isWhiteSpace = []) : Renders clauses text ↔ clauses = [] := by
  have all : ∀ u ∈ text, isWhiteSpace u = true := List.dropWhile_eq_nil_iff.mp blank
  constructor
  · rintro (⟨-⟩ | ⟨-, one, -, -⟩)
    · rfl
    · obtain ⟨u, later, rfl, solid⟩ := one.head
      simp [all u (by simp)] at solid
  · rintro rfl
    exact .blank all

theorem renders_cons {u : UInt16} {rest : JsString} (first : text.dropWhile isWhiteSpace = u :: rest) :
    Renders clauses text ↔ ∃ clause later after, clauses = clause :: later ∧
      (if u = 0x22 then phraseClause rest else termClause (u :: rest)) = .ok (clause, after) ∧ Renders later after := by
  constructor
  · rintro (⟨all⟩ | ⟨all, one, ends, later⟩)
    · rw [List.dropWhile_eq_nil_iff.mpr all] at first
      cases first
    · obtain ⟨v, more, rfl, solid⟩ := one.head
      rw [List.dropWhile_append_of_pos all, List.cons_append, List.dropWhile_cons_of_neg (by simp [solid])] at first
      exact ⟨_, _, _, rfl, readClause_eq_ok.mpr ⟨_, one, first.symm, ends⟩, later⟩
  · rintro ⟨clause, later, after, rfl, done, behind⟩
    obtain ⟨written, one, split, ends⟩ := readClause_eq_ok.mp done
    rw [← List.takeWhile_append_dropWhile (p := isWhiteSpace) (l := text), first, split]
    exact .clause (fun u present => List.all_eq_true.mp List.all_takeWhile u present) one ends behind

theorem readClauses_eq_ok {fuel : ℕ} {read all : List Clause} (enough : text.length ≤ fuel) (few : read.length ≤ maxQueryClauses) :
    readClauses fuel text read = .ok all ↔
      ∃ clauses, all = read ++ clauses ∧ all.length ≤ maxQueryClauses ∧ Renders clauses text := by
  induction fuel generalizing text read with
  | zero =>
    cases List.length_eq_zero_iff.mp (Nat.le_zero.mp enough)
    simp only [readClauses, Checked.pure_eq_ok, @renders_nil [] _ rfl]
    grind
  | succ fuel ih =>
    rw [readClauses]
    split
    · next blank =>
      simp only [Checked.pure_eq_ok, renders_nil blank]
      grind
    · next u rest first =>
      have shorter : ∀ {clause after}, (if u = 0x22 then phraseClause rest else termClause (u :: rest)) = .ok (clause, after) →
          after.length ≤ fuel := by
        intro clause after done
        obtain ⟨written, one, split, -⟩ := readClause_eq_ok.mp done
        obtain ⟨v, later, rfl, -⟩ := one.head
        have whole := congrArg List.length (List.takeWhile_append_dropWhile (p := isWhiteSpace) (l := text))
        rw [first, split] at whole
        simp only [List.length_append, List.length_cons] at whole
        omega
      simp only [Checked.bind_eq_ok, renders_cons first]
      constructor
      · rintro ⟨⟨clause, after⟩, done, more⟩
        split_ifs at more with many
        · cases more
        · obtain ⟨clauses, rfl, fits, behind⟩ := (ih (shorter done) (by simpa using many)).mp more
          exact ⟨clause :: clauses, by simp, fits, clause, clauses, after, rfl, done, behind⟩
      · rintro ⟨_, rfl, fits, clause, clauses, after, rfl, done, behind⟩
        refine ⟨(clause, after), done, ?_⟩
        rw [if_neg (by simp at fits ⊢; omega)]
        exact (ih (shorter done) (by simp at fits ⊢; omega)).mpr ⟨clauses, by simp, fits, behind⟩

theorem parse_eq_ok : parseSessionHistoryQuery (.str text) = .ok (clauses, asked) ↔
    ((text.trim ≠ [] ∧ text.utf8Length ≤ maxQueryBytes) ∧ text.any isControl = false) ∧
      readClauses text.length text [] = .ok clauses ∧ clauses ≠ [] ∧ asked = matchText clauses := by
  simp only [parseSessionHistoryQuery, Value.units, Value.isString, Bool.true_eq_false, false_or]
  constructor
  · intro done
    by_cases bad : text.trim = [] ∨ maxQueryBytes < text.utf8Length
    · rw [if_pos bad] at done
      cases done
    by_cases control : text.any isControl = true
    · rw [if_neg bad, if_pos control] at done
      cases done
    rw [if_neg bad, if_neg control] at done
    obtain ⟨all, read, rest⟩ := Checked.bind_eq_ok.mp done
    by_cases none : all = []
    · rw [if_pos none] at rest
      cases rest
    rw [if_neg none] at rest
    cases rest
    exact ⟨⟨⟨fun blank => bad (.inl blank), not_lt.mp fun long => bad (.inr long)⟩, Bool.eq_false_iff.mpr control⟩,
      read, none, rfl⟩
  · rintro ⟨⟨⟨filled, short⟩, plain⟩, read, some, rfl⟩
    rw [if_neg (by simp [filled, short]), if_neg (by simp [plain])]
    refine Checked.bind_eq_ok.mpr ⟨clauses, read, ?_⟩
    rw [if_neg some]
    rfl

/-- A query is accepted exactly when it spells clauses, few and short enough, and these are the clauses it is read as. -/
theorem query_accepted_iff (text asked : JsString) (clauses : List Clause) :
    parseSessionHistoryQuery (.str text) = .ok (clauses, asked) ↔
      text.trim ≠ [] ∧ text.utf8Length ≤ maxQueryBytes ∧ text.any isControl = false ∧
        clauses ≠ [] ∧ clauses.length ≤ maxQueryClauses ∧ Renders clauses text ∧ asked = matchText clauses := by
  rw [parse_eq_ok, readClauses_eq_ok le_rfl (Nat.zero_le _)]
  simp only [List.nil_append, exists_eq_left']
  tauto

end Queries

section Match

/-- A string of the index's language behind its opening quote: a doubled quote stands for a quote. -/
def readString : JsString → Option (JsString × JsString)
  | [] => none
  | [u] => if u = 0x22 then some ([], []) else none
  | u :: v :: rest =>
    if u = 0x22 then
      if v = 0x22 then (readString rest).map fun (value, after) => (0x22 :: value, after) else some ([], v :: rest)
    else (readString (v :: rest)).map fun (value, after) => (u :: value, after)

/-- Strings joined by `AND`, each with its mark of a prefix, that an expression of the index's language consists of. -/
def readMatch : ℕ → JsString → Option (List (JsString × Bool))
  | fuel + 1, 0x22 :: text => do
    let (value, after) ← readString text
    let (isPrefix, after) := if after.head? = some 0x2A then (true, after.tail) else (false, after)
    if after = [] then return [(value, isPrefix)]
    guard (js " AND " <+: after)
    return (value, isPrefix) :: (← readMatch fuel (after.drop (js " AND ").length))
  | _, _ => none

/-- The doubled quotes keep a text in its string. -/
theorem readString_doubled (value after : JsString) (open_ : after.head? ≠ some 0x22) :
    readString ((value.flatMap fun u => if u = 0x22 then [0x22, 0x22] else [u]) ++ 0x22 :: after) = some (value, after) := by
  induction value with
  | nil =>
    cases after with
    | nil => rfl
    | cons v rest => simp_all [readString]
  | cons u value ih =>
    by_cases quote : u = 0x22
    · simp [quote, readString, ih]
    · generalize whole : (value.flatMap fun u => if u = 0x22 then [0x22, 0x22] else [u]) ++ 0x22 :: after = text at ih
      have split : ((u :: value).flatMap fun u => if u = 0x22 then [0x22, 0x22] else [u]) ++ 0x22 :: after = u :: text := by
        simp [quote, ← whole]
      cases text with
      | nil => simp at whole
      | cons v rest => rw [split, readString, if_neg quote, ih, Option.map_some]

theorem readMatch_clause (clause : Clause) (fuel : ℕ) (after : JsString)
    (apart : after.head? ≠ some 0x22 ∧ after.head? ≠ some 0x2A) :
    readMatch (fuel + 1) (quoteFts clause.value ++ (if clause.isPrefix then [0x2A] else []) ++ after) =
      if after = [] then some [(clause.value, clause.isPrefix)]
      else if js " AND " <+: after then
        (readMatch fuel (after.drop (js " AND ").length)).map ((clause.value, clause.isPrefix) :: ·)
      else none := by
  have spelled : quoteFts clause.value ++ (if clause.isPrefix then [0x2A] else []) ++ after =
      0x22 :: ((clause.value.flatMap fun u => if u = 0x22 then [0x22, 0x22] else [u]) ++
        0x22 :: ((if clause.isPrefix then [0x2A] else []) ++ after)) := by
    simp [quoteFts]
  have closed : ((if clause.isPrefix then [0x2A] else []) ++ after).head? ≠ some 0x22 := by
    cases clause.isPrefix <;> simp [apart.1]
  rw [spelled, readMatch, readString_doubled _ _ closed]
  cases clause.isPrefix <;> by_cases empty : after = [] <;> by_cases joined : js " AND " <+: after <;>
    simp [apart.2, empty, joined, guard, Option.map_eq_bind]

/-- The expression reads back as the texts of its clauses, whatever stands in them. -/
theorem readMatch_matchText {clauses : List Clause} (some : clauses ≠ []) :
    readMatch clauses.length (matchText clauses) = .some (clauses.map fun clause => (clause.value, clause.isPrefix)) := by
  induction clauses with
  | nil => exact absurd rfl some
  | cons clause later ih =>
    cases later with
    | nil =>
      have one := readMatch_clause clause 0 [] (by simp)
      rw [List.append_nil, if_pos rfl] at one
      rw [matchText, List.map_singleton, List.intercalate_singleton]
      exact one
    | cons next later =>
      have sign : js " AND " = [0x20, 0x41, 0x4E, 0x44, 0x20] := by decide
      have joined := readMatch_clause clause (later.length + 1) (js " AND " ++ matchText (next :: later)) (by simp [sign])
      have more : js " AND " ++ matchText (next :: later) ≠ [] := by simp [sign]
      have rest : readMatch (later.length + 1) (matchText (next :: later)) = _ := ih (by simp)
      rw [if_neg more, if_pos (List.prefix_append ..), List.drop_left, rest] at joined
      rw [matchText, List.map_cons, List.map_cons, List.intercalate_cons_cons, List.append_assoc]
      exact joined

/-- What an accepted query asks the index for are the texts of its clauses, never syntax of the index's language. -/
theorem query_asks_clauses {text asked : JsString} {clauses : List Clause}
    (accepted : parseSessionHistoryQuery (.str text) = .ok (clauses, asked)) :
    readMatch clauses.length asked = some (clauses.map fun clause => (clause.value, clause.isPrefix)) := by
  obtain ⟨-, -, some, rfl⟩ := parse_eq_ok.mp accepted
  exact readMatch_matchText some

theorem query_asks_quoted : readMatch 2 (js "\"a\"\"b\" AND \"c\"*") = some [(js "a\"b", false), (js "c", true)] :=
  @query_asks_clauses (js "\"a\\\"b\" c*") _ [⟨js "a\"b", true, false⟩, ⟨js "c", false, true⟩] rfl

end Match

end PersistentHarness.SessionHistory
