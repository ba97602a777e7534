import PersistentHarness.Data.JsonTree
import PersistentHarness.Model.Stream.Planner

/-! # The duplicate-name scan

The scan of a signature reads delimiters and strings only. On a text that parses it goes through the tree that the text
spells: a value that repeats no name leaves the stack as it was, and one that repeats a name stops the scan.
-/

namespace PersistentHarness.Canonical

open Json (Tree unit Passes isStructural readValue readMembers readItems)

variable {ε : Type} {duplicate : ε} {stack : List (Option KeyFrame)}

/-! ## Tokens -/

theorem stringToken_close (rest : JsString) : stringToken? (unit '"' :: rest) = some ([unit '"'], rest) := by
  rw [stringToken?.eq_def]
  exact if_pos rfl

theorem stringToken_escape {e : UInt16} (inside : ¬lineTerminator e = true) (rest : JsString) :
    stringToken? (unit '\\' :: e :: rest) = (stringToken? rest).map fun (body, rest) => (unit '\\' :: e :: body, rest) := by
  rw [stringToken?.eq_def]
  dsimp only
  rw [if_neg (by decide), if_pos rfl, if_neg inside]

theorem stringToken_plain {u : UInt16} (other : u ≠ unit '"') (plain : u ≠ unit '\\') (rest : JsString) :
    stringToken? (u :: rest) = (stringToken? rest).map fun (body, rest) => (u :: body, rest) := by
  rw [stringToken?.eq_def]
  dsimp only
  rw [if_neg other, if_neg plain]

theorem stringToken_split {text body rest : JsString} (token : stringToken? text = some (body, rest)) :
    text = body ++ rest := by
  induction text using stringToken?.induct generalizing body with
  | case1 =>
    rw [stringToken?] at token
    cases token
  | case2 tail =>
    rw [stringToken_close] at token
    cases token
    rfl
  | case3 other =>
    rw [stringToken?.eq_def] at token
    cases token
  | case4 e tail ends other =>
    rw [stringToken?.eq_def] at token
    dsimp only at token
    rw [if_neg other, if_pos rfl, if_pos ends] at token
    cases token
  | case5 e tail inside other ih =>
    rw [stringToken_escape inside] at token
    obtain ⟨⟨read, after⟩, found, same⟩ := Option.map_eq_some_iff.mp token
    cases same
    rw [ih found, List.cons_append, List.cons_append]
  | case6 u tail other plain ih =>
    rw [stringToken_plain other plain] at token
    obtain ⟨⟨read, after⟩, found, same⟩ := Option.map_eq_some_iff.mp token
    cases same
    rw [ih found, List.cons_append]

/-- An escaped character is no line terminator, so the token goes through it. -/
theorem inside_of_unescape {e v : UInt16} (named : Json.unescape? e = some v) : ¬lineTerminator e = true := by
  intro ends
  have none_ : Json.unescape? e = none := by
    simp only [lineTerminator, Bool.or_eq_true, beq_iff_eq] at ends
    rcases ends with ((rfl | rfl) | rfl) | rfl <;> decide
  rw [none_] at named
  cases named

theorem signatureTokens_enough {fuel : ℕ} {text : JsString} (enough : text.length ≤ fuel) :
    signatureTokens fuel text = signatureTokens text.length text := by
  induction fuel using Nat.strong_induction_on generalizing text with
  | _ fuel ih =>
    cases text with
    | nil => cases fuel <;> rfl
    | cons u rest =>
      obtain ⟨fuel, rfl⟩ := Nat.exists_eq_succ_of_ne_zero (Nat.ne_of_gt (Nat.lt_of_lt_of_le (Nat.succ_pos _) enough))
      have shorter : ∀ after : JsString, after.length ≤ rest.length →
          signatureTokens fuel after = signatureTokens rest.length after := by
        intro after short
        have bound : rest.length ≤ fuel := Nat.le_of_succ_le_succ enough
        rw [ih fuel (Nat.lt_succ_self _) (Nat.le_trans short bound), ih rest.length (Nat.lt_succ_of_le bound) short]
      rw [List.length_cons, signatureTokens, signatureTokens]
      split
      · split
        · next body after token =>
          have length := congrArg List.length (stringToken_split token)
          rw [List.length_append] at length
          rw [shorter after (by omega)]
        · rw [shorter rest (Nat.le_refl _)]
      · rw [shorter rest (Nat.le_refl _)]

theorem plain_of_hexDigit {u : UInt16} {n : ℕ} (digit : Json.hexDigit? u = some n) : u ≠ unit '"' ∧ u ≠ unit '\\' := by
  constructor
  · rintro rfl
    revert digit
    decide +revert
  · rintro rfl
    revert digit
    decide +revert

/-- A string that `JSON.parse` reads is one token, and the token alone reads as the same string. -/
theorem stringToken_of_parse {text s rest : JsString} (read : Json.parseString text = some (s, rest)) :
    ∃ body, stringToken? text = some (body, rest) ∧ Json.parseString body = some (s, []) := by
  induction text using Json.parseString.induct generalizing s with
  | case1 =>
    rw [Json.parseString] at read
    cases read
  | case2 tail =>
    rw [Json.parseString.eq_def] at read
    cases read
    exact ⟨[unit '"'], stringToken_close rest, by decide⟩
  | case3 other =>
    rw [Json.parseString.eq_def] at read
    cases read
  | case4 a b c d tail other ih =>
    rw [Json.parseString.eq_def] at read
    dsimp only at read
    rw [if_neg other, if_pos rfl, if_pos rfl] at read
    simp only [Option.bind_eq_bind, Option.bind_eq_some_iff, Prod.exists, Option.pure_def, Option.some.injEq,
      Prod.mk.injEq] at read
    obtain ⟨v, digits, s, after, inside, rfl, rfl⟩ := read
    obtain ⟨body, token, alone⟩ := ih inside
    have hex := digits
    simp only [Json.hex4?, Option.bind_eq_bind, Option.bind_eq_some_iff] at hex
    obtain ⟨_, hexA, _, hexB, _, hexC, _, hexD, _⟩ := hex
    have digit : ∀ {u : UInt16} {n : ℕ}, Json.hexDigit? u = some n → ∀ rest, stringToken? (u :: rest) =
        (stringToken? rest).map fun (body, rest) => (u :: body, rest) := fun found rest =>
      stringToken_plain (plain_of_hexDigit found).1 (plain_of_hexDigit found).2 rest
    refine ⟨unit '\\' :: unit 'u' :: a :: b :: c :: d :: body, ?_, ?_⟩
    · rw [stringToken_escape (by decide), digit hexA, digit hexB, digit hexC, digit hexD, token]
      rfl
    · rw [Json.parseString.eq_def]
      dsimp only
      rw [if_neg other, if_pos rfl, if_pos rfl]
      simp only [digits, Option.bind_eq_bind, Option.bind_some, alone]
      rfl
  | case5 tail short other =>
    rw [Json.parseString.eq_def] at read
    dsimp only at read
    rw [if_neg other, if_pos rfl, if_pos rfl] at read
    split at read
    · exact absurd rfl (short _ _ _ _ _)
    · cases read
  | case6 e tail letter other ih =>
    rw [Json.parseString.eq_def] at read
    dsimp only at read
    rw [if_neg other, if_pos rfl, if_neg letter] at read
    simp only [Option.bind_eq_bind, Option.bind_eq_some_iff, Prod.exists, Option.pure_def, Option.some.injEq,
      Prod.mk.injEq] at read
    obtain ⟨v, named, s, after, inside, rfl, rfl⟩ := read
    obtain ⟨body, token, alone⟩ := ih inside
    refine ⟨unit '\\' :: e :: body, ?_, ?_⟩
    · rw [stringToken_escape (inside_of_unescape named), token, Option.map_some]
    · rw [Json.parseString.eq_def]
      dsimp only
      rw [if_neg other, if_pos rfl, if_neg letter, named]
      simp only [Option.bind_eq_bind, Option.bind_some, alone]
      rfl
  | case7 u tail other plain control =>
    rw [Json.parseString.eq_def] at read
    dsimp only at read
    rw [if_neg other, if_neg plain, if_pos control] at read
    cases read
  | case8 u tail other plain control ih =>
    rw [Json.parseString.eq_def] at read
    dsimp only at read
    rw [if_neg other, if_neg plain, if_neg control] at read
    simp only [Option.bind_eq_bind, Option.bind_eq_some_iff, Prod.exists, Option.pure_def, Option.some.injEq,
      Prod.mk.injEq] at read
    obtain ⟨s, after, inside, rfl, rfl⟩ := read
    obtain ⟨body, token, alone⟩ := ih inside
    refine ⟨u :: body, ?_, ?_⟩
    · rw [stringToken_plain other plain, token, Option.map_some]
    · rw [Json.parseString.eq_def]
      dsimp only
      rw [if_neg other, if_neg plain, if_neg control, alone]
      rfl

/-! ## Scanning a text -/

/-- The scan of a text from a stack of open objects and arrays. -/
def scanFrom (duplicate : ε) (stack : List (Option KeyFrame)) (text : JsString) : Except ε (List (Option KeyFrame)) :=
  (signatureTokens text.length text).foldlM (scanToken duplicate) stack

theorem scanFrom_nil : scanFrom duplicate stack [] = .ok stack := rfl

theorem punctuation_of_plain {u : UInt16} (plain : isStructural u = false) : u ≠ unit '"' ∧ ¬punctuation u = true := by
  simp only [isStructural, Bool.or_eq_false_iff, beq_eq_false_iff_ne, ne_eq] at plain
  obtain ⟨⟨⟨⟨⟨⟨quote, open_⟩, close⟩, openItems⟩, closeItems⟩, comma⟩, colon⟩ := plain
  refine ⟨quote, ?_⟩
  simp only [punctuation, Bool.or_eq_true, beq_iff_eq]
  rintro (((((same | same) | same) | same) | same) | same)
  · exact open_ same
  · exact close same
  · exact openItems same
  · exact closeItems same
  · exact comma same
  · exact colon same

theorem scanFrom_passes {text rest : JsString} (passes : Passes text rest) :
    scanFrom duplicate stack text = scanFrom duplicate stack rest := by
  obtain ⟨plain, isPlain, rfl⟩ := passes
  induction plain with
  | nil => rfl
  | cons u plain ih =>
    obtain ⟨notQuote, notDelimiter⟩ := punctuation_of_plain (isPlain u List.mem_cons_self)
    rw [← ih fun v member => isPlain v (List.mem_cons_of_mem _ member)]
    rw [scanFrom, List.cons_append, List.length_cons, signatureTokens, if_neg notQuote, if_neg notDelimiter]
    rfl

theorem scanFrom_delimiter {u : UInt16} (delimiter : punctuation u = true) (rest : JsString) :
    scanFrom duplicate stack (u :: rest) =
      scanToken duplicate stack [u] >>= fun stack => scanFrom duplicate stack rest := by
  have notQuote : u ≠ unit '"' := by
    rintro rfl
    revert delimiter
    decide
  rw [scanFrom, List.length_cons, signatureTokens, if_neg notQuote, if_pos delimiter, List.foldlM_cons]
  rfl

theorem scanFrom_string {text body rest : JsString} (token : stringToken? text = some (body, rest)) :
    scanFrom duplicate stack (unit '"' :: text) =
      scanToken duplicate stack (unit '"' :: body) >>= fun stack => scanFrom duplicate stack rest := by
  have length := congrArg List.length (stringToken_split token)
  rw [List.length_append] at length
  rw [scanFrom, List.length_cons, signatureTokens, if_pos rfl, token]
  dsimp only
  rw [List.foldlM_cons, signatureTokens_enough (by omega)]
  rfl

/-! ## One token -/

/-- The next string is not a member name. -/
def AtValue (stack : List (Option KeyFrame)) : Prop := ∀ frame ∈ stack.head?.join, frame.key = false

theorem scanToken_open : scanToken duplicate stack [unit '\x7b'] = .ok (some ⟨[], true⟩ :: stack) := if_pos rfl

theorem scanToken_openItems : scanToken duplicate stack [unit '['] = .ok (none :: stack) := by
  unfold scanToken
  rw [if_neg (by decide), if_pos rfl]

theorem scanToken_close (frame : Option KeyFrame) :
    scanToken duplicate (frame :: stack) [unit '\x7d'] = .ok stack := by
  unfold scanToken
  rw [if_neg (by decide), if_neg (by decide), if_pos (.inl rfl), List.tail_cons]

theorem scanToken_closeItems (frame : Option KeyFrame) : scanToken duplicate (frame :: stack) [unit ']'] = .ok stack := by
  unfold scanToken
  rw [if_neg (by decide), if_neg (by decide), if_pos (.inr rfl), List.tail_cons]

theorem scanToken_comma (frame : KeyFrame) : scanToken duplicate (some frame :: stack) [unit ','] =
    .ok (some { frame with key := true } :: stack) := by
  unfold scanToken
  rw [if_neg (by decide), if_neg (by decide), if_neg (by decide)]
  exact if_pos rfl

theorem scanToken_array {token : JsString} (other : token ≠ [unit '\x7b'] ∧ token ≠ [unit '[']
    ∧ ¬(token = [unit '\x7d'] ∨ token = [unit ']'])) :
    scanToken duplicate (none :: stack) token = .ok (none :: stack) := by
  unfold scanToken
  rw [if_neg other.1, if_neg other.2.1, if_neg other.2.2]

theorem scanToken_colon (frame : KeyFrame) : scanToken duplicate (some frame :: stack) [unit ':'] =
    .ok (some frame :: stack) := by
  unfold scanToken
  rw [if_neg (by decide), if_neg (by decide), if_neg (by decide)]
  dsimp only
  rw [if_neg (by decide), if_neg (fun quoted => absurd quoted.1 (by decide))]

theorem scanToken_value (atValue : AtValue stack) (body : JsString) :
    scanToken duplicate stack (unit '"' :: body) = .ok stack := by
  have different : ∀ u, u ≠ unit '"' → unit '"' :: body ≠ [u] := by
    intro u other same
    exact other (List.cons.inj same).1.symm
  unfold scanToken
  rw [if_neg (different _ (by decide)), if_neg (different _ (by decide)),
    if_neg (not_or.mpr ⟨different _ (by decide), different _ (by decide)⟩)]
  split
  · next frame outer =>
    have isValue : frame.key = false := atValue frame rfl
    rw [if_neg (different _ (by decide)), isValue, if_neg (fun named => Bool.false_ne_true named.2)]
  · rfl

theorem scanToken_name {body name : JsString} (alone : Json.parseString body = some (name, [])) (keys : List JsString) :
    scanToken duplicate (some ⟨keys, true⟩ :: stack) (unit '"' :: body) =
      if name ∈ keys then .error duplicate else .ok (some ⟨keys ++ [name], false⟩ :: stack) := by
  have different : ∀ u, u ≠ unit '"' → unit '"' :: body ≠ [u] := by
    intro u other same
    exact other (List.cons.inj same).1.symm
  have parsed : Json.parse (unit '"' :: body) = some (.str name) := by
    unfold Json.parse
    rw [List.length_cons, Json.parseValue]
    have start : Json.skipSpace (unit '"' :: body) = unit '"' :: body := by
      rw [Json.skipSpace, List.dropWhile_cons_of_neg (by decide)]
    rw [start]
    dsimp only
    rw [if_neg (by decide), if_neg (by decide), if_pos rfl, alone]
    rfl
  unfold scanToken
  rw [if_neg (different _ (by decide)), if_neg (different _ (by decide)),
    if_neg (not_or.mpr ⟨different _ (by decide), different _ (by decide)⟩)]
  dsimp only
  rw [if_neg (different _ (by decide)), if_pos ⟨rfl, rfl⟩, parsed]
  by_cases known : name ∈ keys
  · have refused : Checked.require (name ∉ keys) duplicate = .error duplicate := if_neg (not_not.mpr known)
    rw [if_pos known]
    change (Checked.require (name ∉ keys) duplicate >>= fun _ => _) = _
    rw [refused, Checked.error_bind]
  · rw [if_neg known]
    change (Checked.require (name ∉ keys) duplicate >>= fun _ => _) = _
    rw [Checked.require_of known]
    rfl

/-! ## The scan of a read text -/

/-- A name is repeated among the members of an open object, or inside one of them. -/
def repeatsAfter (keys : List JsString) (members : List (JsString × Tree)) : Bool :=
  !decide (keys ++ members.map Prod.fst).Nodup || Tree.memberRepeats members

theorem repeatsAfter_known {keys : List JsString} {name : JsString} (known : name ∈ keys) (tree : Tree)
    (others : List (JsString × Tree)) : repeatsAfter keys ((name, tree) :: others) = true := by
  have repeated : ¬(keys ++ name :: others.map Prod.fst).Nodup := fun distinct =>
    (List.nodup_append.mp distinct).2.2 name known name List.mem_cons_self rfl
  rw [repeatsAfter, List.map_cons, decide_eq_false repeated]
  rfl

theorem repeatsAfter_new {keys : List JsString} (name : JsString) (tree : Tree) (others : List (JsString × Tree)) :
    repeatsAfter keys ((name, tree) :: others) = (tree.repeats || repeatsAfter (keys ++ [name]) others) := by
  rw [repeatsAfter, repeatsAfter, Tree.memberRepeats, List.map_cons, List.append_cons, Bool.or_left_comm]

theorem repeatsAfter_nil {keys : List JsString} (distinct : keys.Nodup) : repeatsAfter keys [] = false := by
  rw [repeatsAfter, List.map_nil, List.append_nil, decide_eq_true distinct]
  rfl

theorem scan_reads (duplicate : ε) (fuel : ℕ) :
    (∀ text rest tree stack, readValue fuel text = some (tree, rest) → AtValue stack →
      scanFrom duplicate stack text = if tree.repeats then .error duplicate else scanFrom duplicate stack rest)
    ∧ (∀ text rest members keys stack, readMembers fuel text = some (members, rest) → keys.Nodup →
      scanFrom duplicate (some ⟨keys, true⟩ :: stack) text =
        if repeatsAfter keys members then .error duplicate else scanFrom duplicate stack rest)
    ∧ ∀ text rest items stack, readItems fuel text = some (items, rest) →
      scanFrom duplicate (none :: stack) text =
        if Tree.anyRepeats items then .error duplicate else scanFrom duplicate stack rest := by
  induction fuel with
  | zero =>
    refine ⟨fun text rest tree stack read => ?_, fun text rest members keys stack read => ?_,
      fun text rest items stack read => ?_⟩
    · rw [readValue] at read
      cases read
    · rw [readMembers] at read
      cases read
    · rw [readItems] at read
      cases read
  | succ fuel ih =>
    obtain ⟨values, ofMembers, ofItems⟩ := ih
    refine ⟨fun text rest tree stack read atValue => ?_, fun text rest members keys stack read distinct => ?_,
      fun text rest items stack read => ?_⟩
    · cases Json.valueRead_of_read read with
      | leaf value passes => exact scanFrom_passes passes
      | string opens string =>
        obtain ⟨body, token, _⟩ := stringToken_of_parse string
        rw [scanFrom_passes opens, scanFrom_string token, scanToken_value atValue, Checked.ok_bind]
        rfl
      | emptyArr opens closes =>
        rw [scanFrom_passes opens, scanFrom_delimiter (by decide), scanToken_openItems, Checked.ok_bind,
          scanFrom_passes closes, scanFrom_delimiter (by decide), scanToken_closeItems, Checked.ok_bind]
        rfl
      | arr opens space inside =>
        rw [scanFrom_passes opens, scanFrom_delimiter (by decide), scanToken_openItems, Checked.ok_bind,
          scanFrom_passes space, ofItems _ _ _ _ inside]
        rfl
      | emptyObj opens closes =>
        rw [scanFrom_passes opens, scanFrom_delimiter (by decide), scanToken_open, Checked.ok_bind,
          scanFrom_passes closes, scanFrom_delimiter (by decide), scanToken_close, Checked.ok_bind]
        rfl
      | obj opens space inside =>
        rw [scanFrom_passes opens, scanFrom_delimiter (by decide), scanToken_open, Checked.ok_bind,
          scanFrom_passes space, ofMembers _ _ _ _ _ inside List.nodup_nil]
        rfl
    · obtain ⟨name, tree, others, opened, named, valued, after, rfl, opens, string, colon, inside, further⟩ :=
        Json.readMembers_spec read
      obtain ⟨body, token, alone⟩ := stringToken_of_parse string
      rw [scanFrom_passes opens, scanFrom_string token, scanToken_name alone]
      by_cases known : name ∈ keys
      · rw [if_pos known, if_pos (repeatsAfter_known known tree others), Checked.error_bind]
      · have distinct' : (keys ++ [name]).Nodup := by
          refine List.nodup_append.mpr ⟨distinct, List.nodup_cons.mpr ⟨List.not_mem_nil, List.nodup_nil⟩, fun key member other single => ?_⟩
          rw [List.mem_singleton.mp single]
          exact fun same => known (same ▸ member)
        rw [if_neg known, Checked.ok_bind, scanFrom_passes colon, scanFrom_delimiter (by decide), scanToken_colon,
          Checked.ok_bind, values _ _ _ _ inside (by rintro frame ⟨⟩; rfl), repeatsAfter_new]
        cases tree.repeats with
        | true => rfl
        | false =>
          rw [if_neg Bool.false_ne_true, Bool.false_or]
          rcases further with ⟨closes, rfl⟩ | ⟨next, comma, more⟩
          · rw [scanFrom_passes closes, scanFrom_delimiter (by decide), scanToken_close, Checked.ok_bind,
              repeatsAfter_nil distinct']
            rfl
          · rw [scanFrom_passes comma, scanFrom_delimiter (by decide), scanToken_comma, Checked.ok_bind,
              ofMembers _ _ _ _ _ more distinct']
    · obtain ⟨tree, others, after, rfl, inside, further⟩ := Json.readItems_spec read
      rw [values _ _ _ _ inside (by rintro frame ⟨⟩), Tree.anyRepeats]
      cases tree.repeats with
      | true => rfl
      | false =>
        rw [if_neg Bool.false_ne_true, Bool.false_or]
        rcases further with ⟨closes, rfl⟩ | ⟨next, comma, more⟩
        · rw [scanFrom_passes closes, scanFrom_delimiter (by decide), scanToken_closeItems, Checked.ok_bind]
          rfl
        · rw [scanFrom_passes comma, scanFrom_delimiter (by decide), scanToken_array (by decide), Checked.ok_bind,
            ofItems _ _ _ _ more]

/-- The scan of a text that parses fails exactly when its tree repeats a name. -/
theorem scanNames_of_read (duplicate : ε) {text : JsString} {tree : Tree} (read : Json.read text = some tree) :
    scanNames duplicate text = if tree.repeats then .error duplicate else .ok [] := by
  unfold Json.read at read
  split at read
  · next found rest inside =>
    split at read
    · next ends =>
      cases read
      have atValue : AtValue [] := by rintro frame ⟨⟩
      have scanned := (scan_reads duplicate _).1 _ _ _ [] inside atValue
      rwa [scanFrom_passes (Json.passes_skipSpace rest), ends, scanFrom_nil] at scanned
    · cases read
  · cases read

theorem exists_tree {text : JsString} {parsed : Value} (accepted : Json.parse text = some parsed) :
    ∃ tree, Json.read text = some tree ∧ tree.value = parsed := by
  rw [Json.parse_eq_read] at accepted
  exact Option.map_eq_some_iff.mp accepted

theorem signature_text {text : JsString} {parsed : Value} (accepted : Json.parse text = some parsed)
    (short : text.length ≤ signatureCodeUnits) : (Value.str text).isString = true ∧ 0 < (Value.str text).units.length
      ∧ (Value.str text).units.length ≤ signatureCodeUnits := by
  refine ⟨rfl, List.length_pos_of_ne_nil ?_, short⟩
  rintro (rfl : text = [])
  cases accepted

/-- A signature whose text parses is rejected for a duplicate name exactly when the parsed value can be copied and some
object of the text repeats a name. On a reasoning item the planner rejects exactly the texts that repeat a name. -/
theorem duplicate_names {text : JsString} {parsed : Value} (accepted : Json.parse text = some parsed)
    (short : text.length ≤ signatureCodeUnits) : ∃ tree, Json.read text = some tree ∧ tree.value = parsed
      ∧ (parseSignature (.str text) = .error .ERR_SIGNATURE_DUPLICATE_KEY ↔ Copyable parsed ∧ tree.RepeatsName)
      ∧ (isRecord parsed ∧ isWord (parsed.get (js "type")) "reasoning" ∧ identifier (parsed.get (js "id")) →
        (Stream.signature (.str text) = .error .ERR_STREAM_REASONING_SIGNATURE ↔ tree.RepeatsName)) := by
  obtain ⟨tree, read, value⟩ := exists_tree accepted
  have checked := signature_text accepted short
  refine ⟨tree, read, value, ?_, fun reasoning => ?_⟩
  · rw [parseSignature, requireThat, Checked.require_of checked, Checked.ok_bind, Value.units, accepted]
    dsimp only
    by_cases copyable : Copyable parsed
    · rw [copyData, copyPlain_of _ _ copyable, Checked.ok_bind, scanNames_of_read _ read, ← Tree.repeats_iff]
      cases tree.repeats with
      | true => simp [copyable]
      | false =>
        rw [if_neg Bool.false_ne_true, Checked.ok_bind]
        by_cases object : isRecord parsed
        · rw [requireThat, Checked.require_of object]
          simp
        · have refused : requireThat (isRecord parsed) .ERR_SIGNATURE_DATA = .error .ERR_SIGNATURE_DATA := if_neg object
          rw [refused]
          simp
    · have refused : copyData parsed ≠ .error .ERR_SIGNATURE_DUPLICATE_KEY ∧ ∀ copied, copyData parsed ≠ .ok copied := by
        constructor
        · unfold copyData copyPlain
          split <;> simp
        · intro copied done
          exact copyable (copyPlain_eq_ok.mp done).1
      cases failed : copyData parsed with
      | ok copied => exact absurd failed (refused.2 copied)
      | error code =>
        have other : code ≠ .ERR_SIGNATURE_DUPLICATE_KEY := fun same => refused.1 (same ▸ failed)
        simp [copyable, other]
  · rw [Stream.signature, Stream.requireThat, Checked.require_of checked, Checked.ok_bind, Value.units, accepted]
    dsimp only
    rw [scanNames_of_read _ read, ← Tree.repeats_iff]
    cases tree.repeats with
    | true => simp
    | false =>
      rw [if_neg Bool.false_ne_true, Checked.ok_bind]
      have passes : Stream.copy parsed ≠ .error .ERR_STREAM_REASONING_SIGNATURE := by
        unfold Stream.copy copyPlain
        split <;> simp
      cases copied : Stream.copy parsed with
      | error code =>
        have other : code ≠ .ERR_STREAM_REASONING_SIGNATURE := fun same => passes (same ▸ copied)
        simp [other]
      | ok copy =>
        obtain ⟨_, rfl⟩ := copyPlain_eq_ok.mp copied
        rw [Checked.ok_bind, Stream.requireThat, Checked.require_of reasoning]
        simp

/-- A reasoning item with an object, inside an array, that spells one name twice. -/
def repeatedItem : JsString :=
  js "\x7b\"type\":\"reasoning\",\"id\":\"r\",\"x\":[\x7b\"a\":1,\"\\u0061\":[]\x7d]\x7d"

def repeatedItemValue : Value :=
  .record [("type", .text "reasoning"), ("id", .text "r"), ("x", .arr [.record [("a", .arr [])]])]

theorem duplicate_names_sample : parseSignature (.str repeatedItem) = .error .ERR_SIGNATURE_DUPLICATE_KEY
    ∧ Stream.signature (.str repeatedItem) = .error .ERR_STREAM_REASONING_SIGNATURE := by
  obtain ⟨tree, read, _, canonical, planner⟩ :=
    duplicate_names (show Json.parse repeatedItem = some repeatedItemValue by decide +kernel) (by decide)
  have copyable : Copyable repeatedItemValue :=
    (copyPlain_eq_ok.mp (show copyData repeatedItemValue = .ok repeatedItemValue by decide +kernel)).1
  have repeated : tree.repeats = true := by
    have found : (Json.read repeatedItem).map Tree.repeats = some true := by decide +kernel
    rw [read] at found
    exact Option.some.inj found
  exact ⟨canonical.mpr ⟨copyable, Tree.repeats_iff.mp repeated⟩, (planner (by decide +kernel)).mpr (Tree.repeats_iff.mp repeated)⟩

/-- A repeated name whose last value is no finite number: the copy of the parsed value fails first. -/
theorem infinite_before_duplicate : ∃ tree, Json.read (js "\x7b\"a\":1,\"a\":1e999\x7d") = some tree
    ∧ (js "\x7b\"a\":1,\"a\":1e999\x7d").length ≤ signatureCodeUnits ∧ tree.RepeatsName
    ∧ parseSignature (.str (js "\x7b\"a\":1,\"a\":1e999\x7d")) = .error .ERR_CONTEXT_DATA_TYPE := by
  refine ⟨(Json.read (js "\x7b\"a\":1,\"a\":1e999\x7d")).get (by decide +kernel), (Option.some_get _).symm, ?_, ?_, ?_⟩
  · decide +kernel
  · decide +kernel
  · decide +kernel

end PersistentHarness.Canonical
