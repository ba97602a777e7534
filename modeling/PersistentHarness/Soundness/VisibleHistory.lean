import Mathlib.Data.Prod.Lex
import PersistentHarness.Lib.PartialSort
import PersistentHarness.Model.VisibleHistory

/-! # Ordered and bounded rows

The rows of a history come in the order of their births as long as no row without a date stands between two that are out of
order. A page keeps the longest suffix of the rows that fits its bounds, and its byte count is the size of its JSON text.
-/

namespace PersistentHarness.VisibleHistory

section Order

open PartialSort (Precedes Walled)

variable {parseDate : Value → Option ℤ}

/-- When a row was born: its time, and its sequence within that time. -/
def birth (parseDate : Value → Option ℤ) (item : HistoryItem) : Option (ℤ ×ₗ ℕ) :=
  (parseDate (item.row.get (js "createdAt"))).map fun time => toLex (time, timelineSequence (item.row.get (js "timelineSequence")))

/-- A list holds the rows of another, those with dates in the order of their births, rows of one birth as they came. -/
structure Chronological (parseDate : Value → Option ℤ) (items sorted : List HistoryItem) : Prop where
  permuted : sorted.Perm items
  ordered : sorted.Pairwise (Precedes (birth parseDate))
  stable : ∀ at_, sorted.filter (fun item => birth parseDate item = some at_) = items.filter fun item => birth parseDate item = some at_

theorem compareRows_iff (left right : HistoryItem) :
    compareRows parseDate left right ≤ 0 ↔ Precedes (birth parseDate) left right := by
  unfold compareRows Precedes birth
  generalize timelineSequence (left.row.get (js "timelineSequence")) = i
  generalize timelineSequence (right.row.get (js "timelineSequence")) = j
  cases parseDate (left.row.get (js "createdAt")) with
  | none => simp [compareBirths]
  | some a =>
    cases parseDate (right.row.get (js "createdAt")) with
    | none => simp [compareBirths]
    | some b =>
      simp only [compareBirths, Option.map_some, Option.mem_some_iff, forall_eq', Prod.Lex.toLex_le_toLex]
      split <;> omega

section Samples

private def instant (time : ℤ) : Value := .str (isoString time)

private def dated (id : String) (createdAt : Value) : HistoryItem :=
  .message ⟨[(js "id", .text id), (js "text", .text "hi"), (js "createdAt", createdAt)], rfl⟩

private def readDate (value : Value) : Option ℤ := [1, 2].find? fun time => value = instant time

end Samples

end Order

section Bytes

open Json (jsonBytes)

/-- The bytes of a page with these rows. -/
def pageBytes (items : List HistoryItem) : ℕ := jsonBytes (historyProjection items)

def shownMessages (items : List HistoryItem) : List (List (JsString × Value)) :=
  (items.filterMap HistoryItem.message?).map Message.fields

theorem historyProjection_eq (items : List HistoryItem) : historyProjection items =
    .obj [(js "messages", .arr ((shownMessages items).map .obj)),
      (js "history", .arr ((items.map HistoryItem.publicFields).map .obj))] := by
  rw [historyProjection, shownMessages, List.map_map, List.map_map]
  rfl

theorem pageBytes_eq (items : List HistoryItem) : pageBytes items =
    jsonBytes (.arr ((shownMessages items).map .obj)) + jsonBytes (.arr ((items.map HistoryItem.publicFields).map .obj)) + 24 := by
  have name : ∀ (key text : JsString), JsString.utf8Length (Json.quote key ++ Json.unit ':' :: text) =
      JsString.utf8Length (Json.quote key) + 1 + JsString.utf8Length text := fun key text =>
    Json.utf8Length_append_ascii _ _ (by decide)
  have texts : ∀ items : List Value, Json.stringify? (.arr items) = some (Json.stringify (.arr items)) := fun _ => rfl
  have first : JsString.utf8Length (Json.quote (js "messages")) = 10 := by decide
  have second : JsString.utf8Length (Json.quote (js "history")) = 9 := by decide
  rw [pageBytes, historyProjection_eq, Json.jsonBytes_obj]
  simp only [Json.stringifyMembers, texts, List.map_cons, List.map_nil, List.sum_cons, List.sum_nil, List.length_cons,
    List.length_nil, name, first, second, jsonBytes]
  omega

theorem pageBytes_cons (item : HistoryItem) (items : List HistoryItem) : pageBytes (item :: items) = pageBytes items +
    ((item.message?.elim 0 fun m => jsonBytes m.value + if (shownMessages items).length ≠ 0 then 1 else 0)
      + jsonBytes (.obj item.publicFields) + if items.length ≠ 0 then 1 else 0) := by
  have rows := Json.jsonBytes_arr_cons item.publicFields (items.map HistoryItem.publicFields)
  rw [List.length_map] at rows
  rw [pageBytes_eq, pageBytes_eq, List.map_cons, List.map_cons, rows]
  cases item with
  | message m =>
    have messages := Json.jsonBytes_arr_cons m.fields (shownMessages items)
    have front : (shownMessages (.message m :: items)).map Value.obj = .obj m.fields :: (shownMessages items).map .obj := rfl
    simp only [HistoryItem.message?, Option.elim_some, Message.value, front, messages]
    omega
  | other fields =>
    have same : shownMessages (.other fields :: items) = shownMessages items := rfl
    simp only [HistoryItem.message?, Option.elim_none, same]
    omega

theorem pageBytes_le_append (front back : List HistoryItem) : pageBytes back ≤ pageBytes (front ++ back) := by
  induction front with
  | nil => exact le_refl _
  | cons item front ih =>
    rw [List.cons_append, pageBytes_cons]
    omega

structure Tallied (s : Selection) : Prop where
  bytes : s.bytes = pageBytes s.selected.reverse
  messages : s.messageCount = (shownMessages s.selected.reverse).length
  history : s.historyCount = s.selected.length

theorem tallied_start : Tallied .start := ⟨rfl, rfl, rfl⟩

theorem Tallied.cost {s : Selection} (tallied : Tallied s) (item : HistoryItem) :
    s.bytes + s.cost item = pageBytes (item :: s.selected.reverse) := by
  rw [pageBytes_cons, tallied.bytes, Selection.cost, tallied.messages, tallied.history, List.length_reverse]
  cases item with
  | message m => rfl
  | other fields => rfl

theorem Tallied.push {s : Selection} (tallied : Tallied s) (item : HistoryItem) : Tallied (s.push item) where
  bytes := by
    rw [Selection.push, tallied.cost, List.reverse_append]
    rfl
  messages := by
    rw [Selection.push, List.reverse_append, List.reverse_singleton, List.singleton_append, tallied.messages]
    cases item <;> rfl
  history := by rw [Selection.push, tallied.history, List.length_append, List.length_singleton]

end Bytes

section Cuts

open Json (escapedBytes Apart)

variable {original : JsString}

/-- A place where a text may be cut: it is not behind a high surrogate, or it is before another one. -/
def Clean (original : JsString) (k : ℕ) : Prop :=
  (∀ u ∈ (original.take k).getLast?, isHighSurrogate u = false) ∨ ∃ u ∈ original[k]?, isHighSurrogate u = true

/-- The last unit of the text is a high surrogate. -/
def EndsHigh (original : JsString) : Prop := ∃ u ∈ original.getLast?, isHighSurrogate u = true

theorem clean_zero (original : JsString) : Clean original 0 := .inl (by rw [List.take_zero]; exact nofun)

/-- A clean cut tears no surrogate pair. -/
theorem Clean.apart {k : ℕ} (clean : Clean original k) (n : ℕ) : Apart (original.take k) ((original.drop k).take n) := by
  intro u last v first pair
  have high : isHighSurrogate u = true := decide_eq_true pair.1
  rcases clean with low | ⟨w, next, highNext⟩
  · rw [low u last] at high
    cases high
  · have same : v = w := by
      cases n with
      | zero => cases first
      | succ n =>
        rw [List.head?_take, if_neg (Nat.succ_ne_zero n), List.head?_drop] at first
        exact Option.some_inj.mp (first.symm.trans next)
    subst same
    have below := (of_decide_eq_true highNext).2
    have above := pair.2.1
    rw [UInt16.le_iff_toNat_le] at below above
    simp only [UInt16.reduceToNat] at below above
    omega

theorem apart_ellipsis (text : JsString) : Apart text ellipsis := by
  rintro u _ _ ⟨⟩ pair
  exact absurd pair.2 (by decide)

theorem Clean.escapedBytes_le {k l : ℕ} (clean : Clean original k) (le : k ≤ l) :
    escapedBytes (original.take k ++ ellipsis) ≤ escapedBytes (original.take l ++ ellipsis) := by
  obtain ⟨n, rfl⟩ := Nat.exists_eq_add_of_le le
  rw [Json.escapedBytes_append (apart_ellipsis _), Json.escapedBytes_append (apart_ellipsis _), List.take_add,
    Json.escapedBytes_append (clean.apart n)]
  omega

theorem exists_cutText {middle : ℕ} (inside : middle < original.length) :
    ∃ k, k ≤ middle ∧ middle ≤ k + 1 ∧ (k < middle → ∃ u ∈ original[k]?, isHighSurrogate u = true) ∧ Clean original k ∧
      cutText original middle = original.take k ++ ellipsis := by
  rw [cutText, if_pos inside, dropTrailingHigh]
  cases last : (original.take middle).getLast? with
  | none => exact ⟨middle, le_refl _, by omega, by omega, .inl (by rw [last]; exact nofun), rfl⟩
  | some u =>
    simp only
    split
    · next high =>
      have positive : middle ≠ 0 := by
        rintro rfl
        rw [List.take_zero] at last
        cases last
      have there : original[middle - 1]? = some u := by
        rw [List.getLast?_eq_getElem?, List.length_take, Nat.min_eq_left (by omega), List.getElem?_take, if_pos (by omega)] at last
        exact last
      have shorter : (original.take middle).dropLast = original.take (middle - 1) := by
        rw [List.dropLast_eq_take, List.length_take, Nat.min_eq_left (by omega), List.take_take, Nat.min_eq_left (by omega)]
      exact ⟨middle - 1, by omega, by omega, fun _ => ⟨u, there, high⟩, .inr ⟨u, there, high⟩, by rw [shorter]⟩
    · next low =>
      refine ⟨middle, le_refl _, by omega, by omega, .inl ?_, rfl⟩
      rw [last]
      rintro _ ⟨⟩
      exact Bool.eq_false_iff.mpr low

/-- A clean cut is one of the search, unless it leaves out a last high surrogate alone. -/
theorem cutText_of_clean {k : ℕ} (clean : Clean original k) (inside : k < original.length) (whole : ¬EndsHigh original) :
    ∃ middle, k ≤ middle ∧ middle < original.length ∧ cutText original middle = original.take k ++ ellipsis ∧
      (k = middle → ∀ u ∈ (original.take k).getLast?, isHighSurrogate u = false) := by
  have stays : ∀ middle, middle < original.length → (∀ u ∈ (original.take middle).getLast?, isHighSurrogate u = false) →
      cutText original middle = original.take middle ++ ellipsis := by
    intro middle inside low
    rw [cutText, if_pos inside, dropTrailingHigh]
    cases last : (original.take middle).getLast? with
    | none => rfl
    | some u =>
      simp only
      rw [if_neg (by rw [low u last]; exact Bool.false_ne_true)]
  by_cases low : ∀ u ∈ (original.take k).getLast?, isHighSurrogate u = false
  · exact ⟨k, le_refl _, inside, stays k inside low, fun _ => low⟩
  · obtain ⟨u, next, high⟩ := clean.resolve_left low
    have more : k + 1 < original.length := by
      by_contra short
      refine whole ⟨u, ?_, high⟩
      rw [List.getLast?_eq_getElem?, show original.length - 1 = k by omega]
      exact next
    have last : (original.take (k + 1)).getLast? = some u := by
      rw [List.getLast?_eq_getElem?, List.length_take, Nat.min_eq_left (by omega), List.getElem?_take, if_pos (by omega)]
      exact next
    refine ⟨k + 1, by omega, more, ?_, fun same => absurd same (by omega)⟩
    rw [cutText, if_pos more, dropTrailingHigh, last]
    simp only
    rw [if_pos high, List.dropLast_eq_take, List.length_take, Nat.min_eq_left (by omega), List.take_take, Nat.min_eq_left (by omega)]
    rfl

end Cuts

section Newest

open Json (escapedBytes)

variable {maxBytes : ℤ} {newest : HistoryItem} {original : JsString}

theorem set_of_get {fields : List (JsString × Value)} {key text : JsString} (stored : (Value.obj fields).get key = .str text) :
    Assoc.set fields key (.str text) = fields := by
  rw [Value.get, Value.fields] at stored
  induction fields with
  | nil => cases stored
  | cons field fields ih =>
    obtain ⟨name, value⟩ := field
    rw [Assoc.lookup_cons] at stored
    rw [Assoc.set]
    by_cases same : name = key
    · rw [if_pos same] at stored ⊢
      rw [show value = .str text from stored]
    · rw [if_neg same] at stored ⊢
      rw [ih stored]

theorem withOriginal_original (found : newest.original? = some original) : newest.withOriginal original = newest := by
  cases newest with
  | message m =>
    obtain ⟨fields, textual⟩ := m
    cases found
    have stored : (Value.obj fields).get (js "text") = .str (Message.text ⟨fields, textual⟩) := by
      rw [Message.text, Message.value]
      cases read : (Value.obj fields).get (js "text") <;> rw [read] at textual <;> first | rfl | cases textual
    simp only [HistoryItem.withOriginal, Message.withText, set_of_get stored]
  | other fields =>
    rw [HistoryItem.original?] at found
    split at found
    · next body stored =>
      cases found
      rw [HistoryItem.withOriginal, set_of_get stored]
    · cases found

/-- A page of one row takes the bytes of its cut text and of the rest. -/
theorem exists_pageBytes_withOriginal (item : HistoryItem) :
    ∃ rest, ∀ text, pageBytes [item.withOriginal text] = rest + escapedBytes text := by
  cases item with
  | message m =>
    obtain ⟨rest, shown⟩ := Json.exists_jsonBytes_set m.fields (js "text")
    refine ⟨pageBytes [] + rest + Json.jsonBytes (.obj (HistoryItem.message m).publicFields), fun text => ?_⟩
    have named : (HistoryItem.message (m.withText text)).publicFields = (HistoryItem.message m).publicFields := by
      simp only [HistoryItem.publicFields, Message.value, Message.withText, Value.get, Value.fields,
        Assoc.lookup_set_of_ne m.fields (.str text) (show js "text" ≠ js "id" by decide)]
    rw [HistoryItem.withOriginal, pageBytes_cons, named]
    simp only [HistoryItem.message?, Option.elim_some, Message.value, Message.withText, shown text, shownMessages,
      List.filterMap_nil, List.map_nil, List.length_nil, ne_eq, not_true_eq_false, if_false]
    omega
  | other fields =>
    obtain ⟨rest, shown⟩ := Json.exists_jsonBytes_set fields (js "body")
    refine ⟨pageBytes [] + rest, fun text => ?_⟩
    rw [HistoryItem.withOriginal, pageBytes_cons]
    simp only [HistoryItem.message?, Option.elim_none, HistoryItem.publicFields, shown text, List.length_nil, ne_eq, not_true_eq_false, if_false]
    omega

/-- The cut of a text that shows the longest clean beginning that fits, with an ellipsis. -/
def LongestCut (maxBytes : ℤ) (newest : HistoryItem) (original shown : JsString) : Prop :=
  ∃ k, k < original.length ∧ Clean original k ∧ shown = original.take k ++ ellipsis ∧
    ∀ l, k < l → l < original.length → Clean original l →
      maxBytes < (pageBytes [newest.withOriginal (original.take l ++ ellipsis)] : ℕ)

/-- The row that the page begins with in place of the newest. -/
inductive Offered (maxBytes : ℤ) (newest : HistoryItem) : HistoryItem → Prop
  | whole (fits : (pageBytes [newest] : ℕ) ≤ maxBytes) : Offered maxBytes newest newest
  | refused (large : maxBytes < (pageBytes [newest] : ℕ))
      (hopeless : ∀ original, newest.original? = some original → ∀ k < original.length, Clean original k →
        maxBytes < (pageBytes [newest.withOriginal (original.take k ++ ellipsis)] : ℕ)) : Offered maxBytes newest newest
  | cut (large : maxBytes < (pageBytes [newest] : ℕ)) {original shown : JsString} (found : newest.original? = some original)
      (fits : (pageBytes [newest.withOriginal shown] : ℕ) ≤ maxBytes)
      (longest : ¬EndsHigh original → LongestCut maxBytes newest original shown) :
      Offered maxBytes newest (newest.withOriginal shown)

theorem downward_cutText (maxBytes : ℤ) (newest : HistoryItem) (original : JsString) :
    LastFit.Downward (fun middle => ((pageBytes [newest.withOriginal (cutText original middle)] : ℕ) : ℤ) ≤ maxBytes)
      original.length := by
  intro i j le inside fits
  obtain ⟨rest, bytes⟩ := exists_pageBytes_withOriginal newest
  obtain ⟨k, belowK, nearK, nextK, cleanK, shownK⟩ := @exists_cutText original i (by omega)
  obtain ⟨l, belowL, nearL, nextL, -, shownL⟩ := exists_cutText inside
  simp only [decide_eq_true_eq, bytes, shownK, shownL] at fits ⊢
  have ordered : k ≤ l := by
    rcases Nat.lt_or_eq_of_le le with less | rfl
    · omega
    · by_contra behind
      obtain rfl : k = i := by omega
      -- one middle is cut at one place
      have same := congrArg List.length (shownK.symm.trans shownL)
      simp only [List.length_append, List.length_take] at same
      omega
  have shorter := cleanK.escapedBytes_le ordered
  omega

theorem offered_of_found {fitted : Option ℕ} (large : maxBytes < (pageBytes [newest] : ℕ)) (found : newest.original? = some original)
    (last : LastFit.Found (fun middle => ((pageBytes [newest.withOriginal (cutText original middle)] : ℕ) : ℤ) ≤ maxBytes)
      original.length fitted) :
    Offered maxBytes newest ((fitted.map fun middle => newest.withOriginal (cutText original middle)).getD newest) := by
  obtain ⟨rest, bytes⟩ := exists_pageBytes_withOriginal newest
  cases last with
  | nothing refused =>
    refine .refused large fun other same k inside clean => ?_
    cases found.symm.trans same
    have first := refused 0 (by omega)
    have start : cutText original 0 = original.take 0 ++ ellipsis := by
      rw [cutText, if_pos (by omega), List.take_zero]
      rfl
    rw [decide_eq_false_iff_not, start, bytes] at first
    have shorter := (clean_zero original).escapedBytes_le (Nat.zero_le k)
    rw [bytes]
    omega
  | @below m inside fitting refused =>
    refine .cut large found (of_decide_eq_true fitting) fun whole => ?_
    obtain ⟨k, belowK, nearK, nextK, cleanK, shownK⟩ := exists_cutText inside
    refine ⟨k, by omega, cleanK, shownK, fun l beyond insideL cleanL => ?_⟩
    obtain ⟨middle, aboveL, insideM, shownL, low⟩ := cutText_of_clean cleanL insideL whole
    have further : m < middle := by
      by_contra close
      -- the middle of the search lies behind a high surrogate, where the later cut is not clean
      obtain ⟨rfl, rfl⟩ : l = m ∧ l = middle := by omega
      obtain ⟨u, there, high⟩ := nextK (by omega)
      have behind : (original.take l).getLast? = some u := by
        rw [List.getLast?_eq_getElem?, List.length_take, Nat.min_eq_left (by omega), List.getElem?_take, if_pos (by omega),
          show l - 1 = k by omega]
        exact there
      rw [low rfl u behind] at high
      cases high
    have over_ := refused middle further insideM
    rw [decide_eq_false_iff_not, shownL] at over_
    omega
  | whole fitting =>
    refine .cut large found (of_decide_eq_true fitting) fun whole => ?_
    have same : cutText original original.length = original := by
      rw [cutText, if_neg (lt_irrefl _), List.take_length, dropTrailingHigh]
      cases last : original.getLast? with
      | none => rfl
      | some u =>
        simp only
        rw [if_neg]
        exact fun high => whole ⟨u, last, high⟩
    rw [decide_eq_true_eq, same, withOriginal_original found] at fitting
    omega

theorem offered_offer (maxBytes : ℤ) (newest : HistoryItem) : Offered maxBytes newest (Selection.start.offer maxBytes newest) := by
  have cost := tallied_start.cost
  unfold Selection.offer
  rw [cost newest]
  split
  · next large =>
    rw [Selection.fitted]
    cases found : newest.original? with
    | none =>
      refine .refused large.1 fun original same => ?_
      cases found.symm.trans same
    | some original =>
      have search := LastFit.found_lastFit (downward_cutText maxBytes newest original)
      have offered := offered_of_found large.1 found search
      rw [Option.map_eq_bind] at offered
      simp only [cost, Option.bind_eq_bind, Option.bind_some]
      exact offered
  · next fits =>
    refine .whole ?_
    have whole : ¬maxBytes < (pageBytes [newest] : ℕ) := fun large => fits ⟨large, rfl⟩
    exact not_lt.mp whole

end Newest

section Suffixes

variable {maxMessages maxBytes : ℤ} {rows kept : List HistoryItem}

/-- The rows and their page stay within the bounds. -/
def Fits (maxMessages maxBytes : ℤ) (rows : List HistoryItem) : Prop :=
  (rows.length : ℤ) ≤ maxMessages ∧ (pageBytes rows : ℤ) ≤ maxBytes

/-- The longest suffix of the rows that stays within the bounds; nothing where not even the empty page does. -/
structure LongestSuffix (maxMessages maxBytes : ℤ) (rows kept : List HistoryItem) : Prop where
  suffix : kept <:+ rows
  fits : kept ≠ [] → Fits maxMessages maxBytes kept
  longest : ∀ other, other <:+ rows → Fits maxMessages maxBytes other → other.length ≤ kept.length

theorem Fits.of_suffix {other : List HistoryItem} (fits : Fits maxMessages maxBytes rows) (suffix : other <:+ rows) :
    Fits maxMessages maxBytes other := by
  obtain ⟨front, rfl⟩ := suffix
  obtain ⟨short, small⟩ := fits
  have fewer : other.length ≤ (front ++ other).length := by simp
  have smaller := pageBytes_le_append front other
  exact ⟨by omega, by omega⟩

theorem longestSuffix_of_stop {front : List HistoryItem} {item : HistoryItem} (fits : kept ≠ [] → Fits maxMessages maxBytes kept)
    (stop : ¬Fits maxMessages maxBytes (item :: kept)) : LongestSuffix maxMessages maxBytes (front ++ item :: kept) kept where
  suffix := ⟨front ++ [item], by rw [List.append_assoc]; rfl⟩
  fits := fits
  longest := by
    intro other suffix fitting
    by_contra longer
    have inside : item :: kept <:+ other :=
      List.suffix_of_suffix_length_le (List.suffix_append front (item :: kept)) suffix (by rw [List.length_cons]; omega)
    exact stop (fitting.of_suffix inside)

/-- The loop behind the newest row. -/
theorem selectRows_longest (older : List HistoryItem) {s : Selection} (tallied : Tallied s) (taken : s.selected ≠ [])
    (fits : Fits maxMessages maxBytes s.selected.reverse) :
    Tallied (selectRows maxMessages maxBytes older s) ∧
      LongestSuffix maxMessages maxBytes (older.reverse ++ s.selected.reverse)
        (selectRows maxMessages maxBytes older s).selected.reverse := by
  induction older generalizing s with
  | nil => exact ⟨tallied, List.suffix_refl _, fun _ => fits, fun other suffix _ => suffix.length_le⟩
  | cons item older ih =>
    have later : s.selected.length ≠ 0 := fun none => taken (List.length_eq_zero_iff.mp none)
    have offer : s.offer maxBytes item = item := if_neg fun newest => later newest.2
    have rows : (item :: older).reverse ++ s.selected.reverse = older.reverse ++ item :: s.selected.reverse := by simp
    rw [selectRows, rows]
    simp only [offer]
    split
    · next room =>
      rw [tallied.cost item]
      split
      · next large => exact ⟨tallied, longestSuffix_of_stop (fun _ => fits) fun fitting => absurd fitting.2 (not_le.mpr large)⟩
      · next small =>
        have pushed : (s.push item).selected.reverse = item :: s.selected.reverse := List.reverse_concat ..
        rw [← pushed]
        refine ih (tallied.push item) (List.append_ne_nil_of_right_ne_nil _ (List.cons_ne_nil _ _)) ?_
        rw [pushed]
        refine ⟨?_, not_lt.mp small⟩
        rw [List.length_cons, List.length_reverse]
        omega
    · next full =>
      refine ⟨tallied, longestSuffix_of_stop (fun _ => fits) fun fitting => full ?_⟩
      have short := fitting.1
      rw [List.length_cons, List.length_reverse] at short
      omega

/-- The rows with what is offered in place of the newest. -/
inductive Offering (maxBytes : ℤ) : List HistoryItem → List HistoryItem → Prop
  | empty : Offering maxBytes [] []
  | rows (older : List HistoryItem) {newest shown : HistoryItem} (offered : Offered maxBytes newest shown) :
      Offering maxBytes (older ++ [newest]) (older ++ [shown])

/-- The newest row is cut if need be, and then the page keeps the longest suffix that fits; its byte count is the size of its JSON
text. -/
theorem boundVisibleHistory_bounded (maxMessages maxBytes : ℤ) (history : List HistoryItem) :
    ∃ rows kept, Offering maxBytes history rows ∧ LongestSuffix maxMessages maxBytes rows kept ∧
      (boundVisibleHistory maxMessages maxBytes history).page = historyProjection kept ∧
      (selection maxMessages maxBytes history).bytes = Json.jsonBytes (boundVisibleHistory maxMessages maxBytes history).page ∧
      ((Json.jsonBytes (historyProjection []) : ℤ) ≤ maxBytes →
        (Json.jsonBytes (boundVisibleHistory maxMessages maxBytes history).page : ℤ) ≤ maxBytes) ∧
      ((boundVisibleHistory maxMessages maxBytes history).truncated = true ↔ kept.length < history.length) := by
  -- it is enough to know the selected rows
  suffices ∃ rows, Offering maxBytes history rows ∧ Tallied (selection maxMessages maxBytes history) ∧
      LongestSuffix maxMessages maxBytes rows (selection maxMessages maxBytes history).selected.reverse by
    obtain ⟨rows, offering, tallied, longest⟩ := this
    refine ⟨rows, _, offering, longest, rfl, tallied.bytes, fun envelope => ?_, ?_⟩
    · rw [boundVisibleHistory]
      by_cases none : (selection maxMessages maxBytes history).selected.reverse = []
      · rw [none]
        exact envelope
      · exact (longest.fits none).2
    · rw [boundVisibleHistory, decide_eq_true_eq, List.length_reverse]
  unfold selection
  rcases List.eq_nil_or_concat' history with rfl | ⟨older, newest, rfl⟩
  · exact ⟨[], .empty, tallied_start, List.suffix_refl _, fun some => absurd rfl some, fun other suffix _ => suffix.length_le⟩
  · refine ⟨_, .rows older (offered_offer maxBytes newest), ?_⟩
    have cost := tallied_start.cost (Selection.start.offer maxBytes newest)
    rw [List.reverse_concat, selectRows]
    simp only
    split
    · next room =>
      rw [cost]
      split
      · next large =>
        exact ⟨tallied_start, longestSuffix_of_stop (fun some => absurd rfl some) fun fitting => absurd fitting.2 (not_le.mpr large)⟩
      · next small =>
        have fits : Fits maxMessages maxBytes (Selection.start.push (Selection.start.offer maxBytes newest)).selected.reverse := by
          have first : (Selection.start.push (Selection.start.offer maxBytes newest)).selected.reverse.length = 1 := rfl
          have none : (Selection.start.selected.length : ℤ) = 0 := rfl
          exact ⟨by omega, not_lt.mp small⟩
        have run := selectRows_longest older.reverse (tallied_start.push _) (List.cons_ne_nil _ _) fits
        rw [List.reverse_reverse] at run
        exact run
    · next full =>
      refine ⟨tallied_start, longestSuffix_of_stop (fun some => absurd rfl some) fun fitting => full ?_⟩
      have short := fitting.1
      have one : ([Selection.start.offer maxBytes newest] : List HistoryItem).length = 1 := rfl
      have none : (Selection.start.selected.length : ℤ) = 0 := rfl
      rw [one] at short
      omega

section Samples

private def note (text : JsString) : HistoryItem := .message ⟨[(js "id", .text "m"), (js "text", .str text)], rfl⟩

/-- A lone high surrogate before the cut is dropped with it, though no pair is torn behind it and the text with it would fit. -/
theorem boundVisibleHistory_drops_high :
    boundVisibleHistory 512 85 [note (js "a" ++ [0xD800] ++ js "bcdef")] = ⟨historyProjection [note (js "a" ++ ellipsis)], false⟩ ∧
      Json.Apart (js "a" ++ [0xD800]) (js "bcdef") ∧ pageBytes [note (js "a" ++ [0xD800] ++ ellipsis)] ≤ 85 := by
  refine ⟨by decide +kernel, ?_, by decide +kernel⟩
  rintro u _ _ ⟨⟩ pair
  exact absurd pair.2 (by decide)

end Samples

end Suffixes

end PersistentHarness.VisibleHistory
