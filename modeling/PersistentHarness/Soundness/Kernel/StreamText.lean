import PersistentHarness.Soundness.Kernel.Records

/-! # The text of a stream

The text that is reported of a stream is the decoding of its chunks up to the limit, each chunk on its own. It is the
decoding of the whole stream as long as no chunk continues a character that the chunks before it left open.
-/

namespace PersistentHarness.Kernel

open Json Utf8

/-- The decoding of a whole stream up to the limit, with the marker where the stream is longer. -/
def report (maxBytes : ℕ) (bytes : Bytes) : JsString :=
  (cut maxBytes (decodeChars bytes)).flatMap utf16 ++ if maxBytes < textBytes (decodeChars bytes) then marker maxBytes else []

def Addition.stream? : Addition → Option StreamName
  | .stream name _ => some name
  | .mime .. => none

/-- Every stream is reported as the decoding of all its bytes, and `outputs` spells the same text as it arrived, around one
marker of the records where some are missing. -/
def Faithful (maxBytes : ℕ) (additions : List Addition) : Prop :=
  (∀ stream, (collect maxBytes additions).reported stream = report maxBytes (chunks stream additions).flatten)
    ∧ ∃ pieces : List (StreamName × JsString), pieces.map Prod.fst = additions.filterMap Addition.stream?
      ∧ (∀ stream, (pieces.filter fun piece => piece.1 = stream).flatMap Prod.snd = (collect maxBytes additions).reported stream)
      ∧ ∃ before behind limit, pieces.flatMap Prod.snd = before ++ behind
        ∧ textOf (contents (collect maxBytes additions).outputs)
          = before ++ (if (collect maxBytes additions).richTruncated then richMarker limit else []) ++ behind

namespace OutputCollector

/-- What the chunks add to `outputs`, in the order they arrive. -/
def deliveries (c : OutputCollector) : List Addition → List (StreamName × JsString)
  | [] => []
  | .stream stream chunk :: rest => (stream, c.addedText stream chunk) :: (c.add stream chunk).deliveries rest
  | .mime mime truncated terminal :: rest => (c.addMime mime truncated terminal).deliveries rest

theorem deliveries_streams (c : OutputCollector) (additions : List Addition) :
    (c.deliveries additions).map Prod.fst = additions.filterMap Addition.stream? := by
  induction additions generalizing c with
  | nil => rfl
  | cons addition rest ih =>
    cases addition with
    | stream stream chunk => exact congrArg (stream :: ·) (ih _)
    | mime mime truncated terminal => exact ih _

theorem textOf_arrivals (c : OutputCollector) (additions : List Addition) :
    textOf (c.arrivals additions) = (c.deliveries additions).flatMap Prod.snd := by
  induction additions generalizing c with
  | nil => rfl
  | cons addition rest ih =>
    rw [arrivals, textOf_append, ih]
    cases addition with
    | stream stream chunk => rw [arrived, textOf_units, deliveries, List.flatMap_cons, receive]
    | mime mime truncated terminal =>
      rw [arrived, deliveries, receive]
      cases !truncated && isRecord mime <;> rfl

theorem reported_add (c : OutputCollector) (stream : StreamName) (chunk : Bytes) (other : StreamName) :
    (c.add stream chunk).reported other
      = c.reported other ++ if stream = other then c.addedText stream chunk else [] := by
  obtain ⟨captured, _, _, _, limit⟩ := add_spec c stream chunk
  rw [reported, reported, captured, limit]
  split
  · next same =>
    subst same
    rw [addedText]
    cases full : (c.captured stream).truncated with
    | true =>
      have nothing : c.captures stream chunk = { truncated := true } := by rw [captures, if_pos full]
      simp [nothing]
    | false => simp
  · rw [List.append_nil]

theorem reported_deliveries {c : OutputCollector} {past : List Piece} {refused : Bool} (listed : c.Listed past refused)
    (within : c.richOutputBytes ≤ c.richOutputLimit) (additions : List Addition) (stream : StreamName) :
    (additions.foldl receive c).reported stream
      = c.reported stream ++ ((c.deliveries additions).filter fun piece => piece.1 = stream).flatMap Prod.snd := by
  induction additions generalizing c past refused with
  | nil => exact (List.append_nil _).symm
  | cons addition rest ih =>
    obtain ⟨next, bound⟩ := listed.receive within addition
    rw [List.foldl_cons, ih next bound]
    cases addition with
    | stream other chunk =>
      rw [receive, reported_add, deliveries, List.filter_cons]
      dsimp only
      split
      · next same => rw [if_pos (by simpa using same), List.flatMap_cons, List.append_assoc]
      · next different => rw [if_neg (by simpa using different), List.append_nil]
    | mime mime truncated terminal =>
      obtain ⟨_, _, captured, limit, _⟩ := addMime_spec listed within mime truncated terminal
      rw [receive, reported, captured, limit, deliveries, ← reported]

/-- What is kept of a stream is the beginning of its chunks' text. -/
structure Keeps (c : OutputCollector) (maxBytes : ℕ) (stream : StreamName) (cs : List Char) : Prop where
  limit : c.maxBytes = maxBytes
  text : (c.captured stream).text = (cut maxBytes cs).flatMap utf16
  bytes : (c.captured stream).bytes = textBytes (cut maxBytes cs)
  truncated : (c.captured stream).truncated = decide (maxBytes < textBytes cs)

variable {c : OutputCollector} {maxBytes : ℕ} {stream : StreamName} {cs : List Char}

theorem Keeps.add (keeps : c.Keeps maxBytes stream cs) (chunk : Bytes) :
    (c.add stream chunk).Keeps maxBytes stream (cs ++ decodeChars chunk) := by
  obtain ⟨limit, text, bytes, truncated⟩ := keeps
  obtain ⟨captured, _, _, _, same⟩ := add_spec c stream chunk
  have captured := captured stream
  rw [if_pos rfl] at captured
  cases full : (c.captured stream).truncated with
  | true =>
    have exceeds : maxBytes < textBytes cs := by simpa [full] using truncated
    have nothing : c.captures stream chunk = { truncated := true } := by rw [captures, if_pos full]
    rw [nothing] at captured
    refine ⟨same.trans limit, ?_, ?_, ?_⟩
    · rw [captured, text, cut_of_exceeds _ _ _ exceeds, List.append_nil]
    · rw [captured, bytes, cut_of_exceeds _ _ _ exceeds, Nat.add_zero]
    · rw [captured, textBytes_append, eq_comm, decide_eq_true_eq]
      omega
  | false =>
    have fits : textBytes cs ≤ maxBytes := by simpa [full] using truncated
    have room : c.captures stream chunk = ⟨(cut (maxBytes - textBytes cs) (decodeChars chunk)).flatMap utf16,
        textBytes (cut (maxBytes - textBytes cs) (decodeChars chunk)), maxBytes - textBytes cs < textBytes (decodeChars chunk)⟩ := by
      rw [captures, full, if_neg Bool.false_ne_true, limit, bytes, cut_all _ _ fits]
    rw [room] at captured
    refine ⟨same.trans limit, ?_, ?_, ?_⟩
    · rw [captured, text, cut_all _ _ fits, cut_of_fits _ _ _ fits, List.flatMap_append]
    · rw [captured, bytes, cut_all _ _ fits, cut_of_fits _ _ _ fits, textBytes_append]
    · rw [captured, textBytes_append, decide_eq_decide]
      omega

theorem Keeps.run {past : List Piece} {refused : Bool} (keeps : c.Keeps maxBytes stream cs) (listed : c.Listed past refused)
    (within : c.richOutputBytes ≤ c.richOutputLimit) (additions : List Addition) :
    (additions.foldl receive c).Keeps maxBytes stream (cs ++ (chunks stream additions).flatMap decodeChars) := by
  induction additions generalizing c past refused cs with
  | nil => simpa [chunks] using keeps
  | cons addition rest ih =>
    obtain ⟨next, bound⟩ := listed.receive within addition
    rw [List.foldl_cons]
    cases addition with
    | stream other chunk =>
      by_cases same : other = stream
      · subst same
        have last := ih (keeps.add chunk) next bound
        rw [List.append_assoc] at last
        simpa [chunks, receive] using last
      · obtain ⟨captured, _, _, _, limit⟩ := add_spec c other chunk
        have captured := captured stream
        rw [if_neg same] at captured
        have keeps : (c.add other chunk).Keeps maxBytes stream cs :=
          ⟨limit.trans keeps.limit, by rw [captured, keeps.text], by rw [captured, keeps.bytes],
            by rw [captured, keeps.truncated]⟩
        simpa [chunks, receive, same] using ih keeps next bound
    | mime mime truncated terminal =>
      obtain ⟨_, _, captured, limit, _⟩ := addMime_spec listed within mime truncated terminal
      have keeps : (c.addMime mime truncated terminal).Keeps maxBytes stream cs :=
        ⟨limit.trans keeps.limit, by rw [captured, keeps.text], by rw [captured, keeps.bytes],
          by rw [captured, keeps.truncated]⟩
      simpa [chunks, receive] using ih keeps next bound

end OutputCollector

theorem collect_keeps (maxBytes : ℕ) (additions : List Addition) (stream : StreamName) :
    (collect maxBytes additions).Keeps maxBytes stream ((chunks stream additions).flatMap decodeChars) := by
  have start : (0 : ℤ) ≤ KERNEL_FRAME_BYTES := by decide
  have empty : ({ maxBytes := maxBytes } : OutputCollector).Keeps maxBytes stream [] := by
    cases stream <;> exact ⟨rfl, rfl, rfl, rfl⟩
  exact empty.run (listed_new maxBytes) start additions

theorem reported_collect (maxBytes : ℕ) (additions : List Addition) (stream : StreamName) :
    (collect maxBytes additions).reported stream
      = (cut maxBytes ((chunks stream additions).flatMap decodeChars)).flatMap utf16
        ++ if maxBytes < textBytes ((chunks stream additions).flatMap decodeChars) then marker maxBytes else [] := by
  obtain ⟨limit, text, _, truncated⟩ := collect_keeps maxBytes additions stream
  rw [OutputCollector.reported, limit, text, truncated]
  simp only [decide_eq_true_eq]

/-- The order of arrival never depends on how the streams are cut. -/
theorem collect_ordered (maxBytes : ℕ) (additions : List Addition) :
    ∃ pieces : List (StreamName × JsString), pieces.map Prod.fst = additions.filterMap Addition.stream?
      ∧ (∀ stream, (pieces.filter fun piece => piece.1 = stream).flatMap Prod.snd = (collect maxBytes additions).reported stream)
      ∧ ∃ before behind limit, pieces.flatMap Prod.snd = before ++ behind
        ∧ textOf (contents (collect maxBytes additions).outputs)
          = before ++ (if (collect maxBytes additions).richTruncated then richMarker limit else []) ++ behind := by
  have start : (0 : ℤ) ≤ KERNEL_FRAME_BYTES := by decide
  have fresh := listed_new maxBytes
  have listed : (collect maxBytes additions).Listed ([] ++ OutputCollector.arrivals { maxBytes := maxBytes } additions) _ :=
    (fresh.run start additions).1
  rw [List.nil_append] at listed
  refine ⟨_, OutputCollector.deliveries_streams { maxBytes := maxBytes } additions, fun stream => ?_, ?_⟩
  · have spelled := OutputCollector.reported_deliveries fresh start additions stream
    have none : ({ maxBytes := maxBytes } : OutputCollector).reported stream = [] := by cases stream <;> rfl
    rw [none, List.nil_append] at spelled
    exact spelled.symm
  · rw [← OutputCollector.textOf_arrivals]
    cases truncated : (collect maxBytes additions).richTruncated with
    | false => exact ⟨_, [], 0, (List.append_nil _).symm, by rw [(listed.whole truncated).1]; simp⟩
    | true =>
      obtain ⟨before, behind, limit, thinned, spelled, _⟩ := listed.marked truncated
      refine ⟨textOf before, textOf behind, limit, by rw [← thinned.textOf_eq, textOf_append], ?_⟩
      rw [spelled, textOf_append, textOf_append, textOf_units, if_pos rfl]

theorem decode_clean {parts : List Bytes} (clean : Decoder.start.Clean parts) :
    decodeChars parts.flatten = parts.flatMap decodeChars := by
  rw [decodeChars, Decoder.decode_of_clean clean]
  rfl

theorem textBytes_unclean {parts : List Bytes} (unclean : ¬Decoder.start.Clean parts) :
    textBytes (decodeChars parts.flatten) < textBytes (parts.flatMap decodeChars) := by
  have strict := (Decoder.decode_parts_bytes .start parts).2 unclean
  rwa [Decoder.finish, textBytes_nil, Nat.zero_add] at strict

theorem faithful_of_clean {additions : List Addition} (clean : ∀ stream, Decoder.start.Clean (chunks stream additions))
    (maxBytes : ℕ) : Faithful maxBytes additions :=
  ⟨fun stream => by rw [reported_collect, report, decode_clean (clean stream)], collect_ordered maxBytes additions⟩

theorem clean_of_faithful {maxBytes : ℕ} {additions : List Addition} (faithful : Faithful maxBytes additions)
    (stream : StreamName) (fits : textBytes ((chunks stream additions).flatMap decodeChars) ≤ maxBytes) :
    Decoder.start.Clean (chunks stream additions) := by
  by_contra unclean
  have fewer := textBytes_unclean unclean
  have same := faithful.1 stream
  rw [reported_collect, report, cut_all _ _ fits, cut_all _ _ (fewer.le.trans fits), if_neg (Nat.not_lt.mpr fits),
    if_neg (Nat.not_lt.mpr (fewer.le.trans fits)), List.append_nil, List.append_nil] at same
  have bytes := congrArg (fun text => (Utf8.encode text).length) same
  rw [encode_flatMap, encode_flatMap, ← textBytes, ← textBytes] at bytes
  omega

end PersistentHarness.Kernel
