import Mathlib.Algebra.BigOperators.Group.List.Basic
import Mathlib.Logic.Function.Basic
import PersistentHarness.Model.VisibleHistory

/-! # What the live rows hold

In every run the byte total is the sum of the rows' bytes and stays within the limit, and at most 512 rows are left after each
call. A row that is not truncated holds its deltas since its last replacement; a truncated row holds the deltas before the one
that was cut, and the first code points of that one.
-/

namespace PersistentHarness.LiveConversation

open JsString (utf8Length codePoints wellFormedPoint dropMark)
open Utf8 (pointsLength)

section Cuts

/-- What is kept of a text that does not fit: its first code points. -/
theorem keptPrefix_eq (text : JsString) {length : ℕ} (inside : length ≤ utf8Length text) :
    ∃ k, pointsLength ((codePoints text).take k) = (keptPrefix (Utf8.encode text) length).2 ∧
      (keptPrefix (Utf8.encode text) length).2 ≤ length ∧
      (keptPrefix (Utf8.encode text) length).1 = dropMark (((codePoints text).take k).flatMap wellFormedPoint) := by
  have all : ∀ point ∈ codePoints text, Utf8.PointBytes point := fun point member => Utf8.pointBytes_of_mem member
  have whole : pointsLength (codePoints text) = utf8Length text := by rw [pointsLength, ← Utf8.encode_eq, Utf8.encode_length]
  induction length with
  | zero => exact ⟨0, rfl, le_refl _, rfl⟩
  | succ length ih =>
    rw [keptPrefix]
    split
    · next kept read =>
      rw [Utf8.decode_eq, Utf8.encode_eq] at read
      obtain ⟨units, readUnits, rfl⟩ := Option.map_eq_some_iff.mp read
      obtain ⟨k, -, total, rfl⟩ := Utf8.exists_points_of_decodeUnits all (by omega) readUnits
      exact ⟨k, total, le_refl _, rfl⟩
    · obtain ⟨k, total, small, shown⟩ := ih (by omega)
      exact ⟨k, total, by omega, shown⟩

end Cuts

section Accounts

variable {texts : JsString → List JsString} {id : JsString} {row : Row} {live : Live}

/-- How a row holds the texts that it received since its last replacement. -/
inductive Shows : List JsString → Row → Prop
  | whole {own : List JsString} {row : Row} (untouched : row.truncated = false) (chunks : row.chunks = own)
      (bytes : row.bytes = (own.map utf8Length).sum) : Shows own row
  | cut {own : List JsString} {row : Row} (before : List JsString) (delta : JsString) (after : List JsString) (k : ℕ)
      (split : own = before ++ delta :: after) (short : row.truncated = true)
      (chunks : row.chunks = before ++ [dropMark (((codePoints delta).take k).flatMap wellFormedPoint)])
      (bytes : row.bytes = (before.map utf8Length).sum + pointsLength ((codePoints delta).take k)) : Shows own row

def weight (rows : List (JsString × Row)) : ℕ := (rows.map fun entry => entry.2.bytes).sum

/-- The rows and the byte total agree with the texts that were received. -/
structure Held (rows : List (JsString × Row)) (bytes : ℤ) (texts : JsString → List JsString) : Prop where
  total : bytes = weight rows
  bounded : bytes ≤ maxSnapshotBytes
  distinct : (Assoc.keys rows).Nodup
  shown : ∀ id row, Assoc.lookup rows id = some row → Shows (texts id) row

/-- A row that is being written, beside all others. -/
structure Working (live : Live) (texts : JsString → List JsString) (id : JsString) (row : Row) (own : List JsString) : Prop where
  total : live.bytes = weight (Assoc.erase live.rows id) + row.bytes
  bounded : live.bytes ≤ maxSnapshotBytes
  distinct : (Assoc.keys live.rows).Nodup
  shown : ∀ other row, other ≠ id → Assoc.lookup live.rows other = some row → Shows (texts other) row
  own : Shows own row

theorem Shows.congr {own : List JsString} {other : Row} (shows : Shows own row) (chunks : other.chunks = row.chunks)
    (bytes : other.bytes = row.bytes) (truncated : other.truncated = row.truncated) : Shows own other := by
  cases shows with
  | whole untouched same count => exact .whole (truncated.trans untouched) (chunks.trans same) (bytes.trans count)
  | cut before delta after k split short kept count =>
    exact .cut before delta after k split (truncated.trans short) (chunks.trans kept) (bytes.trans count)

theorem shows_nil {own : Row} (chunks : own.chunks = []) (bytes : own.bytes = 0) (truncated : own.truncated = false) :
    Shows [] own := .whole truncated chunks bytes

theorem erase_of_lookup_none {rows : List (JsString × Row)} (absent : Assoc.lookup rows id = none) : Assoc.erase rows id = rows := by
  refine List.filter_eq_self.mpr fun entry member => ?_
  rw [decide_eq_true_eq]
  rintro rfl
  exact Assoc.lookup_eq_none_iff.mp absent (List.mem_map_of_mem member)

theorem weight_erase {rows : List (JsString × Row)} (distinct : (Assoc.keys rows).Nodup) (found : Assoc.lookup rows id = some row) :
    weight rows = weight (Assoc.erase rows id) + row.bytes := by
  induction rows with
  | nil => cases found
  | cons entry rows ih =>
    obtain ⟨key, own⟩ := entry
    obtain ⟨fresh, rest⟩ := List.nodup_cons.mp distinct
    rw [Assoc.lookup_cons] at found
    split at found
    · next same =>
      cases found
      subst same
      have gone : Assoc.erase ((key, row) :: rows) key = rows := by
        rw [Assoc.erase, List.filter_cons, if_neg (by simp)]
        exact erase_of_lookup_none (Assoc.lookup_eq_none_iff.mpr fresh)
      rw [gone]
      exact Nat.add_comm ..
    · next apart =>
      have stays : Assoc.erase ((key, own) :: rows) id = (key, own) :: Assoc.erase rows id := by
        rw [Assoc.erase, List.filter_cons, if_pos (by simpa using apart)]
        rfl
      have tail := ih rest found
      rw [stays]
      simp only [weight, List.map_cons, List.sum_cons] at tail ⊢
      omega

theorem weight_set {rows : List (JsString × Row)} (distinct : (Assoc.keys rows).Nodup) :
    weight (Assoc.set rows id row) = weight (Assoc.erase rows id) + row.bytes := by
  rw [weight_erase (Assoc.keys_nodup_set distinct id row) (Assoc.lookup_set_self rows id row), Assoc.erase_set]

/-- A row that has been written stands among the others. -/
theorem Working.held {own : List JsString} {next : Row} (working : Working live texts id row own) (bytes : ℤ)
    (total : bytes = weight (Assoc.erase live.rows id) + next.bytes) (bounded : bytes ≤ maxSnapshotBytes) {now : List JsString}
    (shows : Shows now next) : Held (Assoc.set live.rows id next) bytes (Function.update texts id now) where
  total := by rw [total, weight_set working.distinct, Nat.cast_add]
  bounded := bounded
  distinct := Assoc.keys_nodup_set working.distinct id next
  shown := by
    intro other row found
    rw [Assoc.lookup_set] at found
    split at found
    · next same =>
      cases found
      subst same
      rwa [Function.update_self]
    · next apart =>
      rw [Function.update_of_ne fun same => apart same.symm]
      exact working.shown other row (fun same => apart same.symm) found

def pieces (text : JsString) : List JsString := if text = [] then [] else [text]

theorem Working.congr {own : List JsString} {other : Row} (working : Working live texts id row own) (chunks : other.chunks = row.chunks)
    (bytes : other.bytes = row.bytes) (truncated : other.truncated = row.truncated) : Working live texts id other own :=
  ⟨by rw [bytes]; exact working.total, working.bounded, working.distinct, working.shown, working.own.congr chunks bytes truncated⟩

theorem Working.put {own : List JsString} (working : Working live texts id row own) {next : Row} (chunks : next.chunks = row.chunks)
    (bytes : next.bytes = row.bytes) (truncated : next.truncated = row.truncated) :
    Held (live.put id next).rows (live.put id next).bytes (Function.update texts id own) :=
  working.held live.bytes (by rw [bytes]; exact working.total) working.bounded (working.own.congr chunks bytes truncated)

theorem Working.append {own : List JsString} (working : Working live texts id row own) (text : JsString) :
    Held (live.append id row text).rows (live.append id row text).bytes (Function.update texts id (own ++ pieces text)) := by
  have total := working.total
  have bounded := working.bounded
  unfold Live.append
  split
  · next nothing =>
    refine working.held live.bytes total bounded ?_
    rcases nothing with rfl | short
    · rw [pieces, if_pos rfl, List.append_nil]
      exact working.own
    · cases working.own with
      | whole untouched =>
        rw [untouched] at short
        cases short
      | cut before delta after k split _ chunks bytes =>
        exact .cut before delta (after ++ pieces text) k (by rw [split, List.append_assoc, List.cons_append]) short chunks bytes
  · next something =>
    obtain ⟨written, untouched⟩ := not_or.mp something
    obtain ⟨same, count⟩ : row.chunks = own ∧ row.bytes = (own.map utf8Length).sum := by
      cases working.own with
      | whole _ same count => exact ⟨same, count⟩
      | cut _ _ _ _ _ short => exact absurd short untouched
    rw [pieces, if_neg written]
    simp only
    split
    · next fits =>
      refine working.held (live.bytes + utf8Length text) ?_ (by omega) ?_
      · rw [total, Nat.cast_add, add_assoc]
      · refine .whole (Bool.eq_false_iff.mpr untouched) (congrArg (· ++ [text]) same) ?_
        rw [List.map_append, List.sum_append, ← count, List.map_singleton, List.sum_singleton]
    · next overflows =>
      have inside : ((maxSnapshotBytes : ℤ) - live.bytes).toNat ≤ utf8Length text := by omega
      obtain ⟨k, points, small, shown⟩ := keptPrefix_eq text inside
      refine working.held (live.bytes + (keptPrefix (Utf8.encode text) ((maxSnapshotBytes : ℤ) - live.bytes).toNat).2) ?_ (by omega) ?_
      · rw [total, Nat.cast_add, add_assoc]
      · refine .cut own text [] k rfl rfl ?_ ?_
        · rw [same, shown]
        · rw [count, points]

theorem Working.replace {own : List JsString} (working : Working live texts id row own) (text : Option JsString) :
    Held (live.replace id row text).rows (live.replace id row text).bytes
      (Function.update texts id (pieces (text.getD []))) := by
  have total := working.total
  have emptied : Working { live with bytes := live.bytes - row.bytes } texts id
      { row with chunks := [], bytes := 0, truncated := false } [] :=
    ⟨by simp only; omega, by have bounded := working.bounded; simp only; omega, working.distinct, working.shown, shows_nil rfl rfl rfl⟩
  exact emptied.append (text.getD [])

end Accounts

section Calls

variable {texts : JsString → List JsString} {live : Live} {validDate : Value → Bool}

/-- The texts that a row has received, none when there is no such row. -/
def present (live : Live) (texts : JsString → List JsString) (id : JsString) : List JsString :=
  if Assoc.has live.rows id then texts id else []

/-- The deltas of a row after an update: one more, or its last replacement. -/
def Update.received (update : Update) (truncated : Bool) (own : List JsString) : List JsString :=
  match update.type with
  | .textStart => own
  | .textDelta => own ++ pieces (update.delta.getD [])
  | .textEnd => if update.text.isSome ∧ truncated = false then pieces (update.text.getD []) else own

/-- The deltas of the rows after one part of a finished message. -/
def Part.received (validDate : Value → Bool) (truncated : Bool) (live : Live) (texts : JsString → List JsString) (part : Part) :
    JsString → List JsString :=
  if validDate part.stamp.createdAt then
    Function.update texts part.stamp.id (if truncated then present live texts part.stamp.id else pieces (part.text.getD []))
  else texts

def Part.follow (validDate : Value → Bool) (truncated : Bool) (state : Live × (JsString → List JsString)) (part : Part) :
    Live × (JsString → List JsString) :=
  (state.1.part validDate truncated part, part.received validDate truncated state.1 state.2)

/-- The deltas of each row since its last replacement, after a call. -/
def Op.received (validDate : Value → Bool) (live : Live) (texts : JsString → List JsString) : Op → JsString → List JsString
  | .accept (.messageUpdate stamp update truncated) =>
    if validDate stamp.createdAt then
      Function.update texts stamp.id (update.received truncated (present live texts stamp.id))
    else texts
  | .accept (.messageEnd parts truncated) =>
    (parts.foldl (Part.follow validDate truncated) (live, texts)).2
  | .upsert message => Function.update texts message.stamp.id (pieces (message.text.getD []))
  | _ => texts

/-- The state after some calls, with the deltas of each row. -/
def run (validDate : Value → Bool) (ops : List Op) : Live × (JsString → List JsString) :=
  ops.foldl (fun state op => (state.1.step validDate op, op.received validDate state.1 state.2)) (.empty, fun _ => [])

theorem Held.working (held : Held live.rows live.bytes texts) (stamp : Stamp) :
    Working live texts stamp.id (live.row stamp) (present live texts stamp.id) := by
  refine ⟨?_, held.bounded, held.distinct, fun other row _ found => held.shown other row found, ?_⟩
  · unfold Live.row
    cases found : Assoc.lookup live.rows stamp.id with
    | none =>
      rw [erase_of_lookup_none found]
      exact held.total
    | some row =>
      have total := held.total
      rw [weight_erase held.distinct found] at total
      exact total
  · unfold present Live.row Assoc.has
    cases found : Assoc.lookup live.rows stamp.id with
    | none => exact shows_nil rfl rfl rfl
    | some row => exact (held.shown stamp.id row found).congr rfl rfl rfl

theorem Held.drop (held : Held live.rows live.bytes texts) {id : JsString} {row : Row} (found : Assoc.lookup live.rows id = some row) :
    Held (live.drop id row).rows (live.drop id row).bytes texts := by
  have total := held.total
  rw [weight_erase held.distinct found] at total
  have bounded := held.bounded
  refine ⟨?_, ?_, Assoc.keys_nodup_erase held.distinct id, fun other own stored => held.shown other own ?_⟩
  · simp only [Live.drop, total]
    omega
  · simp only [Live.drop]
    omega
  · rw [Live.drop, Assoc.lookup_erase] at stored
    split at stored
    · cases stored
    · exact stored

theorem erase_head {id : JsString} {row : Row} {rest : List (JsString × Row)} (distinct : (Assoc.keys ((id, row) :: rest)).Nodup) :
    Assoc.erase ((id, row) :: rest) id = rest := by
  have fresh := (List.nodup_cons.mp distinct).1
  rw [Assoc.erase, List.filter_cons, if_neg (by simp)]
  exact erase_of_lookup_none (Assoc.lookup_eq_none_iff.mpr fresh)

/-- Trimming drops the oldest rows until few are left. -/
theorem Held.trim (rows : List (JsString × Row)) (same : live.rows = rows) (held : Held live.rows live.bytes texts) :
    Held (live.trim rows).rows (live.trim rows).bytes texts ∧ (live.trim rows).rows.length ≤ maxRows := by
  induction rows generalizing live with
  | nil => exact ⟨held, by rw [Live.trim, same]; exact Nat.zero_le _⟩
  | cons entry rest ih =>
    obtain ⟨id, row⟩ := entry
    have found : Assoc.lookup live.rows id = some row := by rw [same, Assoc.lookup_cons, if_pos rfl]
    rw [Live.trim]
    by_cases few : live.rows.length ≤ maxRows
    · rw [if_pos ⟨held.bounded, few⟩]
      exact ⟨held, few⟩
    · rw [if_neg fun both => few both.2, if_neg fun both => few both.2]
      refine ih ?_ (held.drop found)
      have distinct := held.distinct
      rw [same] at distinct
      rw [Live.drop, same]
      exact erase_head distinct

/-- A row that a call takes up at the place that the order keeps. -/
theorem Held.kept (held : Held live.rows live.bytes texts) {stamp ordered : Stamp} {visible : Bool} {next : Live}
    (kept : live.kept stamp visible = (ordered, next)) :
    ordered.id = stamp.id ∧ Working next texts stamp.id (next.row ordered) (present live texts stamp.id) := by
  cases kept
  exact ⟨rfl, @Held.working texts (live.kept stamp visible).2 held (live.kept stamp visible).1⟩

theorem Held.update (held : Held live.rows live.bytes texts) (stamp : Stamp) (update : Update) (truncated : Bool) :
    Held (live.update stamp update truncated).rows (live.update stamp update truncated).bytes
        (Function.update texts stamp.id (update.received truncated (present live texts stamp.id))) ∧
      (live.update stamp update truncated).rows.length ≤ maxRows := by
  unfold Live.update
  split
  next ordered next kept =>
  obtain ⟨same, working⟩ := held.kept kept
  refine Held.trim _ rfl ?_
  rw [same, Update.received]
  have completed : Working next texts stamp.id { next.row ordered with status := complete } (present live texts stamp.id) :=
    working.congr rfl rfl rfl
  cases update.type with
  | textStart => exact working.put rfl rfl rfl
  | textDelta => exact working.append _
  | textEnd =>
    simp only
    by_cases replaced : update.text.isSome = true ∧ truncated = false
    · rw [if_pos replaced, if_pos replaced]
      exact completed.replace _
    · rw [if_neg replaced, if_neg replaced]
      exact completed.put rfl rfl rfl

theorem Held.part (held : Held live.rows live.bytes texts) (truncated : Bool) (part : Part) :
    Held (live.part validDate truncated part).rows (live.part validDate truncated part).bytes
      (part.received validDate truncated live texts) := by
  unfold Live.part Part.received
  by_cases dated : validDate part.stamp.createdAt = true
  · rw [if_pos dated, if_pos dated]
    split
    next ordered next kept =>
    obtain ⟨same, working⟩ := held.kept kept
    have completed : Working next texts part.stamp.id { next.row ordered with status := complete }
        (present live texts part.stamp.id) := working.congr rfl rfl rfl
    rw [same]
    simp only
    by_cases cut : truncated = true
    · rw [if_pos cut, if_pos cut]
      exact completed.put rfl rfl rfl
    · rw [if_neg cut, if_neg cut]
      exact completed.replace _
  · rw [if_neg dated, if_neg dated]
    exact held

theorem follow_fst (truncated : Bool) (parts : List Part) (state : Live × (JsString → List JsString)) :
    (parts.foldl (Part.follow validDate truncated) state).1 = parts.foldl (Live.part validDate truncated) state.1 := by
  induction parts generalizing state with
  | nil => rfl
  | cons part parts ih => exact ih _

theorem Held.parts (truncated : Bool) (parts : List Part) {state : Live × (JsString → List JsString)}
    (held : Held state.1.rows state.1.bytes state.2) :
    Held (parts.foldl (Part.follow validDate truncated) state).1.rows (parts.foldl (Part.follow validDate truncated) state).1.bytes
      (parts.foldl (Part.follow validDate truncated) state).2 := by
  induction parts generalizing state with
  | nil => exact held
  | cons part parts ih => exact @ih (Part.follow validDate truncated state part) (held.part truncated part)

theorem weight_mapValues (f : JsString → Row → Row) (same : ∀ id row, (f id row).bytes = row.bytes) (rows : List (JsString × Row)) :
    weight (Assoc.mapValues f rows) = weight rows := by
  unfold weight Assoc.mapValues
  rw [List.map_map]
  exact congrArg List.sum (List.map_congr_left fun entry _ => same entry.1 entry.2)

theorem Held.settle (held : Held live.rows live.bytes texts) :
    Held (live.accept validDate .agentSettled).rows (live.accept validDate .agentSettled).bytes texts := by
  refine ⟨?_, held.bounded, ?_, fun id row found => ?_⟩
  · have total := held.total
    rw [← weight_mapValues (fun _ row => { row with status := complete }) (fun _ _ => rfl) live.rows] at total
    exact total
  · simp only [Live.accept, Assoc.keys_mapValues]
    exact held.distinct
  · simp only [Live.accept, Assoc.lookup_mapValues] at found
    obtain ⟨before, stored, rfl⟩ := Option.map_eq_some_iff.mp found
    exact (held.shown id before stored).congr rfl rfl rfl

theorem Held.upsert (held : Held live.rows live.bytes texts) (message : Presented) :
    Held (live.upsert message).rows (live.upsert message).bytes
        (Function.update texts message.stamp.id (pieces (message.text.getD []))) ∧
      (live.upsert message).rows.length ≤ maxRows := by
  unfold Live.upsert
  split
  next stamp next kept =>
  have working : stamp.id = message.stamp.id ∧ Working next texts stamp.id (next.row stamp) (present live texts message.stamp.id) := by
    split at kept
    · obtain ⟨same, working⟩ := held.kept kept
      exact ⟨same, same ▸ working⟩
    · cases kept
      exact ⟨rfl, held.working message.stamp⟩
  obtain ⟨same, working⟩ := working
  refine Held.trim _ rfl ?_
  rw [same] at working ⊢
  have presented : Working next texts message.stamp.id { next.row stamp with fields := message.fields, status := message.status }
      (present live texts message.stamp.id) := working.congr rfl rfl rfl
  exact presented.replace message.text

theorem length_erase_le (rows : List (JsString × Row)) (id : JsString) : (Assoc.erase rows id).length ≤ rows.length :=
  List.length_filter_le _ _

/-- Each entry of the snapshot that is still to be looked at is still stored. -/
theorem Held.reconcile (held : Held live.rows live.bytes texts) (canonicalIds : List JsString) :
    Held (live.reconcile canonicalIds).rows (live.reconcile canonicalIds).bytes texts ∧
      (live.reconcile canonicalIds).rows.length ≤ live.rows.length := by
  have general : ∀ rest : List (JsString × Row), (Assoc.keys rest).Nodup → ∀ live : Live, Held live.rows live.bytes texts →
      (∀ entry ∈ rest, Assoc.lookup live.rows entry.1 = some entry.2) →
      let final := rest.foldl (fun live entry =>
        if entry.2.status = complete ∧ entry.1 ∈ canonicalIds then live.drop entry.1 entry.2 else live) live
      Held final.rows final.bytes texts ∧ final.rows.length ≤ live.rows.length := by
    intro rest
    induction rest with
    | nil => exact fun _ live held _ => ⟨held, le_refl _⟩
    | cons entry rest ih =>
      intro distinct live held stored
      obtain ⟨fresh, others⟩ := List.nodup_cons.mp distinct
      rw [List.foldl_cons]
      by_cases settled : entry.2.status = complete ∧ entry.1 ∈ canonicalIds
      · rw [if_pos settled]
        have found := stored entry (List.mem_cons_self ..)
        have later : ∀ other ∈ rest, Assoc.lookup (live.drop entry.1 entry.2).rows other.1 = some other.2 := by
          intro other member
          have apart : entry.1 ≠ other.1 := fun same => fresh (same ▸ List.mem_map_of_mem member)
          rw [Live.drop, Assoc.lookup_erase, if_neg apart]
          exact stored other (List.mem_cons_of_mem _ member)
        obtain ⟨kept, fewer⟩ := ih others (live.drop entry.1 entry.2) (held.drop found) later
        exact ⟨kept, fewer.trans (length_erase_le live.rows entry.1)⟩
      · rw [if_neg settled]
        exact ih others live held fun other member => stored other (List.mem_cons_of_mem _ member)
  exact general live.rows held.distinct live held fun entry member => Assoc.lookup_of_mem held.distinct member

end Calls

section Runs

variable {texts : JsString → List JsString} {live : Live} {validDate : Value → Bool}

theorem step_held (op : Op) (held : Held live.rows live.bytes texts) (few : live.rows.length ≤ maxRows) :
    Held (live.step validDate op).rows (live.step validDate op).bytes (op.received validDate live texts) ∧
      (live.step validDate op).rows.length ≤ maxRows := by
  cases op with
  | accept event =>
    cases event with
    | progressEntry stamp => exact ⟨held, few⟩
    | agentStart => exact ⟨held, few⟩
    | messageUpdate stamp update truncated =>
      simp only [Live.step, Live.accept, Op.received]
      by_cases dated : validDate stamp.createdAt = true
      · rw [if_pos dated, if_pos dated]
        exact held.update stamp update truncated
      · rw [if_neg dated, if_neg dated]
        exact ⟨held, few⟩
    | messageEnd parts truncated =>
      have folded := @Held.parts validDate truncated parts (live, texts) held
      rw [follow_fst] at folded
      exact Held.trim _ rfl folded
    | agentSettled =>
      refine ⟨@Held.settle texts live validDate held, ?_⟩
      simp only [Live.step, Live.accept, Assoc.mapValues, List.length_map]
      exact few
  | remove id =>
    simp only [Live.step, Live.remove, Op.received]
    cases found : Assoc.lookup live.rows id with
    | none => exact ⟨held, few⟩
    | some row => exact ⟨held.drop found, (length_erase_le live.rows id).trans few⟩
  | upsert message => exact held.upsert message
  | reconcile canonicalIds =>
    obtain ⟨kept, fewer⟩ := held.reconcile canonicalIds
    exact ⟨kept, fewer.trans few⟩

theorem Shows.whole_text {own : List JsString} {row : Row} (shows : Shows own row) (untouched : row.truncated = false) :
    row.text = own.flatten ∧ row.bytes = (own.map utf8Length).sum := by
  cases shows with
  | whole _ chunks bytes =>
    refine ⟨?_, bytes⟩
    rw [Row.text, chunks, untouched, if_neg Bool.false_ne_true, List.append_nil]
  | cut _ _ _ _ _ short =>
    rw [untouched] at short
    cases short

theorem Shows.cut_text {own : List JsString} {row : Row} (shows : Shows own row) (short : row.truncated = true) :
    ∃ before delta after k, own = before ++ delta :: after ∧
      row.text = before.flatten ++ dropMark (((codePoints delta).take k).flatMap wellFormedPoint) ++ [0x2026] ∧
      row.bytes = (before.map utf8Length).sum + pointsLength ((codePoints delta).take k) := by
  cases shows with
  | whole untouched =>
    rw [short] at untouched
    cases untouched
  | cut before delta after k split _ chunks bytes =>
    refine ⟨before, delta, after, k, split, ?_, bytes⟩
    rw [Row.text, chunks, short, if_pos rfl, List.flatten_append, List.flatten_singleton]

theorem run_held (ops : List Op) :
    Held (run validDate ops).1.rows (run validDate ops).1.bytes (run validDate ops).2 ∧
      (run validDate ops).1.rows.length ≤ maxRows := by
  suffices general : ∀ (ops : List Op) (state : Live × (JsString → List JsString)), Held state.1.rows state.1.bytes state.2 →
      state.1.rows.length ≤ maxRows →
      let final := ops.foldl (fun state op => (state.1.step validDate op, op.received validDate state.1 state.2)) state
      Held final.1.rows final.1.bytes final.2 ∧ final.1.rows.length ≤ maxRows from
    general ops _ ⟨rfl, by decide, List.nodup_nil, fun id row found => by cases found⟩ (Nat.zero_le _)
  intro ops
  induction ops with
  | nil => exact fun _ held few => ⟨held, few⟩
  | cons op ops ih =>
    intro state held few
    obtain ⟨kept, still⟩ := @step_held state.2 state.1 validDate op held few
    exact ih _ kept still

/-- After any calls the byte total is the sum of the rows' bytes and within the limit, and at most 512 rows are left. A row that
is not truncated shows the deltas since its last replacement and has their bytes; a truncated one shows the deltas before some
delta and the first code points of that one, as they are encoded and decoded, and has the bytes of these. -/
theorem run_accounted (validDate : Value → Bool) (ops : List Op) :
    let live := (run validDate ops).1
    let texts := (run validDate ops).2
    live.bytes = ((live.rows.map fun entry => entry.2.bytes).sum : ℕ) ∧ live.bytes ≤ maxSnapshotBytes ∧
      live.rows.length ≤ maxRows ∧ ∀ entry ∈ live.rows,
        (entry.2.truncated = false → entry.2.text = (texts entry.1).flatten ∧
          entry.2.bytes = ((texts entry.1).map utf8Length).sum) ∧
        (entry.2.truncated = true → ∃ before delta after k, texts entry.1 = before ++ delta :: after ∧
          entry.2.text = before.flatten ++ dropMark (((codePoints delta).take k).flatMap wellFormedPoint) ++ [0x2026] ∧
          entry.2.bytes = (before.map utf8Length).sum + pointsLength ((codePoints delta).take k)) := by
  obtain ⟨held, few⟩ := @run_held validDate ops
  refine ⟨held.total, held.bounded, few, fun entry member => ?_⟩
  have shows := held.shown entry.1 entry.2 (Assoc.lookup_of_mem held.distinct member)
  exact ⟨shows.whole_text, shows.cut_text⟩

/-- Two halves of a surrogate pair that arrive as two deltas count six bytes, and the row's text has four. -/
theorem run_surrogates :
    let stamp : Stamp := ⟨[0x61], .undefined, .undefined⟩
    let delta (unit : UInt16) : Op := .accept (.messageUpdate stamp ⟨.textDelta, some [unit], none⟩ false)
    let live := (run (fun _ => true) [delta 0xD83D, delta 0xDE00]).1
    live.bytes = 6 ∧ live.rows.map (fun entry => (entry.2.truncated, JsString.utf8Length entry.2.text)) = [(false, 4)] := by
  decide +kernel

end Runs

end PersistentHarness.LiveConversation
