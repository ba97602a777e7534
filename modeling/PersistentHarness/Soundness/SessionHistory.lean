import Mathlib.Algebra.BigOperators.Group.List.Basic
import PersistentHarness.Lib.Pointwise
import PersistentHarness.Model.SessionHistory

/-! # What `open` shows

The rows of an indexed session are numbered without gaps in every run. `open` grows an interval of them around its target on
both sides, within the requested window and within the budget, and says of each side whether it left a row out.
-/

namespace PersistentHarness.SessionHistory

open JsString (codePoints flatten_codePoints)

section CodePoints

/-- A beginning of the code points of a text, with a mark behind it that completes no pair. -/
theorem codePoints_take (value : JsString) (k : ℕ) {mark : UInt16} (single : isLowSurrogate mark = false) :
    codePoints (((codePoints value).take k).flatten ++ [mark]) = (codePoints value).take k ++ [[mark]] := by
  induction value using PersistentHarness.JsString.codePoints.induct generalizing k with
  | case1 => rw [codePoints, List.take_nil]; rfl
  | case2 u =>
    cases k with
    | zero => rfl
    | succ k =>
      rw [codePoints, List.take_succ_cons, List.take_nil]
      show codePoints [u, mark] = [[u], [mark]]
      rw [codePoints, if_neg, codePoints]
      rintro ⟨-, low⟩
      rw [single] at low
      cases low
  | case3 u v rest paired ih =>
    rw [codePoints, if_pos paired]
    cases k with
    | zero => rfl
    | succ k =>
      rw [List.take_succ_cons, List.flatten_cons, List.append_assoc]
      show codePoints (u :: v :: (((codePoints rest).take k).flatten ++ [mark])) = _
      rw [codePoints, if_pos paired, ih]
      rfl
  | case4 u v rest unpaired ih =>
    rw [codePoints, if_neg unpaired]
    cases k with
    | zero => rfl
    | succ k =>
      rw [List.take_succ_cons, List.flatten_cons, List.append_assoc, List.singleton_append]
      have rest_ := ih k
      obtain ⟨next, others, shown⟩ : ∃ next others, ((codePoints (v :: rest)).take k).flatten ++ [mark] = next :: others := by
        cases ((codePoints (v :: rest)).take k).flatten with
        | nil => exact ⟨mark, [], rfl⟩
        | cons next others => exact ⟨next, _, rfl⟩
      have alone : ¬(isHighSurrogate u ∧ isLowSurrogate next) := by
        rintro ⟨high, low⟩
        cases k with
        | zero =>
          cases shown
          rw [single] at low
          cases low
        | succ k =>
          -- the next code point begins with the next unit
          have same : next = v := by
            cases rest with
            | nil => rw [codePoints, List.take_succ_cons] at shown; exact (List.cons.inj shown).1.symm
            | cons w rest =>
              rw [codePoints] at shown
              split at shown <;> rw [List.take_succ_cons] at shown <;> exact (List.cons.inj shown).1.symm
          exact unpaired ⟨high, same ▸ low⟩
      rw [shown] at rest_ ⊢
      rw [codePoints, if_neg alone, rest_]
      rfl

theorem charLength_truncatePrefix (value : JsString) (maximum : ℕ) : charLength (truncatePrefix value maximum).text ≤ maximum := by
  unfold truncatePrefix
  simp only
  split
  · next short =>
    rw [flatten_codePoints]
    exact short
  · next long =>
    split
    · next none => exact Nat.zero_le _
    · split
      · next one => rw [one]; exact le_refl 1
      · next =>
        rw [charLength, codePoints_take value _ (by decide), List.length_append, List.length_take, List.length_singleton]
        omega

theorem truncatePrefix_truncated_iff (value : JsString) (maximum : ℕ) :
    (truncatePrefix value maximum).truncated = true ↔ (truncatePrefix value maximum).text ≠ value := by
  have bound := charLength_truncatePrefix value maximum
  by_cases short : (codePoints value).length ≤ maximum
  · have whole : truncatePrefix value maximum = ⟨value, false⟩ := by
      rw [truncatePrefix]
      simp only [if_pos short, flatten_codePoints]
    rw [whole]
    simp
  · have cut : (truncatePrefix value maximum).truncated = true := by
      unfold truncatePrefix
      simp only [if_neg short]
      split
      · rfl
      · split <;> rfl
    refine iff_of_true cut fun same => short ?_
    rw [same] at bound
    exact bound

end CodePoints

section Numbering

variable {textHash : JsString → JsString} {index : Index} {sessionId : JsString}

/-- The rows of a session are numbered one by one from zero. -/
structure Numbered (documents : Table (JsString × JsString) Document) (sessionId : JsString) : Prop where
  single : ∀ e f row other, documents.get? (sessionId, e) = some row → documents.get? (sessionId, f) = some other →
    row.ordinal = other.ordinal → e = f
  dense : ∀ e row, documents.get? (sessionId, e) = some row → ∀ k ≤ row.ordinal,
    ∃ f other, documents.get? (sessionId, f) = some other ∧ other.ordinal = k

/-- What the numbering loop wrote. -/
structure Written (textHash : JsString → JsString) (sessionId : JsString) (messages : List HistoryMessage) (start : ℕ)
    (previous : List JsString) (documents : Table (JsString × JsString) Document)
    (result : Table (JsString × JsString) Document × List JsString) : Prop where
  frame : ∀ key, (∀ m ∈ messages, key ≠ (sessionId, m.id)) → result.1.get? key = documents.get? key
  rows : ∀ i m, messages[i]? = some m → ∃ row, document? textHash m (start + i) = some row ∧
    result.1.get? (sessionId, m.id) = some row
  rest : ∀ id, id ∈ result.2 ↔ id ∈ previous ∧ ∀ m ∈ messages, id ≠ m.id
  fresh : ∀ m ∈ messages, m.id ∈ previous ∨ documents.get? (sessionId, m.id) = none

theorem Written.cons {message : HistoryMessage} {others : List HistoryMessage} {start : ℕ} {previous later : List JsString}
    {documents next : Table (JsString × JsString) Document} {row : Document}
    {result : Table (JsString × JsString) Document × List JsString} (made : document? textHash message start = some row)
    (stored : ∀ key, next.get? key = if (sessionId, message.id) = key then some row else documents.get? key)
    (left : ∀ id, id ∈ later ↔ id ∈ previous ∧ id ≠ message.id)
    (admitted : message.id ∈ previous ∨ documents.get? (sessionId, message.id) = none)
    (written : Written textHash sessionId others (start + 1) later next result) :
    Written textHash sessionId (message :: others) start previous documents result := by
  have apart : ∀ m ∈ others, m.id ≠ message.id := by
    intro m member same
    rcases written.fresh m member with waiting | absent
    · exact ((left m.id).mp waiting).2 same
    · rw [same, stored, if_pos rfl] at absent
      cases absent
  refine ⟨fun key away => ?_, fun i m there => ?_, fun id => ?_, fun m member => ?_⟩
  · rw [written.frame key fun m member => away m (List.mem_cons_of_mem _ member), stored,
      if_neg (away message (List.mem_cons_self ..)).symm]
  · cases i with
    | zero =>
      cases there
      refine ⟨row, made, ?_⟩
      rw [written.frame _ fun m member same => apart m member (Prod.mk.inj same).2.symm, stored, if_pos rfl]
    | succ i =>
      obtain ⟨other, shape, found⟩ := written.rows i m there
      exact ⟨other, by rw [← shape]; congr 1; omega, found⟩
  · rw [written.rest, left, List.forall_mem_cons, and_assoc]
  · rcases List.mem_cons.mp member with rfl | later_
    · exact admitted
    · refine (written.fresh m later_).imp (fun waiting => ((left m.id).mp waiting).1) fun absent => ?_
      rwa [stored, if_neg fun same => apart m later_ (Prod.mk.inj same).2.symm] at absent

theorem written_writeDocuments (messages : List HistoryMessage) {start : ℕ} {previous : List JsString}
    {documents : Table (JsString × JsString) Document} {result : Table (JsString × JsString) Document × List JsString}
    (held : ∀ id ∈ previous, documents.get? (sessionId, id) ≠ none)
    (wrote : writeDocuments textHash sessionId messages start previous documents = some result) :
    Written textHash sessionId messages start previous documents result := by
  induction messages generalizing start previous documents with
  | nil =>
    cases wrote
    refine ⟨fun _ _ => rfl, fun i m there => ?_, fun id => ?_, fun m member => absurd member List.not_mem_nil⟩
    · rw [List.getElem?_nil] at there
      cases there
    · exact ⟨fun waiting => ⟨waiting, fun m member => absurd member List.not_mem_nil⟩, And.left⟩
  | cons message others ih =>
    rw [writeDocuments] at wrote
    obtain ⟨row, made, wrote⟩ := Option.bind_eq_some_iff.mp wrote
    split at wrote
    · next known =>
      have present := held message.id known
      have stored : ∀ key, (documents.update (sessionId, message.id) fun _ => row).get? key =
          if (sessionId, message.id) = key then some row else documents.get? key := by
        intro key
        obtain ⟨old, there⟩ := Option.ne_none_iff_exists'.mp present
        rw [Table.get?_update_of there]
        simp only [eq_comm]
      have left : ∀ id, id ∈ previous.filter (· ≠ message.id) ↔ id ∈ previous ∧ id ≠ message.id := by simp
      refine .cons made stored left (.inl known) (ih (fun id waiting => ?_) wrote)
      obtain ⟨before, apart⟩ := (left id).mp waiting
      rw [stored, if_neg fun same => apart (Prod.mk.inj same).2.symm]
      exact held id before
    · next unknown =>
      obtain ⟨next, inserted, wrote⟩ := Option.bind_eq_some_iff.mp wrote
      have stored := Table.get?_insert inserted
      have left : ∀ id, id ∈ previous ↔ id ∈ previous ∧ id ≠ message.id :=
        fun id => ⟨fun waiting => ⟨waiting, fun same => unknown (same ▸ waiting)⟩, And.left⟩
      refine .cons made stored left (.inr (Table.fresh_of_insert? inserted)) (ih (fun id waiting => ?_) wrote)
      have apart : id ≠ message.id := ((left id).mp waiting).2
      rw [stored, if_neg fun same => apart (Prod.mk.inj same).2.symm]
      exact held id waiting

theorem mem_entryIds {id : JsString} : id ∈ index.entryIds sessionId ↔ index.documents.get? (sessionId, id) ≠ none := by
  rw [Index.entryIds, Table.mem_collect]
  constructor
  · rintro ⟨key, row, stored, named⟩ absent
    split at named
    · next same =>
      cases named
      subst same
      rw [stored] at absent
      cases absent
    · cases named
  · intro present
    obtain ⟨row, stored⟩ := Option.ne_none_iff_exists'.mp present
    exact ⟨_, row, stored, if_pos rfl⟩

theorem written_of_publish {session : Session} {messages : List HistoryMessage} {next : Index}
    (published : index.publish textHash session messages = some next) : ∃ result,
      Written textHash session.sessionId (messages.filter (·.role ∈ roles)) 0 (index.entryIds session.sessionId) index.documents result ∧
      ∀ key, next.documents.get? key =
        (result.1.get? key).filter fun _ => !decide (key.1 = session.sessionId ∧ key.2 ∈ result.2) := by
  rw [Index.publish] at published
  obtain ⟨⟨documents, previous⟩, wrote, made⟩ := Option.bind_eq_some_iff.mp published
  cases made
  exact ⟨_, written_writeDocuments _ (fun id waiting => mem_entryIds.mp waiting) wrote, fun key => Table.get?_delete ..⟩

theorem publish_rows {session : Session} {messages : List HistoryMessage} {next : Index}
    (published : index.publish textHash session messages = some next) (id : JsString) (row : Document) :
    next.documents.get? (session.sessionId, id) = some row ↔
      ∃ i m, (messages.filter (·.role ∈ roles))[i]? = some m ∧ m.id = id ∧ document? textHash m i = some row := by
  obtain ⟨result, written, stored⟩ := written_of_publish published
  generalize messages.filter (·.role ∈ roles) = shown at written
  rw [stored, Option.filter_eq_some_iff]
  simp only [true_and, Bool.not_eq_true', decide_eq_false_iff_not]
  constructor
  · rintro ⟨stored, kept⟩
    by_cases named : ∃ m ∈ shown, m.id = id
    · obtain ⟨m, member, rfl⟩ := named
      obtain ⟨i, there⟩ := List.mem_iff_getElem?.mp member
      obtain ⟨other, made, found⟩ := written.rows i m there
      rw [Nat.zero_add] at made
      cases found.symm.trans stored
      exact ⟨i, m, there, rfl, made⟩
    · have away : ∀ m ∈ shown, id ≠ m.id := fun m member same => named ⟨m, member, same.symm⟩
      -- an older row would be among those that are left, and these are deleted
      refine absurd ((written.rest id).mpr ⟨mem_entryIds.mpr fun absent => ?_, away⟩) kept
      rw [written.frame _ fun m member same => away m member (Prod.mk.inj same).2, absent] at stored
      cases stored
  · rintro ⟨i, m, there, rfl, made⟩
    obtain ⟨other, same, found⟩ := written.rows i m there
    rw [Nat.zero_add] at same
    cases same.symm.trans made
    refine ⟨found, fun waiting => ?_⟩
    exact ((written.rest m.id).mp waiting).2 m (List.mem_of_getElem? there) rfl

theorem publish_frame {session : Session} {messages : List HistoryMessage} {next : Index}
    (published : index.publish textHash session messages = some next) (other : sessionId ≠ session.sessionId) (id : JsString) :
    next.documents.get? (sessionId, id) = index.documents.get? (sessionId, id) := by
  obtain ⟨result, written, stored⟩ := written_of_publish published
  rw [stored, written.frame _ fun m _ same => other (Prod.mk.inj same).1]
  cases index.documents.get? (sessionId, id) with
  | none => rfl
  | some row => rw [Option.filter_some, if_pos]; simp [other]

theorem ordinal_of_document? {message : HistoryMessage} {ordinal : ℕ} {row : Document}
    (made : document? textHash message ordinal = some row) : row.ordinal = ordinal := by
  rw [document?] at made
  obtain ⟨createdAt, _, rfl⟩ := Option.map_eq_some_iff.mp made
  rfl

/-- What a publication needs: no entry twice, and a date of each message. -/
def Publishable (messages : List HistoryMessage) : Prop :=
  (messages.map (·.id)).Nodup ∧ ∀ m ∈ messages, m.createdAt ≠ none

instance (messages : List HistoryMessage) : Decidable (Publishable messages) := inferInstanceAs (Decidable (_ ∧ _))

theorem writeDocuments_ne_none (messages : List HistoryMessage) {start : ℕ} {previous : List JsString} (written : List JsString)
    {documents : Table (JsString × JsString) Document}
    (held : ∀ id, documents.get? (sessionId, id) ≠ none ↔ id ∈ previous ∨ id ∈ written) (apart : ∀ id ∈ written, id ∉ previous) :
    writeDocuments textHash sessionId messages start previous documents ≠ none ↔
      Publishable messages ∧ ∀ m ∈ messages, m.id ∉ written := by
  induction messages generalizing start previous written documents with
  | nil => simp [writeDocuments, Publishable]
  | cons message others ih =>
    rw [writeDocuments, document?]
    cases dated : message.createdAt with
    | none => simp [Publishable, dated]
    | some createdAt =>
      simp only [Option.map_some, Option.bind_eq_bind, Option.bind_some]
      generalize (⟨message.role, createdAt, start, textHash message.text⟩ : Document) = row
      have goes : ∀ {later : List JsString} {next : Table (JsString × JsString) Document}, message.id ∉ written →
          (∀ id, id ∈ later ↔ id ∈ previous ∧ id ≠ message.id) →
          (∀ key, next.get? key = if (sessionId, message.id) = key then some row else documents.get? key) →
          (writeDocuments textHash sessionId others (start + 1) later next ≠ none ↔
            Publishable (message :: others) ∧ ∀ m ∈ message :: others, m.id ∉ written) := by
        intro later next fresh left stored
        rw [ih (message.id :: written) (fun id => ?_) fun id member => ?_]
        · simp only [Publishable, List.map_cons, List.nodup_cons, List.mem_cons, List.mem_map]
          grind
        · rw [stored]
          grind
        · grind
      split
      · next known =>
        obtain ⟨old, there⟩ := Option.ne_none_iff_exists'.mp ((held message.id).mpr (.inl known))
        refine goes (fun taken => apart _ taken known) (by simp) fun key => ?_
        rw [Table.get?_update_of there]
        simp only [eq_comm]
      · next unknown =>
        cases inserted : documents.insert? (sessionId, message.id) row with
        | none =>
          have taken := ((held message.id).mp (Table.insert?_eq_none.mp inserted)).resolve_left unknown
          simp [taken]
        | some next =>
          have free := Table.fresh_of_insert? inserted
          refine goes (fun taken => (held message.id).mpr (.inr taken) free) (fun id => ?_) (Table.get?_insert inserted)
          exact ⟨fun waiting => ⟨waiting, fun same => unknown (same ▸ waiting)⟩, And.left⟩

theorem publish_ne_none {session : Session} {messages : List HistoryMessage} :
    index.publish textHash session messages ≠ none ↔ Publishable (messages.filter (·.role ∈ roles)) := by
  have held : ∀ id, index.documents.get? (session.sessionId, id) ≠ none ↔
      id ∈ index.entryIds session.sessionId ∨ id ∈ ([] : List JsString) := fun id => by simp [mem_entryIds]
  have wrote : writeDocuments textHash session.sessionId (messages.filter (·.role ∈ roles)) 0 (index.entryIds session.sessionId)
      index.documents ≠ none ↔ _ := writeDocuments_ne_none _ [] held (by simp)
  rw [and_iff_left fun _ _ => List.not_mem_nil] at wrote
  rw [← wrote, Index.publish]
  cases writeDocuments .. <;> simp

/-- What the index stands for: the shown messages of each session, in their order. -/
def reflect (history : JsString → List HistoryMessage) : Op → JsString → List HistoryMessage
  | .publish session messages =>
    if Publishable (messages.filter (·.role ∈ roles)) then
      Function.update history session.sessionId (messages.filter (·.role ∈ roles))
    else history
  | .deleteSession sessionId => Function.update history sessionId []
  | .recover => fun _ => []

/-- The rows of each session are those of its messages, numbered in their order. -/
structure Reflects (textHash : JsString → JsString) (index : Index) (history : JsString → List HistoryMessage) : Prop where
  rows : ∀ sessionId id row, index.documents.get? (sessionId, id) = some row ↔
    ∃ i m, (history sessionId)[i]? = some m ∧ m.id = id ∧ document? textHash m i = some row
  whole : ∀ sessionId, Publishable (history sessionId)

variable {history : JsString → List HistoryMessage}

theorem reflects_empty : Reflects textHash .empty fun _ => [] :=
  ⟨fun sessionId id row => by simp [Index.empty], fun _ => by simp [Publishable]⟩

theorem Reflects.update (reflects : Reflects textHash index history) {next : Index} {changed : JsString}
    {messages : List HistoryMessage} (whole : Publishable messages)
    (frame : ∀ sessionId ≠ changed, ∀ id, next.documents.get? (sessionId, id) = index.documents.get? (sessionId, id))
    (rows : ∀ id row, next.documents.get? (changed, id) = some row ↔
      ∃ i m, messages[i]? = some m ∧ m.id = id ∧ document? textHash m i = some row) :
    Reflects textHash next (Function.update history changed messages) := by
  constructor
  · intro sessionId id row
    by_cases same : sessionId = changed
    · rw [same, Function.update_self]
      exact rows id row
    · rw [Function.update_of_ne same, frame sessionId same]
      exact reflects.rows sessionId id row
  · intro sessionId
    by_cases same : sessionId = changed
    · rwa [same, Function.update_self]
    · rw [Function.update_of_ne same]
      exact reflects.whole sessionId

theorem Reflects.step (reflects : Reflects textHash index history) (op : Op) :
    Reflects textHash (index.step textHash op) (reflect history op) := by
  cases op with
  | publish session messages =>
    rw [Index.step, reflect]
    cases published : index.publish textHash session messages with
    | none =>
      rw [if_neg fun publishable => publish_ne_none.mpr publishable published]
      exact reflects
    | some next =>
      have publishable := publish_ne_none.mp (published ▸ Option.some_ne_none next)
      rw [if_pos publishable]
      exact reflects.update publishable (fun _ other => publish_frame published other) (publish_rows published)
  | deleteSession gone =>
    refine reflects.update (by simp [Publishable]) (fun sessionId other id => ?_) fun id row => ?_
    · rw [Index.step, Index.deleteSession, Table.get?_delete]
      cases index.documents.get? (sessionId, id) <;> simp [other]
    · rw [Index.step, Index.deleteSession, Table.get?_delete]
      cases index.documents.get? (gone, id) <;> simp
  | recover => exact reflects_empty

theorem Reflects.steps (reflects : Reflects textHash index history) (ops : List Op) :
    Reflects textHash (ops.foldl (Index.step textHash) index) (ops.foldl reflect history) := by
  induction ops generalizing index history with
  | nil => exact reflects
  | cons op ops ih => exact ih (reflects.step op)

theorem Reflects.numbered (reflects : Reflects textHash index history) (sessionId : JsString) :
    Numbered index.documents sessionId := by
  refine ⟨fun e f row other atE atF same => ?_, fun e row atE k le => ?_⟩
  · obtain ⟨i, m, there, rfl, made⟩ := (reflects.rows ..).mp atE
    obtain ⟨j, n, thereToo, rfl, madeToo⟩ := (reflects.rows ..).mp atF
    rw [ordinal_of_document? made, ordinal_of_document? madeToo] at same
    subst same
    cases there.symm.trans thereToo
    rfl
  · obtain ⟨i, m, there, rfl, made⟩ := (reflects.rows ..).mp atE
    rw [ordinal_of_document? made] at le
    obtain ⟨inside, -⟩ := List.getElem?_eq_some_iff.mp there
    have thereToo := List.getElem?_eq_getElem (lt_of_le_of_lt le inside)
    obtain ⟨createdAt, dated⟩ := Option.ne_none_iff_exists'.mp
      ((reflects.whole sessionId).2 _ (List.mem_of_getElem? thereToo))
    exact ⟨_, _, (reflects.rows ..).mpr ⟨k, _, thereToo, rfl, congrArg (Option.map _) dated⟩, rfl⟩

theorem numbered_run (ops : List Op) (sessionId : JsString) : Numbered (run textHash ops).documents sessionId :=
  (reflects_empty.steps ops).numbered sessionId

end Numbering

section Windows

variable {textHash : JsString → JsString} {index : Index} {sessionId : JsString}

/-- A strictly increasing list without gaps above its start is a range. -/
theorem eq_range' {l : List ℕ} {first : ℕ} (sorted : l.Pairwise (· < ·)) (above : ∀ k ∈ l, first ≤ k)
    (closed : ∀ k ∈ l, ∀ j, first ≤ j → j ≤ k → j ∈ l) : l = List.range' first l.length := by
  induction l generalizing first with
  | nil => rfl
  | cons a l ih =>
    obtain ⟨smallest, rest⟩ := List.pairwise_cons.mp sorted
    have start : a = first := by
      have low := above a (List.mem_cons_self ..)
      rcases List.mem_cons.mp (closed a (List.mem_cons_self ..) first (le_refl _) low) with same | later
      · exact same.symm
      · have less := smallest first later
        omega
    subst start
    rw [List.length_cons, List.range'_succ]
    refine congrArg (a :: ·) (ih rest (fun k member => smallest k member) fun k member j low high => ?_)
    rcases List.mem_cons.mp (closed k (List.mem_cons_of_mem _ member) j (by omega) high) with same | later
    · omega
    · exact later

theorem mem_window {first last : ℕ} {row : JsString × Document} : row ∈ index.window sessionId first last ↔
    index.documents.get? (sessionId, row.1) = some row.2 ∧ first ≤ row.2.ordinal ∧ row.2.ordinal ≤ last := by
  rw [Index.window, List.mem_insertionSort, Table.mem_collect]
  constructor
  · rintro ⟨key, stored, found, named⟩
    split at named
    · next inside =>
      cases named
      obtain ⟨rfl, low, high⟩ := inside
      exact ⟨found, low, high⟩
    · cases named
  · rintro ⟨found, low, high⟩
    exact ⟨_, row.2, found, if_pos ⟨rfl, low, high⟩⟩

theorem window_sorted (numbered : Numbered index.documents sessionId) (first last : ℕ) :
    ((index.window sessionId first last).map fun row => row.2.ordinal).Pairwise (· < ·) := by
  have sorted : (index.window sessionId first last).Pairwise fun a b => a.2.ordinal ≤ b.2.ordinal :=
    List.pairwise_insertionSort (fun a b : JsString × Document => a.2.ordinal ≤ b.2.ordinal) _
  have distinct : (index.window sessionId first last).Nodup := by
    refine (List.perm_insertionSort _ _).nodup_iff.mpr (List.Nodup.filterMap ?_ (List.Nodup.of_map _ index.documents.unique))
    rintro ⟨⟨s, e⟩, row⟩ ⟨⟨s', e'⟩, row'⟩ b here there
    simp only [Option.mem_def, Option.ite_none_right_eq_some, Option.some.injEq] at here there
    obtain ⟨⟨rfl, -⟩, rfl⟩ := here
    obtain ⟨⟨rfl, -⟩, same⟩ := there
    cases same
    rfl
  rw [List.pairwise_map]
  refine (sorted.and distinct).imp_of_mem fun {a b} atA atB order => lt_of_le_of_ne order.1 fun same => order.2 ?_
  have storedA := (mem_window.mp atA).1
  have storedB := (mem_window.mp atB).1
  have entries := numbered.single a.1 b.1 a.2 b.2 storedA storedB same
  rw [entries] at storedA
  exact Prod.ext entries (Option.some.inj (storedA.symm.trans storedB))

/-- The rows of a window that begins at the number of some row, or at zero, are numbered without gaps. -/
theorem window_ordinals (numbered : Numbered index.documents sessionId) (first last : ℕ) :
    (index.window sessionId first last).map (fun row => row.2.ordinal) =
      List.range' first (index.window sessionId first last).length := by
  have range := @eq_range' _ first (window_sorted numbered first last) ?_ ?_
  · rwa [List.length_map] at range
  · intro k member
    obtain ⟨row, inside, rfl⟩ := List.mem_map.mp member
    exact (mem_window.mp inside).2.1
  · intro k member j low high
    obtain ⟨row, inside, rfl⟩ := List.mem_map.mp member
    obtain ⟨stored, -, top⟩ := mem_window.mp inside
    obtain ⟨e, other, found, rfl⟩ := numbered.dense row.1 row.2 stored j high
    exact List.mem_map.mpr ⟨(e, other), mem_window.mpr ⟨found, low, high.trans top⟩, rfl⟩

structure Agrees (textHash : JsString → JsString) (row : JsString × Document) (message : HistoryMessage) : Prop where
  id : message.id = row.1
  role : message.role = row.2.role
  createdAt : message.createdAt = some row.2.createdAt
  text : textHash message.text = row.2.textHash

theorem agrees_projection {hydrated messages : List HistoryMessage} {rows : List (JsString × Document)}
    (projected : projection textHash hydrated rows = some messages) : List.Forall₂ (Agrees textHash) rows messages := by
  rw [projection] at projected
  induction rows generalizing messages with
  | nil =>
    cases projected
    exact .nil
  | cons row rows ih =>
    rw [List.mapM_cons] at projected
    obtain ⟨message, found, projected⟩ := Option.bind_eq_some_iff.mp projected
    obtain ⟨others, rest, made⟩ := Option.bind_eq_some_iff.mp projected
    cases made
    refine .cons ?_ (ih rest)
    obtain ⟨candidate, here, checked⟩ := Option.bind_eq_some_iff.mp found
    split at checked
    · next same =>
      cases checked
      have named := List.find?_some here
      exact ⟨of_decide_eq_true named, same.1, same.2.1, same.2.2⟩
    · cases checked

end Windows

section Growth

variable (messages : List HistoryMessage) (targetText : BoundedText) (target : ℕ)

/-- What is shown at an index: the target's bounded text, or a neighbour's whole text. -/
def choice (i : ℕ) : ℤ × BoundedText := (i, if i = target then targetText else ⟨textAt messages i, false⟩)

/-- The code points of the choices. -/
def spent (chosen : List (ℤ × BoundedText)) : ℤ := (chosen.map fun c => (charLength c.2.text : ℤ)).sum

/-- The choices are those of an interval around the target, paid from one budget. -/
structure Grown (start end_ budget : ℤ) (g : Growth) (low count : ℕ) : Prop where
  chosen : g.chosen.Perm ((List.range' low count).map (choice messages targetText target))
  paid : g.remaining + spent g.chosen = budget
  solvent : 0 ≤ g.remaining
  first : 0 ≤ start
  start : start ≤ low
  end_ : (low : ℤ) + count ≤ end_
  before : low ≤ target
  after : target < low + count

/-- As long as a side may grow, the interval reaches as far as the distance or the window allows. -/
structure Frontier (start end_ : ℤ) (g : Growth) (low count : ℕ) (distance distanceAfter : ℤ) : Prop where
  before : 0 < g.remaining → g.beforeContiguous = true → (low : ℤ) = max start (target - distance)
  after : 0 < g.remaining → g.afterContiguous = true → (low : ℤ) + count = min end_ (target + distanceAfter + 1)

variable {messages targetText target} {start end_ budget distance : ℤ} {g : Growth} {low count : ℕ}

theorem spent_append (chosen : List (ℤ × BoundedText)) (c : ℤ × BoundedText) :
    spent (chosen ++ [c]) = spent chosen + charLength c.2.text := by
  rw [spent, List.map_append, List.sum_append]
  simp [spent]

/-- The neighbour on one side stays out, is taken, or ends the growth of its side. -/
theorem visit_cases (messages : List HistoryMessage) (start end_ : ℤ) (g : Growth) (index : ℤ) (side : Side) :
    ((index < start ∨ end_ ≤ index ∨ g.remaining ≤ 0 ∨ side = .before ∧ g.beforeContiguous = false ∨
        side = .after ∧ g.afterContiguous = false) ∧ g.visit messages start end_ index side = g) ∨
      (start ≤ index ∧ index < end_ ∧ 0 < g.remaining ∧ (side = .before → g.beforeContiguous = true) ∧
        (side = .after → g.afterContiguous = true)) ∧
      ((charLength (textAt messages index) : ℤ) ≤ g.remaining ∧ g.visit messages start end_ index side =
          { g with chosen := g.chosen ++ [(index, ⟨textAt messages index, false⟩)],
                   remaining := g.remaining - charLength (textAt messages index) } ∨
        g.visit messages start end_ index side =
          { g with beforeContiguous := g.beforeContiguous && decide (side ≠ .before),
                   afterContiguous := g.afterContiguous && decide (side ≠ .after) }) := by
  unfold Growth.visit
  by_cases outside : index < start ∨ end_ ≤ index ∨ g.remaining ≤ 0
  · exact .inl ⟨by tauto, if_pos outside⟩
  · rw [if_neg outside]
    by_cases ended : side = .before ∧ g.beforeContiguous = false ∨ side = .after ∧ g.afterContiguous = false
    · exact .inl ⟨by tauto, if_pos ended⟩
    · rw [if_neg ended]
      refine .inr ⟨⟨by omega, by omega, by omega, fun same => ?_, fun same => ?_⟩, ?_⟩
      · exact Bool.not_eq_false _ ▸ fun no => ended (.inl ⟨same, no⟩)
      · exact Bool.not_eq_false _ ▸ fun no => ended (.inr ⟨same, no⟩)
      · by_cases fits : (charLength (textAt messages index) : ℤ) ≤ g.remaining
        · exact .inl ⟨fits, if_pos fits⟩
        · refine .inr ((if_neg fits).trans ?_)
          cases side <;> simp

theorem Grown.take (grown : Grown messages targetText target start end_ budget g low count) {i : ℕ}
    (fits : (charLength (textAt messages i) : ℤ) ≤ g.remaining) {low' : ℕ} (apart : i ≠ target)
    (joined : (List.range' low' (count + 1)).Perm (List.range' low count ++ [i])) (inside : start ≤ low')
    (insideToo : (low' : ℤ) + (count + 1) ≤ end_) (before : low' ≤ target) (after : target < low' + (count + 1)) :
    Grown messages targetText target start end_ budget
      { g with chosen := g.chosen ++ [((i : ℤ), ⟨textAt messages i, false⟩)],
               remaining := g.remaining - charLength (textAt messages i) } low' (count + 1) where
  chosen := by
    have taken : [((i : ℤ), (⟨textAt messages i, false⟩ : BoundedText))] = [i].map (choice messages targetText target) := by
      rw [List.map_singleton, choice, if_neg apart]
    have all := (joined.map (choice messages targetText target)).symm
    rw [List.map_append, ← taken] at all
    exact (grown.chosen.append_right _).trans all
  paid := by
    have paid := grown.paid
    rw [spent_append]
    simp only
    omega
  solvent := by
    simp only
    omega
  first := grown.first
  start := inside
  end_ := by
    rw [Nat.cast_add, Nat.cast_one]
    exact insideToo
  before := before
  after := after

theorem Grown.visitBefore (grown : Grown messages targetText target start end_ budget g low count)
    (frontier : Frontier target start end_ g low count distance distance) (nonneg : 0 ≤ distance) :
    ∃ low' count', Grown messages targetText target start end_ budget
        (g.visit messages start end_ (target - (distance + 1)) .before) low' count' ∧
      Frontier target start end_ (g.visit messages start end_ (target - (distance + 1)) .before) low' count' (distance + 1) distance := by
  have first := grown.first
  have insideEnd := grown.end_
  have behind := grown.after
  have ahead := grown.before
  rcases visit_cases messages start end_ g (target - (distance + 1)) .before with ⟨out, same⟩ | ⟨⟨low_, high, rich, goes, -⟩, taken | ended⟩
  · rw [same]
    refine ⟨low, count, grown, fun rich contiguous => ?_, frontier.after⟩
    have reached := frontier.before rich contiguous
    rcases out with left | right | poor | ⟨-, ended⟩ | ⟨wrong, -⟩
    · omega
    · omega
    · omega
    · rw [contiguous] at ended
      cases ended
    · cases wrong
  · obtain ⟨fits, taken⟩ := taken
    have reached := frontier.before rich (goes rfl)
    obtain ⟨i, place⟩ : ∃ i : ℕ, (target : ℤ) - (distance + 1) = i := ⟨low - 1, by omega⟩
    rw [place] at fits taken ⊢
    rw [taken]
    have step : low = i + 1 := by omega
    refine ⟨i, count + 1, grown.take fits (by omega) ?_ (by omega) (by omega) (by omega) (by omega), ?_, fun rich' contiguous => ?_⟩
    · rw [List.range'_succ, ← step]
      exact (List.perm_append_singleton i _).symm
    · intro _ _
      omega
    · have reachedAfter := frontier.after rich contiguous
      rw [Nat.cast_add, Nat.cast_one]
      omega
  · rw [ended]
    refine ⟨low, count, ⟨grown.chosen, grown.paid, grown.solvent, grown.first, grown.start, grown.end_, grown.before, grown.after⟩,
      fun _ contiguous => ?_, fun rich' contiguous => frontier.after rich' ?_⟩
    · simp at contiguous
    · simpa using contiguous

theorem Grown.visitAfter (grown : Grown messages targetText target start end_ budget g low count) {further : ℤ}
    (frontier : Frontier target start end_ g low count further distance) (nonneg : 0 ≤ distance) :
    ∃ low' count', Grown messages targetText target start end_ budget
        (g.visit messages start end_ (target + (distance + 1)) .after) low' count' ∧
      Frontier target start end_ (g.visit messages start end_ (target + (distance + 1)) .after) low' count' further (distance + 1) := by
  have insideStart := grown.start
  have behind := grown.after
  have ahead := grown.before
  rcases visit_cases messages start end_ g (target + (distance + 1)) .after with ⟨out, same⟩ | ⟨⟨low_, high, rich, -, goes⟩, taken | ended⟩
  · rw [same]
    refine ⟨low, count, grown, frontier.before, fun rich contiguous => ?_⟩
    have reached := frontier.after rich contiguous
    rcases out with left | right | poor | ⟨wrong, -⟩ | ⟨-, ended⟩
    · omega
    · omega
    · omega
    · cases wrong
    · rw [contiguous] at ended
      cases ended
  · obtain ⟨fits, taken⟩ := taken
    have reached := frontier.after rich (goes rfl)
    obtain ⟨i, place⟩ : ∃ i : ℕ, (target : ℤ) + (distance + 1) = i := ⟨low + count, by omega⟩
    rw [place] at fits taken ⊢
    rw [taken]
    have step : i = low + count := by omega
    refine ⟨low, count + 1, grown.take fits (by omega) ?_ insideStart (by omega) ahead (by omega), fun rich' contiguous => ?_, ?_⟩
    · rw [List.range'_1_concat, ← step]
    · exact frontier.before rich contiguous
    · intro _ _
      rw [Nat.cast_add, Nat.cast_one]
      omega
  · rw [ended]
    refine ⟨low, count, ⟨grown.chosen, grown.paid, grown.solvent, grown.first, grown.start, grown.end_, grown.before, grown.after⟩,
      fun rich' contiguous => frontier.before rich' ?_, fun _ contiguous => ?_⟩
    · simpa using contiguous
    · simp at contiguous

theorem Grown.grow (fuel : ℕ) (grown : Grown messages targetText target start end_ budget g low count)
    (frontier : Frontier target start end_ g low count distance distance) (nonneg : 0 ≤ distance) :
    ∃ low' count', Grown messages targetText target start end_ budget
      (Growth.grow messages start end_ target fuel (distance + 1) g) low' count' := by
  induction fuel generalizing g low count distance with
  | zero => exact ⟨low, count, grown⟩
  | succ fuel ih =>
    rw [Growth.grow]
    split
    · obtain ⟨low₁, count₁, grown₁, frontier₁⟩ := grown.visitBefore frontier nonneg
      obtain ⟨low₂, count₂, grown₂, frontier₂⟩ := grown₁.visitAfter frontier₁ nonneg
      exact ih grown₂ frontier₂ (by omega)
    · exact ⟨low, count, grown⟩

end Growth

section Excerpts

variable {textHash : JsString → JsString} {index : Index}

/-- How a message is shown: the target bounded, any other as it is. -/
def present (sessionId entryId : JsString) (maxChars : ℕ) (message : HistoryMessage) : OpenedMessage :=
  ⟨message.id, message.role, if message.id = entryId then (truncatePrefix message.text maxChars).text else message.text,
    message.createdAt, sessionId, message.id⟩

/-- What is opened around a target: rows numbered one by one from `first`, within the window and the budget, and what is said of
the rest. -/
structure Excerpt (textHash : JsString → JsString) (index : Index) (sessionId entryId : JsString) (target : Document)
    (before after maxChars : ℕ) (result : Opened) (first : ℕ) (rows : List (JsString × Document))
    (messages : List HistoryMessage) : Prop where
  stored : ∀ row ∈ rows, index.documents.get? (sessionId, row.1) = some row.2
  contiguous : rows.map (fun row => row.2.ordinal) = List.range' first rows.length
  member : (entryId, target) ∈ rows
  low : target.ordinal - before ≤ first
  high : first + rows.length ≤ target.ordinal + after + 1
  agree : List.Forall₂ (Agrees textHash) rows messages
  shown : result.messages = messages.map (present sessionId entryId maxChars)
  budget : (result.messages.map fun message => charLength message.text).sum ≤ maxChars
  truncatedBefore : result.truncatedBefore = true ↔ ∃ id row, index.documents.get? (sessionId, id) = some row ∧
    target.ordinal - before ≤ row.ordinal ∧ row.ordinal < first
  truncatedAfter : result.truncatedAfter = true ↔ ∃ id row, index.documents.get? (sessionId, id) = some row ∧
    first + rows.length ≤ row.ordinal ∧ row.ordinal ≤ target.ordinal + after
  truncated : result.truncated = true ↔ result.truncatedBefore = true ∨ result.truncatedAfter = true ∨
    ∃ message ∈ messages, message.id = entryId ∧ (present sessionId entryId maxChars message).text ≠ message.text

theorem insertionSort_choices {messages : List HistoryMessage} {targetText : BoundedText} {target low count : ℕ}
    {chosen : List (ℤ × BoundedText)} (perm : chosen.Perm ((List.range' low count).map (choice messages targetText target))) :
    (chosen.insertionSort fun a b => a.1 ≤ b.1) = (List.range' low count).map (choice messages targetText target) := by
  have sorted : ((List.range' low count).map (choice messages targetText target)).Pairwise fun a b => a.1 ≤ b.1 := by
    rw [List.pairwise_map]
    exact (List.pairwise_lt_range' (s := low) (n := count)).imp fun {i j} less => by simp only [choice]; omega
  refine List.Perm.eq_of_pairwise (fun a b atA atB order back => ?_)
    (List.pairwise_insertionSort (fun a b : ℤ × BoundedText => a.1 ≤ b.1) _) sorted ((List.perm_insertionSort _ _).trans perm)
  obtain ⟨i, -, rfl⟩ := List.mem_map.mp (perm.subset ((List.perm_insertionSort _ _).subset atA))
  obtain ⟨j, -, rfl⟩ := List.mem_map.mp atB
  obtain rfl : i = j := by simp only [choice] at order back; omega
  rfl

/-- Reading a list at the indices of an interval. -/
theorem filterMap_range' {α β : Type} (l : List α) (f : ℕ → α → β) (h : α → β) {low count : ℕ} (inside : low + count ≤ l.length)
    (same : ∀ i x, l[i]? = some x → f i x = h x) :
    (List.range' low count).filterMap (fun i => (l[i]?).map (f i)) = ((l.drop low).take count).map h := by
  induction count generalizing low with
  | zero => rfl
  | succ count ih =>
    have there : l[low]? = some l[low] := List.getElem?_eq_getElem (by omega)
    rw [List.range'_succ, List.filterMap_cons, there, Option.map_some, ih (by omega), List.drop_eq_getElem_cons (show low < l.length by omega),
      List.take_succ_cons, List.map_cons, same low _ there]

theorem sum_filterMap {α : Type} {chosen : List (ℤ × BoundedText)} (read : ℤ × BoundedText → Option α)
    (make : ℤ × BoundedText → α → OpenedMessage) (text : ∀ c x, (make c x).text = c.2.text) :
    ((((chosen.filterMap fun c => (read c).map (make c)).map fun message => charLength message.text).sum : ℕ) : ℤ) ≤ spent chosen := by
  induction chosen with
  | nil => exact le_refl _
  | cons c chosen ih =>
    have front : spent (c :: chosen) = charLength c.2.text + spent chosen := by simp [spent]
    rw [List.filterMap_cons, front]
    cases read c with
    | none =>
      simp only [Option.map_none]
      omega
    | some x =>
      simp only [Option.map_some, List.map_cons, List.sum_cons, text, Nat.cast_add]
      omega

theorem spent_perm {chosen other : List (ℤ × BoundedText)} (perm : chosen.Perm other) : spent chosen = spent other :=
  (perm.map _).sum_eq

/-- An expected index is missing when it lies outside the interval. -/
theorem any_missing_iff {keys : List ℤ} {low count : ℕ} (taken : ∀ i : ℤ, i ∈ keys ↔ low ≤ i ∧ i < low + count) (f : ℕ → ℤ) (n : ℕ) :
    (((List.range n).map f).any fun i => decide (i ∉ keys)) = true ↔ ∃ o < n, f o < low ∨ low + count ≤ f o := by
  rw [List.any_map, List.any_eq_true]
  refine exists_congr fun o => ?_
  rw [List.mem_range, Function.comp, decide_eq_true_eq, taken]
  omega

theorem excerpt_sound {sessionId entryId : JsString} {target : Document} {before after maxChars targetIndex : ℕ}
    {messages : List HistoryMessage} (numbered : Numbered index.documents sessionId)
    (stored : index.documents.get? (sessionId, entryId) = some target)
    (agree : List.Forall₂ (Agrees textHash) (index.window sessionId (target.ordinal - before) (target.ordinal + after)) messages)
    (found : messages.findIdx? (fun message => message.id = entryId) = some targetIndex) :
    ∃ first rows shown, Excerpt textHash index sessionId entryId target before after maxChars
      (excerpt sessionId entryId messages targetIndex before after maxChars) first rows shown := by
  have mem_window := @mem_window index sessionId (target.ordinal - before) (target.ordinal + after)
  have ordinals := window_ordinals numbered (target.ordinal - before) (target.ordinal + after)
  generalize index.window sessionId (target.ordinal - before) (target.ordinal + after) = rows at agree mem_window ordinals
  have size := agree.length_eq
  -- the row at an index
  have row_at : ∀ i message, messages[i]? = some message → ∃ row, rows[i]? = some row ∧ Agrees textHash row message ∧
      row.2.ordinal = target.ordinal - before + i ∧ index.documents.get? (sessionId, row.1) = some row.2 := by
    intro i message there
    obtain ⟨inside, -⟩ := List.getElem?_eq_some_iff.mp there
    obtain ⟨row, here, agrees⟩ := Pointwise.exists_left agree there
    have ordinal := congrArg (·[i]?) ordinals
    simp only [List.getElem?_map, here, Option.map_some] at ordinal
    rw [List.getElem?_range' (by omega), Nat.one_mul] at ordinal
    exact ⟨row, here, agrees, Option.some.inj ordinal, (mem_window.mp (List.mem_of_getElem? here)).1⟩
  have at_target : ∀ i message, messages[i]? = some message → message.id = entryId →
      rows[i]? = some (entryId, target) ∧ target.ordinal = target.ordinal - before + i := by
    intro i message there named
    obtain ⟨⟨id, row⟩, here, agrees, ordinal, read⟩ := row_at i message there
    have same : id = entryId := agrees.id.symm.trans named
    rw [same, stored] at read
    cases read
    rw [same] at here
    exact ⟨here, ordinal⟩
  obtain ⟨inside, named, -⟩ := List.findIdx?_eq_some_iff_getElem.mp found
  have there : messages[targetIndex]? = some messages[targetIndex] := List.getElem?_eq_getElem inside
  obtain ⟨here, ordinal⟩ := at_target targetIndex _ there (of_decide_eq_true named)
  have bottom : max 0 ((targetIndex : ℤ) - before) = 0 := by omega
  have top : min (messages.length : ℤ) (targetIndex + after + 1) = messages.length := by
    obtain ⟨row, last, -, number, -⟩ := row_at (messages.length - 1) _ (List.getElem?_eq_getElem (by omega))
    have bound := (mem_window.mp (List.mem_of_getElem? last)).2.2
    omega
  have is_target : ∀ i message, messages[i]? = some message → (message.id = entryId ↔ i = targetIndex) := by
    refine fun i message at_i => ⟨fun same => ?_, fun same => ?_⟩
    · have number := (at_target i message at_i same).2
      omega
    · subst same
      cases there.symm.trans at_i
      exact of_decide_eq_true named
  unfold excerpt
  simp only [bottom, top]
  generalize targetText_ : truncatePrefix (textAt messages targetIndex) maxChars = targetText
  have short : charLength targetText.text ≤ maxChars := targetText_ ▸ charLength_truncatePrefix _ _
  have start : Grown messages targetText targetIndex 0 messages.length maxChars
      ⟨[((targetIndex : ℤ), targetText)], maxChars - charLength targetText.text, true, true⟩ targetIndex 1 := by
    refine ⟨?_, by simp [spent], by simp only; omega, le_refl _, by omega, by omega, le_refl _, by omega⟩
    rw [List.range'_one, List.map_singleton, choice, if_pos rfl]
  obtain ⟨low, count, grown⟩ := start.grow messages.length
    ⟨fun _ _ => by omega, fun _ _ => by omega⟩ (le_refl _)
  rw [zero_add] at grown
  generalize Growth.grow messages 0 messages.length targetIndex messages.length 1
    ⟨[((targetIndex : ℤ), targetText)], maxChars - charLength targetText.text, true, true⟩ = g at grown
  -- the taken indices
  have taken : ∀ i : ℤ, i ∈ g.chosen.map Prod.fst ↔ low ≤ i ∧ i < low + count := by
    intro i
    rw [(grown.chosen.map Prod.fst).mem_iff, List.map_map, List.mem_map]
    constructor
    · rintro ⟨k, member, rfl⟩
      rw [List.mem_range'_1] at member
      exact ⟨by simp only [Function.comp, choice]; omega, by simp only [Function.comp, choice]; omega⟩
    · rintro ⟨above, below⟩
      exact ⟨i.toNat, List.mem_range'_1.mpr ⟨by omega, by omega⟩, by simp only [Function.comp, choice]; omega⟩
  have within : low + count ≤ messages.length := by
    have within := grown.end_
    omega
  have ahead := grown.before
  have behind := grown.after
  have sorted := insertionSort_choices grown.chosen
  have opened : ((g.chosen.insertionSort fun a b => a.1 ≤ b.1).filterMap fun c => (messages[c.1.toNat]?).map fun message =>
      (⟨message.id, message.role, c.2.text, message.createdAt, sessionId, message.id⟩ : OpenedMessage)) =
      ((messages.drop low).take count).map (present sessionId entryId maxChars) := by
    rw [sorted, List.filterMap_map, ← filterMap_range' messages (fun i message =>
      (⟨message.id, message.role, (choice messages targetText targetIndex i).2.text, message.createdAt, sessionId, message.id⟩ :
        OpenedMessage)) (present sessionId entryId maxChars) within]
    · rfl
    · intro i message at_i
      rw [present, choice]
      have text : textAt messages i = message.text := by rw [textAt, Int.toNat_natCast, at_i]; rfl
      by_cases same : i = targetIndex
      · rw [if_pos same, if_pos ((is_target i message at_i).mpr same), ← targetText_, ← same, text]
      · rw [if_neg same, if_neg fun named => same ((is_target i message at_i).mp named), text]
  have bytes := @sum_filterMap _ (g.chosen.insertionSort fun a b => a.1 ≤ b.1) (fun c => messages[c.1.toNat]?)
    (fun c message => ⟨message.id, message.role, c.2.text, message.createdAt, sessionId, message.id⟩) fun _ _ => rfl
  rw [spent_perm (List.perm_insertionSort _ g.chosen)] at bytes
  have paid := grown.paid
  have solvent := grown.solvent
  have row_len : ((rows.drop low).take count).length = count := by rw [List.length_take, List.length_drop]; omega
  have before_iff : ((List.range ((targetIndex : ℤ) - 0).toNat).map fun offset : ℕ => (0 : ℤ) + offset).any
      (fun i => decide (i ∉ g.chosen.map Prod.fst)) = true ↔ 0 < low := by
    rw [any_missing_iff taken]
    constructor
    · rintro ⟨o, inside, missing⟩
      omega
    · intro some
      exact ⟨0, by omega, by omega⟩
  have after_iff : ((List.range ((messages.length : ℤ) - targetIndex - 1).toNat).map fun offset : ℕ => (targetIndex : ℤ) + offset + 1).any
      (fun i => decide (i ∉ g.chosen.map Prod.fst)) = true ↔ low + count < messages.length := by
    rw [any_missing_iff taken]
    constructor
    · rintro ⟨o, inside, missing⟩
      omega
    · intro some
      exact ⟨low + count - targetIndex - 1, by omega, by omega⟩
  refine ⟨target.ordinal - before + low, (rows.drop low).take count, (messages.drop low).take count, ?_⟩
  constructor
  · exact fun row member => (mem_window.mp (List.mem_of_mem_drop (List.mem_of_mem_take member))).1
  · rw [row_len, List.map_take, List.map_drop, ordinals]
    refine List.ext_getElem? fun k => ?_
    rw [List.getElem?_take, List.getElem?_drop]
    by_cases small : k < count
    · rw [if_pos small, List.getElem?_range' (by omega), List.getElem?_range' small]
      congr 1
      omega
    · rw [if_neg small, List.getElem?_eq_none (by rw [List.length_range']; omega)]
  · refine List.mem_iff_getElem?.mpr ⟨targetIndex - low, ?_⟩
    rw [List.getElem?_take, if_pos (by omega), List.getElem?_drop, show low + (targetIndex - low) = targetIndex by omega]
    exact here
  · exact Nat.le_add_right ..
  · rw [row_len]
    omega
  · exact List.forall₂_take _ (List.forall₂_drop _ agree)
  · exact opened
  · simp only
    omega
  · refine before_iff.trans ⟨fun some => ?_, ?_⟩
    · obtain ⟨row, first, -, number, read⟩ := row_at 0 _ (List.getElem?_eq_getElem (by omega))
      exact ⟨row.1, row.2, read, by omega, by omega⟩
    · rintro ⟨id, row, -, above, below⟩
      omega
  · rw [row_len]
    refine after_iff.trans ⟨fun some => ?_, ?_⟩
    · obtain ⟨row, first, -, number, read⟩ := row_at (low + count) _ (List.getElem?_eq_getElem some)
      have bound := (mem_window.mp (List.mem_of_getElem? first)).2.2
      exact ⟨row.1, row.2, read, by omega, bound⟩
    · rintro ⟨id, row, read, above, below⟩
      have inWindow : (id, row) ∈ rows := mem_window.mpr ⟨read, by simp only; omega, below⟩
      have numbers := List.mem_map_of_mem (f := fun row : JsString × Document => row.2.ordinal) inWindow
      rw [ordinals, List.mem_range'_1] at numbers
      simp only at numbers
      omega
  · have shown_target : ∀ message, messages[targetIndex]? = some message →
        (present sessionId entryId maxChars message).text = targetText.text ∧ message.text = textAt messages targetIndex := by
      intro message at_i
      have text : textAt messages targetIndex = message.text := by rw [textAt, Int.toNat_natCast, at_i]; rfl
      exact ⟨by rw [present, if_pos ((is_target _ _ at_i).mpr rfl), ← targetText_, text], text.symm⟩
    have cut : targetText.truncated = true ↔ ∃ message ∈ (messages.drop low).take count,
        message.id = entryId ∧ (present sessionId entryId maxChars message).text ≠ message.text := by
      rw [← targetText_, truncatePrefix_truncated_iff, targetText_]
      constructor
      · intro differs
        obtain ⟨sameText, whole⟩ := shown_target _ there
        refine ⟨_, List.mem_iff_getElem?.mpr ⟨targetIndex - low, ?_⟩, of_decide_eq_true named, ?_⟩
        · rw [List.getElem?_take, if_pos (by omega), List.getElem?_drop, show low + (targetIndex - low) = targetIndex by omega]
          exact there
        · rw [sameText, whole]
          exact differs
      · rintro ⟨message, member, same, differs⟩
        obtain ⟨k, at_k⟩ := List.mem_iff_getElem?.mp (List.mem_of_mem_drop (List.mem_of_mem_take member))
        obtain rfl := (is_target k message at_k).mp same
        obtain ⟨sameText, whole⟩ := shown_target _ at_k
        rwa [sameText, whole] at differs
    have rotate : ∀ a b c : Bool, (a || b || c) = true ↔ b = true ∨ c = true ∨ a = true := by decide
    exact (rotate _ _ _).trans (or_congr Iff.rfl (or_congr Iff.rfl cut))

/-- In every run, what is opened is an interval of rows around the target. -/
theorem openOnce_excerpt (textHash : JsString → JsString) (ops : List Op) (request : OpenRequest)
    (hydrated : List (JsString × Document) → Except JsString (List HistoryMessage)) (result : Opened)
    (opened : (run textHash ops).openOnce textHash request hydrated = .ok result) :
    ∃ target before after maxChars first rows messages,
      (run textHash ops).documents.get? (request.session.sessionId, request.entryId.units) = some target ∧
      boundedInteger request.before "before" 0 8 2 = .ok before ∧ boundedInteger request.after "after" 0 8 2 = .ok after ∧
      boundedInteger request.maxChars "maxChars" 1 maxOpenChars 8000 = .ok maxChars ∧
      Excerpt textHash (run textHash ops) request.session.sessionId request.entryId.units target before after maxChars result
        first rows messages := by
  have numbered := @numbered_run textHash ops request.session.sessionId
  generalize run textHash ops = index at opened numbered
  rw [Index.openOnce] at opened
  simp only [Checked.bind_eq_ok] at opened
  obtain ⟨_, -, _, -, before, readBefore, after, readAfter, maxChars, readChars, opened⟩ := opened
  split at opened
  · cases opened
  · next target stored =>
    obtain ⟨found, -, opened⟩ := Checked.bind_eq_ok.mp opened
    split at opened
    · cases opened
    · next messages projected =>
      split at opened
      · cases opened
      · next targetIndex located =>
        cases opened
        obtain ⟨first, rows, shown, excerpted⟩ := excerpt_sound numbered stored (agrees_projection projected) located
        exact ⟨target, before, after, maxChars, first, rows, shown, stored, readBefore, readAfter, readChars, excerpted⟩

section Samples

private def chat : Session := ⟨js "s", js "/s.jsonl", false⟩

private def turns : List HistoryMessage :=
  [⟨js "a", js "user", some (js "1"), js "hi"⟩, ⟨js "b", js "assistant", some (js "2"), js "hello there"⟩,
    ⟨js "c", js "user", some (js "3"), js "x"⟩]

/-- The message before the target does not fit any more, the one behind it does. -/
private def partly : Opened :=
  ⟨js "s", js "b", [present (js "s") (js "b") 12 ⟨js "b", js "assistant", some (js "2"), js "hello there"⟩,
    present (js "s") (js "b") 12 ⟨js "c", js "user", some (js "3"), js "x"⟩], true, true, false, js "s", js "b"⟩

theorem openOnce_excerpt_sample : ∃ target before after maxChars first rows messages,
    (run id [.publish chat turns]).documents.get? (js "s", js "b") = some target ∧
      boundedInteger (.num (.ofNat 1)) "before" 0 8 2 = .ok before ∧ boundedInteger .undefined "after" 0 8 2 = .ok after ∧
      boundedInteger (.num (.ofNat 12)) "maxChars" 1 maxOpenChars 8000 = .ok maxChars ∧
      Excerpt id (run id [.publish chat turns]) (js "s") (js "b") target before after maxChars partly first rows messages :=
  openOnce_excerpt id [.publish chat turns] ⟨chat, .text "b", .num (.ofNat 1), .undefined, .num (.ofNat 12)⟩ (fun _ => .ok turns)
    partly (by decide +kernel)

end Samples

end Excerpts

section Snippets

/-- The code points behind some of a text are those of the rest. -/
theorem codePoints_drop (value : JsString) (k : ℕ) : codePoints ((codePoints value).drop k).flatten = (codePoints value).drop k := by
  induction value using PersistentHarness.JsString.codePoints.induct generalizing k with
  | case1 => rw [codePoints, List.drop_nil]; rfl
  | case2 u =>
    cases k with
    | zero => rfl
    | succ k => rw [codePoints, List.drop_succ_cons, List.drop_nil]; rfl
  | case3 u v rest paired ih =>
    cases k with
    | zero => rw [List.drop_zero, flatten_codePoints]
    | succ k => rw [codePoints, if_pos paired, List.drop_succ_cons, ih]
  | case4 u v rest unpaired ih =>
    cases k with
    | zero => rw [List.drop_zero, flatten_codePoints]
    | succ k => rw [codePoints, if_neg unpaired, List.drop_succ_cons, ih]

theorem codePoints_cons {mark : UInt16} (single : isHighSurrogate mark = false) (value : JsString) :
    codePoints (mark :: value) = [mark] :: codePoints value := by
  cases value with
  | nil => rfl
  | cons u rest =>
    rw [codePoints, if_neg]
    rintro ⟨high, -⟩
    rw [single] at high
    cases high

/-- The ellipsis, where text was dropped. -/
def ellipsis (dropped : Prop) [Decidable dropped] : List JsString := if dropped then [[0x2026]] else []

theorem length_ellipsis (dropped : Prop) [Decidable dropped] : (ellipsis dropped).length = if dropped then 1 else 0 := by
  unfold ellipsis
  split
  · rfl
  · rfl

/-- A piece of a text is shown in at most so many code points, with an ellipsis on each side where text was dropped. -/
structure Piece (text : JsString) (maximum : ℕ) (shown : JsString) (start count : ℕ) : Prop where
  inside : start + count ≤ charLength text
  points : codePoints shown = ellipsis (0 < start) ++ ((codePoints text).drop start).take count
    ++ ellipsis (start + count < charLength text)
  bounded : charLength shown ≤ maximum

/-- What is shown is the marks around the piece. -/
theorem codePoints_marked (text : JsString) (start count : ℕ) (inside : start + count ≤ charLength text) :
    codePoints ((if 0 < start then [0x2026] else []) ++ (((codePoints text).drop start).take count).flatten
        ++ if start + count < charLength text then [0x2026] else [])
      = ellipsis (0 < start) ++ ((codePoints text).drop start).take count ++ ellipsis (start + count < charLength text) := by
  have body : codePoints ((((codePoints text).drop start).take count).flatten
      ++ if start + count < charLength text then [0x2026] else [])
      = ((codePoints text).drop start).take count ++ ellipsis (start + count < charLength text) := by
    unfold ellipsis
    split
    · have cut := codePoints_take ((codePoints text).drop start).flatten count (show isLowSurrogate 0x2026 = false by decide)
      rwa [codePoints_drop] at cut
    · next whole =>
      rw [charLength] at inside whole
      rw [List.take_of_length_le (by rw [List.length_drop]; omega), List.append_nil, List.append_nil, codePoints_drop]
  rw [List.append_assoc, List.append_assoc, ← body, ellipsis]
  split
  · rw [List.singleton_append, codePoints_cons (by decide)]
    rfl
  · rfl

variable (lowerCase : JsString → JsString) (search : JsString → JsString → Option ℕ) (text : JsString) (clauses : List Clause)

/-- Where a snippet begins, and how long its body is, by its budget and the place of the match. -/
structure Window (length maximum place start body : ℕ) : Prop where
  long : maximum < length
  large : 16 ≤ maximum
  budget : body = maximum - ((if 0 < place then 1 else 0) + 1)
  begins : start = if length < place - body / 3 + body then length - body else place - body / 3

section Window

variable {length maximum place start body : ℕ} (window : Window length maximum place start body)

include window

/-- The code points that are left beside the marks. -/
theorem Window.count (count : ℕ)
    (adjusted : count = min (maximum - (if 0 < start then 1 else 0) - (if start + body < length then 1 else 0)) (length - start)) :
    start + count ≤ length ∧ (start + count < length ↔ start + body < length)
      ∧ (if 0 < start then 1 else 0) + count + (if start + body < length then 1 else 0) ≤ maximum
      ∧ (place < length → place < start + count) ∧ (length ≤ place → start + count = length) := by
  obtain ⟨long, large, budget, starts⟩ := window
  by_cases leading : 0 < place
  · rw [if_pos leading] at budget
    by_cases clamped : length < place - body / 3 + body
    · rw [if_pos clamped] at starts
      rw [if_pos (by omega), if_neg (by omega)] at adjusted ⊢
      omega
    · rw [if_neg clamped] at starts
      split at adjusted
      · next cut =>
        rw [if_pos cut]
        split at adjusted
        · next trailing => rw [if_pos trailing]; omega
        · next whole => rw [if_neg whole]; omega
      · next begins =>
        rw [if_neg begins]
        split at adjusted
        · next trailing => rw [if_pos trailing]; omega
        · next whole => rw [if_neg whole]; omega
  · rw [if_neg leading] at budget
    rw [if_neg (by omega)] at starts
    rw [if_neg (by omega), if_pos (by omega)] at adjusted ⊢
    omega

/-- The code point before the match is inside as well. -/
theorem Window.start_le : start ≤ place - 1 := by
  obtain ⟨long, large, budget, starts⟩ := window
  by_cases leading : 0 < place
  · rw [if_pos leading] at budget
    split at starts
    · omega
    · omega
  · rw [if_neg leading] at budget
    rw [if_neg (by omega)] at starts
    omega

end Window

theorem plainSnippet_piece (maximum : ℕ) (large : 16 ≤ maximum) : ∃ start count,
    Piece text maximum (plainSnippet lowerCase search text clauses maximum) start count
      ∧ start ≤ matchOffset lowerCase search text clauses - 1
      ∧ (matchOffset lowerCase search text clauses < charLength text → matchOffset lowerCase search text clauses < start + count)
      ∧ (charLength text ≤ matchOffset lowerCase search text clauses → start + count = charLength text) := by
  by_cases short : charLength text ≤ maximum
  · have whole : plainSnippet lowerCase search text clauses maximum = text := by
      rw [plainSnippet]
      exact (if_pos short).trans (flatten_codePoints text)
    refine ⟨0, charLength text, ⟨by omega, ?_, by rw [whole]; exact short⟩, by omega, by omega, by omega⟩
    rw [whole, List.drop_zero, charLength, List.take_length, ellipsis, ellipsis, if_neg (by omega), if_neg (by omega), List.nil_append,
      List.append_nil]
  · obtain ⟨place, here⟩ : ∃ place, place = matchOffset lowerCase search text clauses := ⟨_, rfl⟩
    obtain ⟨body, budget⟩ : ∃ body, body = maximum - ((if 0 < place then 1 else 0) + 1) := ⟨_, rfl⟩
    obtain ⟨start, begins⟩ : ∃ start, start = if charLength text < place - body / 3 + body then charLength text - body
        else place - body / 3 := ⟨_, rfl⟩
    have window : Window (charLength text) maximum place start body := ⟨by omega, large, budget, begins⟩
    obtain ⟨count, adjusted⟩ : ∃ count, count = min (maximum - (if 0 < start then 1 else 0)
        - (if start + body < charLength text then 1 else 0)) (charLength text - start) := ⟨_, rfl⟩
    obtain ⟨inside, trails, bounded, holds, ends⟩ := window.count count adjusted
    have shown : plainSnippet lowerCase search text clauses maximum = (if 0 < start then [0x2026] else [])
        ++ (((codePoints text).drop start).take count).flatten ++ if start + count < charLength text then [0x2026] else [] := by
      rw [plainSnippet]
      simp only [decide_eq_true_eq]
      rw [charLength] at short begins adjusted
      rw [← here, ← budget, if_neg short, ← begins, List.take_eq_take_min, List.length_drop, ← adjusted]
      exact congrArg _ (if_congr trails.symm rfl rfl)
    have points := codePoints_marked text start count inside
    rw [← shown] at points
    have length : charLength (plainSnippet lowerCase search text clauses maximum) ≤ maximum := by
      rw [charLength, points, List.length_append, List.length_append, List.length_take, List.length_drop, length_ellipsis,
        length_ellipsis, if_congr trails rfl rfl]
      exact le_trans (Nat.add_le_add_right (Nat.add_le_add_left (Nat.min_le_left _ _) _) _) bounded
    rw [← here]
    exact ⟨start, count, ⟨inside, points, length⟩, window.start_le, holds, ends⟩

/-- The first code unit at which a clause is found. -/
structure FirstMatch (place : ℕ) : Prop where
  found : ∃ clause ∈ clauses, clauseMatch lowerCase search text clause = some place
  first : ∀ clause ∈ clauses, ∀ other, clauseMatch lowerCase search text clause = some other → place ≤ other

theorem earlier_mem {selected found : Option ℕ} {place : ℕ} (same : earlier selected found = some place) :
    selected = some place ∨ found = some place := by
  cases found with
  | none => exact .inl same
  | some found =>
    rw [earlier] at same
    split at same
    · exact .inr same
    · exact .inl same

theorem earlier_le {selected found : Option ℕ} {other : ℕ} (among : selected = some other ∨ found = some other) :
    ∃ place, earlier selected found = some place ∧ place ≤ other := by
  cases found with
  | none =>
    rcases among with rfl | none_
    · exact ⟨other, rfl, le_refl other⟩
    · cases none_
  | some found =>
    rw [earlier]
    split
    · next before =>
      rcases among with rfl | same
      · rw [Option.all_some, decide_eq_true_iff] at before
        exact ⟨found, rfl, before.le⟩
      · exact ⟨found, rfl, (Option.some.inj same).le⟩
    · next behind =>
      cases selected with
      | none => exact absurd rfl behind
      | some place =>
        rw [Option.all_some, decide_eq_true_iff, not_lt] at behind
        refine ⟨place, rfl, ?_⟩
        rcases among with same | same
        · exact (Option.some.inj same).le
        · exact (Option.some.inj same) ▸ behind

/-- What a fold selects is among what it was given, and nothing given is before it. -/
theorem foldl_earlier (selected : Option ℕ) :
    (∀ place, clauses.foldl (fun selected clause => earlier selected (clauseMatch lowerCase search text clause)) selected
        = some place → selected = some place ∨ ∃ clause ∈ clauses, clauseMatch lowerCase search text clause = some place)
      ∧ ∀ other, (selected = some other ∨ ∃ clause ∈ clauses, clauseMatch lowerCase search text clause = some other) →
        ∃ place, clauses.foldl (fun selected clause => earlier selected (clauseMatch lowerCase search text clause)) selected
          = some place ∧ place ≤ other := by
  induction clauses generalizing selected with
  | nil =>
    refine ⟨fun place same => .inl same, fun other among => ?_⟩
    rcases among with rfl | ⟨clause, member, -⟩
    · exact ⟨other, rfl, le_refl other⟩
    · exact absurd member List.not_mem_nil
  | cons clause clauses ih =>
    obtain ⟨mem, le⟩ := ih (earlier selected (clauseMatch lowerCase search text clause))
    refine ⟨fun place same => ?_, fun other among => ?_⟩
    · rcases mem place same with now | ⟨later, member, found⟩
      · exact (earlier_mem now).imp_right fun found => ⟨clause, List.mem_cons_self, found⟩
      · exact .inr ⟨later, List.mem_cons_of_mem clause member, found⟩
    · have now : (selected = some other ∨ clauseMatch lowerCase search text clause = some other)
          ∨ ∃ later ∈ clauses, clauseMatch lowerCase search text later = some other := by
        rcases among with same | ⟨later, member, found⟩
        · exact .inl (.inl same)
        · rcases List.mem_cons.mp member with rfl | member
          · exact .inl (.inr found)
          · exact .inr ⟨later, member, found⟩
      rcases now with now | later
      · obtain ⟨middle, selects, before⟩ := earlier_le now
        obtain ⟨place, same, below⟩ := le middle (.inl selects)
        exact ⟨place, same, below.trans before⟩
      · exact le other (.inr later)

theorem firstMatch_iff (place : ℕ) :
    firstMatch lowerCase search text clauses = some place ↔ FirstMatch lowerCase search text clauses place := by
  obtain ⟨mem, le⟩ := foldl_earlier lowerCase search text clauses none
  constructor
  · intro same
    refine ⟨(mem place same).resolve_left (Option.some_ne_none place).symm, fun clause member other found => ?_⟩
    obtain ⟨first, selects, below⟩ := le other (.inr ⟨clause, member, found⟩)
    rw [firstMatch, selects] at same
    exact (Option.some.inj same) ▸ below
  · intro found
    obtain ⟨first, selects, below⟩ := le place (.inr found.found)
    obtain ⟨clause, member, matches_⟩ := (mem first selects).resolve_left (Option.some_ne_none first).symm
    rw [firstMatch, selects, below.antisymm (found.first clause member first matches_)]

/-- The code point of a code unit; a text that ends inside of it has one code point more. -/
theorem exists_point (value : JsString) (place : ℕ) (inside : place < value.length) : ∃ k,
    ((codePoints value).take k).flatten.length ≤ place ∧ place < ((codePoints value).take (k + 1)).flatten.length
      ∧ (charLength (value.take place) = k ∨ charLength (value.take place) = k + 1) := by
  induction value using PersistentHarness.JsString.codePoints.induct generalizing place with
  | case1 => exact absurd inside (Nat.not_lt_zero place)
  | case2 u =>
    obtain rfl : place = 0 := by
      rw [List.length_singleton] at inside
      omega
    exact ⟨0, Nat.le_refl 0, Nat.one_pos, .inl rfl⟩
  | case3 u v rest paired ih =>
    rw [codePoints, if_pos paired]
    rcases place with _ | _ | place
    · exact ⟨0, Nat.le_refl 0, Nat.two_pos, .inl rfl⟩
    · exact ⟨0, Nat.zero_le 1, Nat.one_lt_two, .inr rfl⟩
    · obtain ⟨k, low, high, count⟩ := ih place (by simpa only [List.length_cons, Nat.add_lt_add_iff_right] using inside)
      refine ⟨k + 1, ?_, ?_, ?_⟩
      · simp only [List.take_succ_cons, List.flatten_cons, List.length_append, List.length_cons, List.length_nil]
        omega
      · simp only [List.take_succ_cons, List.flatten_cons, List.length_append, List.length_cons, List.length_nil]
        omega
      · rw [charLength, List.take_succ_cons, List.take_succ_cons, codePoints, if_pos paired, List.length_cons]
        exact count.imp (congrArg (· + 1)) (congrArg (· + 1))
  | case4 u v rest unpaired ih =>
    rw [codePoints, if_neg unpaired]
    rcases place with _ | place
    · exact ⟨0, Nat.le_refl 0, Nat.one_pos, .inl rfl⟩
    · obtain ⟨k, low, high, count⟩ := ih place (by simpa only [List.length_cons, Nat.add_lt_add_iff_right] using inside)
      have points : codePoints (u :: (v :: rest).take place) = [u] :: codePoints ((v :: rest).take place) := by
        cases place with
        | zero => rfl
        | succ place => rw [List.take_succ_cons, codePoints, if_neg unpaired]
      refine ⟨k + 1, ?_, ?_, ?_⟩
      · simp only [List.take_succ_cons, List.flatten_cons, List.length_append, List.length_cons, List.length_nil]
        omega
      · simp only [List.take_succ_cons, List.flatten_cons, List.length_append, List.length_cons, List.length_nil]
        omega
      · rw [charLength, List.take_succ_cons, points, List.length_cons]
        exact count.imp (congrArg (· + 1)) (congrArg (· + 1))

theorem length_take_flatten_le {points : List JsString} {i j : ℕ} (le : i ≤ j) :
    (points.take i).flatten.length ≤ (points.take j).flatten.length :=
  ((List.take_prefix_take_left le).flatten).length_le

/-- A snippet shows a piece of the text in at most so many code points, around the first match, and an ellipsis says of each
side whether text was dropped there. -/
theorem plainSnippet_window (maximum : ℕ) (large : 16 ≤ maximum) : ∃ start count,
    Piece text maximum (plainSnippet lowerCase search text clauses maximum) start count
      ∧ (matchOffset lowerCase search text clauses < charLength text →
        start ≤ matchOffset lowerCase search text clauses ∧ matchOffset lowerCase search text clauses < start + count)
      ∧ ∀ place, FirstMatch lowerCase search text clauses place → place < text.length →
        ((codePoints text).take start).flatten.length ≤ place
          ∧ place < ((codePoints text).take (start + count)).flatten.length := by
  obtain ⟨start, count, piece, begins, holds, ends⟩ := plainSnippet_piece lowerCase search text clauses maximum large
  refine ⟨start, count, piece, fun inside => ⟨by omega, holds inside⟩, fun place found inside => ?_⟩
  obtain ⟨k, low, high, counted⟩ := exists_point text place inside
  have offset : matchOffset lowerCase search text clauses = charLength (text.take place) := by
    rw [matchOffset, (firstMatch_iff lowerCase search text clauses place).mpr found]
    rfl
  have point : k < charLength text := by
    by_contra behind
    rw [charLength, not_lt] at behind
    rw [List.take_of_length_le behind] at low
    rw [List.take_of_length_le (by omega)] at high
    omega
  rw [offset] at begins holds ends
  have before : start ≤ k := by omega
  have behind : k + 1 ≤ start + count := by
    by_cases whole : charLength (text.take place) < charLength text
    · have later := holds whole
      omega
    · have all := ends (by omega)
      omega
  exact ⟨(length_take_flatten_le before).trans low, high.trans_le (length_take_flatten_le behind)⟩

private def long : JsString := js "the quick brown fox jumps on the lazy dog"

theorem plainSnippet_window_sample : ∃ start count,
    Piece long 16 (plainSnippet id (fun _ _ => none) long [⟨js "jumps", false, false⟩] 16) start count
      ∧ (matchOffset id (fun _ _ => none) long [⟨js "jumps", false, false⟩] < charLength long →
        start ≤ matchOffset id (fun _ _ => none) long [⟨js "jumps", false, false⟩]
          ∧ matchOffset id (fun _ _ => none) long [⟨js "jumps", false, false⟩] < start + count)
      ∧ ∀ place, FirstMatch id (fun _ _ => none) long [⟨js "jumps", false, false⟩] place → place < long.length →
        ((codePoints long).take start).flatten.length ≤ place
          ∧ place < ((codePoints long).take (start + count)).flatten.length :=
  plainSnippet_window id (fun _ _ => none) long [⟨js "jumps", false, false⟩] 16 (by decide)

example : plainSnippet id (fun _ _ => none) long [⟨js "jumps", false, false⟩] 16 = js "…fox jumps on t…" := by decide +kernel

end Snippets

end PersistentHarness.SessionHistory
