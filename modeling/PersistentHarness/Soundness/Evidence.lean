import PersistentHarness.Model.Canonical.Omission

/-! # What the evidence producers prove

Each producer is reduced to facts about the branch: an incomplete observation is a row of the
report, a witness names a call of the entry it is a child of, and an indexed call or result is a
block or message of an entry.
-/

namespace PersistentHarness.Canonical

/-! ## Reports -/

/-- A row that saw an incomplete, non-native call. -/
def incompleteRow (row : Value) : Prop :=
  row.get (js "complete") = .bool false ∧ row.get (js "native") = .bool false

instance (row : Value) : Decidable (incompleteRow row) := inferInstanceAs (Decidable (_ ∧ _))

private theorem observeRow_spec {state next : Observations × List JsString} {row : Value}
    (success : observeRow state row = some next) :
    validRow row ∧ next.1.observations = Assoc.set state.1.observations (rowTuple row)
      ((Assoc.lookup state.1.observations (rowTuple row)).getD true
        && row.get (js "complete") = .bool false && row.get (js "native") = .bool false) := by
  simp only [observeRow, Option.bind_eq_bind, Option.bind_eq_some_iff, Option.guard_eq_some',
    Option.pure_def, Option.some.injEq] at success
  obtain ⟨_, valid, _, _, rfl⟩ := success
  exact ⟨valid, rfl⟩

private theorem observeRow_refuted {state next : Observations × List JsString} {row : Value} {tuple : JsString}
    (success : observeRow state row = some next)
    (refuted : Assoc.lookup state.1.observations tuple = some false) :
    Assoc.lookup next.1.observations tuple = some false := by
  rw [(observeRow_spec success).2, Assoc.lookup_set]
  split
  · next same =>
    subst same
    rw [refuted]
    simp
  · exact refuted

private theorem foldlM_observeRow_refuted {rows : List Value} {state next : Observations × List JsString}
    {tuple : JsString} (success : rows.foldlM observeRow state = some next)
    (refuted : Assoc.lookup state.1.observations tuple = some false) :
    Assoc.lookup next.1.observations tuple = some false := by
  induction rows generalizing state with
  | nil =>
    cases success
    exact refuted
  | cons row rest ih =>
    rw [List.foldlM_cons, Option.bind_eq_bind, Option.bind_eq_some_iff] at success
    obtain ⟨middle, head, tail⟩ := success
    exact ih tail (observeRow_refuted head refuted)

private theorem validRow_of_observed {rows : List Value} {state next : Observations × List JsString} {row : Value}
    (success : rows.foldlM observeRow state = some next) (member : row ∈ rows) : validRow row := by
  induction rows generalizing state with
  | nil => cases member
  | cons head rest ih =>
    rw [List.foldlM_cons, Option.bind_eq_bind, Option.bind_eq_some_iff] at success
    obtain ⟨middle, first, tail⟩ := success
    rcases List.mem_cons.mp member with rfl | later
    · exact (observeRow_spec first).1
    · exact ih tail later

private theorem incompleteRow_of_unrefuted {rows : List Value} {state next : Observations × List JsString}
    {row : Value} (success : rows.foldlM observeRow state = some next) (member : row ∈ rows)
    (unrefuted : Assoc.lookup next.1.observations (rowTuple row) = some true) : incompleteRow row := by
  induction rows generalizing state with
  | nil => cases member
  | cons head rest ih =>
    rw [List.foldlM_cons, Option.bind_eq_bind, Option.bind_eq_some_iff] at success
    obtain ⟨middle, first, tail⟩ := success
    rcases List.mem_cons.mp member with rfl | later
    · by_contra complete
      have refuted : Assoc.lookup middle.1.observations (rowTuple row) = some false := by
        rw [(observeRow_spec first).2, Assoc.lookup_set_self]
        simp only [incompleteRow] at complete
        simp only [Option.some.injEq, Bool.and_eq_false_iff, decide_eq_false_iff_not, or_assoc]
        tauto
      rw [foldlM_observeRow_refuted tail refuted] at unrefuted
      cases unrefuted
    · exact ih tail later

private theorem units_eq_of_equal {a b : Value} (same : a.equal b) (valid : identifier b) : a = b := by
  rw [identifier_eq_str valid] at same ⊢
  exact Value.equal_str same

private theorem rowTuple_of_equal {row other : Value} (same : row.equal other) (valid : validRow other) :
    rowTuple row = rowTuple other := by
  unfold rowTuple
  rw [units_eq_of_equal (same.get (js "callId")) valid.2.1.1, units_eq_of_equal (same.get (js "itemId")) valid.2.2.1.1]

private theorem incompleteRow_of_equal {row other : Value} (same : row.equal other)
    (incomplete : incompleteRow other) : incompleteRow row := by
  have complete := same.get (js "complete")
  have native := same.get (js "native")
  rw [incomplete.1] at complete
  rw [incomplete.2] at native
  exact ⟨Value.equal_bool complete, Value.equal_bool native⟩

private theorem incompleteRow_of_attempt {seen next : Observations} {item : Value × ℕ} {row other : Value}
    (success : observeAttempt seen item = some next) (member : other ∈ (item.1.get (js "observedCalls")).items)
    (same : row.equal other) (unrefuted : Assoc.lookup next.observations (rowTuple row) = some true) :
    incompleteRow row := by
  simp only [observeAttempt, Option.bind_eq_bind, Option.bind_eq_some_iff, Option.guard_eq_some',
    Option.pure_def, Option.some.injEq] at success
  obtain ⟨_, _, _, _, _, _, ⟨observed, inAttempt⟩, folded, rfl⟩ := success
  rw [rowTuple_of_equal same (validRow_of_observed folded member)] at unrefuted
  exact incompleteRow_of_equal same (incompleteRow_of_unrefuted folded member unrefuted)

private theorem get_latestOf (report : Value) :
    (latestOf report).get (js "observedCalls") = report.get (js "observedCalls") := by
  simp only [latestOf, Value.get, Value.delete, Value.fields, Assoc.lookup_erase, js_inj]
  simp

/-- An id is reported incomplete only through an incomplete, non-native row of the report itself. -/
theorem exists_row_of_mem_incompleteObservations {report : Value} {id : JsString}
    (member : id ∈ incompleteObservations report) :
    ∃ row ∈ (report.get (js "observedCalls")).items, rowTuple row = id ∧ incompleteRow row := by
  unfold incompleteObservations at member
  cases computed : incompleteObservations? report with
  | none => rw [computed] at member; cases member
  | some ids =>
    rw [computed, Option.getD_some] at member
    simp only [incompleteObservations?, Option.bind_eq_bind, Option.bind_eq_some_iff, Option.guard_eq_some',
      Option.pure_def, Option.some.injEq] at computed
    obtain ⟨_, _, last, isLast, _, latest, seen, scanned, _, _, rfl⟩ := computed
    obtain ⟨row, kept, rfl⟩ := List.mem_map.mp member
    obtain ⟨reported, unique⟩ := List.mem_filter.mp kept
    obtain ⟨other, observed, same⟩ := (latest.get (js "observedCalls")).exists_item reported
    rw [get_latestOf] at reported
    obtain ⟨init, attempts⟩ := List.getLast?_eq_some_iff.mp isLast
    rw [attempts, List.zipIdx_append, List.foldlM_append, Option.bind_eq_bind, Option.bind_eq_some_iff] at scanned
    obtain ⟨before, _, attempted⟩ := scanned
    simp only [List.zipIdx_cons, List.zipIdx_nil, List.foldlM_cons, List.foldlM_nil, bind_pure] at attempted
    exact ⟨row, reported, rfl, incompleteRow_of_attempt attempted observed same (of_decide_eq_true unique).1⟩

/-! ## Complete reports -/

def attemptsOf (report : Value) : List Value := (report.get (js "attempts")).items

def rowsOf (attempt : Value) : List Value := (attempt.get (js "observedCalls")).items

/-- The rows share no component of a call id. -/
def Apart (row other : Value) : Prop :=
  ∀ id ∈ [(row.get (js "callId")).units, (row.get (js "itemId")).units],
    id ∉ [(other.get (js "callId")).units, (other.get (js "itemId")).units]

/-- An identified report of attempts that are identified, numbered from one on, retired and fenced. The latest one was sent and
created, its outcome is unknown or failed, and it is the last attempt. -/
structure Fenced (report : Value) : Prop where
  identified : validReport report
  attempts : ∀ item ∈ (attemptsOf report).zipIdx, validAttempt item.1 (item.2 + 1)
  distinct : ((attemptsOf report).map fun attempt => attempt.get (js "attemptId")).Nodup
  latest : ∀ last ∈ (attemptsOf report).getLast?, (latestOf report).equal last
  reached : (latestOf report).get (js "sent") = .bool true ∧ (latestOf report).get (js "created") = .bool true
    ∧ oneOf ((latestOf report).get (js "outcome")) ["unknown", "failed"]

/-- A fenced report whose attempts agree with their outcomes, whose rows are well formed, and that repeats no component of a
call id within an attempt. -/
structure WellFormed (report : Value) : Prop extends Fenced report where
  consistent : ∀ attempt ∈ attemptsOf report, consistentAttempt attempt
  sent : ∀ attempt ∈ attemptsOf report, rowsOf attempt ≠ [] → attempt.get (js "sent") = .bool true
  rows : ∀ attempt ∈ attemptsOf report, ∀ row ∈ rowsOf attempt, validRow row
  apart : ∀ attempt ∈ attemptsOf report, (rowsOf attempt).Pairwise Apart

/-- A tuple of the last attempt that no attempt saw complete or native, and whose components are in no other tuple. -/
def Unfinished (report : Value) (id : JsString) : Prop :=
  ∃ last ∈ (attemptsOf report).getLast?, ∃ row ∈ rowsOf last, rowTuple row = id
    ∧ ∀ attempt ∈ attemptsOf report, ∀ other ∈ rowsOf attempt,
      (rowTuple other = id → incompleteRow other) ∧ (¬Apart row other → rowTuple other = id)

section Reports

variable {state next : Observations} {inAttempt : List JsString} {rows : List Value} {row : Value}

/-- What the scan knows of the rows that it has read. -/
structure Sees (state : Observations) (rows : List Value) : Prop where
  observed : ∀ tuple, Assoc.lookup state.observations tuple = some true ↔
    (∃ row ∈ rows, rowTuple row = tuple) ∧ ∀ row ∈ rows, rowTuple row = tuple → incompleteRow row
  known : ∀ tuple, Assoc.lookup state.observations tuple = none ↔ ∀ row ∈ rows, rowTuple row ≠ tuple
  aliases : ∀ id tuple, tuple ∈ Multimap.values state.aliases id ↔
    ∃ row ∈ rows, id ∈ [(row.get (js "callId")).units, (row.get (js "itemId")).units] ∧ rowTuple row = tuple
  distinct : Multimap.Distinct state.aliases

theorem observeRow_eq_some {result : Observations × List JsString} :
    observeRow (state, inAttempt) row = some result ↔ validRow row
      ∧ ((row.get (js "callId")).units ∉ inAttempt ∧ (row.get (js "itemId")).units ∉ inAttempt)
      ∧ ({ state with
          observations := Assoc.set state.observations (rowTuple row)
            ((Assoc.lookup state.observations (rowTuple row)).getD true
              && row.get (js "complete") = .bool false && row.get (js "native") = .bool false)
          aliases := Multimap.add (Multimap.add state.aliases (row.get (js "callId")).units (rowTuple row))
            (row.get (js "itemId")).units (rowTuple row) },
        (row.get (js "callId")).units :: (row.get (js "itemId")).units :: inAttempt) = result := by
  simp only [observeRow, Option.bind_eq_bind, Option.bind_eq_some_iff, Option.guard_eq_some', Option.pure_def,
    Option.some.injEq, exists_const]

theorem Sees.step (sees : Sees state rows) {result : Observations × List JsString}
    (success : observeRow (state, inAttempt) row = some result) : Sees result.1 (rows ++ [row]) := by
  obtain ⟨_, _, rfl⟩ := observeRow_eq_some.mp success
  refine ⟨fun tuple => ?_, fun tuple => ?_, fun id tuple => ?_, (sees.distinct.add _ _).add _ _⟩
  · dsimp only
    rw [Assoc.lookup_set]
    split
    · next same =>
      subst same
      have earlier : (Assoc.lookup state.observations (rowTuple row)).getD true = true
          ↔ ∀ other ∈ rows, rowTuple other = rowTuple row → incompleteRow other := by
        cases found : Assoc.lookup state.observations (rowTuple row) with
        | none =>
          have fresh := (sees.known _).mp found
          exact ⟨fun _ other member same => (fresh other member same).elim, fun _ => rfl⟩
        | some incomplete =>
          have observed := sees.observed (rowTuple row)
          rw [found, Option.some.injEq] at observed
          rw [Option.getD_some, observed]
          refine ⟨And.right, fun all => ⟨?_, all⟩⟩
          by_contra absent
          have free : Assoc.lookup state.observations (rowTuple row) = none :=
            (sees.known _).mpr fun other member same => absent ⟨other, member, same⟩
          rw [found] at free
          cases free
      rw [Option.some.injEq, Bool.and_eq_true, Bool.and_eq_true, earlier, decide_eq_true_eq, decide_eq_true_eq, and_assoc]
      constructor
      · rintro ⟨before, own⟩
        refine ⟨⟨row, List.mem_append_right _ (List.mem_singleton.mpr rfl), rfl⟩, fun other member same => ?_⟩
        rcases List.mem_append.mp member with member | member
        · exact before other member same
        · rw [List.mem_singleton.mp member]
          exact own
      · rintro ⟨_, all⟩
        exact ⟨fun other member => all other (List.mem_append_left _ member),
          all row (List.mem_append_right _ (List.mem_singleton.mpr rfl)) rfl⟩
    · next different =>
      rw [sees.observed]
      simp only [List.mem_append, List.mem_singleton, or_imp, forall_and, forall_eq, or_and_right, exists_or, exists_eq_left,
        different, or_false, false_imp_iff, and_true]
  · dsimp only
    rw [Assoc.lookup_set]
    split
    · next same =>
      subst same
      constructor
      · rintro ⟨⟩
      · intro none_
        exact (none_ row (List.mem_append_right _ (List.mem_singleton.mpr rfl)) rfl).elim
    · next different =>
      rw [sees.known]
      simp only [List.mem_append, List.mem_singleton, or_imp, forall_and, forall_eq]
      exact ⟨fun none_ => ⟨none_, different⟩, And.left⟩
  · dsimp only
    have inserted (m : List (JsString × List JsString)) (key : JsString) :
        tuple ∈ Multimap.values (Multimap.add m key (rowTuple row)) id ↔
          tuple ∈ Multimap.values m id ∨ key = id ∧ tuple = rowTuple row := by
      rw [Multimap.values_add]
      split
      · next same =>
        subst same
        rw [Multimap.mem_insertValue]
        simp only [true_and]
      · next different => simp only [different, false_and, or_false]
    rw [inserted, inserted, sees.aliases]
    simp only [List.mem_append, or_and_right, exists_or, exists_eq_left, List.mem_cons, List.not_mem_nil,
      or_false, eq_comm (a := id), eq_comm (a := tuple), or_assoc]

theorem sees_start (seenAttempts : List Value) : Sees ⟨seenAttempts, [], []⟩ [] := by
  refine ⟨fun tuple => ⟨?_, ?_⟩, fun tuple => ⟨fun _ => ?_, fun _ => rfl⟩, fun id tuple => ⟨?_, ?_⟩, Multimap.distinct_nil⟩
  · rintro ⟨⟩
  · rintro ⟨⟨_, ⟨⟩, _⟩, _⟩
  · rintro _ ⟨⟩
  · rintro ⟨⟩
  · rintro ⟨_, ⟨⟩, _⟩

theorem Sees.all (sees : Sees state rows) {more : List Value} {result : Observations × List JsString}
    (success : more.foldlM observeRow (state, inAttempt) = some result) : Sees result.1 (rows ++ more) := by
  induction more generalizing state rows inAttempt with
  | nil =>
    cases success
    rwa [List.append_nil]
  | cons row rest ih =>
    rw [List.foldlM_cons, Option.bind_eq_bind, Option.bind_eq_some_iff] at success
    obtain ⟨⟨middle, ids⟩, first, tail⟩ := success
    have after := ih (sees.step first) tail
    rwa [List.append_assoc, List.singleton_append] at after

theorem seen_of_foldlM {more : List Value} {result : Observations × List JsString}
    (success : more.foldlM observeRow (state, inAttempt) = some result) : result.1.seenAttempts = state.seenAttempts := by
  induction more generalizing state inAttempt with
  | nil =>
    cases success
    rfl
  | cons row rest ih =>
    rw [List.foldlM_cons, Option.bind_eq_bind, Option.bind_eq_some_iff] at success
    obtain ⟨⟨middle, ids⟩, first, tail⟩ := success
    obtain ⟨_, _, same⟩ := observeRow_eq_some.mp first
    obtain ⟨rfl, _⟩ := Prod.mk.inj same
    have kept := ih tail
    exact kept

/-- An attempt is read to its end exactly if its rows are well formed and repeat no component. -/
theorem foldlM_observeRow_isSome {more : List Value} :
    (∃ result, more.foldlM observeRow (state, inAttempt) = some result) ↔
      (∀ row ∈ more, validRow row) ∧ more.Pairwise Apart
        ∧ ∀ row ∈ more, (row.get (js "callId")).units ∉ inAttempt ∧ (row.get (js "itemId")).units ∉ inAttempt := by
  induction more generalizing state inAttempt with
  | nil =>
    refine ⟨fun _ => ⟨?_, .nil, ?_⟩, fun _ => ⟨_, rfl⟩⟩
    · rintro _ ⟨⟩
    · rintro _ ⟨⟩
  | cons row rest ih =>
    simp only [List.foldlM_cons, Option.bind_eq_bind, Option.bind_eq_some_iff]
    constructor
    · rintro ⟨result, ⟨middle, ids⟩, first, tail⟩
      obtain ⟨valid, fresh, same⟩ := observeRow_eq_some.mp first
      obtain ⟨_, rfl⟩ := Prod.mk.inj same
      obtain ⟨others, apart, free⟩ := ih.mp ⟨result, tail⟩
      refine ⟨List.forall_mem_cons.mpr ⟨valid, others⟩, List.pairwise_cons.mpr ⟨fun other member id own again => ?_, apart⟩,
        List.forall_mem_cons.mpr ⟨fresh, fun other member => ?_⟩⟩
      · obtain ⟨callFree, itemFree⟩ := free other member
        have listed : id ∈ (row.get (js "callId")).units :: (row.get (js "itemId")).units :: inAttempt :=
          List.mem_append_left inAttempt own
        rcases List.mem_cons.mp again with rfl | again
        · exact callFree listed
        · rw [List.mem_singleton.mp again] at listed
          exact itemFree listed
      · obtain ⟨callFree, itemFree⟩ := free other member
        exact ⟨fun listed => callFree (List.mem_cons_of_mem _ (List.mem_cons_of_mem _ listed)),
          fun listed => itemFree (List.mem_cons_of_mem _ (List.mem_cons_of_mem _ listed))⟩
    · rintro ⟨valid, apart, fresh⟩
      obtain ⟨own, others⟩ := List.forall_mem_cons.mp valid
      obtain ⟨away, apart⟩ := List.pairwise_cons.mp apart
      obtain ⟨here, free⟩ := List.forall_mem_cons.mp fresh
      obtain ⟨middle, first⟩ : ∃ middle, observeRow (state, inAttempt) row
          = some (middle, (row.get (js "callId")).units :: (row.get (js "itemId")).units :: inAttempt) :=
        ⟨_, observeRow_eq_some.mpr ⟨own, here, rfl⟩⟩
      have away_ : ∀ other ∈ rest,
          (other.get (js "callId")).units ∉ (row.get (js "callId")).units :: (row.get (js "itemId")).units :: inAttempt
            ∧ (other.get (js "itemId")).units ∉ (row.get (js "callId")).units :: (row.get (js "itemId")).units :: inAttempt := by
        intro other member
        obtain ⟨callFree, itemFree⟩ := free other member
        have different := away other member
        constructor
        · intro listed
          rcases List.mem_append.mp (show _ ∈ [_, _] ++ inAttempt from listed) with repeated | listed
          · exact different _ repeated List.mem_cons_self
          · exact callFree listed
        · intro listed
          rcases List.mem_append.mp (show _ ∈ [_, _] ++ inAttempt from listed) with repeated | listed
          · exact different _ repeated (List.mem_cons_of_mem _ (List.mem_singleton.mpr rfl))
          · exact itemFree listed
      obtain ⟨result, tail⟩ := ih.mpr ⟨others, apart, away_⟩
      exact ⟨result, _, first, tail⟩

/-- An attempt that the scan accepts, apart from its identity. -/
structure Accepted (item : Value × ℕ) : Prop where
  valid : validAttempt item.1 (item.2 + 1)
  consistent : consistentAttempt item.1
  sent : rowsOf item.1 ≠ [] → item.1.get (js "sent") = .bool true
  rows : ∀ row ∈ rowsOf item.1, validRow row
  apart : (rowsOf item.1).Pairwise Apart

theorem observeAttempt_eq_some {item : Value × ℕ} : observeAttempt state item = some next ↔
    (validAttempt item.1 (item.2 + 1) ∧ item.1.get (js "attemptId") ∉ state.seenAttempts) ∧ consistentAttempt item.1
      ∧ (rowsOf item.1 ≠ [] → item.1.get (js "sent") = .bool true)
      ∧ ∃ ids, (rowsOf item.1).foldlM observeRow
        ({ state with seenAttempts := item.1.get (js "attemptId") :: state.seenAttempts }, []) = some (next, ids) := by
  simp only [observeAttempt, Option.bind_eq_bind, Option.bind_eq_some_iff, Option.guard_eq_some', Option.pure_def,
    Option.some.injEq, exists_const, rowsOf, Prod.exists]
  refine and_congr_right fun _ => and_congr_right fun _ => and_congr_right fun _ => ⟨?_, ?_⟩
  · rintro ⟨observed, ids, folded, rfl⟩
    exact ⟨ids, folded⟩
  · rintro ⟨ids, folded⟩
    exact ⟨next, ids, folded, rfl⟩

theorem Sees.attempt (sees : Sees state rows) {item : Value × ℕ} (success : observeAttempt state item = some next) :
    Sees next (rows ++ rowsOf item.1) := by
  obtain ⟨_, _, _, ids, folded⟩ := observeAttempt_eq_some.mp success
  have started : Sees { state with seenAttempts := item.1.get (js "attemptId") :: state.seenAttempts } rows :=
    ⟨sees.observed, sees.known, sees.aliases, sees.distinct⟩
  exact started.all folded

theorem observeAttempt_isSome {item : Value × ℕ} :
    (∃ next, observeAttempt state item = some next) ↔ Accepted item ∧ item.1.get (js "attemptId") ∉ state.seenAttempts := by
  simp only [observeAttempt_eq_some]
  constructor
  · rintro ⟨next, ⟨valid, fresh⟩, consistent, sent, ids, folded⟩
    obtain ⟨rows, apart, _⟩ := foldlM_observeRow_isSome.mp ⟨_, folded⟩
    exact ⟨⟨valid, consistent, sent, rows, apart⟩, fresh⟩
  · rintro ⟨⟨valid, consistent, sent, rows, apart⟩, fresh⟩
    obtain ⟨⟨next, ids⟩, folded⟩ := (@foldlM_observeRow_isSome
      { state with seenAttempts := item.1.get (js "attemptId") :: state.seenAttempts } _ _).mpr
      ⟨rows, apart, fun row _ => ⟨List.not_mem_nil, List.not_mem_nil⟩⟩
    exact ⟨next, ⟨valid, fresh⟩, consistent, sent, ids, folded⟩

theorem Sees.attempts (sees : Sees state rows) {items : List (Value × ℕ)}
    (success : items.foldlM observeAttempt state = some next) : Sees next (rows ++ items.flatMap fun item => rowsOf item.1) := by
  induction items generalizing state rows with
  | nil =>
    cases success
    rwa [List.flatMap_nil, List.append_nil]
  | cons item rest ih =>
    rw [List.foldlM_cons, Option.bind_eq_bind, Option.bind_eq_some_iff] at success
    obtain ⟨middle, first, tail⟩ := success
    have after := ih (sees.attempt first) tail
    rw [List.flatMap_cons]
    rwa [List.append_assoc] at after

/-- The scan reads all attempts exactly if it accepts each and no id repeats. -/
theorem foldlM_observeAttempt_isSome {items : List (Value × ℕ)} :
    (∃ next, items.foldlM observeAttempt state = some next) ↔ (∀ item ∈ items, Accepted item)
      ∧ (items.map fun item => item.1.get (js "attemptId")).Nodup
      ∧ ∀ item ∈ items, item.1.get (js "attemptId") ∉ state.seenAttempts := by
  induction items generalizing state with
  | nil =>
    refine ⟨fun _ => ⟨?_, .nil, ?_⟩, fun _ => ⟨_, rfl⟩⟩
    · rintro _ ⟨⟩
    · rintro _ ⟨⟩
  | cons item rest ih =>
    simp only [List.foldlM_cons, Option.bind_eq_bind, Option.bind_eq_some_iff, List.map_cons, List.nodup_cons, List.mem_map,
      List.forall_mem_cons]
    have later {middle : Observations} (first : observeAttempt state item = some middle) (other : Value × ℕ) :
        other.1.get (js "attemptId") ∉ middle.seenAttempts ↔ other.1.get (js "attemptId") ≠ item.1.get (js "attemptId")
          ∧ other.1.get (js "attemptId") ∉ state.seenAttempts := by
      obtain ⟨_, _, _, ids, folded⟩ := observeAttempt_eq_some.mp first
      rw [seen_of_foldlM folded, List.mem_cons, not_or]
    constructor
    · rintro ⟨next, middle, first, tail⟩
      obtain ⟨accepted, fresh⟩ := observeAttempt_isSome.mp ⟨middle, first⟩
      obtain ⟨others, distinct, free⟩ := ih.mp ⟨next, tail⟩
      refine ⟨⟨accepted, others⟩, ⟨?_, distinct⟩, fresh, fun other member => ((later first other).mp (free other member)).2⟩
      rintro ⟨other, member, same⟩
      exact ((later first other).mp (free other member)).1 same
    · rintro ⟨⟨accepted, others⟩, ⟨new, distinct⟩, fresh, free⟩
      obtain ⟨middle, first⟩ := observeAttempt_isSome.mpr ⟨accepted, fresh⟩
      obtain ⟨next, tail⟩ := ih.mpr ⟨others, distinct, fun other member =>
        (later first other).mpr ⟨fun same => new ⟨other, member, same⟩, free other member⟩⟩
      exact ⟨next, middle, first, tail⟩

theorem length_eq_one_of_mem {tuples : List JsString} {tuple : JsString} (distinct : tuples.Nodup) (member : tuple ∈ tuples) :
    tuples.length = 1 ↔ ∀ other ∈ tuples, other = tuple := by
  constructor
  · intro single other also
    obtain ⟨only, rfl⟩ := List.length_eq_one_iff.mp single
    rw [List.mem_singleton.mp also, List.mem_singleton.mp member]
  · intro all
    have one : tuples = [tuple] := by
      cases tuples with
      | nil => cases member
      | cons first rest =>
        obtain rfl := all first List.mem_cons_self
        cases rest with
        | nil => rfl
        | cons second others =>
          obtain rfl := all second (List.mem_cons_of_mem _ List.mem_cons_self)
          exact ((List.nodup_cons.mp distinct).1 List.mem_cons_self).elim
    rw [one, List.length_singleton]

/-- What the scan decides about a row that it has read. -/
theorem Sees.uniquelyIncomplete_iff (sees : Sees state rows) (member : row ∈ rows) :
    uniquelyIncomplete state row ↔ ∀ other ∈ rows, (rowTuple other = rowTuple row → incompleteRow other)
      ∧ (¬Apart row other → rowTuple other = rowTuple row) := by
  have alone (id : JsString) (own : id ∈ [(row.get (js "callId")).units, (row.get (js "itemId")).units]) :
      (Multimap.values state.aliases id).length = 1 ↔ ∀ other ∈ rows,
        id ∈ [(other.get (js "callId")).units, (other.get (js "itemId")).units] → rowTuple other = rowTuple row := by
    rw [length_eq_one_of_mem (sees.distinct id) ((sees.aliases id (rowTuple row)).mpr ⟨row, member, own, rfl⟩)]
    constructor
    · intro all other listed named
      exact all _ ((sees.aliases id (rowTuple other)).mpr ⟨other, listed, named, rfl⟩)
    · intro all tuple listed
      obtain ⟨other, read, named, rfl⟩ := (sees.aliases id tuple).mp listed
      exact all other read named
  unfold uniquelyIncomplete
  rw [sees.observed, alone _ List.mem_cons_self, alone _ (List.mem_cons_of_mem _ (List.mem_singleton.mpr rfl))]
  constructor
  · rintro ⟨⟨_, incomplete⟩, call, item⟩ other read
    refine ⟨incomplete other read, fun shares => ?_⟩
    by_contra different
    refine shares fun id own named => different ?_
    rcases List.mem_cons.mp own with rfl | own
    · exact call other read named
    · rw [List.mem_singleton.mp own] at named
      exact item other read named
  · intro all
    refine ⟨⟨⟨row, member, rfl⟩, fun other read => (all other read).1⟩, fun other read named => ?_, fun other read named => ?_⟩
    · exact (all other read).2 fun apart => apart _ List.mem_cons_self named
    · exact (all other read).2 fun apart => apart _ (List.mem_cons_of_mem _ (List.mem_singleton.mpr rfl)) named

theorem rowTuple_of_sameIds {other : Value} (same : row.equal other) :
    rowTuple row = rowTuple other ∧ (uniquelyIncomplete state row ↔ uniquelyIncomplete state other) := by
  have call := (same.get (js "callId")).units
  have item := (same.get (js "itemId")).units
  have tuple : rowTuple row = rowTuple other := by rw [rowTuple, rowTuple, call, item]
  refine ⟨tuple, ?_⟩
  rw [uniquelyIncomplete, uniquelyIncomplete, tuple, call, item]

theorem mem_flatMap_rows {report : Value} : row ∈ (attemptsOf report).zipIdx.flatMap (fun item => rowsOf item.1) ↔
    ∃ attempt ∈ attemptsOf report, row ∈ rowsOf attempt := by
  rw [List.mem_flatMap]
  constructor
  · rintro ⟨item, listed, member⟩
    exact ⟨item.1, List.fst_mem_of_mem_zipIdx listed, member⟩
  · rintro ⟨attempt, listed, member⟩
    obtain ⟨i, bound, rfl⟩ := List.getElem_of_mem listed
    exact ⟨((attemptsOf report)[i], 0 + i), List.mk_add_mem_zipIdx_iff_getElem?.mpr (List.getElem?_eq_getElem bound), member⟩

/-- The scan reads a report to its end exactly if it is well formed. -/
theorem wellFormed_iff {report : Value} : WellFormed report ↔ validReport report
    ∧ (∀ last ∈ (attemptsOf report).getLast?, (latestOf report).equal last)
    ∧ (∃ seen, (attemptsOf report).zipIdx.foldlM observeAttempt ⟨[], [], []⟩ = some seen)
    ∧ (latestOf report).get (js "sent") = .bool true ∧ (latestOf report).get (js "created") = .bool true
    ∧ oneOf ((latestOf report).get (js "outcome")) ["unknown", "failed"] := by
  rw [foldlM_observeAttempt_isSome]
  have ids : (attemptsOf report).zipIdx.map (fun item => item.1.get (js "attemptId"))
      = (attemptsOf report).map fun attempt => attempt.get (js "attemptId") := by
    rw [show (fun item : Value × ℕ => item.1.get (js "attemptId")) = (fun attempt => attempt.get (js "attemptId")) ∘ Prod.fst from rfl,
      ← List.map_map, List.zipIdx_map_fst]
  rw [ids]
  constructor
  · intro formed
    refine ⟨formed.identified, formed.latest, ⟨fun item listed => ?_, formed.distinct, fun item _ => List.not_mem_nil⟩, formed.reached⟩
    have member : item.1 ∈ attemptsOf report := List.fst_mem_of_mem_zipIdx listed
    exact ⟨formed.attempts item listed, formed.consistent _ member, formed.sent _ member, formed.rows _ member, formed.apart _ member⟩
  · rintro ⟨identified, latest, ⟨accepted, distinct, _⟩, reached⟩
    have each (attempt : Value) (member : attempt ∈ attemptsOf report) : ∃ i, Accepted (attempt, i) := by
      obtain ⟨i, bound, rfl⟩ := List.getElem_of_mem member
      exact ⟨_, accepted _ (List.mk_add_mem_zipIdx_iff_getElem?.mpr (List.getElem?_eq_getElem bound))⟩
    refine ⟨⟨identified, fun item listed => (accepted item listed).valid, distinct, latest, reached⟩, ?_, ?_, ?_, ?_⟩
    · intro attempt member
      obtain ⟨_, holds⟩ := each attempt member
      exact holds.consistent
    · intro attempt member
      obtain ⟨_, holds⟩ := each attempt member
      exact holds.sent
    · intro attempt member
      obtain ⟨_, holds⟩ := each attempt member
      exact holds.rows
    · intro attempt member
      obtain ⟨_, holds⟩ := each attempt member
      exact holds.apart

theorem attemptsOf_getLast? {report : Value} (identified : validReport report) : ∃ last, (attemptsOf report).getLast? = some last :=
  ⟨_, List.getLast?_eq_some_getLast identified.2.2.2.2.1⟩

/-- A report yields exactly the tuples of its last attempt that no attempt saw complete or native and whose components are in no
other tuple, if it is well formed, and nothing otherwise. -/
theorem mem_incompleteObservations_iff (report : Value) (id : JsString) :
    id ∈ incompleteObservations report ↔ WellFormed report ∧ Unfinished report id := by
  have listed {last : Value} (isLast : (attemptsOf report).getLast? = some last) (same : (latestOf report).equal last)
      {seen : Observations} (scanned : (attemptsOf report).zipIdx.foldlM observeAttempt ⟨[], [], []⟩ = some seen) :
      id ∈ (((latestOf report).get (js "observedCalls")).items.filter fun row => uniquelyIncomplete seen row).map rowTuple
        ↔ Unfinished report id := by
    have sees := (sees_start []).attempts scanned
    rw [List.nil_append] at sees
    have present {row : Value} (member : row ∈ rowsOf last) :
        row ∈ (attemptsOf report).zipIdx.flatMap fun item => rowsOf item.1 :=
      mem_flatMap_rows.mpr ⟨last, List.mem_of_getLast? isLast, member⟩
    have decided {row : Value} (member : row ∈ rowsOf last) : uniquelyIncomplete seen row ↔
        ∀ attempt ∈ attemptsOf report, ∀ other ∈ rowsOf attempt,
          (rowTuple other = rowTuple row → incompleteRow other) ∧ (¬Apart row other → rowTuple other = rowTuple row) := by
      rw [sees.uniquelyIncomplete_iff (present member)]
      constructor
      · intro all attempt inReport other inAttempt
        exact all other (mem_flatMap_rows.mpr ⟨attempt, inReport, inAttempt⟩)
      · intro all other read
        obtain ⟨attempt, inReport, inAttempt⟩ := mem_flatMap_rows.mp read
        exact all attempt inReport other inAttempt
    have matched := same.get (js "observedCalls")
    rw [List.mem_map]
    constructor
    · rintro ⟨row, kept, rfl⟩
      obtain ⟨inLatest, unique⟩ := List.mem_filter.mp kept
      obtain ⟨other, inLast, equal⟩ := matched.exists_item inLatest
      obtain ⟨tuple, agree⟩ := rowTuple_of_sameIds equal
      refine ⟨last, isLast, other, inLast, tuple.symm, ?_⟩
      rw [tuple]
      exact (decided inLast).mp (agree.mp (of_decide_eq_true unique))
    · rintro ⟨there, isThere, row, inLast, rfl, all⟩
      obtain rfl := Option.some.inj (isLast.symm.trans isThere)
      obtain ⟨other, inLatest, equal⟩ := matched.symm.exists_item inLast
      obtain ⟨tuple, agree⟩ := rowTuple_of_sameIds equal
      exact ⟨other, List.mem_filter.mpr ⟨inLatest, decide_eq_true (agree.mp ((decided inLast).mpr all))⟩, tuple.symm⟩
  unfold incompleteObservations
  rw [wellFormed_iff]
  cases computed : incompleteObservations? report with
  | none =>
    constructor
    · rintro ⟨⟩
    · rintro ⟨⟨identified, latest, ⟨seen, scanned⟩, reached⟩, _⟩
      obtain ⟨last, isLast⟩ := attemptsOf_getLast? identified
      have some_ : incompleteObservations? report
          = some ((((latestOf report).get (js "observedCalls")).items.filter fun row => uniquelyIncomplete seen row).map rowTuple) := by
        simp only [incompleteObservations?, Option.bind_eq_bind, Option.bind_eq_some_iff, Option.guard_eq_some', Option.pure_def,
          exists_const]
        exact ⟨identified, last, isLast, latest last isLast, seen, scanned, reached, rfl⟩
      rw [computed] at some_
      cases some_
  | some ids =>
    simp only [incompleteObservations?, Option.bind_eq_bind, Option.bind_eq_some_iff, Option.guard_eq_some',
      Option.pure_def, Option.some.injEq, exists_const] at computed
    obtain ⟨identified, last, isLast, same, seen, scanned, reached, rfl⟩ := computed
    rw [Option.getD_some, listed isLast same scanned]
    refine ⟨fun unfinished => ⟨⟨identified, fun other isOther => ?_, ⟨seen, scanned⟩, reached⟩, unfinished⟩, And.right⟩
    obtain rfl := Option.some.inj (isLast.symm.trans isOther)
    exact same

/-- An attempt that was interrupted while its calls were incomplete. -/
def interruptedAttempt (rows : List Value) : List (String × Value) :=
  [("attemptId", Value.text "attempt"), ("attemptNumber", .num (.ofNat 1)), ("transport", Value.text "websocket"),
    ("sent", .bool true), ("created", .bool true), ("providerTools", .bool true), ("retired", .bool true), ("fenced", .bool true),
    ("possibleUsage", .bool true), ("outcome", Value.text "unknown"), ("observedCalls", .arr rows)]

def interruptedReport (rows : List Value) : Value :=
  .record ([("version", .num (.ofNat 1)), ("requestId", Value.text "request"),
    ("attempts", .arr [Value.record (interruptedAttempt rows)])] ++ interruptedAttempt rows)

def incompleteCall : Value :=
  Value.record [("callId", Value.text "call"), ("itemId", Value.text "item"), ("complete", .bool false), ("native", .bool false)]

/-- A fenced report that lists a call twice yields nothing, though its tuple is unfinished. -/
theorem mem_incompleteObservations_repeated :
    ¬∀ report id, Fenced report → (id ∈ incompleteObservations report ↔ Unfinished report id) := by
  intro all
  have fenced : Fenced (interruptedReport [incompleteCall, incompleteCall]) := by
    refine ⟨by decide +kernel, by decide +kernel, by decide +kernel, ?_, by decide +kernel⟩
    rintro last ⟨⟩
    decide +kernel
  have unfinished : Unfinished (interruptedReport [incompleteCall, incompleteCall]) (js "call|item") := by
    refine ⟨Value.record (interruptedAttempt [incompleteCall, incompleteCall]), by decide +kernel, incompleteCall, by decide +kernel,
      by decide +kernel, ?_⟩
    have only : ∀ attempt ∈ attemptsOf (interruptedReport [incompleteCall, incompleteCall]), ∀ other ∈ rowsOf attempt,
        other = incompleteCall := by decide +kernel
    intro attempt inReport other inAttempt
    rw [only attempt inReport other inAttempt]
    exact ⟨fun _ => by decide +kernel, fun _ => by decide +kernel⟩
  have reported := (all _ (js "call|item") fenced).mpr unfinished
  revert reported
  decide +kernel

end Reports

/-! ## Calls and results of a branch -/

/-- The entries of a branch that hold messages of a role. -/
def messagesOf (selected : List Value) (role : String) : List Value :=
  selected.filter fun entry => isWord (entry.get (js "type")) "message" ∧ hasRole (messageOf entry) role

theorem mem_messagesOf {selected : List Value} {role : String} {entry : Value} :
    entry ∈ messagesOf selected role ↔
      entry ∈ selected ∧ isWord (entry.get (js "type")) "message" ∧ hasRole (messageOf entry) role := by
  simp only [messagesOf, List.mem_filter, decide_eq_true_eq]

theorem mem_branchRecords {selected : List Value} {record : MessageRecord} :
    record ∈ branchRecords selected ↔ ∃ entry ∈ selected, isWord (entry.get (js "type")) "message"
      ∧ record = ⟨messageOf entry, entry.get (js "id")⟩ := by
  simp only [branchRecords, List.mem_map, List.mem_filter, decide_eq_true_eq, and_assoc, eq_comm (a := record)]

theorem mem_allCalls {start : ℕ} {records : List MessageRecord} {id : JsString} {call : CallRecord} :
    (id, call) ∈ allCalls start records ↔ ∃ record ∈ records, ∃ order, (record, order) ∈ records.zipIdx start
      ∧ hasRole record.message "assistant" ∧ isToolCall call.call ∧ id = callId call.call
      ∧ (contentOf record.message)[call.contentIndex]? = some call.call
      ∧ call = ⟨call.call, record.message, record.entryId, call.contentIndex, order⟩ := by
  simp only [allCalls, List.mem_flatMap, callsOf, Prod.exists]
  constructor
  · rintro ⟨record, order, member, indexed⟩
    split at indexed
    · next assistant =>
      obtain ⟨⟨block, i⟩, kept, same⟩ := List.mem_map.mp indexed
      obtain ⟨present, isCall⟩ := List.mem_filter.mp kept
      simp only [callBinding, Prod.mk.injEq] at same
      obtain ⟨rfl, rfl⟩ := same
      exact ⟨record, List.fst_mem_of_mem_zipIdx member, order, member, assistant, of_decide_eq_true isCall, rfl,
        List.mem_zipIdx_iff_getElem?.mp present, rfl⟩
    · cases indexed
  · rintro ⟨record, _, order, member, assistant, isCall, rfl, present, same⟩
    refine ⟨record, order, member, ?_⟩
    rw [if_pos assistant]
    refine List.mem_map.mpr ⟨(call.call, call.contentIndex), List.mem_filter.mpr ⟨?_, ?_⟩, ?_⟩
    · exact List.mem_zipIdx_iff_getElem?.mpr present
    · exact decide_eq_true isCall
    · rw [callBinding, ← same]

theorem mem_allResults {start : ℕ} {records : List MessageRecord} {id : JsString} {result : ResultRecord} :
    (id, result) ∈ allResults start records ↔ ∃ record ∈ records, ∃ order, (record, order) ∈ records.zipIdx start
      ∧ hasRole record.message "toolResult" ∧ id = resultId record.message
      ∧ result = ⟨record.message, record.entryId, order⟩ := by
  simp only [allResults, List.mem_flatMap, resultsOf, Prod.exists]
  constructor
  · rintro ⟨record, order, member, indexed⟩
    split at indexed
    · next isResult =>
      simp only [List.mem_singleton, Prod.mk.injEq] at indexed
      exact ⟨record, List.fst_mem_of_mem_zipIdx member, order, member, isResult, indexed.1, indexed.2⟩
    · cases indexed
  · rintro ⟨record, _, order, member, isResult, rfl, rfl⟩
    refine ⟨record, order, member, ?_⟩
    rw [if_pos isResult]
    exact List.mem_singleton_self _

private theorem exists_zipIdx_of_mem {α : Type} {items : List α} {item : α} (member : item ∈ items) (start : ℕ) :
    ∃ i, (item, i) ∈ items.zipIdx start := by
  obtain ⟨i, bound, rfl⟩ := List.getElem_of_mem member
  exact ⟨start + i, List.mk_add_mem_zipIdx_iff_getElem?.mpr (List.getElem?_eq_getElem bound)⟩

theorem exists_mem_allCalls {selected : List Value} {entry block : Value} {i : ℕ}
    (issuer : entry ∈ messagesOf selected "assistant")
    (present : (contentOf (messageOf entry))[i]? = some block) (isCall : isToolCall block) :
    ∃ order, (callId block, ⟨block, messageOf entry, entry.get (js "id"), i, order⟩) ∈
      allCalls 0 (branchRecords selected) := by
  obtain ⟨member, isMessage, assistant⟩ := mem_messagesOf.mp issuer
  have record := mem_branchRecords.mpr ⟨entry, member, isMessage, rfl⟩
  obtain ⟨order, indexed⟩ := exists_zipIdx_of_mem record 0
  exact ⟨order, mem_allCalls.mpr ⟨_, record, order, indexed, assistant, isCall, rfl, present, rfl⟩⟩

theorem exists_mem_allResults {selected : List Value} {entry : Value}
    (result : entry ∈ messagesOf selected "toolResult") :
    ∃ order, (resultId (messageOf entry), ⟨messageOf entry, entry.get (js "id"), order⟩) ∈
      allResults 0 (branchRecords selected) := by
  obtain ⟨member, isMessage, isResult⟩ := mem_messagesOf.mp result
  have record := mem_branchRecords.mpr ⟨entry, member, isMessage, rfl⟩
  obtain ⟨order, indexed⟩ := exists_zipIdx_of_mem record 0
  exact ⟨order, mem_allResults.mpr ⟨_, record, order, indexed, isResult, rfl, rfl⟩⟩

/-! ## Witnesses -/

variable {sha256 : JsString → JsString}

/-- A witness on the branch, child of the assistant entry whose call it names. -/
structure Witnessed (sha256 : JsString → JsString) (selected : List Value) (target : Value) (id : JsString) :
    Prop where
  issuer : target ∈ messagesOf selected "assistant"
  named : ∃ block ∈ contentOf (messageOf target), isToolCall block ∧ callId block = id
  witness : ∃ entry ∈ selected, entry.get (js "parentId") = target.get (js "id") ∧ ∃ info,
    messageFacts sha256 (messageOf target) = .ok info
      ∧ id ∈ witnessedNonAdmission entry (some (target.get (js "id"), some info))

private theorem messageFacts_fields {message : Value} {info : MessageFacts}
    (success : messageFacts sha256 message = .ok info) :
    ordinaryNonNativeFailure message = .ok info.ordinaryNonNativeFailure
      ∧ info.content = contentFacts sha256 (message.get (js "content")) := by
  simp only [messageFacts, Checked.bind_eq_ok, Checked.pure_eq_ok] at success
  obtain ⟨nonNative, computed, _, _, rfl⟩ := success
  exact ⟨computed, rfl⟩

private theorem assistant_of_nonNativeFailure {message : Value}
    (failure : ordinaryNonNativeFailure message = .ok true) : hasRole message "assistant" := by
  unfold ordinaryNonNativeFailure at failure
  split at failure
  · next shape => exact shape.1
  · cases failure

theorem exists_block_of_mem_contentFacts {content : Value} {call : CallFacts}
    (member : call ∈ (contentFacts sha256 content).calls) :
    ∃ block i, content.items[i]? = some block ∧ isToolCall block ∧ call = callFacts sha256 block i := by
  simp only [contentFacts] at member
  split at member
  · obtain ⟨⟨block, i⟩, kept, rfl⟩ := List.mem_map.mp member
    obtain ⟨present, isCall⟩ := List.mem_filter.mp kept
    have isCall := of_decide_eq_true isCall
    refine ⟨block, i, ?_, isCall, rfl⟩
    have present := List.mem_zipIdx_iff_getElem?.mp present
    cases content with
    | str text =>
      obtain rfl := List.mem_singleton.mp (List.mem_of_getElem? present)
      simp [isToolCall, isWord, Value.get, Value.fields, Assoc.lookup_cons] at isCall
    | _ => exact present
  · cases member

theorem nonAdmissionCalls_eq_some {info : MessageFacts} {calls : List CallFacts} :
    nonAdmissionCalls info = some calls ↔ (info.ordinaryNonNativeFailure = true ∧ info.content.valid = true
      ∧ info.content.calls ≠ [] ∧ (∀ call ∈ info.content.calls, call.valid = true)
      ∧ (info.content.calls.map (·.id)).Nodup) ∧ info.content.calls = calls := by
  unfold nonAdmissionCalls
  split
  · next accepted => exact ⟨fun same => ⟨accepted, Option.some.inj same⟩, fun same => congrArg some same.2⟩
  · next rejected => exact ⟨fun same => (nomatch same), fun same => absurd same.1 rejected⟩

private theorem named_of_witnessedNonAdmission {entry targetId : Value} {info : MessageFacts} {id : JsString}
    (member : id ∈ witnessedNonAdmission entry (some (targetId, some info))) :
    entry.get (js "parentId") = targetId ∧ info.ordinaryNonNativeFailure = true
      ∧ ∃ call ∈ info.content.calls, call.valid = true ∧ call.id.units = id := by
  simp only [witnessedNonAdmission, Option.map_some, Option.getD_some, Option.bind_some] at member
  split at member
  · cases member
  · next shape =>
    simp only [not_or, not_not] at shape
    split at member
    · cases member
    · next calls accepted =>
      obtain ⟨⟨failure, _, _, valid, _⟩, rfl⟩ := nonAdmissionCalls_eq_some.mp accepted
      split at member
      · obtain ⟨call, present, same⟩ := List.mem_map.mp member
        exact ⟨shape.2.2.2.2.2.2.1, failure, call, present, valid call present, same⟩
      · cases member

private theorem witnessed_of_named {selected : List Value} {entry target : Value} {info : MessageFacts}
    {id : JsString} (present : entry ∈ selected) (issuer : target ∈ selected)
    (isMessage : isWord (target.get (js "type")) "message")
    (facts : messageFacts sha256 (messageOf target) = .ok info)
    (member : id ∈ witnessedNonAdmission entry (some (target.get (js "id"), some info))) :
    Witnessed sha256 selected target id := by
  obtain ⟨child, failure, call, isCall, valid, rfl⟩ := named_of_witnessedNonAdmission member
  obtain ⟨nonNative, content⟩ := messageFacts_fields facts
  rw [failure] at nonNative
  rw [content] at isCall
  obtain ⟨block, i, at_i, blockCall, rfl⟩ := exists_block_of_mem_contentFacts isCall
  refine ⟨mem_messagesOf.mpr ⟨issuer, isMessage, assistant_of_nonNativeFailure nonNative⟩,
    ⟨block, List.mem_of_getElem? at_i, blockCall, ?_⟩, entry, present, child, info, facts, member⟩
  have identified : identifier (block.get (js "id")) := (of_decide_eq_true valid).1
  simp only [callFacts, identifierOr, if_pos identified, callId]

theorem exists_witnessed_of_mem_ownedNonAdmissions {selected : List Value} {witnessed : List JsString}
    {id : JsString} (success : ownedNonAdmissions sha256 selected = .ok witnessed) (member : id ∈ witnessed) :
    ∃ target, Witnessed sha256 selected target id := by
  simp only [ownedNonAdmissions, Checked.bind_eq_ok, Checked.pure_eq_ok, Prod.exists] at success
  obtain ⟨prior, _, folded, rfl⟩ := success
  -- The prior map only holds entries of the branch.
  have invariant := Checked.foldlM_invariant
    (fun state : List (JsString × Value) × List JsString =>
      (∀ key target, Assoc.lookup state.1 key = some target → target ∈ selected)
        ∧ ∀ id ∈ state.2, ∃ target, Witnessed sha256 selected target id)
    ⟨fun _ _ found => (by cases found), fun _ absent => (by cases absent)⟩ ?_ folded
  · exact invariant.2 id member
  intro state entry next present holds step
  have prior_next : ∀ key target, Assoc.lookup (Assoc.set state.1 (entryId entry) entry) key = some target →
      target ∈ selected := by
    intro key target found
    rw [Assoc.lookup_set] at found
    split at found
    · cases found
      exact present
    · exact holds.1 key target found
  simp only [ownedNonAdmission] at step
  split at step
  · split at step
    · next target found =>
      split at step
      · next isMessage =>
        simp only [Checked.bind_eq_ok, Checked.pure_eq_ok] at step
        obtain ⟨info, facts, rfl⟩ := step
        refine ⟨prior_next, fun other named => ?_⟩
        rcases Multimap.mem_foldl_insertValue.mp named with old | fresh
        · exact holds.2 other old
        · exact ⟨target, witnessed_of_named present (holds.1 _ _ found) isMessage facts fresh⟩
      · cases step
        exact ⟨prior_next, holds.2⟩
    · cases step
      exact ⟨prior_next, holds.2⟩
  · cases step
    exact ⟨prior_next, holds.2⟩

end PersistentHarness.Canonical
