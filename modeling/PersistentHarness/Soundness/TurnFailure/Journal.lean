import PersistentHarness.Soundness.TurnFailure.Reports

/-! # The journal of turn-failure reports

What a marker, a witness and a restart do to the order of the pending reports. A witness is appended while its own
report is still the first of them, and a restart takes up the markers behind the last witness.
-/

namespace PersistentHarness.TurnFailure

section Steps

variable {s : System}

theorem accepted_ne_entry : acceptedType ≠ entryType := by decide

theorem customEntry_isCustom (id customType other : JsString) (data : Value) :
    (customEntry id customType data).isCustom other = decide (customType = other) := by
  simp [Entry.isCustom, customEntry]

theorem not_mem_of_free {id : JsString} (free : s.free id = true) : id ∉ s.journal.map Entry.id := by
  intro member
  obtain ⟨entry, inside, same⟩ := List.mem_map.mp member
  exact of_decide_eq_true (List.all_eq_true.mp free entry inside) same

theorem ids_concat (sound : Sound s) (entry : Entry) (free : s.free entry.id = true) :
    ((s.journal ++ [entry]).map Entry.id).Nodup := by
  rw [List.map_append, List.nodup_append]
  refine ⟨sound.ids, List.pairwise_singleton .., fun id member _ added same => ?_⟩
  rw [List.mem_singleton.mp added] at same
  exact not_mem_of_free free (same ▸ member)

theorem unreported_concat {entry : Entry} {position : ℕ} (unreported : s.unreported position) :
    { s with journal := s.journal ++ [entry] }.unreported position := by
  obtain ⟨turnId, value, id, running, here⟩ := unreported
  refine ⟨turnId, value, id, running, ?_⟩
  rw [List.getElem?_append_left (List.getElem?_eq_some_iff.mp here).1]
  exact here

theorem Sound.append (sound : Sound s) (entry : Entry) (free : s.free entry.id = true) (other : entry.isCustom entryType = false)
    (stands : entry.isCustom acceptedType = true → ∃ place, entry.data = witness (some place)
      ∧ place.position < s.journal.length
      ∧ ∀ position report, position ≤ place.position → Journaled s.journal position report → report ∈ s.acknowledged) :
    Sound { s with journal := s.journal ++ [entry] } := by
  constructor
  · exact ids_concat sound entry free
  · exact fun p q a b left right => sound.distinct p q a b (journaled_concat_other other left) (journaled_concat_other other right)
  · intro witness member accepts
    have stood : ∃ place, witness.data = TurnFailure.witness (some place) ∧ place.position < s.journal.length
        ∧ ∀ position report, position ≤ place.position → Journaled s.journal position report → report ∈ s.acknowledged := by
      rcases List.mem_append.mp member with before | added
      · exact sound.witnessed witness before accepts
      · obtain rfl := List.mem_singleton.mp added
        exact stands accepts
    obtain ⟨place, written, bound, all⟩ := stood
    refine ⟨place, written, ?_, fun position report reached journaled => ?_⟩
    · rw [List.length_append]
      omega
    · exact all position report reached (journaled_concat_other other journaled)
  · obtain ⟨frontier, below, placed, sorted, stamped, keys⟩ := sound.reporter
    refine ⟨fun position report reached journaled => ?_, ?_, fun pending member => ?_, sorted, stamped, keys⟩
    · exact frontier position report reached (journaled_concat_other other journaled)
    · rw [List.length_append]
      push_cast
      omega
    · obtain ⟨place, at_place, marks⟩ := placed pending member
      exact ⟨place, at_place, marks.append entry⟩
  · intro position report journaled
    rcases sound.covered position report (journaled_concat_other other journaled) with acknowledged | pending | unreported
    · exact .inl acknowledged
    · exact .inr (.inl pending)
    · exact .inr (.inr (unreported_concat unreported))
  · rintro position ⟨turnId, value, id, running, here⟩
    have before : position < s.journal.length := by
      have bound : position < s.journal.length + 1 := by simpa using (List.getElem?_eq_some_iff.mp here).1
      rcases Nat.lt_succ_iff_lt_or_eq.mp bound with before | rfl
      · exact before
      · rw [List.getElem?_concat_length] at here
        cases here
        rw [customEntry_isCustom] at other
        exact absurd rfl (of_decide_eq_false other)
    rw [List.getElem?_append_left before] at here
    exact sound.last position ⟨turnId, value, id, running, here⟩
  · intro turnId running
    have before := sound.fresh turnId running
    rw [System.marked] at before ⊢
    rw [List.any_append, before]
    simp [other]
  · intro turnId value id running
    obtain ⟨position, unreported⟩ := sound.marker turnId value id running
    exact ⟨position, unreported_concat unreported⟩

theorem Sound.acknowledged (sound : Sound s) {entry : Pending} (head : s.reporter.pending.head? = some entry)
    (recorded : entry.report ∈ s.acknowledged) {position : ℕ} {report : Report} (reached : position ≤ entry.position)
    (journaled : Journaled s.journal position report) : report ∈ s.acknowledged := by
  obtain ⟨rest, queue⟩ := List.head?_eq_some_iff.mp head
  rcases sound.covered position report journaled with acknowledged | ⟨other, member, rfl⟩ | unreported
  · exact acknowledged
  · obtain ⟨place, at_place, marks⟩ := sound.reporter.placed other member
    have here : position = place.position := sound.distinct _ _ _ _ journaled marks rfl
    rw [queue] at member
    rcases List.mem_cons.mp member with rfl | later
    · exact recorded
    · have sorted := sound.reporter.sorted
      rw [queue] at sorted
      have behind := ((List.pairwise_cons.mp sorted).1 other later).2
      have there : other.position = place.position := by rw [Pending.position, at_place]; rfl
      omega
  · have behind := sound.last position unreported entry (queue ▸ List.mem_cons_self ..)
    omega

theorem Sound.answered (sound : Sound s) (report : Report) : Sound { s with acknowledged := report :: s.acknowledged } := by
  refine { sound with witnessed := fun entry member accepts => ?_, reporter := ?_, covered := fun position other journaled => ?_ }
  · obtain ⟨place, written, bound, all⟩ := sound.witnessed entry member accepts
    exact ⟨place, written, bound, fun position other reached journaled =>
      List.mem_cons_of_mem report (all position other reached journaled)⟩
  · exact { sound.reporter with
      frontier := fun position other reached journaled =>
        List.mem_cons_of_mem report (sound.reporter.frontier position other reached journaled) }
  · exact (sound.covered position other journaled).imp_left (List.mem_cons_of_mem report)

theorem filter_head {entry : Pending} {rest : List Pending}
    (keys : ((entry :: rest).map fun entry => entry.report.turnId).Nodup) :
    (entry :: rest).filter (fun other => other.report.turnId ≠ entry.report.turnId) = rest := by
  rw [List.filter_cons_of_neg (by simp), List.filter_eq_self]
  intro other member
  refine decide_eq_true fun same => ?_
  exact (List.nodup_cons.mp keys).1 (List.mem_map.mpr ⟨other, member, same⟩)

theorem Sound.dropped (sound : Sound s) {entry : Pending} (head : s.reporter.pending.head? = some entry)
    (recorded : entry.report ∈ s.acknowledged) :
    Sound { s with
      reporter := { s.reporter with
        acceptedThrough := (entry.journal.map fun journal : Journal => Int.ofNat journal.position).getD s.reporter.acceptedThrough
        pending := s.reporter.pending.filter fun other => other.report.turnId ≠ entry.report.turnId } } := by
  obtain ⟨rest, queue⟩ := List.head?_eq_some_iff.mp head
  obtain ⟨place, at_place, marks⟩ := sound.reporter.placed entry (queue ▸ List.mem_cons_self ..)
  have kept : s.reporter.pending.filter (fun other => other.report.turnId ≠ entry.report.turnId) = rest := by
    rw [queue]
    exact filter_head (queue ▸ sound.reporter.keys)
  have inside {other : Pending} (member : other ∈ rest) : other ∈ s.reporter.pending := queue ▸ List.mem_cons_of_mem entry member
  have there : entry.position = place.position := by rw [Pending.position, at_place]; rfl
  rw [kept, at_place]
  refine { sound with reporter := ⟨?_, ?_, ?_, ?_, ?_, ?_⟩, covered := ?_, last := ?_ }
  · intro position report reached journaled
    have reached : position ≤ entry.position := by
      rw [there]
      exact Int.ofNat_le.mp reached
    exact sound.acknowledged head recorded reached journaled
  · exact Int.ofNat_lt.mpr marks.lt
  · exact fun other member => sound.reporter.placed other (inside member)
  · exact (List.pairwise_cons.mp (queue ▸ sound.reporter.sorted)).2
  · exact fun other member => sound.reporter.stamped other (inside member)
  · have keys := sound.reporter.keys
    rw [queue] at keys
    exact (List.nodup_cons.mp keys).2
  · intro position report journaled
    rcases sound.covered position report journaled with acknowledged | ⟨other, member, rfl⟩ | unreported
    · exact .inl acknowledged
    · rw [queue] at member
      rcases List.mem_cons.mp member with rfl | later
      · exact .inl recorded
      · exact .inr (.inl ⟨other, later, rfl⟩)
    · exact .inr (.inr unreported)
  · exact fun position unreported other member => sound.last position unreported other (inside member)

theorem report_turnId (turnId failureClass : JsString) (toolEffects providerStarted : Bool) :
    (System.report turnId failureClass toolEffects providerStarted).get (js "turnId") = .str turnId := by
  have apart : js "version" ≠ js "turnId" := by decide
  simp [System.report, Value.record, Value.get, Value.fields, Assoc.lookup_cons, apart]

theorem Sound.journal (sound : Sound s) {id : JsString} (free : s.free id = true) (failureClass : JsString)
    (toolEffects providerStarted : Bool) : Sound (s.journalTurnFailure id failureClass toolEffects providerStarted) := by
  rw [System.journalTurnFailure]
  split
  · next turnId running =>
    dsimp only
    generalize written : System.report turnId failureClass toolEffects providerStarted = value
    have named : value.get (js "turnId") = .str turnId := written ▸ report_turnId ..
    have marker : (customEntry id entryType value).isCustom entryType = true := by rw [customEntry_isCustom]; exact decide_eq_true rfl
    have silent : (customEntry id entryType value).isCustom acceptedType = false := by
      rw [customEntry_isCustom]
      exact decide_eq_false accepted_ne_entry.symm
    have idle (position : ℕ) : ¬ s.unreported position := by
      rintro ⟨_, _, _, other, _⟩
      rw [running] at other
      cases other
    have unknown {position : ℕ} {report : Report} (journaled : Journaled s.journal position report) : report.turnId ≠ turnId := by
      rintro rfl
      obtain ⟨entry, here, marks, valid⟩ := journaled
      have unmarked := List.any_eq_false.mp (sound.fresh _ running) entry (List.mem_of_getElem? here)
      rw [marks, normalize_turnId valid] at unmarked
      simp at unmarked
    have mine {report : Report} (valid : normalizeTurnFailure value = .ok report) : report.turnId = turnId := by
      have same := (normalize_turnId valid).symm.trans named
      exact Value.str.inj same
    have last : { s with
        journal := s.journal ++ [customEntry id entryType value], run := some ⟨turnId, some (value, id)⟩ }.unreported
          s.journal.length := ⟨turnId, value, id, rfl, List.getElem?_concat_length⟩
    constructor
    · exact ids_concat sound (customEntry id entryType value) free
    · intro p q a b left right same
      rcases journaled_concat left with left | ⟨rfl, _, valid⟩
      · rcases journaled_concat right with right | ⟨rfl, _, valid⟩
        · exact sound.distinct p q a b left right same
        · exact absurd (same.trans (mine valid)) (unknown left)
      · rcases journaled_concat right with right | ⟨rfl, _, _⟩
        · exact absurd (same.symm.trans (mine valid)) (unknown right)
        · rfl
    · intro entry member accepts
      rcases List.mem_append.mp member with before | added
      · obtain ⟨place, data, bound, all⟩ := sound.witnessed entry before accepts
        refine ⟨place, data, ?_, fun position report reached journaled => ?_⟩
        · rw [List.length_append]
          omega
        · rcases journaled_concat journaled with journaled | ⟨rfl, _⟩
          · exact all position report reached journaled
          · omega
      · rw [List.mem_singleton.mp added, silent] at accepts
        cases accepts
    · obtain ⟨frontier, below, placed, sorted, stamped, keys⟩ := sound.reporter
      refine ⟨fun position report reached journaled => ?_, ?_, fun pending member => ?_, sorted, stamped, keys⟩
      · rcases journaled_concat journaled with journaled | ⟨rfl, _⟩
        · exact frontier position report reached journaled
        · exact absurd reached (not_le.mpr below)
      · rw [List.length_append]
        push_cast
        omega
      · obtain ⟨place, at_place, marks⟩ := placed pending member
        exact ⟨place, at_place, marks.append _⟩
    · intro position report journaled
      rcases journaled_concat journaled with journaled | ⟨rfl, _⟩
      · exact (sound.covered position report journaled).imp_right fun rest => rest.imp_right fun other => absurd other (idle position)
      · exact .inr (.inr last)
    · rintro position ⟨_, _, _, same, here⟩ pending member
      cases same
      obtain ⟨place, at_place, marks⟩ := sound.reporter.placed pending member
      have there : pending.position = place.position := by rw [Pending.position, at_place]; rfl
      have beyond : s.journal.length ≤ position := by
        by_contra before
        rw [List.getElem?_append_left (by omega)] at here
        exact not_mem_of_free free (List.mem_map.mpr ⟨_, List.mem_of_getElem? here, rfl⟩)
      have := marks.lt
      omega
    · exact fun _ other => nomatch other
    · intro _ _ _ other
      cases other
      exact ⟨_, last⟩
  · exact sound

theorem Sound.start (sound : Sound s) (turnId : JsString) : Sound (s.start turnId) := by
  rw [System.start]
  split
  · next ready =>
    obtain ⟨idle, unmarked⟩ := Bool.and_eq_true_iff.mp ready
    have none := Option.isNone_iff_eq_none.mp idle
    refine { sound with covered := fun position report journaled => ?_, last := ?_, fresh := ?_, marker := ?_ }
    · refine (sound.covered position report journaled).imp_right fun rest => rest.imp_right ?_
      rintro ⟨_, _, _, running, _⟩
      rw [none] at running
      cases running
    · rintro position ⟨_, _, _, running, _⟩
      cases running
    · intro _ running
      cases running
      exact Bool.not_eq_true' _ ▸ unmarked
    · intro _ _ _ running
      cases running
  · exact sound

end Steps

section Restarts

variable {journal : List Entry} {acknowledged : List Report} {s : System}

theorem same_place (ids : (journal.map Entry.id).Nodup) {p q : ℕ} {a b : Entry} (left : journal[p]? = some a)
    (right : journal[q]? = some b) (same : a.id = b.id) : p = q := by
  obtain ⟨inside, rfl⟩ := List.getElem?_eq_some_iff.mp left
  obtain ⟨inside', rfl⟩ := List.getElem?_eq_some_iff.mp right
  have within : p < (journal.map Entry.id).length := by simpa using inside
  have within' : q < (journal.map Entry.id).length := by simpa using inside'
  have same' : (journal.map Entry.id)[p] = (journal.map Entry.id)[q] := by simpa using same
  exact (List.getElem_inj ids).mp same'

theorem read_eq (ids : (journal.map Entry.id).Nodup) {entry : Entry} (member : entry ∈ journal) :
    read journal entry.id = entry.data := by
  obtain ⟨p, here⟩ := List.mem_iff_getElem?.mp member
  rw [read]
  cases found : journal.find? fun other => decide (other.id = entry.id) with
  | none => exact absurd rfl (of_decide_eq_false (Bool.not_eq_true _ ▸ List.find?_eq_none.mp found entry member))
  | some other =>
    obtain ⟨q, there⟩ := List.mem_iff_getElem?.mp (List.mem_of_find?_eq_some found)
    have same := List.find?_some found
    obtain rfl := same_place ids there here (of_decide_eq_true same)
    rw [here] at there
    cases there
    rfl

theorem find_last (ids : (journal.map Entry.id).Nodup) {entry : Entry} {position : ℕ} (here : journal[position]? = some entry) :
    (journal.zipIdx.reverse.find? fun header => header.1.id = entry.id) = some (entry, position) := by
  have member : (entry, position) ∈ journal.zipIdx.reverse :=
    List.mem_reverse.mpr (List.mem_zipIdx_iff_getElem?.mpr here)
  cases found : journal.zipIdx.reverse.find? fun header => decide (header.1.id = entry.id) with
  | none => exact absurd rfl (of_decide_eq_false (Bool.not_eq_true _ ▸ List.find?_eq_none.mp found _ member))
  | some header =>
    obtain ⟨other, place⟩ := header
    have there : journal[place]? = some other :=
      List.mem_zipIdx_iff_getElem?.mp (List.mem_reverse.mp (List.mem_of_find?_eq_some found))
    have same := List.find?_some found
    obtain rfl := same_place ids there here (of_decide_eq_true same)
    rw [here] at there
    cases there
    rfl

theorem witness_position (place : Journal) : (witness (some place)).get (js "position") = .num (.ofNat place.position) := by
  have apart : js "version" ≠ js "position" := by decide
  have apart' : js "entryId" ≠ js "position" := by decide
  simp [witness, Value.record, Value.get, Value.fields, Assoc.lookup_cons, apart, apart']

/-- The frontier that a restart reads is that of a witness, if there is one. -/
theorem acceptedThrough_cases (sound : Sound s) : acceptedThrough s.journal = -1
    ∨ ∃ place : Journal, acceptedThrough s.journal = place.position ∧ place.position < s.journal.length
      ∧ ∀ position report, position ≤ place.position → Journaled s.journal position report → report ∈ s.acknowledged := by
  rw [acceptedThrough]
  split
  · next entry index found =>
    have here : s.journal[index]? = some entry :=
      List.mem_zipIdx_iff_getElem?.mp (List.mem_reverse.mp (List.mem_of_find?_eq_some found))
    have member := List.mem_of_getElem? here
    have accepts := List.find?_some found
    obtain ⟨place, written, bound, all⟩ := sound.witnessed entry member accepts
    rw [read_eq sound.ids member, written, TurnFailure.accepts, witness_position]
    cases accepted : Option.filter _ (Value.num (.ofNat place.position)).safeNat? with
    | none => exact .inl rfl
    | some position =>
      obtain ⟨safe, _⟩ := Option.filter_eq_some_iff.mp accepted
      obtain ⟨whole, _⟩ := Option.filter_eq_some_iff.mp (safe : (JsNumber.ofNat place.position).toNat?.filter _ = _)
      rw [JsNumber.toNat?_ofNat] at whole
      cases whole
      exact .inr ⟨place, rfl, bound, all⟩
  · exact .inl rfl

theorem pendingReport_marks (ids : (journal.map Entry.id).Nodup) {header : Entry × ℕ} {found : Value × Journal}
    (here : journal[header.2]? = some header.1) (taken : pendingReport journal header = some found) :
    found.2.position = header.2 ∧ ∃ report, normalizeTurnFailure found.1 = .ok report ∧ Journaled journal header.2 report := by
  rw [pendingReport] at taken
  split at taken
  · next marks =>
    split at taken
    · next report valid =>
      cases taken
      refine ⟨rfl, report, valid, header.1, here, marks, ?_⟩
      rw [← read_eq ids (List.mem_of_getElem? here)]
      exact valid
    · cases taken
  · cases taken

theorem pendingReport_of_journaled (ids : (journal.map Entry.id).Nodup) {position : ℕ} {report : Report}
    (journaled : Journaled journal position report) :
    ∃ entry, journal[position]? = some entry
      ∧ pendingReport journal (entry, position) = some (entry.data, ⟨entry.id, position⟩)
      ∧ normalizeTurnFailure entry.data = .ok report := by
  obtain ⟨entry, here, marks, valid⟩ := journaled
  refine ⟨entry, here, ?_, valid⟩
  rw [pendingReport, if_pos marks, read_eq ids (List.mem_of_getElem? here), valid]

/-- What a restart takes up, in the order of the journal. -/
def takenUp (journal : List Entry) (frontier : ℤ) : List (Value × Journal) :=
  (journal.zipIdx.drop (frontier + 1).toNat).filterMap (pendingReport journal)

theorem takenUp_sorted (ids : (journal.map Entry.id).Nodup) (frontier : ℤ) :
    (takenUp journal frontier).Pairwise fun a b => a.2.position < b.2.position := by
  have ordered : journal.zipIdx.Pairwise fun a b => a.2 < b.2 := by
    rw [List.pairwise_iff_getElem]
    intro i j _ _ before
    simpa using before
  have placed : ∀ header ∈ journal.zipIdx.drop (frontier + 1).toNat, journal[header.2]? = some header.1 :=
    fun header member => List.mem_zipIdx_iff_getElem?.mp (List.mem_of_mem_drop member)
  rw [takenUp, List.pairwise_filterMap]
  refine (ordered.drop).imp_of_mem ?_
  intro a b left right before x taken y taken'
  rw [(pendingReport_marks ids (placed a left) taken).1, (pendingReport_marks ids (placed b right) taken').1]
  exact before

theorem mem_takenUp (ids : (journal.map Entry.id).Nodup) {frontier : ℤ} {found : Value × Journal}
    (member : found ∈ takenUp journal frontier) :
    ∃ report, normalizeTurnFailure found.1 = .ok report ∧ Journaled journal found.2.position report := by
  obtain ⟨header, inside, taken⟩ := List.mem_filterMap.mp member
  have here := List.mem_zipIdx_iff_getElem?.mp (List.mem_of_mem_drop inside)
  obtain ⟨place, report, valid, journaled⟩ := pendingReport_marks ids here taken
  exact ⟨report, valid, place ▸ journaled⟩

theorem takenUp_of_journaled (ids : (journal.map Entry.id).Nodup) {frontier : ℤ} {position : ℕ} {report : Report}
    (journaled : Journaled journal position report) (beyond : frontier < position) :
    ∃ found ∈ takenUp journal frontier, normalizeTurnFailure found.1 = .ok report ∧ found.2.position = position := by
  obtain ⟨entry, here, taken, valid⟩ := pendingReport_of_journaled ids journaled
  refine ⟨_, List.mem_filterMap.mpr ⟨(entry, position), ?_, taken⟩, valid, rfl⟩
  rw [List.mem_iff_getElem?]
  refine ⟨position - (frontier + 1).toNat, ?_⟩
  rw [List.getElem?_drop, show (frontier + 1).toNat + (position - (frontier + 1).toNat) = position by omega,
    List.getElem?_zipIdx, here]
  simp

theorem foldl_restore (found : List (Value × Journal)) {reporter : Reporter} (sound : reporter.Sound journal acknowledged)
    (distinct : ∀ p q a b, Journaled journal p a → Journaled journal q b → a.turnId = b.turnId → p = q)
    (marks : ∀ entry ∈ found, ∃ report, normalizeTurnFailure entry.1 = .ok report ∧ Journaled journal entry.2.position report)
    (sorted : found.Pairwise fun a b => a.2.position < b.2.position)
    (beyond : ∀ entry ∈ found, ∀ pending ∈ reporter.pending, pending.position < entry.2.position) :
    (found.foldl Reporter.restore reporter).Sound journal acknowledged
      ∧ (∀ pending ∈ reporter.pending, pending ∈ (found.foldl Reporter.restore reporter).pending)
      ∧ ∀ entry ∈ found, ∀ report, normalizeTurnFailure entry.1 = .ok report →
        report ∈ acknowledged ∨ ∃ pending ∈ (found.foldl Reporter.restore reporter).pending, pending.report = report := by
  induction found generalizing reporter with
  | nil => exact ⟨sound, fun _ member => member, fun _ member => nomatch member⟩
  | cons entry rest ih =>
    obtain ⟨report, valid, journaled⟩ := marks entry (List.mem_cons_self ..)
    have only {other : Report} (valid' : normalizeTurnFailure entry.1 = .ok other) : other = report :=
      Except.ok.inj (valid'.symm.trans valid)
    obtain ⟨next, done⟩ := remember_ok reporter entry.2 valid
    have restored : reporter.restore entry = next := by rw [Reporter.restore, done]
    have nextSound : next.Sound journal acknowledged :=
      sound.remember done (fun other valid' => only valid' ▸ journaled) (beyond entry (List.mem_cons_self ..))
    obtain ⟨first, later⟩ := List.pairwise_cons.mp sorted
    have nextBeyond : ∀ other ∈ rest, ∀ pending ∈ next.pending, pending.position < other.2.position := by
      intro other member pending inside
      obtain ⟨_, _, ⟨rfl, _⟩ | ⟨_, _, rfl⟩⟩ := remember_cases done
      · exact beyond other (List.mem_cons_of_mem entry member) pending inside
      · rcases List.mem_append.mp inside with before | added
        · exact beyond other (List.mem_cons_of_mem entry member) pending before
        · rw [List.mem_singleton.mp added]
          exact first other member
    obtain ⟨foldSound, keeps, covers⟩ :=
      ih nextSound (fun other member => marks other (List.mem_cons_of_mem entry member)) later nextBeyond
    rw [List.foldl_cons, restored]
    refine ⟨foldSound, fun pending member => keeps pending (remember_keeps done member), fun other member report' valid' => ?_⟩
    rcases List.mem_cons.mp member with rfl | inside
    · rcases remember_covers sound distinct done valid' (only valid' ▸ journaled) with recorded | ⟨pending, here, same⟩
      · exact .inl recorded
      · exact .inr ⟨pending, keeps pending here, same⟩
    · exact covers other inside report' valid'

theorem remember_drains {reporter next : Reporter} {value : Value} {place : Journal}
    (done : reporter.remember value (some place) = .ok next) : next.drains = reporter.drains ∧ next.flushing = reporter.flushing := by
  obtain ⟨_, _, ⟨rfl, _⟩ | ⟨_, _, rfl⟩⟩ := remember_cases done <;> exact ⟨rfl, rfl⟩

theorem foldl_restore_drains (found : List (Value × Journal)) (reporter : Reporter) :
    (found.foldl Reporter.restore reporter).drains = reporter.drains := by
  induction found generalizing reporter with
  | nil => rfl
  | cons entry rest ih =>
    rw [List.foldl_cons, ih, Reporter.restore]
    split
    · next done => exact (remember_drains done).1
    · rfl

theorem new_sound {frontier : ℤ} (below : frontier < journal.length)
    (all : ∀ (position : ℕ) report, position ≤ frontier → Journaled journal position report → report ∈ acknowledged) :
    (Reporter.new frontier).Sound journal acknowledged where
  frontier := all
  below := below
  placed _ member := nomatch member
  sorted := .nil
  stamped _ member := nomatch member
  keys := .nil

theorem restart_covers (sound : Sound s) : (s.restart.reporter.Sound s.journal s.acknowledged)
    ∧ ∀ position report, Journaled s.journal position report →
      report ∈ s.acknowledged ∨ ∃ entry ∈ s.restart.reporter.pending, entry.report = report := by
  have start : (Reporter.new (acceptedThrough s.journal)).Sound s.journal s.acknowledged := by
    rcases acceptedThrough_cases sound with none | ⟨place, reached, bound, all⟩
    · refine new_sound (by omega) fun position report before => ?_
      omega
    · refine new_sound (by omega) fun position report before => ?_
      exact all position report (by omega)
  obtain ⟨restored, _, covers⟩ := foldl_restore (takenUp s.journal (acceptedThrough s.journal)) start sound.distinct
    (fun entry member => mem_takenUp sound.ids member) (takenUp_sorted sound.ids _) (fun _ _ _ member => nomatch member)
  refine ⟨restored, fun position report journaled => ?_⟩
  by_cases reached : (position : ℤ) ≤ acceptedThrough s.journal
  · exact .inl (start.frontier position report reached journaled)
  · obtain ⟨entry, member, valid, _⟩ := takenUp_of_journaled sound.ids journaled (by omega : acceptedThrough s.journal < position)
    exact covers entry member report valid

theorem Sound.restart (sound : Sound s) : Sound s.restart := by
  obtain ⟨restored, covers⟩ := restart_covers sound
  refine ⟨sound.ids, sound.distinct, sound.witnessed, restored, ?_, ?_, ?_, ?_⟩
  · exact fun position report journaled => (covers position report journaled).imp_right .inl
  · rintro _ ⟨_, _, _, running, _⟩
    cases running
  · exact fun _ running => nomatch running
  · exact fun _ _ _ running => nomatch running

theorem Drained.restart (s : System) : Drained s.restart := by
  have none : s.restart.reporter.drains = [] := foldl_restore_drains _ _
  refine ⟨none ▸ Nat.zero_le _, fun _ => none, fun drain member => ?_⟩
  rw [none] at member
  cases member

end Restarts

end PersistentHarness.TurnFailure
