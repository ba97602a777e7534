import PersistentHarness.Model.TurnFailure

/-! # Pending turn-failure reports

The map of pending reports is ordered by the positions of their markers, and the only drain works at its head.
-/

namespace PersistentHarness.TurnFailure

/-- A marker of the journal with the valid report in it. -/
def Journaled (journal : List Entry) (position : ℕ) (report : Report) : Prop :=
  ∃ entry, journal[position]? = some entry ∧ entry.isCustom entryType = true ∧ normalizeTurnFailure entry.data = .ok report

/-- The position of a pending report's marker. -/
def Pending.position (entry : Pending) : ℕ := (entry.journal.map Journal.position).getD 0

section Journals

variable {journal : List Entry} {entry : Entry} {position : ℕ} {report : Report}

theorem Journaled.lt (journaled : Journaled journal position report) : position < journal.length := by
  obtain ⟨_, here, _⟩ := journaled
  exact (List.getElem?_eq_some_iff.mp here).1

theorem Journaled.append (journaled : Journaled journal position report) (entry : Entry) :
    Journaled (journal ++ [entry]) position report := by
  obtain ⟨marker, here, marks⟩ := journaled
  refine ⟨marker, ?_, marks⟩
  rw [List.getElem?_append_left (List.getElem?_eq_some_iff.mp here).1]
  exact here

theorem journaled_concat (journaled : Journaled (journal ++ [entry]) position report) :
    Journaled journal position report
      ∨ position = journal.length ∧ entry.isCustom entryType = true ∧ normalizeTurnFailure entry.data = .ok report := by
  have bound : position ≤ journal.length := by simpa [Nat.lt_succ_iff] using journaled.lt
  obtain ⟨marker, here, marks⟩ := journaled
  rcases bound.lt_or_eq with before | rfl
  · rw [List.getElem?_append_left before] at here
    exact .inl ⟨marker, here, marks⟩
  · rw [List.getElem?_concat_length] at here
    cases here
    exact .inr ⟨rfl, marks⟩

theorem journaled_concat_other (other : entry.isCustom entryType = false)
    (journaled : Journaled (journal ++ [entry]) position report) : Journaled journal position report := by
  refine (journaled_concat journaled).resolve_right ?_
  rintro ⟨_, marks, _⟩
  rw [other] at marks
  cases marks

theorem Journaled.unique {other : Report} (journaled : Journaled journal position report)
    (again : Journaled journal position other) : report = other := by
  obtain ⟨_, here, _, valid⟩ := journaled
  obtain ⟨_, there, _, valid'⟩ := again
  rw [here] at there
  cases there
  rw [valid] at valid'
  exact Except.ok.inj valid'

theorem normalize_turnId {value : Value} (valid : normalizeTurnFailure value = .ok report) :
    value.get (js "turnId") = .str report.turnId := by
  unfold normalizeTurnFailure at valid
  split at valid
  · next turnId _ _ turnId_eq _ _ =>
    obtain ⟨_, _, done⟩ := Checked.bind_eq_ok.mp valid
    cases done
    exact turnId_eq
  · cases valid

end Journals

/-- A reporter whose pending reports are in the order of their markers, beyond a frontier of acknowledged ones. -/
structure Reporter.Sound (journal : List Entry) (acknowledged : List Report) (reporter : Reporter) : Prop where
  frontier : ∀ (position : ℕ) report, position ≤ reporter.acceptedThrough → Journaled journal position report →
    report ∈ acknowledged
  below : reporter.acceptedThrough < journal.length
  placed : ∀ entry ∈ reporter.pending, ∃ place, entry.journal = some place ∧ Journaled journal place.position entry.report
  sorted : reporter.pending.Pairwise fun a b => a.stamp < b.stamp ∧ a.position < b.position
  stamped : ∀ entry ∈ reporter.pending, entry.stamp < reporter.inserted
  keys : (reporter.pending.map fun entry => entry.report.turnId).Nodup

/-- The marker of the run of the moment, which is not reported yet. -/
def System.unreported (s : System) (position : ℕ) : Prop :=
  ∃ turnId value id, s.run = some ⟨turnId, some (value, id)⟩ ∧ s.journal[position]? = some (customEntry id entryType value)

/-- Every valid marker is acknowledged, pending, or about to be reported, and a witness stands for acknowledged ones. -/
structure Sound (s : System) : Prop where
  ids : (s.journal.map Entry.id).Nodup
  distinct : ∀ p q a b, Journaled s.journal p a → Journaled s.journal q b → a.turnId = b.turnId → p = q
  witnessed : ∀ entry ∈ s.journal, entry.isCustom acceptedType = true →
    ∃ place, entry.data = witness (some place) ∧ place.position < s.journal.length
      ∧ ∀ position report, position ≤ place.position → Journaled s.journal position report → report ∈ s.acknowledged
  reporter : s.reporter.Sound s.journal s.acknowledged
  covered : ∀ position report, Journaled s.journal position report →
    report ∈ s.acknowledged ∨ (∃ entry ∈ s.reporter.pending, entry.report = report) ∨ s.unreported position
  last : ∀ position, s.unreported position → ∀ entry ∈ s.reporter.pending, entry.position < position
  fresh : ∀ turnId, s.run = some ⟨turnId, none⟩ → s.marked turnId = false
  marker : ∀ turnId value id, s.run = some ⟨turnId, some (value, id)⟩ → ∃ position : ℕ, s.unreported position

/-- The report that a drain is at. -/
def Stage.entry? : Stage → Option Pending
  | .requesting entry | .recording entry | .recorded entry => some entry
  | .over => none

def Stage.answered : Stage → Bool
  | .recording _ | .recorded _ => true
  | .requesting _ | .over => false

/-- A drain is at the first of the pending reports, past it in its iterator, and past no other. -/
structure Drain.Sound (s : System) (drain : Drain) : Prop where
  head : ∀ entry, drain.stage.entry? = some entry → s.reporter.pending.head? = some entry ∧ drain.cursor = entry.stamp + 1
  answered : ∀ entry, drain.stage.entry? = some entry → drain.stage.answered = true → entry.report ∈ s.acknowledged

structure Drained (s : System) : Prop where
  single : s.reporter.drains.length ≤ 1
  idle : s.reporter.flushing = false → s.reporter.drains = []
  sound : ∀ drain ∈ s.reporter.drains, drain.Sound s

section Remembering

variable {journal : List Entry} {acknowledged : List Report} {reporter : Reporter} {value : Value} {place : Journal}

/-- What a reporter that remembers a report may do: leave it, or put it at the end of its map. -/
theorem remember_cases {next : Reporter} (done : reporter.remember value (some place) = .ok next) :
    ∃ report, normalizeTurnFailure value = .ok report
      ∧ (next = reporter
          ∧ ((place.position : ℤ) ≤ reporter.acceptedThrough ∨ ∃ entry ∈ reporter.pending, entry.report.turnId = report.turnId)
        ∨ (reporter.acceptedThrough < place.position ∧ (∀ entry ∈ reporter.pending, entry.report.turnId ≠ report.turnId)
          ∧ next = { reporter with
              pending := reporter.pending ++ [⟨report, some place, reporter.inserted⟩], inserted := reporter.inserted + 1 })) := by
  obtain ⟨report, valid, done⟩ := Checked.bind_eq_ok.mp done
  refine ⟨report, valid, ?_⟩
  split at done
  · next early =>
    cases done
    exact .inl ⟨rfl, .inl (of_decide_eq_true early)⟩
  · next later =>
    have late : reporter.acceptedThrough < place.position := by simpa using later
    split at done
    · next known =>
      cases done
      obtain ⟨entry, member, same⟩ := List.any_eq_true.mp known
      exact .inl ⟨rfl, .inr ⟨entry, member, of_decide_eq_true same⟩⟩
    · next unknown =>
      cases done
      refine .inr ⟨late, fun entry member same => unknown ?_, rfl⟩
      exact List.any_eq_true.mpr ⟨entry, member, decide_eq_true same⟩

theorem Reporter.Sound.remember {next : Reporter} (sound : reporter.Sound journal acknowledged)
    (done : reporter.remember value (some place) = .ok next)
    (marks : ∀ report, normalizeTurnFailure value = .ok report → Journaled journal place.position report)
    (last : ∀ entry ∈ reporter.pending, entry.position < place.position) : next.Sound journal acknowledged := by
  obtain ⟨report, valid, ⟨rfl, _⟩ | ⟨_, unknown, rfl⟩⟩ := remember_cases done
  · exact sound
  · refine ⟨sound.frontier, sound.below, ?_, ?_, ?_, ?_⟩
    · intro entry member
      rcases List.mem_append.mp member with before | added
      · exact sound.placed entry before
      · rw [List.mem_singleton.mp added]
        exact ⟨place, rfl, marks report valid⟩
    · refine List.pairwise_append.mpr ⟨sound.sorted, List.pairwise_singleton .., fun entry member _ added => ?_⟩
      rw [List.mem_singleton.mp added]
      exact ⟨sound.stamped entry member, last entry member⟩
    · intro entry member
      rcases List.mem_append.mp member with before | added
      · exact Nat.lt_succ_of_lt (sound.stamped entry before)
      · rw [List.mem_singleton.mp added]
        exact Nat.lt_succ_self _
    · rw [List.map_append, List.nodup_append]
      refine ⟨sound.keys, List.pairwise_singleton .., fun key member _ added same => ?_⟩
      obtain ⟨entry, before, rfl⟩ := List.mem_map.mp member
      rw [List.mem_singleton.mp added] at same
      exact unknown entry before same

theorem remember_ok (reporter : Reporter) (place : Journal) {report : Report} (valid : normalizeTurnFailure value = .ok report) :
    ∃ next, reporter.remember value (some place) = .ok next := by
  rw [Reporter.remember, valid]
  dsimp only [Checked.ok_bind]
  split
  · exact ⟨_, rfl⟩
  · split <;> exact ⟨_, rfl⟩

theorem remember_keeps {next : Reporter} (done : reporter.remember value (some place) = .ok next) {entry : Pending}
    (member : entry ∈ reporter.pending) : entry ∈ next.pending := by
  obtain ⟨report, _, ⟨rfl, _⟩ | ⟨_, _, rfl⟩⟩ := remember_cases done
  · exact member
  · exact List.mem_append_left _ member

theorem remember_covers {next : Reporter} (sound : reporter.Sound journal acknowledged)
    (distinct : ∀ p q a b, Journaled journal p a → Journaled journal q b → a.turnId = b.turnId → p = q)
    (done : reporter.remember value (some place) = .ok next) {report : Report} (valid : normalizeTurnFailure value = .ok report)
    (marks : Journaled journal place.position report) :
    report ∈ acknowledged ∨ ∃ entry ∈ next.pending, entry.report = report := by
  obtain ⟨other, valid', cases⟩ := remember_cases done
  obtain rfl := Except.ok.inj (valid.symm.trans valid')
  rcases cases with ⟨rfl, early | ⟨entry, member, same⟩⟩ | ⟨_, _, rfl⟩
  · exact .inl (sound.frontier place.position report early marks)
  · obtain ⟨there, _, marks'⟩ := sound.placed entry member
    have equal := distinct _ _ _ _ marks' marks same
    rw [equal] at marks'
    exact .inr ⟨entry, member, marks'.unique marks⟩
  · exact .inr ⟨_, List.mem_append_right _ (List.mem_singleton_self _), rfl⟩

end Remembering

section Drains

variable {s : System}

theorem Drained.only (drained : Drained s) {n : ℕ} {drain : Drain} (here : s.reporter.drains[n]? = some drain) :
    n = 0 ∧ s.reporter.drains = [drain] := by
  have single := drained.single
  cases drains : s.reporter.drains with
  | nil =>
    rw [drains] at here
    cases here
  | cons first rest =>
    rw [drains, List.length_cons] at single
    obtain rfl := List.length_eq_zero_iff.mp (by omega : rest.length = 0)
    rw [drains] at here
    cases n with
    | zero =>
      cases here
      exact ⟨rfl, rfl⟩
    | succ n => cases here

theorem Drain.Sound.over (s : System) (client cursor : ℕ) : Drain.Sound s ⟨client, cursor, .over⟩ where
  head _ at_entry := nomatch at_entry
  answered _ at_entry := nomatch at_entry

theorem iterate_sound {cursor : ℕ} (behind : ∀ entry ∈ s.reporter.pending, cursor ≤ entry.stamp) (client : ℕ) :
    (s.iterate client cursor).Sound s := by
  rw [System.iterate]
  cases queue : s.reporter.pending with
  | nil => exact .over s client cursor
  | cons entry rest =>
    have first : cursor ≤ entry.stamp := behind entry (queue ▸ List.mem_cons_self ..)
    have found : (entry :: rest).find? (fun entry => decide (cursor ≤ entry.stamp)) = some entry :=
      List.find?_cons_of_pos (by simpa using first)
    rw [found]
    dsimp only
    split
    · exact .over s client cursor
    · refine ⟨fun other at_entry => ?_, fun other _ answered => nomatch answered⟩
      cases at_entry
      exact ⟨by rw [queue]; rfl, rfl⟩

theorem drain_sound (s : System) : s.drain.Sound s := by
  rw [System.drain]
  split
  · exact iterate_sound (fun _ _ => Nat.zero_le _) _
  · exact .over s 0 0

/-- Nothing but the flags, the timer and the drains of a reporter changes. -/
structure Undisturbed (s t : System) : Prop where
  journal : t.journal = s.journal
  run : t.run = s.run
  acknowledged : t.acknowledged = s.acknowledged
  acceptedThrough : t.reporter.acceptedThrough = s.reporter.acceptedThrough
  pending : t.reporter.pending = s.reporter.pending
  inserted : t.reporter.inserted = s.reporter.inserted

theorem Undisturbed.trans {t u : System} (first : Undisturbed s t) (second : Undisturbed t u) : Undisturbed s u where
  journal := second.journal.trans first.journal
  run := second.run.trans first.run
  acknowledged := second.acknowledged.trans first.acknowledged
  acceptedThrough := second.acceptedThrough.trans first.acceptedThrough
  pending := second.pending.trans first.pending
  inserted := second.inserted.trans first.inserted

theorem Undisturbed.unreported {t : System} (same : Undisturbed s t) (position : ℕ) :
    t.unreported position ↔ s.unreported position := by
  simp only [System.unreported, same.run, same.journal]

theorem Sound.undisturbed {t : System} (sound : Sound s) (same : Undisturbed s t) : Sound t where
  ids := same.journal ▸ sound.ids
  distinct := same.journal ▸ sound.distinct
  witnessed := by
    rw [same.journal, same.acknowledged]
    exact sound.witnessed
  reporter := by
    rw [same.journal, same.acknowledged]
    obtain ⟨frontier, below, placed, sorted, stamped, keys⟩ := sound.reporter
    constructor
    · exact same.acceptedThrough ▸ frontier
    · exact same.acceptedThrough ▸ below
    · exact same.pending ▸ placed
    · exact same.pending ▸ sorted
    · exact same.inserted ▸ same.pending ▸ stamped
    · exact same.pending ▸ keys
  covered position report journaled := by
    rw [same.journal] at journaled
    rw [same.acknowledged, same.pending, same.unreported]
    exact sound.covered position report journaled
  last position unreported := by
    rw [same.pending]
    exact sound.last position ((same.unreported position).mp unreported)
  fresh turnId running := by
    rw [System.marked, same.journal]
    exact sound.fresh turnId (same.run ▸ running)
  marker turnId value id running := by
    obtain ⟨position, unreported⟩ := sound.marker turnId value id (same.run ▸ running)
    exact ⟨position, (same.unreported position).mpr unreported⟩

theorem Drain.Sound.undisturbed {t : System} {drain : Drain} (sound : drain.Sound s) (same : Undisturbed s t) : drain.Sound t where
  head entry at_entry := same.pending ▸ sound.head entry at_entry
  answered entry at_entry answered := same.acknowledged ▸ sound.answered entry at_entry answered

theorem flush_undisturbed (s : System) : Undisturbed s s.flush := by
  rw [System.flush]
  split <;> exact ⟨rfl, rfl, rfl, rfl, rfl, rfl⟩

theorem failDrain_undisturbed (s : System) (n : ℕ) (drain : Drain) : Undisturbed s (s.failDrain n drain) := ⟨rfl, rfl, rfl, rfl, rfl, rfl⟩

theorem finish_undisturbed (s : System) (n : ℕ) : Undisturbed s (s.finish n) := by
  rw [System.finish]
  dsimp only
  split
  · exact ⟨rfl, rfl, rfl, rfl, rfl, rfl⟩
  · refine Undisturbed.trans ?_ (flush_undisturbed _)
    exact ⟨rfl, rfl, rfl, rfl, rfl, rfl⟩

/-- A drain begins only when none runs. -/
theorem Drained.flush (drained : Drained s) : Drained s.flush := by
  have same := flush_undisturbed s
  rw [System.flush] at same ⊢
  split at same
  · next busy =>
    rw [if_pos busy]
    exact drained
  · next free =>
    rw [if_neg free]
    have none : s.reporter.drains = [] := by
      apply drained.idle
      rw [Bool.or_eq_true] at free
      push Not at free
      exact Bool.not_eq_true _ ▸ free.2
    refine ⟨by rw [none]; rfl, (nomatch ·), fun drain member => ?_⟩
    rw [none, List.nil_append, List.mem_singleton] at member
    rw [member]
    exact (drain_sound s).undisturbed same

theorem Drained.set (drained : Drained s) {t : System} {n : ℕ} {drain next : Drain} (here : s.reporter.drains[n]? = some drain)
    (flushing : t.reporter.flushing = s.reporter.flushing) (drains : t.reporter.drains = s.reporter.drains.set n next)
    (sound : next.Sound t) : Drained t := by
  obtain ⟨rfl, only⟩ := drained.only here
  have single : t.reporter.drains = [next] := by rw [drains, only]; rfl
  refine ⟨by rw [single]; rfl, fun idle => ?_, fun other member => ?_⟩
  · rw [flushing] at idle
    rw [drained.idle idle] at only
    cases only
  · rw [single, List.mem_singleton] at member
    exact member ▸ sound

theorem Drained.finish (drained : Drained s) {n : ℕ} {drain : Drain} (here : s.reporter.drains[n]? = some drain) :
    Drained (s.finish n) := by
  obtain ⟨rfl, only⟩ := drained.only here
  have none : Drained { s with reporter := { s.reporter with flushing := false, drains := s.reporter.drains.eraseIdx 0 } } := by
    rw [only]
    exact ⟨Nat.zero_le _, fun _ => rfl, fun _ member => nomatch member⟩
  rw [System.finish]
  dsimp only
  split
  · exact none
  · exact none.flush

end Drains

end PersistentHarness.TurnFailure
