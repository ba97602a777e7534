import PersistentHarness.Soundness.TurnFailure.Journal

/-! # No turn-failure report is lost

A witness stands for every marker before it, so the reports must be acknowledged in the order of their markers. They
are, in every run of an actor that fails, loses its client, and restarts at any point.
-/

namespace PersistentHarness.TurnFailure

section Settling

variable {s : System}

/-- A run that has not failed, or whose marker says nothing valid, ends without a report. -/
theorem Sound.ended (sound : Sound s) (silent : ∀ position report, s.unreported position →
    Journaled s.journal position report → report ∈ s.acknowledged ∨ ∃ entry ∈ s.reporter.pending, entry.report = report) :
    Sound { s with run := none } := by
  refine { sound with covered := fun position report journaled => ?_, last := ?_, fresh := ?_, marker := ?_ }
  · rcases sound.covered position report journaled with acknowledged | pending | unreported
    · exact .inl acknowledged
    · exact .inr (.inl pending)
    · exact (silent position report unreported journaled).imp_right .inl
  · rintro _ ⟨_, _, _, running, _⟩
    cases running
  · exact fun _ running => nomatch running
  · exact fun _ _ _ running => nomatch running

theorem Sound.remembered (sound : Sound s) {turnId id : JsString} {value : Value} {position : ℕ} {next : Reporter}
    (running : s.run = some ⟨turnId, some (value, id)⟩) (here : s.journal[position]? = some (customEntry id entryType value))
    (done : s.reporter.remember value (some ⟨id, position⟩) = .ok next) : Sound { s with reporter := next, run := none } := by
  have marks : (customEntry id entryType value).isCustom entryType = true := by
    rw [customEntry_isCustom]
    exact decide_eq_true rfl
  have journaled (report : Report) (valid : normalizeTurnFailure value = .ok report) : Journaled s.journal position report :=
    ⟨_, here, marks, valid⟩
  have last := sound.last position ⟨turnId, value, id, running, here⟩
  refine ⟨sound.ids, sound.distinct, sound.witnessed, sound.reporter.remember done journaled last, ?_, ?_, ?_, ?_⟩
  · intro place report marked
    rcases sound.covered place report marked with acknowledged | ⟨entry, member, same⟩ | ⟨_, _, _, other, there⟩
    · exact .inl acknowledged
    · exact .inr (.inl ⟨entry, remember_keeps done member, same⟩)
    · rw [running] at other
      cases other
      obtain rfl := same_place sound.ids there here rfl
      have ⟨_, found, _, valid⟩ := marked
      rw [here] at found
      cases found
      exact (remember_covers sound.reporter sound.distinct done valid marked).imp_right .inl
  · rintro _ ⟨_, _, _, other, _⟩
    cases other
  · exact fun _ other => nomatch other
  · exact fun _ _ _ other => nomatch other

theorem Drain.Sound.remembered {drain : Drain} (sound : drain.Sound s) {value : Value} {place : Journal} {next : Reporter}
    (done : s.reporter.remember value (some place) = .ok next) : drain.Sound { s with reporter := next, run := none } where
  head entry at_entry := by
    obtain ⟨head, cursor⟩ := sound.head entry at_entry
    refine ⟨?_, cursor⟩
    obtain ⟨_, _, ⟨rfl, _⟩ | ⟨_, _, rfl⟩⟩ := remember_cases done
    · exact head
    · obtain ⟨rest, queue⟩ := List.head?_eq_some_iff.mp head
      dsimp only
      rw [queue]
      rfl
  answered := sound.answered

theorem Drained.ended (drained : Drained s) : Drained { s with run := none } where
  single := drained.single
  idle := drained.idle
  sound drain member := ⟨(drained.sound drain member).head, (drained.sound drain member).answered⟩

/-- What a settled run leaves: its report is remembered, or its marker says nothing valid. -/
theorem settle_sound (sound : Sound s) (drained : Drained s) : Sound s.settle ∧ Drained s.settle := by
  rw [System.settle]
  split
  · next turnId value id running =>
    obtain ⟨position, unreported⟩ := sound.marker turnId value id running
    have ⟨_, _, _, same, here⟩ := unreported
    rw [running] at same
    cases same
    have marks : (customEntry id entryType value).isCustom entryType = true := by
      rw [customEntry_isCustom]
      exact decide_eq_true rfl
    have found : (s.journal.zipIdx.reverse.find? fun header => header.1.id = id) = some (customEntry id entryType value, position) :=
      find_last sound.ids here
    rw [System.reportTurnFailure, found]
    dsimp only
    rw [if_pos marks]
    cases done : s.reporter.remember value (some ⟨id, position⟩) with
    | error message =>
      refine ⟨sound.ended fun place report other journaled => ?_, drained.ended⟩
      obtain ⟨_, _, _, same, there⟩ := other
      rw [running] at same
      cases same
      obtain ⟨_, at_place, _, valid⟩ := journaled
      rw [there] at at_place
      cases at_place
      have valid : normalizeTurnFailure value = .ok report := valid
      obtain ⟨next, accepted⟩ := remember_ok s.reporter ⟨id, position⟩ valid
      rw [done] at accepted
      cases accepted
    | ok next =>
      obtain ⟨drains, flushing⟩ := remember_drains done
      have remembered : Drained { s with reporter := next, run := none } := by
        refine ⟨drains ▸ drained.single, fun idle => ?_, fun drain member => ?_⟩
        · dsimp only at idle ⊢
          rw [drains, drained.idle (flushing ▸ idle)]
        · dsimp only at member
          rw [drains] at member
          exact (drained.sound drain member).remembered done
      have same : ({ { s with reporter := next }.flush with run := none } : System) = { s with reporter := next, run := none }.flush := by
        rw [System.flush, System.flush]
        dsimp only
        split <;> rfl
      dsimp only
      rw [same]
      exact ⟨(sound.remembered running here done).undisturbed (flush_undisturbed _), remembered.flush⟩
  · next other =>
    refine ⟨sound.ended fun position report unreported journaled => ?_, drained.ended⟩
    obtain ⟨_, _, _, running, _⟩ := unreported
    exact absurd running (other _ _ _)

end Settling

section Runs

variable {s : System}

theorem Drained.undisturbed (drained : Drained s) {t : System} (same : Undisturbed s t)
    (flushing : t.reporter.flushing = s.reporter.flushing) (drains : t.reporter.drains = s.reporter.drains) : Drained t where
  single := drains ▸ drained.single
  idle idle := by rw [drains, drained.idle (flushing ▸ idle)]
  sound drain member := (drained.sound drain (drains ▸ member)).undisturbed same

theorem Drained.append (drained : Drained s) (entry : Entry) (run : Option Run) :
    Drained { s with journal := s.journal ++ [entry], run } where
  single := drained.single
  idle := drained.idle
  sound drain member := ⟨(drained.sound drain member).head, (drained.sound drain member).answered⟩

theorem Drained.at_entry (drained : Drained s) {n : ℕ} {drain : Drain} (here : s.reporter.drains[n]? = some drain) {entry : Pending}
    (at_entry : drain.stage.entry? = some entry) : s.reporter.pending.head? = some entry ∧ drain.cursor = entry.stamp + 1 :=
  (drained.sound drain (List.mem_of_getElem? here)).head entry at_entry

theorem answer_sound (sound : Sound s) (drained : Drained s) {n : ℕ} {drain : Drain}
    (here : s.reporter.drains[n]? = some drain) {entry : Pending} (asks : drain.stage = .requesting entry) (recorded : Bool) :
    Sound (s.answer n drain entry recorded) ∧ Drained (s.answer n drain entry recorded) := by
  have at_entry := drained.at_entry here (by rw [asks]; rfl)
  rw [System.answer]
  split
  · refine ⟨(sound.answered entry.report).undisturbed ⟨rfl, rfl, rfl, rfl, rfl, rfl⟩, drained.set here rfl rfl ⟨?_, ?_⟩⟩
    · rintro _ ⟨⟩
      exact at_entry
    · rintro _ ⟨⟩ _
      exact List.mem_cons_self ..
  · exact ⟨sound.undisturbed (failDrain_undisturbed s n drain), drained.set here rfl rfl (.over _ _ _)⟩

theorem appendWitness_sound (sound : Sound s) (drained : Drained s) {n : ℕ} {drain : Drain}
    (here : s.reporter.drains[n]? = some drain) {entry : Pending} (records : drain.stage = .recording entry) {id : JsString}
    (free : s.free id = true) : Sound (s.appendWitness n drain entry id) ∧ Drained (s.appendWitness n drain entry id) := by
  have at_entry := drained.at_entry here (by rw [records]; rfl)
  have recorded : entry.report ∈ s.acknowledged :=
    (drained.sound drain (List.mem_of_getElem? here)).answered entry (by rw [records]; rfl) (by rw [records]; rfl)
  obtain ⟨rest, queue⟩ := List.head?_eq_some_iff.mp at_entry.1
  obtain ⟨place, at_place, marks⟩ := sound.reporter.placed entry (queue ▸ List.mem_cons_self ..)
  have there : entry.position = place.position := by rw [Pending.position, at_place]; rfl
  have unmarked : (customEntry id acceptedType (witness entry.journal)).isCustom entryType = false := by
    rw [customEntry_isCustom]
    exact decide_eq_false accepted_ne_entry
  refine ⟨?_, drained.set here rfl rfl ⟨?_, ?_⟩⟩
  · refine (sound.append (customEntry id acceptedType (witness entry.journal)) free unmarked fun _ =>
      ⟨place, ?_, marks.lt, fun position report reached journaled => ?_⟩).undisturbed ⟨rfl, rfl, rfl, rfl, rfl, rfl⟩
    · rw [← at_place]
      rfl
    · exact sound.acknowledged at_entry.1 recorded (there ▸ reached) journaled
  · rintro _ ⟨⟩
    exact at_entry
  · rintro _ ⟨⟩ _
    exact recorded

theorem resume_sound (sound : Sound s) (drained : Drained s) {n : ℕ} {drain : Drain}
    (here : s.reporter.drains[n]? = some drain) {entry : Pending} (done : drain.stage = .recorded entry) :
    Sound (s.resume n drain entry) ∧ Drained (s.resume n drain entry) := by
  obtain ⟨head, cursor⟩ := drained.at_entry here (by rw [done]; rfl)
  have recorded : entry.report ∈ s.acknowledged :=
    (drained.sound drain (List.mem_of_getElem? here)).answered entry (by rw [done]; rfl) (by rw [done]; rfl)
  refine ⟨(sound.dropped head recorded).undisturbed ⟨rfl, rfl, rfl, rfl, rfl, rfl⟩, drained.set here rfl rfl ?_⟩
  refine Drain.Sound.undisturbed (iterate_sound (fun other member => ?_) drain.client) ⟨rfl, rfl, rfl, rfl, rfl, rfl⟩
  -- what is left of the map was inserted after the report that is dropped
  obtain ⟨rest, queue⟩ := List.head?_eq_some_iff.mp head
  dsimp only at member
  rw [queue, filter_head (queue ▸ sound.reporter.keys)] at member
  have sorted := sound.reporter.sorted
  rw [queue] at sorted
  have later := ((List.pairwise_cons.mp sorted).1 other member).1
  omega

theorem step_sound (sound : Sound s) (drained : Drained s) (event : Event) : Sound (step s event) ∧ Drained (step s event) := by
  cases event with
  | append entry =>
    rw [step]
    split
    · next allowed =>
      simp only [Bool.and_eq_true, Bool.not_eq_true'] at allowed
      obtain ⟨⟨free, other⟩, silent⟩ := allowed
      refine ⟨sound.append entry free other fun accepts => ?_, drained.append entry s.run⟩
      rw [silent] at accepts
      cases accepts
    · exact ⟨sound, drained⟩
  | client client => exact ⟨{ sound with }, drained.undisturbed ⟨rfl, rfl, rfl, rfl, rfl, rfl⟩ rfl rfl⟩
  | start turnId =>
    refine ⟨sound.start turnId, ?_⟩
    rw [step, System.start]
    split
    · exact ⟨drained.single, drained.idle, fun drain member =>
        ⟨(drained.sound drain member).head, (drained.sound drain member).answered⟩⟩
    · exact drained
  | journal id failureClass toolEffects providerStarted =>
    rw [step]
    split
    · next free =>
      refine ⟨sound.journal free failureClass toolEffects providerStarted, ?_⟩
      rw [System.journalTurnFailure]
      split
      · exact drained.append _ _
      · exact drained
    · exact ⟨sound, drained⟩
  | settle => exact settle_sound sound drained
  | flush => exact ⟨sound.undisturbed (flush_undisturbed s), drained.flush⟩
  | answer n recorded =>
    rw [step]
    split
    · next drain here =>
      split
      · next asks => exact answer_sound sound drained here asks recorded
      · exact ⟨sound, drained⟩
    · exact ⟨sound, drained⟩
  | appendWitness n id =>
    rw [step]
    split
    · next drain here =>
      split
      · next records =>
        split
        · next free => exact appendWitness_sound sound drained here records free
        · exact ⟨sound, drained⟩
      · exact ⟨sound, drained⟩
    · exact ⟨sound, drained⟩
  | resume n =>
    rw [step]
    split
    · next drain here =>
      split
      · next done => exact resume_sound sound drained here done
      · exact ⟨sound, drained⟩
    · exact ⟨sound, drained⟩
  | refuse n =>
    rw [step]
    have failed {drain : Drain} (here : s.reporter.drains[n]? = some drain) :
        Sound (s.failDrain n drain) ∧ Drained (s.failDrain n drain) :=
      ⟨sound.undisturbed (failDrain_undisturbed s n drain), drained.set here rfl rfl (.over _ _ _)⟩
    split
    · next drain here =>
      split
      · exact failed here
      · exact failed here
      · exact ⟨sound, drained⟩
    · exact ⟨sound, drained⟩
  | finish n =>
    rw [step]
    split
    · next drain here =>
      split
      · exact ⟨sound.undisturbed (finish_undisturbed s n), drained.finish here⟩
      · exact ⟨sound, drained⟩
    · exact ⟨sound, drained⟩
  | fire =>
    rw [step]
    split
    · have fired : Undisturbed s { s with reporter := { s.reporter with timer := false } } := ⟨rfl, rfl, rfl, rfl, rfl, rfl⟩
      exact ⟨(sound.undisturbed fired).undisturbed (flush_undisturbed _), (drained.undisturbed fired rfl rfl).flush⟩
    · exact ⟨sound, drained⟩
  | close =>
    have closed : Undisturbed s { s with reporter := { s.reporter with closed := true } } := ⟨rfl, rfl, rfl, rfl, rfl, rfl⟩
    exact ⟨sound.undisturbed closed, drained.undisturbed closed rfl rfl⟩
  | restart => exact ⟨sound.restart, Drained.restart s⟩

theorem initial_sound : Sound .initial ∧ Drained .initial := by
  have empty {position : ℕ} {report : Report} (journaled : Journaled [] position report) : False := by
    obtain ⟨_, here, _⟩ := journaled
    cases here
  refine ⟨⟨.nil, ?_, ?_, ?_, ?_, ?_, ?_, ?_⟩, ⟨Nat.zero_le _, fun _ => rfl, fun _ member => nomatch member⟩⟩
  · exact fun _ _ _ _ left => (empty left).elim
  · exact fun _ member => nomatch member
  · exact new_sound (by decide) fun _ _ _ journaled => (empty journaled).elim
  · exact fun _ _ journaled => (empty journaled).elim
  · exact fun _ _ _ member => nomatch member
  · exact fun _ running => nomatch running
  · exact fun _ _ _ running => nomatch running

theorem run_sound (events : List Event) : Sound (run events) ∧ Drained (run events) := by
  suffices all : ∀ s, Sound s ∧ Drained s → Sound (events.foldl step s) ∧ Drained (events.foldl step s) from all _ initial_sound
  induction events with
  | nil => exact fun _ holds => holds
  | cons event events ih => exact fun s holds => ih _ (step_sound holds.1 holds.2 event)

/-- A witness stands for acknowledged reports only, a restart takes up every other valid report, and one drain runs
at a time. -/
theorem run_reports (events : List Event) :
    (∀ entry ∈ (run events).journal, ∀ place, entry.isCustom acceptedType = true → entry.data = witness (some place) →
        ∀ position report, position ≤ place.position → Journaled (run events).journal position report →
          report ∈ (run events).acknowledged)
      ∧ (∀ position report, Journaled (run events).restart.journal position report →
          report ∈ (run events).restart.acknowledged ∨ ∃ entry ∈ (run events).restart.reporter.pending, entry.report = report)
      ∧ (∀ entry ∈ (run events).journal, entry.isCustom acceptedType = true → ∃ place, entry.data = witness (some place))
      ∧ (run events).reporter.drains.length ≤ 1 := by
  obtain ⟨sound, drained⟩ := run_sound events
  refine ⟨fun entry member place accepts written position report reached => ?_, (restart_covers sound).2, ?_, drained.single⟩
  · obtain ⟨other, written', _, all⟩ := sound.witnessed entry member accepts
    have same := congrArg (Value.get · (js "position")) (written.symm.trans written')
    rw [witness_position, witness_position] at same
    have equal := congrArg JsNumber.toNat? (Value.num.inj same)
    rw [JsNumber.toNat?_ofNat, JsNumber.toNat?_ofNat] at equal
    exact all position report (Option.some.inj equal ▸ reached)
  · intro entry member accepts
    obtain ⟨place, written, _⟩ := sound.witnessed entry member accepts
    exact ⟨place, written⟩

/-- The pending reports stand in the order of their markers, one for each turn, and the drain is always at the first of them,
which it leaves only after its acknowledgement. -/
theorem run_ordered (events : List Event) :
    (run events).reporter.pending.Pairwise (fun a b => a.position < b.position)
      ∧ ((run events).reporter.pending.map fun entry => entry.report.turnId).Nodup
      ∧ (∀ entry ∈ (run events).reporter.pending, ∃ place, entry.journal = some place ∧
          Journaled (run events).journal place.position entry.report)
      ∧ ∀ drain ∈ (run events).reporter.drains, drain.Sound (run events) := by
  obtain ⟨sound, drained⟩ := run_sound events
  exact ⟨sound.reporter.sorted.imp And.right, sound.reporter.keys, sound.reporter.placed, drained.sound⟩

end Runs

end PersistentHarness.TurnFailure
