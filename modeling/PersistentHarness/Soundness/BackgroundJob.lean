import PersistentHarness.Model.BackgroundJob
import PersistentHarness.Lib.Assoc

/-! # One end for each background job

The process of a stopped job has exited before the stop looks for its record. A supervisor is that process, so nothing of a
launched job is published any more; a watcher is another process, and may link its record before the stop replaces it.
Unless that happens, a record that can be read stays until its directory is removed.
-/

namespace PersistentHarness.BackgroundJob

variable {s : System} {id : JsString} {record : ExitRecord} {job : Job} {event : Event} {operation : Operation}

section Steps

theorem place_put (s : System) (id other : JsString) (place : Place) :
    (s.put id place).place other = if other = id then place else s.place other := by
  unfold System.put
  exact Function.update_apply ..

theorem place_put_self (s : System) (id : JsString) (place : Place) : (s.put id place).place id = place := by
  rw [place_put, if_pos rfl]

theorem holder_modify (s : System) (id : JsString) (f : Job → Job) : (s.modify id f).holder = s.holder := by
  unfold System.modify
  split
  · rfl
  · rfl

theorem place_modify (s : System) (id : JsString) (f : Job → Job) (found : s.place id = .job job) :
    (s.modify id f).place id = .job (f job) := by
  unfold System.modify
  rw [found]
  exact place_put_self ..

theorem place_modify_ne (s : System) {id other : JsString} (f : Job → Job) (distinct : other ≠ id) :
    (s.modify id f).place other = s.place other := by
  unfold System.modify
  split
  · rw [place_put, if_neg distinct]
  · rfl

theorem modify_removed (s : System) (id : JsString) (f : Job → Job) (gone : s.place id = .removed) : s.modify id f = s := by
  unfold System.modify
  rw [gone]

theorem act_identified (job : Job) (event : Event) : (job.act event).identified = job.identified := by
  unfold Job.act
  repeat' split
  all_goals rfl

theorem act_running (event : Event) (gone : job.running = false) : (job.act event).running = false := by
  obtain ⟨kind, identified, process, writer, exit⟩ := job
  cases identified with
  | false =>
    unfold Job.running
    rw [act_identified]
    rfl
  | true =>
    cases kind with
    | launched =>
      have absent : writer = .absent := by
        simpa [Job.running] using gone
      subst absent
      unfold Job.act
      repeat' split
      all_goals first | exact gone | simp_all
    | adopted =>
      have ended : process = false := by
        simpa [Job.running] using gone
      subst ended
      unfold Job.act
      repeat' split
      all_goals rfl

theorem act_exit (job : Job) (event : Event) : (job.act event).exit = job.exit
    ∨ ∃ id record, event = .link id ∧ job.writer = .written record ∧ job.exit = none := by
  unfold Job.act
  split
  · exact .inl rfl
  · split
    · exact .inl rfl
    · exact .inl rfl
  · next id =>
    split
    · next record written =>
      cases stored : job.exit with
      | none => exact .inr ⟨id, record, rfl, written, rfl⟩
      | some old => exact .inl rfl
    · exact .inl rfl
  · split
    · exact .inl rfl
    · exact .inl rfl
  · exact .inl rfl
  · exact .inl rfl

end Steps

section Invariant

/-- What the holder of the lock relies on. -/
def Operation.Fits (place : JsString → Place) : Operation → Prop
  | .starting _ _ => True
  | .stopping id _ => ∃ job, place id = .job job ∧ job.identified = true
  | .stopped id _ => ∃ job, place id = .job job ∧ job.identified = true ∧ job.running = false
  | .replacing id _ => ∃ job, place id = .job job ∧ job.identified = true ∧ job.running = false ∧ job.exit = none
  | .deleting id unlinked => unlinked = true → ∃ job, place id = .job job ∧ job.exit = none

def Inv (s : System) : Prop := ∀ operation, s.holder = some operation → operation.Fits s.place

theorem initial_inv : Inv .initial := by
  rintro operation ⟨⟩

theorem inv_of_free (free : s.holder = none) : Inv s := by
  intro operation held
  rw [free] at held
  cases held

theorem inv_of_held (held : s.holder = some operation) (fits : operation.Fits s.place) : Inv s := by
  intro other heldToo
  obtain rfl := Option.some.inj (held.symm.trans heldToo)
  exact fits

/-- The process that a stop has seen exit is the supervisor of a launched job. -/
theorem writer_absent (identified : job.identified = true) (gone : job.running = false) (launched : job.kind = .launched) :
    job.writer = .absent := by
  unfold Job.running at gone
  rw [identified, launched] at gone
  simpa using gone

theorem inv_act (inv : Inv s) (calm : Calm s event) (own : ∀ other, event = .link other → other = id) :
    Inv (s.modify id fun job => job.act event) := by
  intro operation held
  rw [holder_modify] at held
  have fits := inv operation held
  have kept (target : JsString) (job : Job) (found : s.place target = .job job) :
      ∃ later, (s.modify id fun job => job.act event).place target = .job later ∧ later.identified = job.identified
        ∧ (job.running = false → later.running = false) ∧ (later.exit = job.exit ∨ target = id ∧ s.Publishes id ∧ event = .link id) := by
    by_cases here : target = id
    · subst here
      refine ⟨_, place_modify s _ _ found, act_identified .., act_running event, ?_⟩
      rcases act_exit job event with same | ⟨other, record, rfl, written, missing⟩
      · exact .inl same
      · obtain rfl := own other rfl
        exact .inr ⟨rfl, ⟨job, record, found, written, missing⟩, rfl⟩
    · exact ⟨job, (place_modify_ne s _ here).trans found, rfl, fun gone => gone, .inl rfl⟩
  cases operation with
  | starting => trivial
  | stopping target removes =>
    obtain ⟨job, found, identified⟩ := fits
    obtain ⟨later, place, same, -, -⟩ := kept target job found
    exact ⟨later, place, same.trans identified⟩
  | stopped target signal =>
    obtain ⟨job, found, identified, gone⟩ := fits
    obtain ⟨later, place, same, stays, -⟩ := kept target job found
    exact ⟨later, place, same.trans identified, stays gone⟩
  | replacing target signal =>
    obtain ⟨job, found, identified, gone, missing⟩ := fits
    obtain ⟨later, place, same, stays, exit | ⟨rfl, publishes, rfl⟩⟩ := kept target job found
    · exact ⟨later, place, same.trans identified, stays gone, exit.trans missing⟩
    · have shown := publishes
      obtain ⟨other, record, foundToo, written, -⟩ := shown
      obtain rfl := Place.job.inj (found.symm.trans foundToo)
      cases kind : job.kind with
      | launched =>
        rw [writer_absent identified gone kind] at written
        cases written
      | adopted => exact absurd held ((calm publishes).2 job signal found kind)
  | deleting target unlinked =>
    intro done
    subst done
    obtain ⟨job, found, missing⟩ := fits rfl
    obtain ⟨later, place, -, -, exit | ⟨rfl, publishes, rfl⟩⟩ := kept target job found
    · exact ⟨later, place, exit.trans missing⟩
    · exact absurd held (calm publishes).1

theorem inv_proceed (inv : Inv s) (held : s.holder = some operation) : Inv (s.proceed operation event) := by
  have fits := inv operation held
  unfold System.proceed
  split
  · next target =>
    split
    · split
      · exact inv_of_free rfl
      · exact inv_of_held rfl trivial
    · exact inv
  · exact inv_of_free rfl
  · exact inv_of_held rfl fun done => absurd done (by decide)
  · next target removes signal =>
    split
    · next job found =>
      split
      · exact inv
      · next gone =>
        obtain ⟨other, foundToo, identified⟩ := fits
        obtain rfl := Place.job.inj (found.symm.trans foundToo)
        cases removes with
        | true => exact inv_of_held rfl fun done => absurd done (by decide)
        | false => exact inv_of_held rfl ⟨job, found, identified, Bool.eq_false_iff.mpr gone⟩
    · exact inv
  · next target signal =>
    split
    · next job found =>
      obtain ⟨other, foundToo, identified, gone⟩ := fits
      obtain rfl := Place.job.inj (found.symm.trans foundToo)
      intro later heldToo
      dsimp only at heldToo
      split at heldToo
      · next missing =>
        obtain rfl := Option.some.inj heldToo
        exact ⟨job, found, identified, gone, missing⟩
      · cases heldToo
    · exact inv
  · exact inv_of_free rfl
  · split
    · exact inv_of_held rfl fun _ => ⟨_, place_put_self .., rfl⟩
    · exact inv
  · split
    · split
      · exact inv_of_free rfl
      · exact inv
    · exact inv
  · exact inv_of_free rfl
  · exact inv

theorem inv_begin (inv : Inv s) (id : JsString) : Inv (s.begin id event) := by
  unfold System.begin
  split
  · split
    · exact inv_of_held rfl trivial
    · exact inv
  · split
    · exact inv_of_held rfl trivial
    · exact inv
  · split
    · next job found =>
      split
      · next running =>
        refine inv_of_held rfl ⟨job, found, ?_⟩
        have live := running.2
        unfold Job.running at live
        exact (Bool.and_eq_true_iff.mp live).1
      · exact inv
    · exact inv
  · split
    · next job found =>
      split
      · next running =>
        split
        · refine inv_of_held rfl ⟨job, found, ?_⟩
          have live := running.2
          unfold Job.running at live
          exact (Bool.and_eq_true_iff.mp live).1
        · exact inv
      · exact inv_of_held rfl fun done => absurd done (by decide)
    · exact inv
  · exact inv

theorem inv_step (inv : Inv s) (calm : Calm s event) : Inv (step s event) := by
  unfold step
  split
  · split
    · exact inv_begin inv _
    · exact inv
  · split
    · exact inv_begin inv _
    · exact inv
  · split
    · exact inv_begin inv _
    · exact inv
  · split
    · exact inv_begin inv _
    · exact inv
  · exact inv_act inv calm (by rintro other ⟨⟩)
  · exact inv_act inv calm (by rintro other ⟨⟩)
  · next target =>
    refine inv_act inv calm fun other same => ?_
    cases same
    rfl
  · exact inv_act inv calm (by rintro other ⟨⟩)
  · exact inv_act inv calm (by rintro other ⟨⟩)
  · split
    · next operation held => exact inv_proceed inv held
    · exact inv

end Invariant

section Kept

/-- A record that could be read is there until its directory is removed. -/
def Kept (id : JsString) (record : ExitRecord) (s : System) : Prop :=
  s.place id = .removed ∨ ∃ job, s.place id = .job job ∧ (job.exit = some record ∨ s.holder = some (.deleting id true))

theorem Kept.of_place {t : System} (kept : Kept id record s) (same : t.place id = s.place id)
    (undeleted : s.holder ≠ some (.deleting id true)) : Kept id record t := by
  rcases kept with removed | ⟨job, found, stored | deleting⟩
  · exact .inl (same.trans removed)
  · exact .inr ⟨job, same.trans found, .inl stored⟩
  · exact absurd deleting undeleted

theorem Kept.stored (kept : Kept id record s) (found : s.place id = .job job) (undeleted : s.holder ≠ some (.deleting id true)) :
    job.exit = some record := by
  rcases kept with removed | ⟨other, foundToo, stored | deleting⟩
  · rw [removed] at found
    cases found
  · obtain rfl := Place.job.inj (found.symm.trans foundToo)
    exact stored
  · exact absurd deleting undeleted

theorem kept_act (kept : Kept id record s) (target : JsString) (event : Event) :
    Kept id record (s.modify target fun job => job.act event) := by
  by_cases here : target = id
  · subst here
    rcases kept with removed | ⟨job, found, stored | deleting⟩
    · rw [modify_removed s _ _ removed]
      exact .inl removed
    · refine .inr ⟨_, place_modify s _ _ found, .inl ?_⟩
      rcases act_exit job event with same | ⟨_, _, _, _, missing⟩
      · exact same.trans stored
      · rw [stored] at missing
        cases missing
    · exact .inr ⟨_, place_modify s _ _ found, .inr ((holder_modify ..).trans deleting)⟩
  · have same := place_modify_ne s (fun job => job.act event) (Ne.symm here)
    rcases kept with removed | ⟨job, found, stored⟩
    · exact .inl (same.trans removed)
    · exact .inr ⟨job, same.trans found, holder_modify s target _ ▸ stored⟩

theorem kept_begin (kept : Kept id record s) (free : s.holder = none) (target : JsString) : Kept id record (s.begin target event) := by
  have undeleted : s.holder ≠ some (.deleting id true) := by
    rw [free]
    exact (Option.some_ne_none _).symm
  have new (place : Place) (operation : Option Operation) (unused : s.place target = .free) :
      Kept id record { s.put target place with holder := operation } := by
    refine kept.of_place ((place_put s target id place).trans (if_neg ?_)) undeleted
    rintro rfl
    rcases kept with removed | ⟨job, found, _⟩
    · exact Place.noConfusion (unused.symm.trans removed)
    · exact Place.noConfusion (unused.symm.trans found)
  have same (operation : Option Operation) : Kept id record { s with holder := operation } := kept.of_place rfl undeleted
  unfold System.begin
  repeat' split
  all_goals first | exact kept | exact same _ | exact new _ _ ‹_›

theorem kept_proceed (inv : Inv s) (kept : Kept id record s) (calm : Calm s event) (held : s.holder = some operation) :
    Kept id record (s.proceed operation event) := by
  have fits := inv operation held
  have undeleted (other : operation ≠ .deleting id true) : s.holder ≠ some (.deleting id true) := by
    rw [held]
    exact fun same => other (Option.some.inj same)
  unfold System.proceed
  split
  · next target =>
    split
    · next job found =>
      by_cases here : id = target
      · subst here
        have stored := kept.stored found (undeleted (by rintro ⟨⟩))
        exact .inr ⟨_, place_put_self .., .inl stored⟩
      · exact kept.of_place ((place_put ..).trans (if_neg here)) (undeleted (by rintro ⟨⟩))
    · exact kept
  · next target =>
    by_cases here : id = target
    · subst here
      rcases kept with removed | ⟨job, found, stored | deleting⟩
      · exact .inl ((congrArg (·.place id) (modify_removed s _ _ removed)).trans removed)
      · exact .inr ⟨_, place_modify s _ _ found, .inl stored⟩
      · exact absurd deleting (undeleted (by rintro ⟨⟩))
    · exact kept.of_place (place_modify_ne s _ here) (undeleted (by rintro ⟨⟩))
  · exact kept.of_place rfl (undeleted (by rintro ⟨⟩))
  · split
    · split
      · exact kept
      · exact kept.of_place rfl (undeleted (by rintro ⟨⟩))
    · exact kept
  · split
    · exact kept.of_place rfl (undeleted (by rintro ⟨⟩))
    · exact kept
  · next target signal endedAt =>
    by_cases here : id = target
    · subst here
      obtain ⟨job, found, -, -, missing⟩ := fits
      have stored := kept.stored found (undeleted (by rintro ⟨⟩))
      rw [missing] at stored
      cases stored
    · exact kept.of_place (place_modify_ne s _ here) (undeleted (by rintro ⟨⟩))
  · next target unlinked =>
    split
    · next job found =>
      by_cases here : id = target
      · subst here
        refine .inr ⟨_, place_put_self .., .inr (congrArg some (congrArg (Operation.deleting id) ?_))⟩
        cases unlinked with
        | true => rfl
        | false =>
          rw [kept.stored found (undeleted (by rintro ⟨⟩))]
          rfl
      · refine kept.of_place ((place_put ..).trans (if_neg here)) (undeleted ?_)
        rintro ⟨⟩
        exact here rfl
    · exact kept
  · next target unlinked =>
    split
    · split
      · by_cases here : id = target
        · subst here
          exact .inl (place_put_self ..)
        · refine kept.of_place ((place_put ..).trans (if_neg here)) (undeleted ?_)
          rintro ⟨⟩
          exact here rfl
      · exact kept
    · exact kept
  · exact kept.of_place rfl (calm id)
  · exact kept

theorem kept_step (inv : Inv s) (kept : Kept id record s) (calm : Calm s event) : Kept id record (step s event) := by
  unfold step
  split
  · split
    · next free => exact kept_begin kept free _
    · exact kept
  · split
    · next free => exact kept_begin kept free _
    · exact kept
  · split
    · next free => exact kept_begin kept free _
    · exact kept
  · split
    · next free => exact kept_begin kept free _
    · exact kept
  · exact kept_act kept _ _
  · exact kept_act kept _ _
  · exact kept_act kept _ _
  · exact kept_act kept _ _
  · exact kept_act kept _ _
  · split
    · next operation held => exact kept_proceed inv kept calm held
    · exact kept

end Kept

section Runs

theorem CalmRun.append {front back : List Event} (calm : CalmRun s (front ++ back)) :
    CalmRun s front ∧ CalmRun (front.foldl step s) back := by
  induction front generalizing s with
  | nil => exact ⟨trivial, calm⟩
  | cons event rest ih =>
    obtain ⟨first, others⟩ := calm
    obtain ⟨before, after⟩ := ih others
    exact ⟨⟨first, before⟩, after⟩

theorem inv_run {events : List Event} (inv : Inv s) (calm : CalmRun s events) : Inv (events.foldl step s) := by
  induction events generalizing s with
  | nil => exact inv
  | cons event rest ih => exact ih (inv_step inv calm.1) calm.2

theorem kept_run {events : List Event} (inv : Inv s) (kept : Kept id record s) (calm : CalmRun s events) :
    Kept id record (events.foldl step s) := by
  induction events generalizing s with
  | nil => exact kept
  | cons event rest ih => exact ih (inv_step inv calm.1) (kept_step inv kept calm.1) calm.2

/-- A record that can be read stays the same until its directory is removed, and every operation reports it. -/
theorem exit_settled (front back : List Event) (calm : CalmRun .initial (front ++ back)) (id : JsString) (job : Job)
    (record : ExitRecord) (stored : (run front).place id = .job job) (readable : job.exit = some record) :
    (run (front ++ back)).place id = .removed ∨ ∃ later, (run (front ++ back)).place id = .job later
      ∧ (later.exit = some record ∨ (later.exit = none ∧ (run (front ++ back)).holder = some (.deleting id true)))
      ∧ ((run (front ++ back)).holder = none → ∀ pidExists, later.observe pidExists = .ofRecord record) := by
  obtain ⟨before, after⟩ := calm.append
  have inv := inv_run initial_inv before
  have kept := kept_run inv (.inr ⟨job, stored, .inl readable⟩) after
  have later := inv_run inv after
  rw [← List.foldl_append] at kept later
  rcases kept with removed | ⟨last, found, stays | deleting⟩
  · exact .inl removed
  · refine .inr ⟨last, found, .inl stays, fun _ pidExists => ?_⟩
    unfold Job.observe
    rw [stays]
  · obtain ⟨other, foundToo, missing⟩ := later _ deleting rfl
    obtain rfl := Place.job.inj (found.symm.trans foundToo)
    refine .inr ⟨last, found, .inr ⟨missing, deleting⟩, fun free => ?_⟩
    exact absurd (deleting.symm.trans free) (Option.some_ne_none _)

/-- A launched job that ends by itself and is removed later. -/
def finished : List Event :=
  [.launch (js "bg-1"), .spawn, .identify, .write (js "bg-1") ⟨some 0, none, js "12:00"⟩, .link (js "bg-1")]

theorem exit_settled_finished :
    (run (finished ++ [.settle (js "bg-1") false, .remove (js "bg-1") false])).place (js "bg-1") = .removed
      ∨ ∃ later, (run (finished ++ [.settle (js "bg-1") false, .remove (js "bg-1") false])).place (js "bg-1") = .job later
        ∧ (later.exit = some ⟨some 0, none, js "12:00"⟩ ∨ (later.exit = none
          ∧ (run (finished ++ [.settle (js "bg-1") false, .remove (js "bg-1") false])).holder = some (.deleting (js "bg-1") true)))
        ∧ ((run (finished ++ [.settle (js "bg-1") false, .remove (js "bg-1") false])).holder = none →
          ∀ pidExists, later.observe pidExists = .ofRecord ⟨some 0, none, js "12:00"⟩) := by
  have free (operation : Operation) : (none : Option Operation) ≠ some operation := (Option.some_ne_none operation).symm
  refine exit_settled finished _ ?_ (js "bg-1") ⟨.launched, true, false, .linked, some ⟨some 0, none, js "12:00"⟩⟩ _ rfl rfl
  exact ⟨trivial, trivial, trivial, trivial, fun _ => ⟨free _, fun _ signal _ _ => free (.replacing _ signal)⟩, trivial, trivial, trivial⟩

/-- The watcher of an adopted job links its record after a stop has looked for one. -/
def overtaken : List Event :=
  [.adopt (js "bg-1"), .spawn, .stop (js "bg-1"), .processEnds (js "bg-1"), .gone (js "SIGTERM"), .readExit,
    .write (js "bg-1") ⟨none, none, js "12:00"⟩, .link (js "bg-1")]

theorem stop_replaces_exit :
    ¬∀ (front back : List Event) (id : JsString) (job : Job) (record : ExitRecord), (run front).place id = .job job →
      job.exit = some record → (run (front ++ back)).place id = .removed ∨ ∃ later, (run (front ++ back)).place id = .job later
        ∧ (later.exit = some record ∨ (later.exit = none ∧ (run (front ++ back)).holder = some (.deleting id true))) := by
  intro always
  have shown : (run (overtaken ++ [.replaceExit (js "12:01")])).place (js "bg-1") =
      .job ⟨.adopted, true, false, .linked, some ⟨none, some (js "SIGTERM"), js "12:01"⟩⟩ := rfl
  have linked := always overtaken [.replaceExit (js "12:01")] (js "bg-1")
    ⟨.adopted, true, false, .linked, some ⟨none, none, js "12:00"⟩⟩ _ rfl rfl
  rw [shown] at linked
  rcases linked with removed | ⟨later, found, stays | ⟨missing, -⟩⟩
  · cases removed
  · obtain rfl := Place.job.inj found
    exact absurd stays (by decide)
  · obtain rfl := Place.job.inj found
    cases missing

end Runs

end PersistentHarness.BackgroundJob
