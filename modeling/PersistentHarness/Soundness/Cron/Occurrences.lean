import Mathlib.Data.List.Perm.Subperm
import PersistentHarness.Soundness.Cron.Edits

/-! # Where an occurrence is

An occurrence of a job is next, then in a running check, then in a waiting result, then in a run, and it
may be dropped on the way. Every occurrence in the last three places is taken: no two of them are equal,
and none is the next one. This is why no claim ever meets a run of the same occurrence.
-/

namespace PersistentHarness.Cron

open Store (afterCheck afterOccurrence)

/-- The occurrences of a job that became stored runs. -/
def Store.used (store : Store) (jobId : JsString) : List ℤ :=
  store.runs.collect fun _ run => if run.source = .scheduled ∧ run.jobId = jobId then some run.scheduledAt else none

/-- The occurrences of a job whose checks are running. -/
def Scheduler.flights (s : Scheduler) (jobId : JsString) : List ℤ :=
  s.checks.filterMap fun check => if check.jobId = jobId ∧ check.finished = false then some check.scheduledAt else none

/-- The occurrences of a job that run, wait or ran. -/
def taken (s : Scheduler) (jobId : JsString) (job : Job) : List ℤ :=
  s.flights jobId ++ ((job.pendingCheck.map PendingCheck.scheduledAt).toList ++ s.store.used jobId)

/-- The occurrences of a job that still have to become runs. -/
def waiting (s : Scheduler) (jobId : JsString) (job : Job) : List ℤ :=
  s.flights jobId ++ (job.pendingCheck.map PendingCheck.scheduledAt).toList

/-- The occurrences of one job at an instant. -/
structure Timeline (clock : ℤ) (s : Scheduler) (jobId : JsString) (job : Job) : Prop where
  single : (taken s jobId job).Nodup
  free : ∀ next ∈ job.nextRunAt, next ∉ taken s jobId job
  past : ∀ occurrence ∈ taken s jobId job, occurrence ≤ clock
  ahead : ∀ time timezone, job.schedule = .once time timezone → ∀ occurrence ∈ waiting s jobId job, occurrence < time

section Places

variable {s : Scheduler} {store : Store} {jobId : JsString} {job : Job} {runId : RunId} {run : Run} {now : ℤ}

theorem Store.mem_used {occurrence : ℤ} :
    occurrence ∈ store.used jobId ↔
      ∃ runId run, store.getRun runId = some run ∧ run.source = .scheduled ∧ run.jobId = jobId ∧ run.scheduledAt = occurrence := by
  unfold used
  rw [Table.mem_collect]
  constructor
  · rintro ⟨runId, run, stored, contributes⟩
    split at contributes
    · next holds =>
      cases contributes
      exact ⟨runId, run, stored, holds.1, holds.2, rfl⟩
    · cases contributes
  · rintro ⟨runId, run, stored, source, named, rfl⟩
    exact ⟨runId, run, stored, if_pos ⟨source, named⟩⟩

theorem Store.used_insertRun {next : Store} (inserted : store.insertRun runId run = .ok next) (other : JsString) :
    next.used other = store.used other ++ if run.source = .scheduled ∧ run.jobId = other then [run.scheduledAt] else [] := by
  obtain ⟨runs, added, rfl, _⟩ := Store.insertRun_eq_ok.mp inserted
  unfold used
  rw [Table.collect_insert added]
  split <;> rfl

/-- The progress of a run does not move its occurrence. -/
theorem Store.used_update {f : Run → Run} (evolves : ∀ run, store.getRun runId = some run → RunEvolves now run (f run))
    (other : JsString) : Store.used { store with runs := store.runs.update runId f } other = store.used other := by
  apply Table.collect_update
  intro run stored
  obtain ⟨named, source, occurrence, _⟩ := (evolves run stored).named
  rw [named, source, occurrence]

theorem Store.used_pruneRuns (store : Store) (text : RunId → JsString) (keepPerJob : ℕ) (jobId : JsString) :
    ((store.pruneRuns text keepPerJob).used jobId).Sublist (store.used jobId) := by
  unfold used pruneRuns
  exact List.filter_sublist.filterMap _

theorem Scheduler.mem_flights {occurrence : ℤ} :
    occurrence ∈ s.flights jobId ↔
      ∃ check ∈ s.checks, check.jobId = jobId ∧ check.finished = false ∧ check.scheduledAt = occurrence := by
  unfold flights
  rw [List.mem_filterMap]
  constructor
  · rintro ⟨check, member, contributes⟩
    split at contributes
    · next holds =>
      cases contributes
      exact ⟨check, member, holds.1, holds.2, rfl⟩
    · cases contributes
  · rintro ⟨check, member, named, unfinished, rfl⟩
    exact ⟨check, member, if_pos ⟨named, unfinished⟩⟩

theorem mem_taken {occurrence : ℤ} : occurrence ∈ taken s jobId job ↔ occurrence ∈ waiting s jobId job ∨ occurrence ∈ s.store.used jobId := by
  simp only [taken, waiting, List.mem_append, or_assoc]

end Places

section Keeps

variable {clock : ℤ} {s t : Scheduler} {jobId : JsString} {job next : Job}

private theorem nodup_of_subperm {l m : List ℤ} (fewer : l.Subperm m) (single : m.Nodup) : l.Nodup := by
  obtain ⟨kept, same, part⟩ := fewer
  exact same.nodup_iff.mp (single.sublist part)

private theorem sublist_of_eq {l m : List ℤ} (same : l = m) : l.Sublist m := same ▸ .refl _

/-- Nothing new is taken, and the schedule of the job stays as it is. -/
theorem Timeline.kept (timeline : Timeline clock s jobId job) (nextRunAt : ∀ n ∈ next.nextRunAt, n ∈ job.nextRunAt)
    (schedule : next.schedule = job.schedule) (fewer : (taken t jobId next).Subperm (taken s jobId job)) (waits : waiting t jobId next ⊆ waiting s jobId job) : Timeline clock t jobId next := by
  constructor
  · exact nodup_of_subperm fewer timeline.single
  · intro n member isTaken
    exact timeline.free n (nextRunAt n member) (fewer.subset isTaken)
  · intro occurrence member
    exact timeline.past occurrence (fewer.subset member)
  · intro time timezone is occurrence member
    exact timeline.ahead time timezone (schedule ▸ is) occurrence (waits member)

theorem Timeline.consumed (timeline : Timeline clock s jobId job) {occurrence : ℤ} (was : job.nextRunAt = some occurrence)
    (due : occurrence ≤ clock) (later : ∀ n ∈ next.nextRunAt, clock < n) (schedule : next.schedule = job.schedule)
    (moves : (taken t jobId next).Subperm (occurrence :: taken s jobId job))
    (waits : next.schedule.recurring = true ∨ waiting t jobId next ⊆ waiting s jobId job) : Timeline clock t jobId next := by
  have past : ∀ other ∈ taken t jobId next, other ≤ clock := by
    intro other member
    rcases List.mem_cons.mp (moves.subset member) with rfl | earlier
    · exact due
    · exact timeline.past other earlier
  constructor
  · exact nodup_of_subperm moves (List.nodup_cons.mpr ⟨timeline.free occurrence was, timeline.single⟩)
  · intro n member isTaken
    have := past n isTaken
    have := later n member
    omega
  · exact past
  · intro time timezone is other member
    rcases waits with recurring | fewer
    · rw [is] at recurring
      cases recurring
    · exact timeline.ahead time timezone (schedule ▸ is) other (fewer member)

end Keeps

section Moves

variable {env : Env} {origin s t : Scheduler} {now : ℤ} {op : Op} {emitted : List Emission}

/-- The resumptions that give a one-shot job an instant for which it has no stored run. -/
def ResumesUnused (s : Scheduler) (now : ℤ) : Op → Prop
  | .resume selector _ => ∀ jobId job time timezone, s.store.resolveJob selector false = .ok (jobId, job) →
      job.state = .paused → job.schedule = .once time timezone → max now time ∉ s.store.used jobId
  | _ => True

/-- The jobs of all stored runs and of all checks are stored. -/
structure Known (s : Scheduler) : Prop where
  runs : ∀ runId run, s.store.getRun runId = some run → ∃ job, s.store.getJob run.jobId = some job
  checks : ∀ check ∈ s.checks, ∃ job, s.store.getJob check.jobId = some job

/-- A check was in flight before a move, or the move has started it. -/
theorem Move.check (move : Move env origin now op s emitted t) {check : RunningCheck} (member : check ∈ t.checks) :
    (∃ before ∈ s.checks, before.jobId = check.jobId ∧ (check.finished = false → before = check))
      ∨ check.finished = false ∧ (∀ other ∈ s.checks, other.jobId ≠ check.jobId)
        ∧ ∃ job, s.store.getJob check.jobId = some job ∧ Due now job check.scheduledAt ∧ job.check.isSome = true
          ∧ job.pendingCheck = none := by
  have still : check ∈ s.checks → ∃ before ∈ s.checks, before.jobId = check.jobId ∧ (check.finished = false → before = check) :=
    fun earlier => ⟨check, earlier, rfl, fun _ => rfl⟩
  cases move with
  | @deferred jobId job command scheduledAt nextRunAt checks is awake found due checked empty idle computed before started =>
    rcases started with rfl | rfl
    · exact .inl (still member)
    · rcases List.mem_append.mp member with earlier | new
      · exact .inl (still earlier)
      · cases List.mem_singleton.mp new
        refine .inr ⟨rfl, fun other present => ?_, job, found, due, by rw [checked]; rfl, empty⟩
        simpa using List.any_eq_false.mp idle other present
  | @checkFinished done result is found unfinished same =>
    rw [checkFinished_checks] at member
    obtain ⟨before, present, rfl⟩ := List.mem_map.mp member
    refine .inl ⟨before, present, ?_⟩
    split
    · exact ⟨rfl, fun unfinished => by cases unfinished⟩
    · exact ⟨rfl, fun _ => rfl⟩
  | idle fewer => exact .inl (still (fewer.subset member))
  | created => exact .inl (still member)
  | changed => exact .inl (still member)
  | claimed => exact .inl (still member)
  | rewritten => exact .inl (still member)
  | noted => exact .inl (still member)
  | reconciled => exact .inl (still member)
  | pruned => exact .inl (still member)

theorem Move.known (move : Move env origin now op s emitted t) (known : Known s) : Known t := by
  constructor
  · intro runId run stored
    rcases move.run stored with ⟨jobId, job, _, _, found, claim, _⟩ | ⟨before, was, evolves⟩
    · rw [claim.named]
      exact move.keepsJob found
    · obtain ⟨job, found⟩ := known.runs runId before was
      rw [evolves.named.1]
      exact move.keepsJob found
  · intro check member
    rcases move.check member with ⟨before, present, named, _⟩ | ⟨_, _, job, found, _⟩
    · obtain ⟨job, found⟩ := known.checks before present
      exact move.keepsJob (named ▸ found)
    · exact move.keepsJob found

theorem Known.flights_nil (known : Known s) {jobId : JsString} (absent : s.store.getJob jobId = none) : s.flights jobId = [] := by
  apply List.eq_nil_iff_forall_not_mem.mpr
  intro occurrence member
  obtain ⟨check, present, named, _⟩ := Scheduler.mem_flights.mp member
  obtain ⟨job, found⟩ := known.checks check present
  rw [named, absent] at found
  cases found

theorem Known.used_nil (known : Known s) {jobId : JsString} (absent : s.store.getJob jobId = none) : s.store.used jobId = [] := by
  apply List.eq_nil_iff_forall_not_mem.mpr
  intro occurrence member
  obtain ⟨runId, run, stored, _, named, _⟩ := Store.mem_used.mp member
  obtain ⟨job, found⟩ := known.runs runId run stored
  rw [named, absent] at found
  cases found

end Moves

section Timelines

variable {env : Env} {origin s t : Scheduler} {now : ℤ} {op : Op} {emitted : List Emission} {jobId : JsString} {job next : Job}

/-- A rewriting of the row that the places of its occurrences do not show. -/
theorem Timeline.same (timeline : Timeline now s jobId job) (nextRunAt : ∀ n ∈ next.nextRunAt, n ∈ job.nextRunAt)
    (schedule : next.schedule = job.schedule) (pending : next.pendingCheck = job.pendingCheck)
    (flights : (t.flights jobId).Sublist (s.flights jobId)) (used : (t.store.used jobId).Sublist (s.store.used jobId)) :
    Timeline now t jobId next := by
  refine timeline.kept nextRunAt schedule ?_ ?_
  · unfold taken
    rw [pending]
    exact (flights.append (used.append_left _)).subperm
  · unfold waiting
    rw [pending]
    exact (flights.append_right _).subset

theorem Change.timeline (forward : env.calendar.Forward) (resumes : ResumesUnused s now op) (planned : Planned job)
    (timeline : Timeline now s jobId job) (change : Change env s now op jobId job next)
    (flights : t.flights jobId = s.flights jobId) (used : t.store.used jobId = s.store.used jobId) : Timeline now t jobId next := by
  cases change with
  | @edited selector patch new columns is named live computed applied =>
    have edited := replacement_edited computed
    by_cases absent : patch.get (js "schedule") = .undefined
    · obtain ⟨schedule, nextRunAt⟩ := edited.kept absent
      exact timeline.same (fun n member => nextRunAt ▸ member) schedule rfl (sublist_of_eq flights) (sublist_of_eq used)
    · obtain ⟨normalized, least, positive, schedule, nextRunAt, computed⟩ := edited.rescheduled absent
      have upcoming := normalizeCronSchedule_upcoming forward positive computed
      have places : taken t jobId (Store.replaced job new columns now) = taken s jobId job := by
        rw [taken, flights, used]
        rfl
      have still : waiting t jobId (Store.replaced job new columns now) = waiting s jobId job := by
        rw [waiting, flights]
        rfl
      constructor
      · rw [places]
        exact timeline.single
      · intro n member isTaken
        rw [places] at isTaken
        have earlier := timeline.past n isTaken
        have future := upcoming.future
        rw [show (Store.replaced job new columns now).nextRunAt = some normalized.nextRunAt from nextRunAt] at member
        cases member
        omega
      · rw [places]
        exact timeline.past
      · rw [still]
        intro time timezone is occurrence member
        have future := upcoming.future
        have once := upcoming.once time timezone (schedule.symm.trans is)
        have earlier := timeline.past occurrence (mem_taken.mpr (.inl member))
        omega
  | paused => exact timeline.same (fun _ member => member) rfl rfl (sublist_of_eq flights) (sublist_of_eq used)
  | @resumed selector expected time is named paused computed =>
    subst is
    have places : taken t jobId (Store.resumed time now job) = taken s jobId job := by
      rw [taken, flights, used]
      rfl
    have still : waiting t jobId (Store.resumed time now job) = waiting s jobId job := by
      rw [waiting, flights]
      rfl
    constructor
    · rw [places]
      exact timeline.single
    · rintro _ ⟨⟩ isTaken
      rw [places] at isTaken
      have earlier := timeline.past _ isTaken
      rcases resumeTime_future forward planned.interval computed with future | ⟨instant, timezone, once, rfl⟩
      · omega
      · rcases mem_taken.mp isTaken with waits | ran
        · have before := timeline.ahead instant timezone once _ waits
          omega
        · exact resumes jobId job instant timezone named paused once ran
    · rw [places]
      exact timeline.past
    · rw [still]
      exact timeline.ahead
  | removed =>
    refine timeline.same ?_ rfl rfl (sublist_of_eq flights) (sublist_of_eq used)
    rintro n ⟨⟩

/-- A claim puts an occurrence among the runs that was next or waiting before. -/
theorem Claim.timeline (forward : env.calendar.Forward) {runId : RunId} {run : Run} {store : Store}
    (timeline : Timeline now s jobId job) (claim : Claim env origin now op s jobId job runId run next)
    (inserted : s.store.insertRun runId run = .ok store) (flights : t.flights jobId = s.flights jobId)
    (used : t.store.used jobId = store.used jobId) : Timeline now t jobId next := by
  rw [Store.used_insertRun inserted] at used
  have named := claim.named
  cases claim with
  | @plain scheduledAt nextRunAt run is due unchecked computed room makes =>
    have ran : run.source = .scheduled ∧ run.scheduledAt = scheduledAt := by
      rw [makes]
      unfold Store.scheduledRun
      split <;> exact ⟨rfl, rfl⟩
    rw [if_pos ⟨ran.1, named⟩, ran.2] at used
    refine timeline.consumed due.next due.past ?_ rfl ?_ (.inr ?_)
    · intro n member
      simp only [afterOccurrence] at member
      split at member
      · cases member
      · rw [show nextRunAt = some n from member] at computed
        exact (nextCronRunAfter_future forward computed).1
    · unfold taken
      rw [flights, used]
      refine List.Perm.subperm ?_
      rw [← List.append_assoc, ← List.append_assoc, ← List.append_assoc]
      exact List.perm_append_singleton ..
    · unfold waiting
      rw [flights]
      exact List.Subset.refl _
  | @checked pending is waits live idle room =>
    have ran : (Run.claim jobId .scheduled pending.scheduledAt now job (some pending.result)).source = .scheduled := rfl
    rw [if_pos ⟨ran, named⟩] at used
    refine timeline.kept ?_ rfl ?_ ?_
    · intro n member
      simp only [afterCheck] at member
      split at member
      · cases member
      · exact member
    · unfold taken
      rw [flights, used, waits]
      refine List.Perm.subperm (List.Perm.append_left _ ?_)
      exact List.perm_append_singleton ..
    · unfold waiting
      rw [flights]
      exact List.append_subset.mpr ⟨List.subset_append_left .., List.nil_subset _⟩
  | manual =>
    rw [if_neg (by rintro ⟨⟨⟩, _⟩), List.append_nil] at used
    exact timeline.same (fun _ member => member) rfl rfl (sublist_of_eq flights) (sublist_of_eq used)

theorem flights_checkFinished (s : Scheduler) (check : RunningCheck) (result : CheckResult) (now : ℤ) (other : JsString) :
    (checkFinished s check result now).1.flights other = if other = check.jobId then [] else s.flights other := by
  unfold Scheduler.flights
  rw [checkFinished_checks, List.filterMap_map]
  split
  · next here =>
    apply List.filterMap_eq_nil_iff.mpr
    intro running _
    simp only [Function.comp_apply]
    split <;> simp_all
  · next different =>
    apply List.filterMap_congr
    intro running _
    simp only [Function.comp_apply]
    split
    · next named => rw [if_neg (by simp), if_neg (by rintro ⟨same, _⟩; exact different (same.symm.trans named))]
    · rfl

/-- A finished check leaves the occurrence to its result, or drops it. -/
theorem Timeline.finished {check : RunningCheck} {result : CheckResult} (timeline : Timeline now s check.jobId job)
    (member : check ∈ s.checks) (unfinished : check.finished = false) (flights : t.flights check.jobId = [])
    (used : t.store.used check.jobId = s.store.used check.jobId) :
    Timeline now t check.jobId (afterFinish job result check.scheduledAt now) := by
  have same := afterFinish_samePlan job result check.scheduledAt now
  have flies : [check.scheduledAt].Sublist (s.flights check.jobId) :=
    List.singleton_sublist.mpr (Scheduler.mem_flights.mpr ⟨check, member, rfl, unfinished, rfl⟩)
  refine timeline.kept (fun n listed => same.nextRunAt ▸ listed) same.schedule ?_ ?_
  · rcases afterFinish_pending job result check.scheduledAt now with slot | ⟨empty, text, slot⟩
    · rw [taken, taken, slot, flights, used]
      exact (List.sublist_append_right ..).subperm
    · rw [taken, taken, slot, empty, flights, used]
      exact (flies.append_right _).subperm
  · rcases afterFinish_pending job result check.scheduledAt now with slot | ⟨empty, text, slot⟩
    · rw [waiting, waiting, slot, flights]
      exact List.subset_append_right ..
    · rw [waiting, waiting, slot, empty, flights]
      exact (flies.trans (List.sublist_append_left ..)).subset

/-- A row that a move writes, among rows that it leaves alone. -/
theorem EachJob.rewrite {P Q : JsString → Job → Prop} (each : EachJob P s) {target : JsString}
    (rows : ∀ other, t.store.getJob other = if other = target then some next else s.store.getJob other) (here : Q target next)
    (others : ∀ other row, other ≠ target → P other row → Q other row) : EachJob Q t := by
  intro other row found
  rw [rows] at found
  split at found
  · next same =>
    cases found
    subst same
    exact here
  · next different => exact others other row different (each other row found)

theorem Move.timeline (forward : env.calendar.Forward) (resumes : ResumesUnused origin now op) (known : Known s)
    (planned : EachJob (fun _ job => Planned job) s) (move : Move env origin now op s emitted t)
    (each : EachJob (Timeline now s) s) : EachJob (Timeline now t) t := by
  cases move with
  | @created newId job jobs inserted fresh =>
    intro jobId next found
    have read := (Table.get?_insert inserted jobId).symm.trans found
    split at read
    · next here =>
      cases read
      subst here
      have absent : s.store.getJob newId = none := Table.fresh_of_insert? inserted
      have flights : s.flights newId = [] := known.flights_nil absent
      have used : s.store.used newId = [] := known.used_nil absent
      have places : taken { s with store := { s.store with jobs } } newId job = [] := by
        rw [taken, fresh.empty]
        exact List.append_eq_nil_iff.mpr ⟨flights, used⟩
      constructor
      · rw [places]
        exact List.nodup_nil
      · rw [places]
        exact fun _ _ => List.not_mem_nil
      · rw [places]
        exact fun _ member => (List.not_mem_nil member).elim
      · intro time timezone is occurrence member
        have isTaken := mem_taken.mpr (.inl member)
        rw [places] at isTaken
        cases isTaken
    · exact (each jobId next read).same (fun _ member => member) rfl rfl (.refl _) (.refl _)
  | @changed jobId job next found change same =>
    subst same
    refine each.rewrite (Store.getJob_updateJob_of found next) ?_ fun other row _ timeline => ?_
    · exact change.timeline forward resumes (planned jobId job found) (each jobId job found) rfl rfl
    · exact timeline.same (fun _ member => member) rfl rfl (.refl _) (.refl _)
  | @claimed jobId job runId run next store found claim inserted =>
    have rows : ∀ other, (store.updateJob jobId fun _ => next).getJob other =
        if other = jobId then some next else s.store.getJob other := by
      intro other
      rw [Store.getJob_updateJob_of ((Store.getJob_insertRun inserted jobId).trans found), Store.getJob_insertRun inserted]
    refine each.rewrite rows ?_ fun other row different timeline => ?_
    · exact claim.timeline forward (each jobId job found) inserted rfl rfl
    · have used := Store.used_insertRun inserted other
      rw [if_neg (by rintro ⟨_, named⟩; exact different (named.symm.trans claim.named)), List.append_nil] at used
      exact timeline.same (fun _ member => member) rfl rfl (.refl _) (sublist_of_eq used)
  | @deferred jobId job command scheduledAt nextRunAt checks is awake found due checked empty idle computed before started =>
    have flights : ∀ other, checks.filterMap (fun check =>
          if check.jobId = other ∧ check.finished = false then some check.scheduledAt else none) = s.flights other
        ∨ other = jobId ∧ checks.filterMap (fun check =>
          if check.jobId = other ∧ check.finished = false then some check.scheduledAt else none) = s.flights other ++ [scheduledAt] := by
      intro other
      rcases started with rfl | rfl
      · exact .inl rfl
      · rw [List.filterMap_append]
        by_cases here : other = jobId
        · subst here
          exact .inr ⟨rfl, by simp [Scheduler.flights]⟩
        · refine .inl ?_
          simp [Scheduler.flights, Ne.symm here]
    refine each.rewrite (Store.getJob_updateJob_of found _) ?_ fun other row different timeline => ?_
    · refine (each jobId job found).consumed due.next due.past ?_ rfl ?_ (.inl ?_)
      · intro n member
        rw [show nextRunAt = some n from member] at computed
        exact (nextCronRunAfter_future forward computed).1
      · rw [taken, taken, empty]
        rcases flights jobId with same | ⟨_, more⟩
        · rw [Scheduler.flights, same]
          exact (List.sublist_cons_self ..).subperm
        · rw [Scheduler.flights, more]
          refine List.Perm.subperm ?_
          rw [List.append_assoc]
          exact List.perm_middle
      · exact (planned jobId job found).recurring (by rw [checked]; rfl)
    · rcases flights other with same | ⟨here, _⟩
      · exact timeline.same (fun _ member => member) rfl rfl (sublist_of_eq same) (.refl _)
      · exact (different here).elim
  | @checkFinished check result is member unfinished =>
    obtain ⟨job, found⟩ := known.checks check member
    have used : ∀ other, (Cron.checkFinished s check result now).1.store.used other = s.store.used other := by
      intro other
      rw [Store.used, checkFinished_runs]
      rfl
    refine each.rewrite (checkFinished_spec found result).1 ?_ fun other row different timeline => ?_
    · refine (each _ job found).finished member unfinished ?_ (used _)
      rw [flights_checkFinished, if_pos rfl]
    · refine timeline.same (fun _ member => member) rfl rfl ?_ (sublist_of_eq (used other))
      rw [flights_checkFinished, if_neg different]
  | @rewritten runId run written f stored change touches =>
    obtain ⟨lastStatus, lastError, updatedAt, rfl⟩ := touches
    have used : ∀ other, Store.used { s.store with runs := s.store.runs.update runId fun _ => written } other =
        s.store.used other :=
      Store.used_update fun before was => .changed (Option.some.inj (stored.symm.trans was) ▸ change)
    intro jobId next found
    have read := (Table.get?_update ..).symm.trans found
    split at read
    · obtain ⟨job, here, rfl⟩ := Option.map_eq_some_iff.mp read
      exact (each jobId job here).same (fun _ member => member) rfl rfl (.refl _) (sublist_of_eq (used jobId))
    · exact (each jobId next read).same (fun _ member => member) rfl rfl (.refl _) (sublist_of_eq (used jobId))
  | @noted runId f notes =>
    intro jobId job found
    have used : Store.used { s.store with runs := s.store.runs.update runId f } jobId = s.store.used jobId :=
      Store.used_update (fun before _ => @RunEvolves.noted now before f notes) jobId
    exact (each jobId job found).same (fun _ member => member) rfl rfl (.refl _) (sublist_of_eq used)
  | reconciled is =>
    intro jobId next found
    have used : Store.used (s.store.reconcileInterruptedRuns now) jobId = s.store.used jobId := by
      apply Table.collect_modify
      intro runId run stored
      obtain ⟨named, source, occurrence, _⟩ := (@RunEvolves.interrupted now run).named
      rw [named, source, occurrence]
    have read := (Table.get?_modify ..).symm.trans found
    obtain ⟨job, here, rfl⟩ := Option.map_eq_some_iff.mp read
    have timeline := each jobId job here
    split
    · exact timeline.same (fun _ member => member) rfl rfl (.refl _) (sublist_of_eq used)
    · exact timeline.same (fun _ member => member) rfl rfl (.refl _) (sublist_of_eq used)
  | pruned is =>
    intro jobId job found
    refine (each jobId job found).same (fun _ member => member) rfl rfl (.refl _) ?_
    exact Store.used_pruneRuns ..
  | idle fewer =>
    intro jobId job found
    exact (each jobId job found).same (fun _ member => member) rfl rfl (fewer.filterMap _) (.refl _)

end Timelines

end PersistentHarness.Cron
