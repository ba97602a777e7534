import Mathlib.Logic.Function.Basic
import PersistentHarness.Soundness.Cron.Edits

/-! # The course of a maintenance continuation

The job of an intent is missing, then paused, then ready, then spent. Calls move it to the first two of these
stages, and only a tick spends it, so its one run is claimed once and nothing brings it back.
-/

/-! ## The lifecycle of a job

Two invariants of a job row. A job is enabled exactly while it is scheduled, and then it has a next run.
The count of its occurrences stays within its repeat, and a completed job counts no more of them. Each
holds in every run that stays clear of one kind of step.
-/

namespace PersistentHarness.Cron

open Store (afterCheck afterOccurrence)

variable {env : Env}

section Samples

/-- Two run slots, the zone UTC, and no cron pattern. -/
def sampleEnv : Env :=
  { calendar := ⟨fun zone => zone = js "UTC", fun _ => none, fun _ _ _ => .ok none, fun _ _ => .ok none⟩
    text
      | .scheduled jobId scheduledAt => js "cron-" ++ jobId ++ js "-" ++ integerText scheduledAt
      | .manual jobId now draw => js "cron-" ++ jobId ++ js "-manual-" ++ integerText now ++ js "-" ++ Json.decimal draw
    maxParallel := 2, defaultTimezone := js "UTC" }

def everyFiveMinutes : Value := Value.record [("kind", Value.text "every"), ("intervalSeconds", .num (.ofNat 300))]

/-- Create the job `job`, every five minutes. -/
def sampleJob (times : ℕ) (check : Value) : Op :=
  .create (some ⟨false, true, 0, js "/work", none⟩) (js "root")
    (Value.record [("name", Value.text "report"), ("prompt", Value.text "write the report"), ("schedule", everyFiveMinutes),
      ("repeat", .num (.ofNat times)), ("check", check)])
    (some (js "job")) false (js "random")

def sampleCheck : Value := Value.record [("command", Value.text "probe")]

end Samples

section Occurrences

/-- Enabled means scheduled, and a scheduled job can become due. -/
structure Coherent (job : Job) : Prop where
  enabled : job.enabled = true ↔ job.state = .scheduled
  next : job.state = .scheduled → job.nextRunAt ≠ none

/-- The steps that leave a scheduled job a next run: an edit of a completed job that names a repeat also
names a schedule, and a checked occurrence that comes due has a successor. -/
def KeepsOccurrence (env : Env) (s : Scheduler) (now : ℤ) : Op → Prop
  | .update selector patch =>
    ∀ jobId job result, s.store.resolveJob selector false = .ok (jobId, job) → job.state = .completed →
      update env s.store selector patch now = .ok result → patch.get (js "repeat") ≠ .undefined →
      patch.get (js "schedule") ≠ .undefined
  | .tick =>
    s.stopped = false → ∀ jobId job scheduledAt, s.store.getJob jobId = some job → Due now job scheduledAt →
      job.check ≠ none → nextCronRunAfter env.calendar job.schedule scheduledAt now ≠ .ok none
  | _ => True

theorem Evolves.coherent {origin s : Scheduler} {now : ℤ} {op : Op} {jobId : JsString} {job next : Job}
    (keeps : KeepsOccurrence env origin now op) (evolves : Evolves env origin now op s jobId job next)
    (coherent : Coherent job) : Coherent next := by
  cases evolves with
  | same => exact coherent
  | touched => exact ⟨coherent.enabled, coherent.next⟩
  | changed change =>
    cases change with
    | @edited selector patch new columns is named live computed applied =>
      subst is
      obtain ⟨result, applied⟩ := applied
      have edited := replacement_edited computed
      constructor
      · simp only [Store.replaced, edited.enabled, decide_eq_true_eq]
      · intro scheduled
        simp only [Store.replaced] at scheduled ⊢
        rw [edited.state] at scheduled
        by_cases absent : patch.get (js "schedule") = .undefined
        · rw [(edited.kept absent).2]
          split_ifs at scheduled with paused completed
          cases state : job.state with
          | scheduled => exact coherent.next state
          | paused => exact (paused state).elim
          | removed => exact (live state).elim
          | completed =>
            have reset : patch.get (js "repeat") ≠ .undefined := by
              intro unset
              exact completed ⟨state, by simp [resets, absent, unset]⟩
            exact (keeps jobId job result named state applied reset absent).elim
        · obtain ⟨normalized, _, _, _, next, _⟩ := edited.rescheduled absent
          rw [next]
          exact Option.some_ne_none _
    | paused => exact ⟨by simp [Store.paused], by simp [Store.paused]⟩
    | resumed => exact ⟨by simp [Store.resumed], by simp [Store.resumed]⟩
    | removed => exact ⟨by simp [Store.removed], by simp [Store.removed]⟩
  | claimed claim =>
    cases claim with
    | @plain scheduledAt nextRunAt run is due unchecked computed room makes =>
      constructor
      · simp only [afterOccurrence, decide_eq_true_eq]
      · intro scheduled missing
        simp only [afterOccurrence] at scheduled missing
        rw [if_pos (.inr missing)] at scheduled
        cases scheduled
    | checked is waits live idle room awake before idleBefore roomBefore =>
      constructor
      · simp only [afterCheck]
        split
        · simp
        · exact coherent.enabled
      · intro scheduled
        simp only [afterCheck] at scheduled ⊢
        split at scheduled
        · cases scheduled
        · next goesOn =>
          rw [if_neg goesOn]
          exact coherent.next scheduled
    | manual => exact ⟨coherent.enabled, coherent.next⟩
  | @deferred command scheduledAt nextRunAt is awake due checked empty computed before =>
    subst is
    obtain ⟨earlier, stored, wasDue, wasChecked, same⟩ := before
    refine ⟨coherent.enabled, fun _ => ?_⟩
    rintro rfl
    refine keeps awake jobId earlier scheduledAt stored wasDue (by rw [wasChecked]; simp) ?_
    rw [same, computed]
  | @finished check result =>
    have same := afterFinish_samePlan job result check.scheduledAt now
    constructor
    · rw [same.state, same.enabled]
      exact coherent.enabled
    · rw [same.state, same.nextRunAt]
      exact coherent.next

/-- In every run of such steps, a job is enabled exactly while it is scheduled, and then it has a next run. -/
theorem run_coherent (env : Env) (events : List (ℤ × Op)) (meets : Meets env (KeepsOccurrence env) events) :
    ∀ jobId job, (run env events).store.getJob jobId = some job →
      (job.enabled = true ↔ job.state = .scheduled) ∧ (job.state = .scheduled → job.nextRunAt ≠ none) := by
  have holds : EachJob (fun _ job => Coherent job) (run env events) := by
    refine run_invariant ?_ (fun origin now op keeps _ s emitted t move each => ?_) meets
    · rintro jobId job ⟨⟩
    · refine move.eachJob (fun _ job _ fresh => ?_) (fun _ _ _ _ evolves => evolves.coherent keeps) each
      refine ⟨by rw [fresh.enabled, decide_eq_true_eq], fun _ missing => ?_⟩
      have next := fresh.next
      rw [missing] at next
      cases next
  intro jobId job found
  exact ⟨(holds jobId job found).enabled, (holds jobId job found).next⟩

/-- A job completes with its only occurrence, and an edit then raises its repeat. -/
def revival : List (ℤ × Op) :=
  [(0, .start), (0, sampleJob 1 .null), (300000, .tick),
    (300000, .update (js "job") (Value.record [("repeat", .num (.ofNat 2))]))]

/-- The edit leaves the job scheduled without a next run. -/
theorem run_coherent_revival :
    ¬∀ jobId job, (run sampleEnv revival).store.getJob jobId = some job →
      (job.enabled = true ↔ job.state = .scheduled) ∧ (job.state = .scheduled → job.nextRunAt ≠ none) := by
  intro all
  have row : ((run sampleEnv revival).store.getJob (js "job")).map (fun job => (job.state, job.nextRunAt)) =
      some (.scheduled, none) := by decide +kernel
  obtain ⟨job, found, same⟩ := Option.map_eq_some_iff.mp row
  obtain ⟨scheduled, missing⟩ := Prod.mk.inj same
  exact (all _ job found).2 scheduled missing

theorem run_coherent_sample :
    ∃ job, (run sampleEnv [(0, .start), (0, sampleJob 1 .null), (300000, .tick)]).store.getJob (js "job") = some job ∧
      (job.enabled = true ↔ job.state = .scheduled) ∧ (job.state = .scheduled → job.nextRunAt ≠ none) := by
  obtain ⟨job, found⟩ : ∃ job, (run sampleEnv [(0, .start), (0, sampleJob 1 .null), (300000, .tick)]).store.getJob
      (js "job") = some job := Option.isSome_iff_exists.mp (by decide +kernel)
  have unchecked : ∀ row ∈ (run sampleEnv [(0, .start), (0, sampleJob 1 .null)]).store.jobs.rows, row.2.check = none := by
    decide +kernel
  refine ⟨job, found, run_coherent sampleEnv ((([] ++ [(0, .start)]) ++ [(0, sampleJob 1 .null)]) ++ [(300000, .tick)]) ?_
    (js "job") job found⟩
  refine meets_concat.mpr ⟨meets_concat.mpr ⟨meets_concat.mpr ⟨meets_nil, trivial⟩, trivial⟩, ?_⟩
  intro _ jobId job _ found _ checked
  exact (checked (unchecked _ (Table.mem_rows.mpr found))).elim

end Occurrences

section Counts

/-- The count of occurrences stays within the repeat, and short of it while more can come. -/
structure Counted (job : Job) : Prop where
  within : ∀ times ∈ job.repeatTimes, job.fireCount ≤ times
  room : job.state = .scheduled ∨ job.state = .paused → ∀ times ∈ job.repeatTimes, job.fireCount < times
  once : job.schedule.recurring = false → job.repeatTimes = some 1

/-- The ticks that claim for open jobs only: with a run slot free, every completed job that still holds a
check result has an active run. -/
def ClaimsOpenJobs (env : Env) (s : Scheduler) (_ : ℤ) : Op → Prop
  | .tick =>
    s.stopped = false → s.store.countActiveRuns < env.maxParallel → ∀ jobId job, s.store.getJob jobId = some job →
      job.state = .completed → job.pendingCheck ≠ none → s.store.hasActiveRun jobId = true
  | _ => True

theorem exhausts_eq_false {job : Job} (goesOn : ¬Store.exhausts job = true) : ∀ times ∈ job.repeatTimes, job.fireCount + 1 < times := by
  intro times member
  rw [Option.mem_def] at member
  simp only [Store.exhausts, member, Option.any_some, decide_eq_true_eq] at goesOn
  omega

theorem Edited.sameRepeat {now : ℤ} {job : Job} {patch : Value} {new : Store.Replacement} (edited : Edited env now job patch new)
    (once : job.schedule.recurring = false → job.repeatTimes = some 1) (kept : resets patch = false) :
    new.params.repeatTimes = job.repeatTimes := by
  obtain ⟨schedule, times⟩ : patch.get (js "schedule") = .undefined ∧ patch.get (js "repeat") = .undefined := by
    simpa [resets] using kept
  have counted := edited.sameTimes times
  rw [(edited.kept schedule).1] at counted
  cases current : job.repeatTimes with
  | none =>
    rw [current] at counted
    cases recurring : job.schedule.recurring with
    | true =>
      rw [recurring] at counted
      exact (Except.ok.inj counted).symm
    | false =>
      have single := once recurring
      rw [current] at single
      cases single
  | some n =>
    rw [current] at counted
    exact requireRepeat_same counted

theorem Evolves.counted {origin s : Scheduler} {now : ℤ} {op : Op} {jobId : JsString} {job next : Job}
    (opened : ClaimsOpenJobs env origin now op) (evolves : Evolves env origin now op s jobId job next)
    (counted : Counted job) : Counted next := by
  cases evolves with
  | same => exact counted
  | touched => exact ⟨counted.within, counted.room, counted.once⟩
  | changed change =>
    cases change with
    | @edited selector patch new columns is named live computed applied =>
      have edited := replacement_edited computed
      have fires : (Store.replaced job new columns now).fireCount = if resets patch then 0 else job.fireCount := edited.fireCount
      have state := edited.state
      cases reset : resets patch with
      | true =>
        rw [reset] at fires
        refine ⟨fun times member => ?_, fun _ times member => ?_, edited.once⟩
        · rw [fires]
          exact Nat.zero_le _
        · rw [fires]
          exact edited.times times member
      | false =>
        rw [reset] at fires state
        have times : (Store.replaced job new columns now).repeatTimes = job.repeatTimes :=
          edited.sameRepeat counted.once reset
        refine ⟨?_, fun active => ?_, edited.once⟩
        · rw [times, fires]
          exact counted.within
        · rw [times, fires]
          refine counted.room ?_
          have was : new.state = .scheduled ∨ new.state = .paused := active
          rw [state] at was
          cases current : job.state <;> simp_all
    | paused is scheduled => exact ⟨counted.within, fun _ => counted.room (.inl scheduled), counted.once⟩
    | resumed is named paused computed => exact ⟨counted.within, fun _ => counted.room (.inr paused), counted.once⟩
    | removed =>
      refine ⟨counted.within, ?_, counted.once⟩
      rintro (state | state) <;> cases state
  | claimed claim =>
    cases claim with
    | @plain scheduledAt nextRunAt run is due unchecked computed room makes =>
      have short := counted.room (.inl due.scheduled)
      refine ⟨short, fun active => ?_, counted.once⟩
      have goesOn : ¬Store.exhausts job = true := by
        intro ends
        simp only [afterOccurrence, ends, ↓reduceIte, true_or] at active
        rcases active with state | state <;> cases state
      exact exhausts_eq_false goesOn
    | checked is waits live idle room awake before idleBefore roomBefore =>
      subst is
      have notCompleted : job.state ≠ .completed := by
        intro completed
        have busy := opened awake roomBefore jobId job before completed (by rw [waits]; simp)
        rw [idleBefore] at busy
        cases busy
      have active : job.state = .scheduled ∨ job.state = .paused := by
        cases state : job.state <;> simp_all
      have short := counted.room active
      refine ⟨short, fun still => ?_, counted.once⟩
      simp only [afterCheck] at still ⊢
      split at still
      · rcases still with state | state <;> cases state
      · next goesOn => exact exhausts_eq_false goesOn
    | manual => exact ⟨counted.within, counted.room, counted.once⟩
  | deferred => exact ⟨counted.within, counted.room, counted.once⟩
  | @finished check result =>
    have same := afterFinish_samePlan job result check.scheduledAt now
    refine ⟨?_, ?_, ?_⟩
    · rw [same.fireCount, same.repeatTimes]
      exact counted.within
    · rw [same.state, same.fireCount, same.repeatTimes]
      exact counted.room
    · rw [same.schedule, same.repeatTimes]
      exact counted.once

/-- An edit of this job that restarts its count. -/
def Reschedules (s : Scheduler) (op : Op) (jobId : JsString) (job : Job) : Prop :=
  ∃ selector patch, op = .update selector patch ∧ s.store.resolveJob selector false = .ok (jobId, job) ∧ resets patch = true

/-- The job is over, and no occurrence of it has been claimed since. -/
def Settled (s t : Scheduler) (jobId : JsString) (job : Job) : Prop :=
  (∃ next, t.store.getJob jobId = some next ∧ (next.state = .completed ∨ next.state = .removed) ∧ next.fireCount = job.fireCount)
    ∧ ∀ runId run, t.store.getRun runId = some run → run.source = .scheduled → run.jobId = jobId → s.store.getRun runId ≠ none

/-- A job that is over stays over, unless the step is an edit that restarts its count. -/
theorem Move.settled {origin s t : Scheduler} {now : ℤ} {op : Op} {emitted : List Emission} {jobId : JsString} {job : Job}
    (opened : ClaimsOpenJobs env origin now op) (found : origin.store.getJob jobId = some job)
    (ended : job.state = .completed ∨ job.state = .removed) (keeps : ¬Reschedules origin op jobId job) (move : Move env origin now op s emitted t) (settled : Settled origin s jobId job) :
    Settled origin t jobId job := by
  obtain ⟨⟨current, here, still, fires⟩, runs⟩ := settled
  have notScheduled : current.state ≠ .scheduled := by
    rintro scheduled
    rcases still with state | state <;> rw [scheduled] at state <;> cases state
  have notPaused : current.state ≠ .paused := by
    rintro paused
    rcases still with state | state <;> rw [paused] at state <;> cases state
  have unclaimed : ∀ runId run next, Claim env origin now op s jobId current runId run next → run.source = .manual
      ∧ next.state = current.state ∧ next.fireCount = current.fireCount := by
    intro runId run next claim
    cases claim with
    | plain is due => exact (notScheduled due.scheduled).elim
    | checked is waits live idle room awake before idleBefore roomBefore =>
      subst is
      have same : current = job := Option.some.inj (before.symm.trans found)
      have completed : current.state = .completed := (same ▸ ended).resolve_right live
      have busy := opened awake roomBefore jobId current before completed (by rw [waits]; simp)
      rw [idleBefore] at busy
      cases busy
    | manual => exact ⟨rfl, rfl, rfl⟩
  refine ⟨?_, fun runId run stored scheduled named => ?_⟩
  · have present : ∃ next, t.store.getJob jobId = some next := move.keepsJob here
    obtain ⟨next, stored⟩ := present
    rcases move.job stored with ⟨absent, _⟩ | ⟨before, was, evolves⟩
    · rw [here] at absent
      cases absent
    obtain rfl : current = before := Option.some.inj (here.symm.trans was)
    refine ⟨next, stored, ?_⟩
    cases evolves with
    | same => exact ⟨still, fires⟩
    | touched => exact ⟨still, fires⟩
    | changed change =>
      cases change with
      | @edited selector patch new columns is named live computed applied =>
        obtain ⟨was, _⟩ := resolveJob_eq_ok named
        obtain rfl : current = job := Option.some.inj (was.symm.trans found)
        have edited := replacement_edited computed
        have kept : resets patch = false := Bool.eq_false_iff.mpr fun reset => keeps ⟨selector, patch, is, named, reset⟩
        refine ⟨.inl ?_, ?_⟩
        · change new.state = .completed
          rw [edited.state, if_neg notPaused, if_pos ⟨ended.resolve_right live, kept⟩]
        · change new.fireCount = current.fireCount
          rw [edited.fireCount, kept]
          rfl
      | paused is scheduled => exact (notScheduled scheduled).elim
      | resumed is named paused => exact (notPaused paused).elim
      | removed => exact ⟨.inr rfl, fires⟩
    | claimed claim =>
      obtain ⟨_, state, count⟩ := unclaimed _ _ _ claim
      exact ⟨by rwa [state], count.trans fires⟩
    | deferred is awake due => exact (notScheduled due.scheduled).elim
    | @finished check result =>
      have same := afterFinish_samePlan current result check.scheduledAt now
      exact ⟨by rwa [same.state], same.fireCount.trans fires⟩
  · rcases move.run stored with ⟨claimedId, row, nextJob, store, was, claim, _⟩ | ⟨before, was, evolves⟩
    · obtain rfl : claimedId = jobId := claim.named.symm.trans named
      obtain rfl : row = current := Option.some.inj (was.symm.trans here)
      have manual := (unclaimed _ _ _ claim).1
      rw [manual] at scheduled
      cases scheduled
    · obtain ⟨sameJob, sameSource, _⟩ := evolves.named
      exact runs runId before was (sameSource.symm.trans scheduled) (sameJob.symm.trans named)

/-- In every run whose ticks claim for open jobs only, the count of a job stays within its repeat, and once
a job is over no occurrence of it is claimed until an edit restarts its count. -/
theorem run_counted (env : Env) (events : List (ℤ × Op)) (meets : Meets env (ClaimsOpenJobs env) events) :
    (∀ jobId job times, (run env events).store.getJob jobId = some job → job.repeatTimes = some times → job.fireCount ≤ times)
      ∧ ∀ first now op later, events = first ++ (now, op) :: later → ∀ jobId job,
        (run env first).store.getJob jobId = some job → job.state = .completed ∨ job.state = .removed →
        Reschedules (run env first) op jobId job ∨ Settled (run env first) (step env (run env first) now op).1 jobId job := by
  have holds : EachJob (fun _ job => Counted job) (run env events) := by
    refine run_invariant ?_ (fun origin now op opened _ s emitted t move each => ?_) meets
    · rintro jobId job ⟨⟩
    · refine move.eachJob (fun _ job _ fresh => ?_) (fun _ _ _ _ evolves => evolves.counted opened) each
      refine ⟨fun times member => ?_, fun _ times member => ?_, fresh.once⟩
      · rw [fresh.count]
        exact Nat.zero_le _
      · rw [fresh.count]
        exact fresh.times times member
  refine ⟨fun jobId job times found same => (holds jobId job found).within times same, ?_⟩
  intro first now op later split jobId job found ended
  by_cases keeps : Reschedules (run env first) op jobId job
  · exact .inl keeps
  · refine .inr ((step_moves env (run env first) now op).1.preserves
      (fun s emitted t move => move.settled (meets first now op later split) found ended keeps) ?_)
    exact ⟨⟨job, found, ended, rfl⟩, fun runId run stored _ _ => by rw [stored]; simp⟩

/-- A check outlives an edit that takes it from its job and the completion of that job. -/
def lateResult : List (ℤ × Op) :=
  [(0, .start), (0, sampleJob 1 sampleCheck), (300000, .tick),
    (300001, .update (js "job") (Value.record [("check", .null)])), (600000, .tick),
    (600001, .finishRun (.scheduled (js "job") 600000) .completed none none),
    (600002, .checkFinished (js "job") (.ok (js "changed"))), (600003, .tick)]

/-- Its result is claimed as a second occurrence of a job that runs once. -/
theorem run_counted_lateResult :
    ¬∀ jobId job times, (run sampleEnv lateResult).store.getJob jobId = some job → job.repeatTimes = some times →
      job.fireCount ≤ times := by
  intro all
  have row : ((run sampleEnv lateResult).store.getJob (js "job")).map (fun job => (job.repeatTimes, job.fireCount)) =
      some (some 1, 2) := by decide +kernel
  obtain ⟨job, found, same⟩ := Option.map_eq_some_iff.mp row
  obtain ⟨times, count⟩ := Prod.mk.inj same
  have within := all _ job 1 found times
  omega

/-- A checked job that runs once, up to the claim of its result. -/
def sampleChecks : List (ℤ × Op) :=
  [(0, .start), (0, sampleJob 1 sampleCheck), (300000, .tick), (300001, .checkFinished (js "job") (.ok (js "changed")))]

theorem run_counted_sample :
    ∃ job, (run sampleEnv (sampleChecks ++ [(300002, .tick)])).store.getJob (js "job") = some job ∧ job.fireCount ≤ 1 := by
  obtain ⟨job, found, once⟩ : ∃ job, (run sampleEnv (sampleChecks ++ [(300002, .tick)])).store.getJob (js "job") = some job
      ∧ job.repeatTimes = some 1 := by
    obtain ⟨job, found⟩ := Option.isSome_iff_exists.mp (by decide +kernel :
      ((run sampleEnv (sampleChecks ++ [(300002, .tick)])).store.getJob (js "job")).isSome = true)
    have times : ((run sampleEnv (sampleChecks ++ [(300002, .tick)])).store.getJob (js "job")).bind Job.repeatTimes = some 1 := by
      decide +kernel
    exact ⟨job, found, by simpa only [found, Option.bind_some] using times⟩
  have opened : ∀ row ∈ (run sampleEnv (sampleChecks.take 2)).store.jobs.rows, row.2.state = .scheduled := by decide +kernel
  have still : ∀ row ∈ (run sampleEnv sampleChecks).store.jobs.rows, row.2.state = .scheduled := by decide +kernel
  refine ⟨job, found, (run_counted sampleEnv (sampleChecks ++ [(300002, .tick)]) ?_).1 (js "job") job 1 found once⟩
  refine meets_concat.mpr ⟨?_, ?_⟩
  · refine meets_concat.mpr ⟨meets_concat.mpr ⟨meets_concat.mpr ⟨meets_concat.mpr ⟨meets_nil, trivial⟩, trivial⟩, ?_⟩, trivial⟩
    intro _ _ jobId job found completed
    rw [opened _ (Table.mem_rows.mpr found)] at completed
    cases completed
  · intro _ _ jobId job found completed
    rw [still _ (Table.mem_rows.mpr found)] at completed
    cases completed

end Counts

end PersistentHarness.Cron
