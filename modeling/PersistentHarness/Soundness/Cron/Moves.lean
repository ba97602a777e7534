import PersistentHarness.Model.Cron.Scheduler

/-! # What the table operations do

One rule for each operation of the cron store: when it succeeds, the rows it found and the row it wrote.
Everything else about the tables is unchanged.
-/

namespace PersistentHarness.Cron.Store

variable {s t : Store} {jobId : JsString} {job : Job} {runId : RunId} {run : Run} {now : ℤ}

@[simp] theorem getJob_updateJob (s : Store) (jobId other : JsString) (f : Job → Job) :
    (s.updateJob jobId f).getJob other = if other = jobId then (s.getJob other).map f else s.getJob other :=
  Table.get?_update s.jobs jobId f other

/-- The row that an update of a stored job writes. -/
theorem getJob_updateJob_of (found : s.getJob jobId = some job) (next : Job) (other : JsString) :
    (s.updateJob jobId fun _ => next).getJob other = if other = jobId then some next else s.getJob other :=
  Table.get?_update_of found _ other

section Active

theorem activeRun?_eq_some (found : s.activeRun? jobId = some runId) :
    ∃ run, s.getRun runId = some run ∧ run.jobId = jobId ∧ run.status.active = true := by
  obtain ⟨row, located, rfl⟩ := Option.map_eq_some_iff.mp found
  have holds := List.find?_some located
  simp only [decide_eq_true_eq, Bool.decide_and, Bool.and_eq_true, Bool.decide_eq_true] at holds
  exact ⟨row.2, Table.mem_rows.mp (List.mem_of_find?_eq_some located), holds⟩

theorem hasActiveRun_iff :
    s.hasActiveRun jobId = true ↔ ∃ runId run, s.getRun runId = some run ∧ run.jobId = jobId ∧ run.status.active = true := by
  constructor
  · intro has
    obtain ⟨runId, found⟩ := Option.isSome_iff_exists.mp has
    obtain ⟨run, stored⟩ := activeRun?_eq_some found
    exact ⟨runId, run, stored⟩
  · rintro ⟨runId, run, stored, same, active⟩
    rw [hasActiveRun, activeRun?, Option.isSome_map, List.find?_isSome]
    exact ⟨(runId, run), Table.mem_rows.mpr stored, by simp [same, active]⟩

theorem hasActiveRun_eq_false :
    s.hasActiveRun jobId = false ↔ ∀ runId run, s.getRun runId = some run → run.jobId = jobId → run.status.active = false := by
  rw [← Bool.not_eq_true, hasActiveRun_iff]
  simp only [not_exists, not_and, Bool.not_eq_true]

end Active

section Inserts

/-- No scheduled run of this job and occurrence is stored. -/
def FreshOccurrence (s : Store) (run : Run) : Prop :=
  ∀ otherId other, s.getRun otherId = some other →
    ¬(other.source = .scheduled ∧ other.jobId = run.jobId ∧ other.scheduledAt = run.scheduledAt)

theorem insertRun_eq_ok :
    s.insertRun runId run = .ok t ↔
      ∃ runs, s.runs.insert? runId run = some runs ∧ t = { s with runs } ∧ (run.source = .scheduled → FreshOccurrence s run)
        ∧ (run.status.active = true → s.hasActiveRun run.jobId = false) := by
  unfold insertRun
  cases inserted : s.runs.insert? runId run with
  | none => simp
  | some runs =>
    simp only [Checked.bind_eq_ok, Checked.require_eq_ok, Checked.pure_eq_ok, Option.some.injEq, Table.any_eq_false,
      decide_eq_false_iff_not]
    constructor
    · rintro ⟨_, occurrence, _, active, rfl⟩
      exact ⟨runs, rfl, rfl, occurrence, active⟩
    · rintro ⟨_, rfl, rfl, occurrence, active⟩
      exact ⟨(), occurrence, (), active, rfl⟩

theorem insertRun_refused {thrown : CronError} (refused : s.insertRun runId run = .error thrown) :
    (s.getRun runId).isSome = true ∨ (run.source = .scheduled ∧ ¬FreshOccurrence s run)
      ∨ (run.status.active = true ∧ s.hasActiveRun run.jobId = true) := by
  by_contra none
  simp only [not_or, not_and, not_not, Bool.not_eq_true, Option.isSome_eq_false_iff, Option.isNone_iff_eq_none] at none
  obtain ⟨absent, occurrence, inactive⟩ := none
  obtain ⟨runs, inserted⟩ : ∃ runs, s.runs.insert? runId run = some runs := by
    refine Option.ne_none_iff_exists'.mp fun refusedKey => ?_
    exact Table.insert?_eq_none.mp refusedKey absent
  have accepted : s.insertRun runId run = .ok { s with runs } :=
    insertRun_eq_ok.mpr ⟨runs, inserted, rfl, occurrence, inactive⟩
  rw [accepted] at refused
  cases refused

variable (inserted : s.insertRun runId run = .ok t)

include inserted

theorem getJob_insertRun (other : JsString) : t.getJob other = s.getJob other := by
  obtain ⟨runs, _, rfl, _⟩ := insertRun_eq_ok.mp inserted
  rfl

theorem getRun_insertRun (other : RunId) : t.getRun other = if runId = other then some run else s.getRun other := by
  obtain ⟨runs, added, rfl, _⟩ := insertRun_eq_ok.mp inserted
  exact Table.get?_insert added other

theorem fresh_of_insertRun : s.getRun runId = none := by
  obtain ⟨runs, added, _⟩ := insertRun_eq_ok.mp inserted
  exact Table.fresh_of_insert? added

theorem countActiveRuns_insertRun : t.countActiveRuns = s.countActiveRuns + if run.status.active then 1 else 0 := by
  obtain ⟨runs, added, rfl, _⟩ := insertRun_eq_ok.mp inserted
  exact Table.count_insert added _

end Inserts

section Claims

variable {env : Env} {scheduledAt : ℤ} {nextRunAt : Option ℤ}

/-- A claim of an occurrence that is due: the run it inserts and the job it leaves. -/
theorem claimScheduledRun_of_due (found : s.getJob jobId = some job)
    (due : job.enabled = true ∧ job.state = .scheduled ∧ job.nextRunAt = some scheduledAt) :
    s.claimScheduledRun env.text jobId runId scheduledAt nextRunAt now =
      (let active := s.activeRun? jobId
       let run := scheduledRun env.text jobId job scheduledAt now active
       let next := afterOccurrence job run nextRunAt now
       s.insertRun runId run >>= fun inserted =>
         pure (inserted.updateJob jobId fun _ => next, if active.isSome then .skipped else .claimed run next)) := by
  obtain ⟨enabled, scheduled, same⟩ := due
  unfold claimScheduledRun
  rw [found, Option.filter_some, if_pos (by simp [enabled, scheduled, same])]

theorem claimCheckedRun_of_pending (found : s.getJob jobId = some job) {pending : PendingCheck}
    (waits : job.pendingCheck = some pending) (live : job.state ≠ .removed) :
    s.claimCheckedRun jobId runId now =
      if s.hasActiveRun jobId then .ok (s, none)
      else
        s.insertRun runId (Run.claim jobId .scheduled pending.scheduledAt now job (some pending.result)) >>= fun inserted =>
          pure (inserted.updateJob jobId fun _ => afterCheck job pending now,
            some (Run.claim jobId .scheduled pending.scheduledAt now job (some pending.result), afterCheck job pending now)) := by
  unfold claimCheckedRun
  rw [found, Option.filter_some, if_pos (by simp [live])]
  simp only [waits]

end Claims

end PersistentHarness.Cron.Store

/-! ## The moves of a scheduler

A `Move` is one indivisible change of the scheduler, with everything the code has checked before it.
Every step is a sequence of moves; only ticks make several. Invariants are proved once for each move.
-/

namespace PersistentHarness.Cron

structure Due (now : ℤ) (job : Job) (scheduledAt : ℤ) : Prop where
  enabled : job.enabled = true
  scheduled : job.state = .scheduled
  next : job.nextRunAt = some scheduledAt
  past : scheduledAt ≤ now

theorem due_of_dueAt {now : ℤ} {job : Job} (due : (Store.dueAt now job).isSome = true) :
    Due now job (job.nextRunAt.getD 0) := by
  unfold Store.dueAt at due
  split at due
  · next holds =>
    obtain ⟨scheduledAt, found⟩ := Option.isSome_iff_exists.mp due
    obtain ⟨next, past⟩ := Option.filter_eq_some_iff.mp found
    rw [next]
    exact ⟨holds.1, holds.2, next, of_decide_eq_true past⟩
  · cases due

section Relations

variable (env : Env) (origin : Scheduler) (now : ℤ) (op : Op)

/-- How a request rewrites one job. -/
inductive Change (jobId : JsString) (job : Job) : Job → Prop
  | edited {selector patch new columns} (is : op = .update selector patch)
      (named : origin.store.resolveJob selector false = .ok (jobId, job)) (live : job.state ≠ .removed)
      (computed : replacement env job patch now = .ok new)
      (applied : ∃ result, update env origin.store selector patch now = .ok result) :
      Change jobId job (Store.replaced job new columns now)
  | paused {selector} (is : op = .pause selector) (scheduled : job.state = .scheduled) :
      Change jobId job (Store.paused now job)
  | resumed {selector expected time} (is : op = .resume selector expected)
      (named : origin.store.resolveJob selector false = .ok (jobId, job)) (paused : job.state = .paused)
      (computed : resumeTime env job now = .ok time) : Change jobId job (Store.resumed time now job)
  | removed {selector} (is : op = .remove selector) : Change jobId job (Store.removed now job)

/-- How an occurrence, a check result or a request becomes a run, and what it makes of the job. -/
inductive Claim (s : Scheduler) (jobId : JsString) (job : Job) : RunId → Run → Job → Prop
  | plain {scheduledAt nextRunAt run} (is : op = .tick) (due : Due now job scheduledAt) (unchecked : job.check = none)
      (computed : nextCronRunAfter env.calendar job.schedule scheduledAt now = .ok nextRunAt)
      (room : s.store.countActiveRuns < env.maxParallel)
      (makes : run = Store.scheduledRun env.text jobId job scheduledAt now (s.store.activeRun? jobId)) :
      Claim s jobId job (.scheduled jobId scheduledAt) run (Store.afterOccurrence job run nextRunAt now)
  | checked {pending} (is : op = .tick) (waits : job.pendingCheck = some pending) (live : job.state ≠ .removed)
      (idle : s.store.hasActiveRun jobId = false) (room : s.store.countActiveRuns < env.maxParallel)
      (awake : origin.stopped = false) (before : origin.store.getJob jobId = some job) (idleBefore : origin.store.hasActiveRun jobId = false)
      (roomBefore : origin.store.countActiveRuns < env.maxParallel) :
      Claim s jobId job (.scheduled jobId pending.scheduledAt)
        (Run.claim jobId .scheduled pending.scheduledAt now job (some pending.result)) (Store.afterCheck job pending now)
  | manual {selector} (is : op = .runNow selector) (live : job.state ≠ .removed)
      (idle : s.store.hasActiveRun jobId = false) (room : s.store.countActiveRuns < env.maxParallel) :
      Claim s jobId job (.manual jobId now s.draws) (Run.claim jobId .manual now now job none)
        { job with lastRunAt := some now, lastStatus := some .claimed, lastError := none, updatedAt := now }

/-- How the progress of a run rewrites it. -/
inductive RunChange (run : Run) : Run → Prop
  | running {dispatch : Store.Dispatch} (claimed : run.status = .claimed) :
      RunChange run
        { run with
          status := .running, executionModeUsed := some dispatch.executionModeUsed, sessionId := some dispatch.sessionId
          fallbackReason := dispatch.fallbackReason, inputId := some dispatch.inputId, startedAt := some now }
  | finished {status output error} (active : run.status.active = true) (terminal : RunStatus.active status = false) :
      RunChange run { run with status, output, error, completedAt := some now }

/-- A rewriting of job rows that only notes the latest run. -/
def Touches (f : Job → Job) : Prop :=
  ∃ lastStatus lastError updatedAt, f = fun job => { job with lastStatus, lastError, updatedAt }

/-- A rewriting of run rows that only concerns notifications. -/
def Notes (f : Run → Run) : Prop :=
  ∀ run, f run = { run with
    notificationDisposition := (f run).notificationDisposition, notificationBody := (f run).notificationBody
    notificationEvaluatedAt := (f run).notificationEvaluatedAt, notificationRecorded := (f run).notificationRecorded }

/-- What a new job looks like. -/
structure Fresh (job : Job) : Prop where
  count : job.fireCount = 0
  enabled : job.enabled = decide (job.state = .scheduled)
  state : job.state = .scheduled ∨ job.state = .paused
  next : job.nextRunAt.isSome = true
  recurring : job.check.isSome = true → job.schedule.recurring = true
  interval : ∀ intervalSeconds timezone, job.schedule = .every intervalSeconds timezone → 0 < intervalSeconds
  times : ∀ times ∈ job.repeatTimes, 0 < times
  once : job.schedule.recurring = false → job.repeatTimes = some 1
  empty : job.pendingCheck = none
  streak : job.checkFailures = 0 ∧ job.checkAlerted = false

/-- The random draws that an id uses up. -/
def RunId.draws : RunId → ℕ
  | .scheduled .. => 0
  | .manual _ _ draw => draw + 1

/-- The dispatch of a run that was claimed, and none for one that was skipped. -/
def launch (runId : RunId) (run : Run) : List Emission := if run.status.active then [.launched runId run] else []

inductive Move : Scheduler → List Emission → Scheduler → Prop
  | created {s : Scheduler} {jobId job jobs} (inserted : s.store.jobs.insert? jobId job = some jobs) (fresh : Fresh job) :
      Move s [] { s with store := { s.store with jobs } }
  | changed {s : Scheduler} {jobId job next} (found : s.store.getJob jobId = some job)
      (change : Change env origin now op jobId job next) (same : origin = s) :
      Move s [] { s with store := s.store.updateJob jobId fun _ => next }
  | claimed {s : Scheduler} {jobId job runId run next store} (found : s.store.getJob jobId = some job)
      (claim : Claim env origin now op s jobId job runId run next) (inserted : s.store.insertRun runId run = .ok store)
      (unclaimed : origin.store.getRun runId = none) :
      Move s (launch runId run)
        { s with store := store.updateJob jobId fun _ => next, draws := max s.draws runId.draws }
  | deferred {s : Scheduler} {jobId job command scheduledAt nextRunAt checks} (is : op = .tick) (awake : origin.stopped = false)
      (found : s.store.getJob jobId = some job) (due : Due now job scheduledAt) (checked : job.check = some command)
      (empty : job.pendingCheck = none) (idle : (s.checks.any fun check => check.jobId = jobId) = false)
      (computed : nextCronRunAfter env.calendar job.schedule scheduledAt now = .ok nextRunAt)
      (before : ∃ earlier, origin.store.getJob jobId = some earlier ∧ Due now earlier scheduledAt
        ∧ earlier.check = some command ∧ earlier.schedule = job.schedule)
      (started : checks = s.checks ∨ checks = s.checks ++ [⟨jobId, scheduledAt, command, job.cwd, false⟩]) :
      Move s [] { s with store := s.store.updateJob jobId fun _ => { job with nextRunAt, updatedAt := now }, checks }
  | checkFinished {s : Scheduler} {check result} (is : op = .checkFinished check.jobId result) (member : check ∈ s.checks)
      (unfinished : check.finished = false) (same : origin = s) :
      Move s (checkFinished s check result now).2 (checkFinished s check result now).1
  | rewritten {s : Scheduler} {runId run next f} (found : s.store.getRun runId = some run) (change : RunChange now run next)
      (touches : Touches f) : Move s [] { s with store := s.store.updateRun runId next f }
  | noted {s : Scheduler} {runId f} (notes : Notes f) :
      Move s [] { s with store := { s.store with runs := s.store.runs.update runId f } }
  | reconciled {s : Scheduler} (is : op = .start) :
      Move s [] { s with store := s.store.reconcileInterruptedRuns now, stopped := false }
  | pruned {s : Scheduler} (is : op = .tick) : Move s [] { s with store := s.store.pruneRuns env.text 50 }
  | idle {s : Scheduler} {checks stopped} (fewer : List.Sublist checks s.checks) : Move s [] { s with checks, stopped }

/-- A sequence of moves, with all that it emits. -/
inductive Moves : Scheduler → List Emission → Scheduler → Prop
  | nil (s : Scheduler) : Moves s [] s
  | snoc {s t u : Scheduler} {emitted more} (moves : Moves s emitted t) (move : Move env origin now op t more u) :
      Moves s (emitted ++ more) u

/-- Why a step threw: a claim whose insert was refused, or an error of another kind. -/
inductive Throws (s : Scheduler) : CronError → Prop
  | refused {jobId job runId run next thrown} (found : s.store.getJob jobId = some job)
      (claim : Claim env origin now op s jobId job runId run next) (refused : s.store.insertRun runId run = .error thrown) :
      Throws s thrown
  | other {thrown} (different : ∀ index, thrown = .unique index → index = .jobId ∨ index = .liveName) : Throws s thrown

end Relations

section Closure

variable {env : Env} {origin : Scheduler} {now : ℤ} {op : Op}

theorem Moves.single {s t : Scheduler} {emitted : List Emission} (move : Move env origin now op s emitted t) :
    Moves env origin now op s emitted t := by
  have moves := Moves.snoc (.nil s) move
  rwa [List.nil_append] at moves

theorem Claim.named {s : Scheduler} {jobId : JsString} {job next : Job} {runId : RunId} {run : Run}
    (claim : Claim env origin now op s jobId job runId run next) : run.jobId = jobId := by
  cases claim with
  | plain is due unchecked computed room makes =>
    rw [makes]
    unfold Store.scheduledRun
    split <;> rfl
  | checked => rfl
  | manual => rfl

theorem Moves.preserves {P : Scheduler → Prop} (keeps : ∀ s emitted t, Move env origin now op s emitted t → P s → P t)
    {s t : Scheduler} {emitted : List Emission} (moves : Moves env origin now op s emitted t) (start : P s) : P t := by
  induction moves with
  | nil => exact start
  | snoc _ move ih => exact keeps _ _ _ move ih

end Closure

end PersistentHarness.Cron
