import PersistentHarness.Soundness.Cron.Runs

/-! # How single rows evolve

A move leaves each job row as it was, notes the latest run in it, or rewrites it in one of a few ways; a
new row is fresh. A run row only progresses, and a new one comes from a claim. An invariant of single
rows is proved once for each of these ways.
-/

namespace PersistentHarness.Cron

open Store (afterCheck afterOccurrence)

section CheckResults

variable {s : Scheduler} {check : RunningCheck} {now : ℤ}

/-- The job after a check reported, and what should wake the agent. -/
def recordOutcome (job : Job) (now : ℤ) : CheckResult → Job × Option CheckText
  | .ok output =>
    ({ job with
        checkFailures := 0, checkAlerted := false
        lastError := if 0 < job.checkFailures then none else job.lastError, updatedAt := now },
      if output = [] then none else some ⟨.output, output⟩)
  | .failed error =>
    let failures := job.checkFailures + 1
    let alert := cronCheckFailureAlertThreshold ≤ failures && !job.checkAlerted
    ({ job with
        checkFailures := failures, lastError := some (js "check failed: " ++ error), updatedAt := now
        checkAlerted := alert || job.checkAlerted },
      if alert then
        some ⟨.failure, js "The check command failed " ++ Json.decimal failures ++ js " times in a row. Last error: " ++ error⟩
      else none)

/-- The job with a result that it can take: it is not removed and its slot is empty. -/
def takeResult (job : Job) (pending : PendingCheck) (now : ℤ) : Job :=
  if job.state ≠ .removed ∧ job.pendingCheck = none then { job with pendingCheck := some pending, updatedAt := now } else job

def afterFinish (job : Job) (result : CheckResult) (scheduledAt now : ℤ) : Job :=
  match recordOutcome job now result with
  | (recorded, none) => recorded
  | (recorded, some text) => takeResult recorded ⟨text, scheduledAt⟩ now

def finishEmits (jobId : JsString) (job : Job) (result : CheckResult) (scheduledAt now : ℤ) : List Emission :=
  match recordOutcome job now result with
  | (_, none) => []
  | (_, some text) => [.handed jobId ⟨text, scheduledAt⟩ (decide (job.state ≠ .removed ∧ job.pendingCheck = none))]

theorem recordOutcome_kept (job : Job) (now : ℤ) (result : CheckResult) :
    (recordOutcome job now result).1.state = job.state ∧ (recordOutcome job now result).1.pendingCheck = job.pendingCheck := by
  cases result <;> exact ⟨rfl, rfl⟩

theorem setPendingCheck_of (store : Store) {jobId : JsString} {job : Job} (found : store.getJob jobId = some job)
    (pending : PendingCheck) (now : ℤ) :
    (∀ other, (store.setPendingCheck jobId pending now).1.getJob other =
        if other = jobId then some (takeResult job pending now) else store.getJob other)
      ∧ (store.setPendingCheck jobId pending now).1.runs = store.runs
      ∧ (store.setPendingCheck jobId pending now).2 = decide (job.state ≠ .removed ∧ job.pendingCheck = none) := by
  unfold Store.setPendingCheck takeResult
  rw [found]
  by_cases takes : job.state ≠ .removed ∧ job.pendingCheck = none
  · rw [Option.filter_some, if_pos (decide_eq_true takes), if_pos takes]
    exact ⟨Store.getJob_updateJob_of found _, rfl, (decide_eq_true takes).symm⟩
  · rw [Option.filter_some, if_neg (by simpa using takes), if_neg takes, decide_eq_false takes]
    refine ⟨fun other => ?_, rfl, rfl⟩
    simp only
    split
    · next here => rw [here, found]
    · rfl

private theorem checkFinished_recorded {job : Job} (found : s.store.getJob check.jobId = some job) (result : CheckResult) :
    ∃ store : Store, (∀ other, store.getJob other =
      if other = check.jobId then some (recordOutcome job now result).1 else s.store.getJob other)
      ∧ store.runs = s.store.runs
      ∧ checkFinished s check result now =
        (match (recordOutcome job now result).2 with
          | none => ({ s with store, checks := s.checks.map fun other =>
              if other.jobId = check.jobId then { other with finished := true } else other }, [])
          | some text =>
            ({ s with
                store := (store.setPendingCheck check.jobId ⟨text, check.scheduledAt⟩ now).1
                checks := s.checks.map fun other =>
                  if other.jobId = check.jobId then { other with finished := true } else other },
              [.handed check.jobId ⟨text, check.scheduledAt⟩
                (store.setPendingCheck check.jobId ⟨text, check.scheduledAt⟩ now).2])) := by
  cases result with
  | ok output =>
    refine ⟨s.store.recordCheckSuccess check.jobId now, fun other => ?_, rfl, ?_⟩
    · rw [Store.recordCheckSuccess, Store.getJob_updateJob]
      split
      · next here => rw [here, found]; rfl
      · rfl
    · rfl
  | failed error =>
    refine ⟨(s.store.recordCheckFailure check.jobId error cronCheckFailureAlertThreshold now).1, fun other => ?_, ?_, ?_⟩
    · unfold Store.recordCheckFailure
      rw [found]
      exact Store.getJob_updateJob_of found _ other
    · unfold Store.recordCheckFailure
      rw [found]
      rfl
    · unfold checkFinished Store.recordCheckFailure
      rw [found]
      rfl

/-- A finished check rewrites its job, and nothing else of the tables. -/
theorem checkFinished_spec {job : Job} (found : s.store.getJob check.jobId = some job) (result : CheckResult) :
    (∀ other, (checkFinished s check result now).1.store.getJob other =
        if other = check.jobId then some (afterFinish job result check.scheduledAt now) else s.store.getJob other)
      ∧ (checkFinished s check result now).1.store.runs = s.store.runs
      ∧ (checkFinished s check result now).2 = finishEmits check.jobId job result check.scheduledAt now := by
  obtain ⟨store, rows, runs, same⟩ := checkFinished_recorded found result
  have here : store.getJob check.jobId = some (recordOutcome job now result).1 := by
    rw [rows, if_pos rfl]
  obtain ⟨state, slot⟩ := recordOutcome_kept job now result
  unfold afterFinish finishEmits
  rw [same]
  cases outcome : recordOutcome job now result with
  | mk recorded text =>
    rw [outcome] at here rows state slot
    cases text with
    | none => exact ⟨rows, runs, rfl⟩
    | some text =>
      obtain ⟨written, kept, stored⟩ := setPendingCheck_of store here ⟨text, check.scheduledAt⟩ now
      refine ⟨fun other => ?_, kept.trans runs, ?_⟩
      · simp only
        rw [written]
        split
        · rfl
        · next other' => rw [rows, if_neg other']
      · simp only
        rw [stored, state, slot]

/-- A rewriting of a job that leaves its schedule and its count alone. -/
structure SamePlan (job next : Job) : Prop where
  state : next.state = job.state
  enabled : next.enabled = job.enabled
  nextRunAt : next.nextRunAt = job.nextRunAt
  fireCount : next.fireCount = job.fireCount
  repeatTimes : next.repeatTimes = job.repeatTimes
  schedule : next.schedule = job.schedule
  check : next.check = job.check

theorem recordOutcome_samePlan (job : Job) (now : ℤ) (result : CheckResult) : SamePlan job (recordOutcome job now result).1 := by
  cases result <;> exact ⟨rfl, rfl, rfl, rfl, rfl, rfl, rfl⟩

theorem takeResult_samePlan (job : Job) (pending : PendingCheck) (now : ℤ) : SamePlan job (takeResult job pending now) := by
  unfold takeResult
  split <;> exact ⟨rfl, rfl, rfl, rfl, rfl, rfl, rfl⟩

theorem SamePlan.trans {job next final : Job} (first : SamePlan job next) (second : SamePlan next final) : SamePlan job final := by
  constructor
  · exact second.state.trans first.state
  · exact second.enabled.trans first.enabled
  · exact second.nextRunAt.trans first.nextRunAt
  · exact second.fireCount.trans first.fireCount
  · exact second.repeatTimes.trans first.repeatTimes
  · exact second.schedule.trans first.schedule
  · exact second.check.trans first.check

theorem afterFinish_samePlan (job : Job) (result : CheckResult) (scheduledAt now : ℤ) :
    SamePlan job (afterFinish job result scheduledAt now) := by
  have recorded := recordOutcome_samePlan job now result
  unfold afterFinish
  split
  · next row outcome =>
    rw [outcome] at recorded
    exact recorded
  · next row text outcome =>
    rw [outcome] at recorded
    exact recorded.trans (takeResult_samePlan ..)

/-- A finished check leaves the slot of its job alone, or puts its own result into the empty slot. -/
theorem afterFinish_pending (job : Job) (result : CheckResult) (scheduledAt now : ℤ) :
    (afterFinish job result scheduledAt now).pendingCheck = job.pendingCheck
      ∨ job.pendingCheck = none ∧ ∃ text, (afterFinish job result scheduledAt now).pendingCheck = some ⟨text, scheduledAt⟩ := by
  obtain ⟨_, slot⟩ := recordOutcome_kept job now result
  unfold afterFinish
  split
  · next row outcome =>
    rw [outcome] at slot
    exact .inl slot
  · next row text outcome =>
    rw [outcome] at slot
    unfold takeResult
    split
    · next takes => exact .inr ⟨slot.symm.trans takes.2, text, rfl⟩
    · exact .inl slot

end CheckResults

section Evolution

variable {env : Env} {origin : Scheduler} {now : ℤ} {op : Op}

/-- How a move rewrites a job row. -/
inductive Evolves (env : Env) (origin : Scheduler) (now : ℤ) (op : Op) (s : Scheduler) (jobId : JsString) (job : Job) : Job → Prop
  | same : Evolves env origin now op s jobId job job
  | touched (lastStatus : Option RunStatus) (lastError : Option JsString) (updatedAt : ℤ) :
      Evolves env origin now op s jobId job { job with lastStatus, lastError, updatedAt }
  | changed {next} (change : Change env origin now op jobId job next) : Evolves env origin now op s jobId job next
  | claimed {runId run next} (claim : Claim env origin now op s jobId job runId run next) :
      Evolves env origin now op s jobId job next
  | deferred {command scheduledAt nextRunAt} (is : op = .tick) (awake : origin.stopped = false) (due : Due now job scheduledAt)
      (checked : job.check = some command) (empty : job.pendingCheck = none)
      (computed : nextCronRunAfter env.calendar job.schedule scheduledAt now = .ok nextRunAt)
      (before : ∃ earlier, origin.store.getJob jobId = some earlier ∧ Due now earlier scheduledAt
        ∧ earlier.check = some command ∧ earlier.schedule = job.schedule) :
      Evolves env origin now op s jobId job { job with nextRunAt, updatedAt := now }
  | finished {check result} (is : op = .checkFinished jobId result) (named : check.jobId = jobId) (member : check ∈ s.checks)
      (unfinished : check.finished = false) :
      Evolves env origin now op s jobId job (afterFinish job result check.scheduledAt now)

/-- A finished check of a job that does not exist changes no row. -/
theorem checkFinished_missing {s : Scheduler} {check : RunningCheck} (missing : s.store.getJob check.jobId = none)
    (result : CheckResult) (other : JsString) :
    (checkFinished s check result now).1.store.getJob other = s.store.getJob other := by
  have unchanged : ∀ (store : Store) (f : Job → Job), store.getJob check.jobId = none →
      (store.updateJob check.jobId f).getJob other = store.getJob other := by
    intro store f absent
    rw [Store.getJob_updateJob]
    split
    · next here => rw [here, absent]; rfl
    · rfl
  cases result with
  | ok output =>
    unfold checkFinished
    simp only
    split
    · exact unchanged _ _ missing
    · have absent : (s.store.recordCheckSuccess check.jobId now).getJob check.jobId = none := by
        rw [Store.recordCheckSuccess, Store.getJob_updateJob, if_pos rfl, missing]
        rfl
      simp only [Store.setPendingCheck, absent, Option.filter_none]
      exact unchanged _ _ missing
  | failed error =>
    simp only [checkFinished, Store.recordCheckFailure, missing, Bool.false_eq_true, ↓reduceIte]

theorem checkFinished_runs (s : Scheduler) (check : RunningCheck) (result : CheckResult) (now : ℤ) :
    (checkFinished s check result now).1.store.runs = s.store.runs := by
  have slot : ∀ (store : Store) (pending : PendingCheck), (store.setPendingCheck check.jobId pending now).1.runs = store.runs := by
    intro store pending
    unfold Store.setPendingCheck
    split <;> rfl
  cases result with
  | ok output =>
    unfold checkFinished
    simp only
    split
    · rfl
    · exact slot _ _
  | failed error =>
    have failure : (s.store.recordCheckFailure check.jobId error cronCheckFailureAlertThreshold now).1.runs = s.store.runs := by
      unfold Store.recordCheckFailure
      split <;> rfl
    unfold checkFinished
    simp only
    split
    · exact failure
    · exact (slot _ _).trans failure

/-- A finished check stays in flight until it settles, as the only one of its job. -/
theorem checkFinished_checks (s : Scheduler) (check : RunningCheck) (result : CheckResult) (now : ℤ) :
    (checkFinished s check result now).1.checks =
      s.checks.map fun other => if other.jobId = check.jobId then { other with finished := true } else other := by
  cases result with
  | ok output =>
    unfold checkFinished
    simp only
    split <;> rfl
  | failed error =>
    unfold checkFinished
    simp only
    split <;> rfl

theorem Move.job {s t : Scheduler} {emitted : List Emission} (move : Move env origin now op s emitted t) {jobId : JsString}
    {next : Job} (found : t.store.getJob jobId = some next) :
    (s.store.getJob jobId = none ∧ Fresh next)
      ∨ ∃ job, s.store.getJob jobId = some job ∧ Evolves env origin now op s jobId job next := by
  have rewritten : ∀ (store : Store) (target : JsString) (job written : Job), store.getJob target = some job →
      (∀ other, store.getJob other = s.store.getJob other) →
      (store.updateJob target fun _ => written).getJob jobId = some next →
      Evolves env origin now op s target job written →
      ∃ job, s.store.getJob jobId = some job ∧ Evolves env origin now op s jobId job next := by
    intro store target job written stored same read evolves
    rw [Store.getJob_updateJob_of stored] at read
    split at read
    · next here =>
      cases read
      subst here
      exact ⟨job, (same _).symm.trans stored, evolves⟩
    · exact ⟨next, (same _).symm.trans read, .same⟩
  cases move with
  | @created newId job jobs inserted fresh =>
    have read : (if newId = jobId then some job else s.store.getJob jobId) = some next :=
      (Table.get?_insert inserted jobId).symm.trans found
    split at read
    · next here =>
      cases read
      subst here
      exact .inl ⟨Table.fresh_of_insert? inserted, fresh⟩
    · exact .inr ⟨next, read, .same⟩
  | changed stored change => exact .inr (rewritten _ _ _ _ stored (fun _ => rfl) found (.changed change))
  | claimed stored claim inserted =>
    refine .inr (rewritten _ _ _ _ ?_ (Store.getJob_insertRun inserted) found (.claimed claim))
    rw [Store.getJob_insertRun inserted, stored]
  | deferred is awake stored due checked empty idle computed before started =>
    exact .inr (rewritten _ _ _ _ stored (fun _ => rfl) found (.deferred is awake due checked empty computed before))
  | @checkFinished check result is member unfinished =>
    cases stored : s.store.getJob check.jobId with
    | none => exact .inr ⟨next, (checkFinished_missing stored result jobId).symm.trans found, .same⟩
    | some job =>
      rw [(checkFinished_spec stored result).1] at found
      split at found
      · next here =>
        cases found
        subst here
        exact .inr ⟨job, stored, .finished is rfl member unfinished⟩
      · exact .inr ⟨next, found, .same⟩
  | @rewritten runId run written f stored change touches =>
    obtain ⟨lastStatus, lastError, updatedAt, rfl⟩ := touches
    have read := (Table.get?_update ..).symm.trans found
    split at read
    · obtain ⟨job, here, rfl⟩ := Option.map_eq_some_iff.mp read
      exact .inr ⟨job, here, .touched ..⟩
    · exact .inr ⟨next, read, .same⟩
  | noted notes => exact .inr ⟨next, found, .same⟩
  | reconciled is =>
    have read := (Table.get?_modify ..).symm.trans found
    obtain ⟨job, here, rfl⟩ := Option.map_eq_some_iff.mp read
    refine .inr ⟨job, here, ?_⟩
    split
    · exact .touched ..
    · exact .same
  | pruned => exact .inr ⟨next, found, .same⟩
  | idle => exact .inr ⟨next, found, .same⟩

/-- No job row is ever deleted. -/
theorem Move.keepsJob {s t : Scheduler} {emitted : List Emission} (move : Move env origin now op s emitted t) {jobId : JsString}
    {job : Job} (found : s.store.getJob jobId = some job) : ∃ next, t.store.getJob jobId = some next := by
  have rewritten : ∀ (store : Store) (target : JsString) (f : Job → Job), store.getJob jobId = some job →
      ∃ next, (store.updateJob target f).getJob jobId = some next := by
    intro store target f stored
    rw [Store.getJob_updateJob, stored]
    split
    · exact ⟨f job, rfl⟩
    · exact ⟨job, rfl⟩
  cases move with
  | created inserted =>
    have read := Table.get?_insert inserted jobId
    split at read
    · exact ⟨_, read⟩
    · exact ⟨job, read.trans found⟩
  | changed => exact rewritten _ _ _ found
  | claimed stored claim inserted => exact rewritten _ _ _ ((Store.getJob_insertRun inserted jobId).trans found)
  | deferred => exact rewritten _ _ _ found
  | @checkFinished check result =>
    cases stored : s.store.getJob check.jobId with
    | none => exact ⟨job, (checkFinished_missing stored result jobId).trans found⟩
    | some row =>
      rw [(checkFinished_spec stored result).1]
      split
      · exact ⟨_, rfl⟩
      · exact ⟨job, found⟩
  | @rewritten _ _ written f stored change touches =>
    have read := Table.get?_update s.store.jobs written.jobId f jobId
    rw [show s.store.jobs.get? jobId = some job from found] at read
    split at read
    · exact ⟨_, read⟩
    · exact ⟨job, read⟩
  | noted => exact ⟨job, found⟩
  | reconciled =>
    change ∃ next, (Table.modify s.store.jobs _).get? jobId = some next
    rw [Table.get?_modify, show s.store.jobs.get? jobId = some job from found]
    exact ⟨_, rfl⟩
  | pruned => exact ⟨job, found⟩
  | idle => exact ⟨job, found⟩

def EachJob (P : JsString → Job → Prop) (s : Scheduler) : Prop :=
  ∀ jobId job, s.store.getJob jobId = some job → P jobId job

theorem Move.eachJob {s t : Scheduler} {emitted : List Emission} {P : JsString → Job → Prop}
    (move : Move env origin now op s emitted t) (fresh : ∀ jobId job, s.store.getJob jobId = none → Fresh job → P jobId job)
    (keeps : ∀ jobId job next, s.store.getJob jobId = some job → Evolves env origin now op s jobId job next →
      P jobId job → P jobId next)
    (holds : EachJob P s) : EachJob P t := by
  intro jobId next found
  rcases move.job found with ⟨absent, isFresh⟩ | ⟨job, stored, evolves⟩
  · exact fresh jobId next absent isFresh
  · exact keeps jobId job next stored evolves (holds jobId job stored)

end Evolution

section RunRows

variable {env : Env} {origin : Scheduler} {now : ℤ} {op : Op}

/-- How a move rewrites a run row. -/
inductive RunEvolves (now : ℤ) (run : Run) : Run → Prop
  | same : RunEvolves now run run
  | changed {next} (change : RunChange now run next) : RunEvolves now run next
  | noted {f} (notes : Notes f) : RunEvolves now run (f run)
  | interrupted : RunEvolves now run (Store.interrupt now run)

/-- What names a run, and the result it carries, never changes. -/
theorem RunEvolves.named {run next : Run} (evolves : RunEvolves now run next) :
    next.jobId = run.jobId ∧ next.source = run.source ∧ next.scheduledAt = run.scheduledAt ∧ next.check = run.check := by
  cases evolves with
  | same => exact ⟨rfl, rfl, rfl, rfl⟩
  | changed change => cases change <;> exact ⟨rfl, rfl, rfl, rfl⟩
  | noted notes =>
    rw [notes run]
    exact ⟨rfl, rfl, rfl, rfl⟩
  | interrupted =>
    unfold Store.interrupt
    split <;> exact ⟨rfl, rfl, rfl, rfl⟩

theorem RunEvolves.terminal {run next : Run} (evolves : RunEvolves now run next) (ended : run.status.active = false) :
    next.status = run.status ∧ next.output = run.output ∧ next.error = run.error := by
  cases evolves with
  | same => exact ⟨rfl, rfl, rfl⟩
  | changed change =>
    cases change with
    | running claimed =>
      rw [claimed] at ended
      cases ended
    | finished active =>
      rw [active] at ended
      cases ended
  | noted notes =>
    rw [notes run]
    exact ⟨rfl, rfl, rfl⟩
  | interrupted =>
    unfold Store.interrupt
    rw [if_neg (by simp [ended])]
    exact ⟨rfl, rfl, rfl⟩

theorem RunEvolves.active {run next : Run} (evolves : RunEvolves now run next) (active : next.status.active = true) :
    run.status.active = true := by
  by_contra ended
  have kept := (evolves.terminal (Bool.eq_false_iff.mpr ended)).1
  rw [kept] at active
  exact ended active

theorem Move.runs {s t : Scheduler} {emitted : List Emission} (move : Move env origin now op s emitted t) :
    (∃ jobId job newId new nextJob store, s.store.getJob jobId = some job ∧ Claim env origin now op s jobId job newId new nextJob
        ∧ s.store.insertRun newId new = .ok store ∧ origin.store.getRun newId = none ∧ newId.draws ≤ t.draws
        ∧ t.store.runs = store.runs)
      ∨ ∀ runId next, t.store.getRun runId = some next → ∃ run, s.store.getRun runId = some run ∧ RunEvolves now run next := by
  have rewritten : ∀ (target : RunId) (f : Run → Run), (∀ run, s.store.getRun target = some run → RunEvolves now run (f run)) →
      ∀ runId next, (s.store.runs.update target f).get? runId = some next →
        ∃ run, s.store.getRun runId = some run ∧ RunEvolves now run next := by
    intro target f evolves runId next read
    rw [Table.get?_update] at read
    split at read
    · next here =>
      obtain ⟨run, stored, rfl⟩ := Option.map_eq_some_iff.mp read
      exact ⟨run, stored, evolves run (here ▸ stored)⟩
    · exact ⟨next, read, .same⟩
  cases move with
  | created => exact .inr fun runId next found => ⟨next, found, .same⟩
  | changed => exact .inr fun runId next found => ⟨next, found, .same⟩
  | claimed stored claim inserted unclaimed =>
    exact .inl ⟨_, _, _, _, _, _, stored, claim, inserted, unclaimed, Nat.le_max_right .., rfl⟩
  | deferred => exact .inr fun runId next found => ⟨next, found, .same⟩
  | @checkFinished check result is member unfinished =>
    have runs := checkFinished_runs s check result now
    exact .inr fun runId next found => ⟨next, (congrArg (fun runs => Table.get? runs runId) runs).symm.trans found, .same⟩
  | rewritten stored change touches =>
    exact .inr (rewritten _ _ fun run here => .changed (Option.some.inj (stored.symm.trans here) ▸ change))
  | noted notes => exact .inr (rewritten _ _ fun _ _ => .noted notes)
  | reconciled is =>
    refine .inr fun runId next found => ?_
    have read := (Table.get?_modify ..).symm.trans found
    obtain ⟨run, stored, rfl⟩ := Option.map_eq_some_iff.mp read
    exact ⟨run, stored, .interrupted⟩
  | pruned is =>
    refine .inr fun runId next found => ?_
    have read := (Table.get?_delete ..).symm.trans found
    exact ⟨next, (Option.filter_eq_some_iff.mp read).1, .same⟩
  | idle => exact .inr fun runId next found => ⟨next, found, .same⟩

theorem Move.run {s t : Scheduler} {emitted : List Emission} (move : Move env origin now op s emitted t) {runId : RunId}
    {next : Run} (found : t.store.getRun runId = some next) :
    (∃ jobId job nextJob store, s.store.getJob jobId = some job ∧ Claim env origin now op s jobId job runId next nextJob
        ∧ s.store.insertRun runId next = .ok store ∧ origin.store.getRun runId = none ∧ runId.draws ≤ t.draws)
      ∨ ∃ run, s.store.getRun runId = some run ∧ RunEvolves now run next := by
  rcases move.runs with ⟨jobId, job, newId, new, nextJob, store, stored, claim, inserted, unclaimed, draws, same⟩ | evolved
  · have read := (Store.getRun_insertRun inserted runId).symm.trans ((congrArg (fun runs => Table.get? runs runId) same).symm.trans found)
    split at read
    · next here =>
      cases read
      subst here
      exact .inl ⟨jobId, job, nextJob, store, stored, claim, inserted, unclaimed, draws⟩
    · exact .inr ⟨next, read, .same⟩
  · exact .inr (evolved runId next found)

end RunRows

end PersistentHarness.Cron
