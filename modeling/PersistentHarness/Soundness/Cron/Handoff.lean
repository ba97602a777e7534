import PersistentHarness.Soundness.Cron.Occurrences

/-! # Check results are handed over once

An observer of one job records the results that its checks should hand over, those that runs have taken,
and the failures in a row since the last success or edit. The slot of the job holds exactly what is handed
over and not yet taken: no result is refused, overwritten, lost or taken twice.
-/

namespace PersistentHarness.Cron

open Store (afterCheck afterOccurrence)

section Observer

variable (env : Env) (jobId : JsString)

structure Ledger where
  results : List PendingCheck
  moved : List PendingCheck
  streak : ℕ

def Ledger.empty : Ledger := ⟨[], [], 0⟩

/-- The check of a job that a completion ends. -/
def Scheduler.runningCheck? (s : Scheduler) (jobId : JsString) : Option RunningCheck :=
  s.checks.find? fun check => check.jobId = jobId ∧ check.finished = false

/-- What should wake the agent: a non-empty output, and the failure that makes a streak reach the threshold. -/
def wakes (streak : ℕ) (check : RunningCheck) : CheckResult → Option PendingCheck
  | .ok output => if output = [] then none else some ⟨⟨.output, output⟩, check.scheduledAt⟩
  | .failed error =>
    if streak + 1 = cronCheckFailureAlertThreshold then
      some ⟨⟨.failure, js "The check command failed " ++ Json.decimal cronCheckFailureAlertThreshold
        ++ js " times in a row. Last error: " ++ error⟩, check.scheduledAt⟩
    else none

/-- The result that a step should hand over, for a job that is not removed. -/
def handed (streak : ℕ) (s : Scheduler) : Op → Option PendingCheck
  | .checkFinished target result =>
    if target = jobId ∧ ((s.store.getJob jobId).any fun job => job.state ≠ .removed) then
      (s.runningCheck? jobId).bind fun check => wakes streak check result
    else none
  | _ => none

/-- The step is an accepted edit of the job. -/
def edits (s : Scheduler) (now : ℤ) : Op → Bool
  | .update selector patch =>
    match s.store.resolveJob selector false, update env s.store selector patch now with
    | .ok (named, _), .ok _ => named = jobId
    | _, _ => false
  | _ => false

/-- The failures in a row after a result. -/
def extend (streak : ℕ) : CheckResult → ℕ
  | .ok _ => 0
  | .failed _ => streak + 1

/-- The failures in a row after a step. -/
def streakAfter (streak : ℕ) (s : Scheduler) (now : ℤ) : Op → ℕ
  | .checkFinished target result => if target = jobId ∧ (s.runningCheck? jobId).isSome then extend streak result else streak
  | op => if edits env jobId s now op then 0 else streak

def carriedBy (run : Run) : Option PendingCheck :=
  if run.jobId = jobId then run.check.map fun text => ⟨text, run.scheduledAt⟩ else none

/-- The result that a dispatched run takes along. -/
def carried : Emission → Option PendingCheck
  | .launched _ run => carriedBy jobId run
  | .handed .. => none

/-- What the observer has recorded after a step. -/
def Ledger.note (l : Ledger) (s : Scheduler) (event : ℤ × Op) : Ledger :=
  { results := l.results ++ (handed jobId l.streak s event.2).toList
    moved := l.moved ++ (step env s event.1 event.2).2.emitted.filterMap (carried jobId)
    streak := streakAfter env jobId l.streak s event.1 event.2 }

/-- What the observer has recorded after a run. -/
def observe (events : List (ℤ × Op)) : Ledger :=
  (events.foldl (fun (seen : Ledger × Scheduler) event =>
    (seen.1.note env jobId seen.2 event, (step env seen.2 event.1 event.2).1)) (.empty, .initial)).1

/-- The result that waits in the slot of the job. -/
def slot (s : Scheduler) : List PendingCheck := ((s.store.getJob jobId).bind Job.pendingCheck).toList

def storedResults (s : Scheduler) : List PendingCheck := s.store.runs.collect fun _ run => carriedBy jobId run

theorem observe_concat (events : List (ℤ × Op)) (event : ℤ × Op) :
    observe env jobId (events ++ [event]) = (observe env jobId events).note env jobId (run env events) event := by
  have state : ∀ events : List (ℤ × Op), (events.foldl (fun (seen : Ledger × Scheduler) event =>
      (seen.1.note env jobId seen.2 event, (step env seen.2 event.1 event.2).1)) (.empty, .initial)).2 = run env events := by
    intro events
    induction events using List.reverseRec with
    | nil => rfl
    | append_singleton events event ih => rw [List.foldl_concat, run_concat, ← ih]
  rw [observe, List.foldl_concat, ← state]
  rfl

end Observer

section Moves

variable {env : Env} {origin s t : Scheduler} {now : ℤ} {op : Op} {emitted : List Emission} {jobId : JsString}

/-- What the checks of a job have left in its row. -/
def Job.checkState (job : Job) : Option PendingCheck × ℕ × Bool := (job.pendingCheck, job.checkFailures, job.checkAlerted)

def checkState (s : Scheduler) (jobId : JsString) : Option (Option PendingCheck × ℕ × Bool) :=
  (s.store.getJob jobId).map Job.checkState

theorem Claim.carried {target : JsString} {job next : Job} {runId : RunId} {run : Run}
    (claim : Claim env origin now op s target job runId run next) :
    (launch runId run).filterMap (carried jobId) = (carriedBy jobId run).toList := by
  have active : run.check = none ∨ run.status.active = true := by
    cases claim with
    | plain is due unchecked computed room makes =>
      left
      rw [makes]
      unfold Store.scheduledRun
      split <;> rfl
    | checked => exact .inr rfl
    | manual => exact .inl rfl
  unfold launch
  rcases active with empty | active
  · have nothing : carriedBy jobId run = none := by simp [carriedBy, empty]
    split <;> simp [Cron.carried, nothing]
  · rw [if_pos active]
    cases carries : carriedBy jobId run <;> simp [Cron.carried, carries]

/-- How a step that neither edits a job nor finishes a check moves results: not at all, by creating an empty
slot, or from the slot of a job into a dispatched run. -/
inductive Passes (before : Option (Option PendingCheck × ℕ × Bool)) : List PendingCheck →
    Option (Option PendingCheck × ℕ × Bool) → Prop
  | still : Passes before [] before
  | born (absent : before = none) : Passes before [] (some (none, 0, false))
  | taken {pending failures alerted} (waits : before = some (some pending, failures, alerted)) :
      Passes before [pending] (some (none, failures, alerted))

/-- The record of the observer agrees with the row of the job. -/
structure Agrees (l : Ledger) (row : Option (Option PendingCheck × ℕ × Bool)) : Prop where
  balance : l.results = l.moved ++ (row.bind Prod.fst).toList
  streak : ∀ state ∈ row, state.2 = (l.streak, decide (cronCheckFailureAlertThreshold ≤ l.streak))
  unborn : row = none → l.streak = 0

theorem Passes.agrees {before after : Option (Option PendingCheck × ℕ × Bool)} {results : List PendingCheck} {l : Ledger}
    (passes : Passes before results after) (agrees : Agrees l before) : Agrees { l with moved := l.moved ++ results } after := by
  obtain ⟨balance, streak, unborn⟩ := agrees
  cases passes with
  | still =>
    rw [List.append_nil]
    exact ⟨balance, streak, unborn⟩
  | born absent =>
    subst absent
    rw [List.append_nil]
    refine ⟨balance, ?_, fun impossible => by cases impossible⟩
    rintro state ⟨⟩
    rw [unborn rfl]
    rfl
  | @taken pending failures alerted waits =>
    subst waits
    refine ⟨?_, ?_, fun impossible => by cases impossible⟩
    · simp only [balance, Option.bind_some, Option.toList_some, Option.toList_none, List.append_nil]
    · rintro state ⟨⟩
      exact streak (some pending, failures, alerted) rfl

/-- A row that a move writes keeps what the checks have left. -/
theorem checkState_rewrite {target : JsString} {job next : Job} (found : s.store.getJob target = some job)
    (rows : ∀ other, t.store.getJob other = if other = target then some next else s.store.getJob other)
    (same : next.checkState = job.checkState) (jobId : JsString) : checkState t jobId = checkState s jobId := by
  unfold checkState
  rw [rows]
  split
  · next here => rw [here, found, Option.map_some, Option.map_some, same]
  · rfl

theorem Move.passes (unfinished : ∀ target result, op ≠ .checkFinished target result)
    (unedited : ∀ selector patch, op ≠ .update selector patch) (move : Move env origin now op s emitted t) :
    Passes (checkState s jobId) (emitted.filterMap (carried jobId)) (checkState t jobId) := by
  have kept : ∀ {u : Scheduler}, checkState u jobId = checkState s jobId → Passes (checkState s jobId) [] (checkState u jobId) :=
    fun same => same ▸ .still
  cases move with
  | @created newId job jobs inserted fresh =>
    have read := Table.get?_insert inserted jobId
    split at read
    · next here =>
      subst here
      have absent : checkState s newId = none := by
        rw [checkState, Store.getJob, Table.fresh_of_insert? inserted]
        rfl
      have row : job.checkState = (none, 0, false) := by rw [Job.checkState, fresh.empty, fresh.streak.1, fresh.streak.2]
      have born : checkState { s with store := { s.store with jobs } } newId = some (none, 0, false) := by
        rw [checkState, Store.getJob, read, Option.map_some, row]
      rw [born]
      exact .born absent
    · exact kept (congrArg (Option.map Job.checkState) read)
  | @changed target job next found change same =>
    refine kept (checkState_rewrite found (Store.getJob_updateJob_of found next) ?_ jobId)
    cases change with
    | edited is => exact (unedited _ _ is).elim
    | paused => rfl
    | resumed => rfl
    | removed => rfl
  | @claimed target job runId run next store found claim inserted unclaimed =>
    have rows : ∀ other, (store.updateJob target fun _ => next).getJob other =
        if other = target then some next else s.store.getJob other := by
      intro other
      rw [Store.getJob_updateJob_of ((Store.getJob_insertRun inserted target).trans found), Store.getJob_insertRun inserted]
    have named := claim.named
    have emits : (launch runId run).filterMap (carried jobId) = (carriedBy jobId run).toList := claim.carried
    cases claim with
    | plain is due unchecked computed room makes =>
      have empty : run.check = none := by
        rw [makes]
        unfold Store.scheduledRun
        split <;> rfl
      have nothing : carriedBy jobId run = none := by simp [carriedBy, empty]
      rw [emits, nothing]
      refine kept (checkState_rewrite found rows ?_ jobId)
      rfl
    | @checked pending is waits live idle =>
      rw [emits]
      unfold checkState
      rw [rows]
      split
      · next here =>
        have result : carriedBy jobId (Run.claim target .scheduled pending.scheduledAt now job (some pending.result)) = some pending :=
          if_pos here.symm
        have before : (s.store.getJob jobId).map Job.checkState = some (some pending, job.checkFailures, job.checkAlerted) := by
          subst here
          rw [found, Option.map_some, Job.checkState, waits]
        rw [result]
        exact .taken before
      · next different =>
        have nothing : carriedBy jobId (Run.claim target .scheduled pending.scheduledAt now job (some pending.result)) = none :=
          if_neg (Ne.symm different)
        rw [nothing]
        exact .still
    | manual =>
      have nothing : carriedBy jobId (Run.claim target .manual now now job none) = none := ite_self none
      rw [emits, nothing]
      refine kept (checkState_rewrite found rows ?_ jobId)
      rfl
  | @deferred target job command scheduledAt nextRunAt checks is awake found =>
    refine kept (checkState_rewrite found (Store.getJob_updateJob_of found _) ?_ jobId)
    rfl
  | checkFinished is => exact (unfinished _ _ is).elim
  | @rewritten runId run written f stored change touches =>
    obtain ⟨lastStatus, lastError, updatedAt, rfl⟩ := touches
    refine kept ?_
    unfold checkState Store.getJob Store.updateRun
    rw [Table.get?_update]
    split
    · rw [Option.map_map]
      rfl
    · rfl
  | noted => exact .still
  | reconciled =>
    refine kept ?_
    unfold checkState Store.getJob Store.reconcileInterruptedRuns
    rw [Table.get?_modify, Option.map_map]
    congr 1
    funext job
    simp only [Function.comp_apply]
    split <;> rfl
  | pruned => exact .still
  | idle => exact .still

theorem RunEvolves.carriedBy {run next : Run} (evolves : RunEvolves now run next) :
    carriedBy jobId next = carriedBy jobId run := by
  obtain ⟨named, _, occurrence, check⟩ := evolves.named
  rw [Cron.carriedBy, named, occurrence, check]
  rfl

theorem checkFinished_silent (check : RunningCheck) (result : CheckResult) :
    (checkFinished s check result now).2.filterMap (carried jobId) = [] := by
  cases result with
  | ok output =>
    unfold checkFinished
    simp only
    split <;> rfl
  | failed error =>
    unfold checkFinished
    simp only
    split <;> rfl

/-- The results that stored runs carry were carried before, or were just dispatched. -/
theorem Move.storedResults (move : Move env origin now op s emitted t) :
    (storedResults jobId t).Sublist (storedResults jobId s ++ emitted.filterMap (carried jobId)) := by
  have evolved : ∀ {results : List PendingCheck}, results = Cron.storedResults jobId s →
      results.Sublist (Cron.storedResults jobId s ++ []) := by
    rintro _ rfl
    rw [List.append_nil]
  cases move with
  | @claimed target job runId run next store found claim inserted =>
    obtain ⟨runs, added, rfl, _⟩ := Store.insertRun_eq_ok.mp inserted
    have grown : Cron.storedResults jobId { s with store := Store.updateJob { s.store with runs } target fun _ => next } =
        Cron.storedResults jobId s ++ (carriedBy jobId run).toList := Table.collect_insert added _
    rw [claim.carried]
    exact grown ▸ .refl _
  | @checkFinished check result =>
    rw [checkFinished_silent, Cron.storedResults, checkFinished_runs]
    exact evolved rfl
  | @rewritten runId run written f stored change touches =>
    refine evolved (Table.collect_update fun before was => ?_)
    exact RunEvolves.carriedBy (.changed (Option.some.inj (stored.symm.trans was) ▸ change))
  | noted notes => exact evolved (Table.collect_update fun before was => (@RunEvolves.noted now before _ notes).carriedBy)
  | reconciled => exact evolved (Table.collect_modify fun runId run was => (@RunEvolves.interrupted now run).carriedBy)
  | pruned =>
    rw [List.filterMap_nil, List.append_nil]
    exact List.filter_sublist.filterMap _
  | created => exact evolved rfl
  | changed => exact evolved rfl
  | deferred => exact evolved rfl
  | idle => exact evolved rfl

/-- While a check of a job runs, no result waits in its slot. -/
def Vacant (jobId : JsString) (s : Scheduler) : Prop :=
  ∀ check ∈ s.checks, check.jobId = jobId → check.finished = false → ∀ job, s.store.getJob jobId = some job → job.pendingCheck = none

theorem Evolves.pending {job next : Job} (evolves : Evolves env origin now op s jobId job next) (empty : job.pendingCheck = none) :
    next.pendingCheck = none ∨ ∃ result, op = .checkFinished jobId result := by
  cases evolves with
  | same => exact .inl empty
  | touched => exact .inl empty
  | changed change => cases change <;> exact .inl empty
  | claimed claim =>
    cases claim with
    | plain => exact .inl empty
    | checked => exact .inl rfl
    | manual => exact .inl empty
  | deferred => exact .inl empty
  | finished is => exact .inr ⟨_, is⟩

theorem Move.vacant (unfinished : ∀ target result, op ≠ .checkFinished target result) (known : Known s)
    (move : Move env origin now op s emitted t) (vacant : Vacant jobId s) : Vacant jobId t := by
  intro check member named open' next found
  rcases move.check member with ⟨before, present, same, still⟩ | ⟨_, _, row, stored, _, _, empty⟩
  · obtain rfl := still open'
    obtain ⟨row, stored⟩ := known.checks before present
    rw [named] at stored
    rcases move.job found with ⟨absent, _⟩ | ⟨job, was, evolves⟩
    · rw [stored] at absent
      cases absent
    · rcases evolves.pending (vacant before present named open' job was) with empty | ⟨result, is⟩
      · exact empty
      · exact (unfinished _ _ is).elim
  · rw [named] at stored
    rcases move.job found with ⟨absent, _⟩ | ⟨job, was, evolves⟩
    · rw [stored] at absent
      cases absent
    · obtain rfl : row = job := Option.some.inj (stored.symm.trans was)
      rcases evolves.pending empty with empty | ⟨result, is⟩
      · exact empty
      · exact (unfinished _ _ is).elim

end Moves

section Balance

variable {env : Env} {origin s t : Scheduler} {now : ℤ} {op : Op} {emitted : List Emission} {jobId : JsString} {l : Ledger}

theorem slot_eq (jobId : JsString) (s : Scheduler) : slot jobId s = ((checkState s jobId).bind Prod.fst).toList := by
  unfold slot checkState
  cases s.store.getJob jobId <;> rfl

theorem Moves.agrees (unfinished : ∀ target result, op ≠ .checkFinished target result)
    (unedited : ∀ selector patch, op ≠ .update selector patch) (moves : Moves env origin now op s emitted t)
    (agrees : Agrees l (checkState s jobId)) :
    Agrees { l with moved := l.moved ++ emitted.filterMap (carried jobId) } (checkState t jobId) := by
  induction moves with
  | nil =>
    rw [List.filterMap_nil, List.append_nil]
    exact agrees
  | snoc moves move ih =>
    have next := (move.passes unfinished unedited).agrees ih
    rw [List.append_assoc, ← List.filterMap_append] at next
    exact next

theorem Moves.storedResults (moves : Moves env origin now op s emitted t) :
    (storedResults jobId t).Sublist (storedResults jobId s ++ emitted.filterMap (carried jobId)) := by
  induction moves with
  | nil =>
    rw [List.filterMap_nil, List.append_nil]
  | snoc moves move ih =>
    rw [List.filterMap_append, ← List.append_assoc]
    exact move.storedResults.trans (ih.append_right _)

/-- The row of a job after an accepted edit: its streak starts again. -/
theorem update_agrees (selector : JsString) (patch : Value) (agrees : Agrees l (checkState s jobId)) :
    Agrees { l with streak := if edits env jobId s now (.update selector patch) then 0 else l.streak }
      (checkState (step env s now (.update selector patch)).1 jobId) := by
  simp only [step]
  cases outcome : update env s.store selector patch now with
  | error thrown =>
    have kept : edits env jobId s now (.update selector patch) = false := by
      simp only [edits, outcome]
      split
      · next impossible => cases impossible
      · rfl
    rw [kept]
    exact agrees
  | ok result =>
    obtain ⟨store, job⟩ := result
    obtain ⟨target, current, new, columns, named, computed, rfl⟩ := update_eq_ok outcome
    obtain ⟨found, _⟩ := resolveJob_eq_ok named
    have reset : edits env jobId s now (.update selector patch) = decide (target = jobId) := by
      simp only [edits, outcome, named]
    have state : checkState { s with store := s.store.updateJob target fun _ => Store.replaced current new columns now } jobId =
        if jobId = target then some (current.pendingCheck, 0, false) else checkState s jobId := by
      unfold checkState
      rw [Store.getJob_updateJob_of found]
      split <;> rfl
    have before : checkState s target = some current.checkState := by rw [checkState, found, Option.map_some]
    simp only [request]
    rw [reset, state]
    by_cases here : target = jobId
    · subst here
      rw [if_pos rfl, if_pos (decide_eq_true rfl)]
      rw [before] at agrees
      refine ⟨agrees.balance, ?_, fun _ => rfl⟩
      rintro _ ⟨⟩
      rfl
    · rw [if_neg (Ne.symm here), if_neg (by simpa using here)]
      exact agrees

theorem afterFinish_checkState {job : Job} {streak : ℕ} (empty : job.pendingCheck = none) (failures : job.checkFailures = streak)
    (alerted : job.checkAlerted = decide (cronCheckFailureAlertThreshold ≤ streak)) (check : RunningCheck) (result : CheckResult)
    (now : ℤ) :
    (afterFinish job result check.scheduledAt now).checkState =
      (if job.state ≠ .removed then wakes streak check result else none, extend streak result,
        decide (cronCheckFailureAlertThreshold ≤ extend streak result)) := by
  unfold afterFinish
  cases result with
  | ok output =>
    simp only [recordOutcome, wakes, extend]
    by_cases silent : output = []
    · simp [silent, Job.checkState, empty, cronCheckFailureAlertThreshold]
    · by_cases live : job.state = .removed
      · simp [silent, live, takeResult, Job.checkState, empty, cronCheckFailureAlertThreshold]
      · simp [silent, live, takeResult, Job.checkState, empty, cronCheckFailureAlertThreshold]
  | failed error =>
    simp only [recordOutcome, wakes, extend, failures, alerted]
    by_cases reaches : streak + 1 = cronCheckFailureAlertThreshold
    · have alert : (decide (cronCheckFailureAlertThreshold ≤ streak + 1) && !decide (cronCheckFailureAlertThreshold ≤ streak)) = true := by
        simp only [Bool.and_eq_true, decide_eq_true_eq, Bool.not_eq_true', decide_eq_false_iff_not]
        omega
      simp only [alert, ↓reduceIte]
      by_cases live : job.state = .removed
      · simp [reaches, live, takeResult, Job.checkState, empty]
      · simp [reaches, live, takeResult, Job.checkState, empty]
    · have quiet : (decide (cronCheckFailureAlertThreshold ≤ streak + 1) && !decide (cronCheckFailureAlertThreshold ≤ streak)) = false := by
        simp only [Bool.and_eq_false_iff, decide_eq_false_iff_not, Bool.not_eq_false', decide_eq_true_eq]
        omega
      simp only [quiet, Bool.false_eq_true, ↓reduceIte, reaches]
      refine Prod.ext ?_ (Prod.ext rfl ?_)
      · simp [Job.checkState, empty]
      · apply decide_eq_decide.mpr
        omega

theorem Scheduler.runningCheck?_eq_some {check : RunningCheck} (found : s.runningCheck? jobId = some check) :
    check ∈ s.checks ∧ check.jobId = jobId ∧ check.finished = false := by
  have holds := List.find?_some found
  simp only [decide_eq_true_eq] at holds
  exact ⟨List.mem_of_find?_eq_some found, holds⟩

theorem checkFinished_checkState {check : RunningCheck} (found : s.runningCheck? jobId = some check) (known : Known s)
    (vacant : Vacant jobId s) (agrees : Agrees l (checkState s jobId)) (result : CheckResult) :
    checkState (checkFinished s check result now).1 jobId =
      some (handed jobId l.streak s (.checkFinished jobId result), extend l.streak result,
        decide (cronCheckFailureAlertThreshold ≤ extend l.streak result)) := by
  obtain ⟨member, named, unfinished⟩ := Scheduler.runningCheck?_eq_some found
  obtain ⟨job, stored⟩ := known.checks check member
  have rows : ∀ other, (checkFinished s check result now).1.store.getJob other =
      if other = check.jobId then some (afterFinish job result check.scheduledAt now) else s.store.getJob other :=
    (checkFinished_spec stored result).1
  rw [named] at stored rows
  have empty := vacant check member named unfinished job stored
  have streak := agrees.streak job.checkState (by rw [checkState, stored, Option.map_some]; rfl)
  obtain ⟨failures, alerted⟩ := Prod.mk.inj streak
  rw [checkState, rows, if_pos rfl, Option.map_some, afterFinish_checkState empty failures alerted]
  simp only [handed, stored, found, Option.any_some, Option.bind_some, true_and, decide_eq_true_eq]

/-- A check that finishes for another job leaves the row alone. -/
theorem checkFinished_checkState_other {check : RunningCheck} (member : check ∈ s.checks) (known : Known s)
    (different : check.jobId ≠ jobId) (result : CheckResult) :
    checkState (checkFinished s check result now).1 jobId = checkState s jobId := by
  obtain ⟨job, stored⟩ := known.checks check member
  rw [checkState, (checkFinished_spec stored result).1, if_neg (Ne.symm different)]
  rfl

theorem checkFinished_vacant {check : RunningCheck} (known : Known s) (member : check ∈ s.checks) (vacant : Vacant jobId s)
    (result : CheckResult) : Vacant jobId (checkFinished s check result now).1 := by
  intro running listed named open' job stored
  rw [checkFinished_checks] at listed
  obtain ⟨before, present, rfl⟩ := List.mem_map.mp listed
  obtain ⟨row, found⟩ := known.checks check member
  rw [(checkFinished_spec found result).1] at stored
  split at open'
  · cases open'
  · next different =>
    rw [if_neg different] at named
    rw [if_neg fun same => different (named.trans same)] at stored
    exact vacant before present named open' job stored

structure Balanced (l : Ledger) (jobId : JsString) (s : Scheduler) : Prop where
  agrees : Agrees l (checkState s jobId)
  stored : (storedResults jobId s).Sublist l.moved
  vacant : Vacant jobId s
  known : Known s

theorem step_checkFinished (env : Env) (s : Scheduler) (now : ℤ) (target : JsString) (result : CheckResult) :
    step env s now (.checkFinished target result) =
      match s.runningCheck? target with
      | some check => ((checkFinished s check result now).1, ⟨none, (checkFinished s check result now).2⟩)
      | none => (s, .quiet) := rfl

theorem finish_agrees (env : Env) (now : ℤ) (target : JsString) (result : CheckResult) (balanced : Balanced l jobId s) :
    Agrees (l.note env jobId s (now, .checkFinished target result))
        (checkState (step env s now (.checkFinished target result)).1 jobId)
      ∧ Vacant jobId (step env s now (.checkFinished target result)).1 := by
  simp only [Ledger.note, step_checkFinished, streakAfter, handed]
  cases running : s.runningCheck? target with
  | none =>
    have nothing : (if target = jobId ∧ ((s.store.getJob jobId).any fun job => decide (job.state ≠ .removed)) = true then
        (s.runningCheck? jobId).bind fun check => wakes l.streak check result else none) = none := by
      split
      · next here => rw [← here.1, running]; rfl
      · rfl
    have kept : (if target = jobId ∧ (s.runningCheck? jobId).isSome = true then extend l.streak result else l.streak) = l.streak := by
      rw [if_neg]
      rintro ⟨rfl, present⟩
      rw [running] at present
      cases present
    rw [nothing, kept]
    simp only [Effect.quiet, Option.toList_none, List.filterMap_nil, List.append_nil]
    exact ⟨balanced.agrees, balanced.vacant⟩
  | some check =>
    obtain ⟨member, named, _⟩ := Scheduler.runningCheck?_eq_some running
    simp only
    rw [checkFinished_silent, List.append_nil]
    refine ⟨?_, checkFinished_vacant balanced.known member balanced.vacant result⟩
    by_cases here : target = jobId
    · subst here
      obtain ⟨job, stored⟩ := balanced.known.checks check member
      have empty := balanced.vacant check member named (Scheduler.runningCheck?_eq_some running).2.2 job (named ▸ stored)
      have balance := balanced.agrees.balance
      rw [checkState, show s.store.getJob target = some job from named ▸ stored] at balance
      simp only [Option.map_some, Option.bind_some, Job.checkState, empty, Option.toList_none, List.append_nil] at balance
      rw [checkFinished_checkState running balanced.known balanced.vacant balanced.agrees]
      refine ⟨?_, ?_, fun impossible => by cases impossible⟩
      · simp only [handed, balance, Option.bind_some]
      · rintro _ ⟨⟩
        simp only [running, Option.isSome_some, and_self, ↓reduceIte]
    · rw [checkFinished_checkState_other member balanced.known (named ▸ here)]
      simp only [here, false_and, ↓reduceIte, Option.toList_none, List.append_nil]
      exact balanced.agrees

theorem step_balanced (env : Env) (event : ℤ × Op) (balanced : Balanced l jobId s) :
    Balanced (l.note env jobId s event) jobId (step env s event.1 event.2).1 := by
  obtain ⟨now, op⟩ := event
  have moves := (step_moves env s now op).1
  have known : Known (step env s now op).1 := moves.preserves (fun _ _ _ move => move.known) balanced.known
  have stored : (storedResults jobId (step env s now op).1).Sublist (l.note env jobId s (now, op)).moved :=
    moves.storedResults.trans (balanced.stored.append_right _)
  by_cases finishing : ∃ target result, op = .checkFinished target result
  · obtain ⟨target, result, rfl⟩ := finishing
    obtain ⟨agrees, vacant⟩ := finish_agrees env now target result balanced
    exact ⟨agrees, stored, vacant, known⟩
  have unfinished : ∀ target result, op ≠ .checkFinished target result := fun target result is => finishing ⟨target, result, is⟩
  have vacant : Vacant jobId (step env s now op).1 := by
    have both := moves.preserves (P := fun s => Known s ∧ Vacant jobId s)
      (fun _ _ _ move before => ⟨move.known before.1, move.vacant unfinished before.1 before.2⟩) ⟨balanced.known, balanced.vacant⟩
    exact both.2
  have nothing : handed jobId l.streak s op = none := by
    cases op with
    | checkFinished target result => exact (unfinished target result rfl).elim
    | _ => rfl
  have streak : streakAfter env jobId l.streak s now op = if edits env jobId s now op then 0 else l.streak := by
    cases op with
    | checkFinished target result => exact (unfinished target result rfl).elim
    | _ => rfl
  refine ⟨?_, stored, vacant, known⟩
  unfold Ledger.note
  simp only [nothing, streak, Option.toList_none, List.append_nil]
  by_cases editing : ∃ selector patch, op = .update selector patch
  · obtain ⟨selector, patch, rfl⟩ := editing
    have silent : (step env s now (.update selector patch)).2.emitted = [] := by
      simp only [step]
      cases update env s.store selector patch now <;> rfl
    rw [silent, List.filterMap_nil, List.append_nil]
    exact update_agrees selector patch balanced.agrees
  · have unedited : ∀ selector patch, op ≠ .update selector patch := fun selector patch is => editing ⟨selector, patch, is⟩
    have kept : edits env jobId s now op = false := by
      cases op with
      | update selector patch => exact (unedited selector patch rfl).elim
      | _ => rfl
    rw [kept]
    exact moves.agrees unfinished unedited balanced.agrees

end Balance

section Runs

variable (env : Env) (jobId : JsString)

theorem balanced_at_end (events : List (ℤ × Op)) : Balanced (observe env jobId events) jobId (run env events) := by
  induction events using List.reverseRec with
  | nil =>
    refine ⟨⟨rfl, ?_, fun _ => rfl⟩, List.nil_sublist _, ?_, ?_, ?_⟩
    · rintro state ⟨⟩
    · rintro check ⟨⟩
    · rintro runId row ⟨⟩
    · rintro check ⟨⟩
  | append_singleton events event ih =>
    rw [observe_concat, run_concat]
    exact step_balanced env event ih

/-- The results that the checks of a job should hand over are, in order, those that runs have taken and the one
that waits; stored runs carry results that runs have taken, each once; and a result that should be handed over
finds the slot empty and is in it after the step. -/
theorem run_handsOverOnce (events : List (ℤ × Op)) :
    (observe env jobId events).results = (observe env jobId events).moved ++ slot jobId (run env events)
      ∧ (storedResults jobId (run env events)).Sublist (observe env jobId events).moved
      ∧ ∀ first now op later, events = first ++ (now, op) :: later →
        ∀ result ∈ handed jobId (observe env jobId first).streak (run env first) op,
          slot jobId (run env first) = [] ∧ slot jobId (step env (run env first) now op).1 = [result] := by
  have balanced := balanced_at_end env jobId events
  refine ⟨by rw [slot_eq]; exact balanced.agrees.balance, balanced.stored, ?_⟩
  intro first now op later split result should
  have before := balanced_at_end env jobId first
  cases op with
  | checkFinished target outcome =>
    have given := should
    simp only [handed] at given
    split at given
    · next here =>
      obtain ⟨rfl, _⟩ := here
      obtain ⟨check, running, _⟩ := Option.bind_eq_some_iff.mp given
      obtain ⟨member, named, unfinished⟩ := Scheduler.runningCheck?_eq_some running
      obtain ⟨job, stored⟩ := before.known.checks check member
      rw [named] at stored
      have empty := before.vacant check member named unfinished job stored
      refine ⟨?_, ?_⟩
      · rw [slot, stored, Option.bind_some, empty]
        rfl
      · rw [step_checkFinished, running, slot_eq]
        simp only
        rw [checkFinished_checkState running before.known before.vacant before.agrees, Option.mem_def.mp should]
        rfl
    · cases given
  | _ => cases should

end Runs

end PersistentHarness.Cron
