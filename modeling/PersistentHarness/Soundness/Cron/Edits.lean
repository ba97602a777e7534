import PersistentHarness.Soundness.Cron.Rows

/-! # What edits and schedules compute

The next run that a schedule computes is in the future, and an edit keeps the occurrence of a job unless
it names a schedule: then it takes the next run of the new one.
-/

namespace PersistentHarness.Cron

section Schedules

variable {calendar : Calendar} {now : ℤ}

theorem cronDate_forward (forward : calendar.Forward) {pattern timezone : JsString} {after next : ℤ}
    (success : cronDate calendar pattern timezone after false = .ok (some next)) : after < next := by
  unfold cronDate at success
  simp only [Bool.false_eq_true, ↓reduceIte] at success
  split at success
  · next value computed =>
    cases success
    exact forward _ _ _ _ computed
  · cases success

theorem nextCronRunAfter_future (forward : calendar.Forward) {schedule : Schedule} {scheduledAt next : ℤ}
    (success : nextCronRunAfter calendar schedule scheduledAt now = .ok (some next)) : now < next ∧ scheduledAt < next := by
  cases schedule with
  | once => cases success
  | every intervalSeconds timezone =>
    obtain ⟨_, positive, done⟩ := Checked.bind_eq_ok.mp success
    have positive := (Checked.require_eq_ok.mp positive).2
    cases done
    have interval : (0 : ℤ) < ↑(intervalSeconds * 1000) := by exact_mod_cast positive
    have reaches : max 0 (now - scheduledAt) < (max 0 (now - scheduledAt) / ↑(intervalSeconds * 1000) + 1) * ↑(intervalSeconds * 1000) := by
      have division := Int.emod_add_mul_ediv (max 0 (now - scheduledAt)) ↑(intervalSeconds * 1000)
      have remainder := Int.emod_lt_of_pos (max 0 (now - scheduledAt)) interval
      rw [Int.add_mul, Int.one_mul, Int.mul_comm]
      omega
    constructor <;> omega
  | cron expression timezone =>
    obtain ⟨zone, _, computed⟩ := Checked.bind_eq_ok.mp success
    have after := cronDate_forward forward computed
    constructor <;> omega

/-- What a normalized schedule says of its next run, when past times are refused. -/
structure Upcoming (now : ℤ) (normalized : Normalized) : Prop where
  future : now < normalized.nextRunAt
  once : ∀ time timezone, normalized.schedule = .once time timezone → time = normalized.nextRunAt

theorem normalizeCronSchedule_upcoming (forward : calendar.Forward) {input defaultTimezone : Value} {least : ℕ}
    (positive : 0 < least) {normalized : Normalized}
    (success : normalizeCronSchedule calendar input now defaultTimezone false least = .ok normalized) :
    Upcoming now normalized := by
  obtain ⟨_, _, success⟩ := Checked.bind_eq_ok.mp success
  obtain ⟨timezone, _, success⟩ := Checked.bind_eq_ok.mp success
  simp only at success
  split at success
  · obtain ⟨time, computed, done⟩ := Checked.bind_eq_ok.mp success
    cases done
    obtain ⟨_, _, computed⟩ := Checked.bind_eq_ok.mp computed
    obtain ⟨_, _, computed⟩ := Checked.bind_eq_ok.mp computed
    obtain ⟨timestamp, _, computed⟩ := Checked.bind_eq_ok.mp computed
    split at computed
    · cases computed
    · obtain ⟨_, future, done⟩ := Checked.bind_eq_ok.mp computed
      cases done
      have future := Checked.require_eq_ok.mp future
      constructor
      · simpa using future
      · rintro _ _ ⟨⟩
        rfl
  split at success
  · split at success
    · next intervalSeconds inRange =>
      cases success
      obtain ⟨_, bounds⟩ := Option.filter_eq_some_iff.mp inRange
      simp only [Bool.decide_and, Bool.and_eq_true, decide_eq_true_eq] at bounds
      constructor
      · simp only
        omega
      · rintro _ _ ⟨⟩
    · cases success
  split at success
  · split at success
    · obtain ⟨_, _, success⟩ := Checked.bind_eq_ok.mp success
      obtain ⟨next, computed, success⟩ := Checked.bind_eq_ok.mp success
      split at success
      · cases success
        constructor
        · exact cronDate_forward forward computed
        · rintro _ _ ⟨⟩
      · cases success
    · cases success
  · cases success

end Schedules

section Edits

variable {env : Env} {now : ℤ} {job : Job} {patch : Value} {new : Store.Replacement}

structure Edited (env : Env) (now : ℤ) (job : Job) (patch : Value) (new : Store.Replacement) : Prop where
  state : new.state = if job.state = .paused then .paused else if job.state = .completed ∧ resets patch = false then .completed
    else .scheduled
  enabled : new.enabled = decide (new.state = .scheduled)
  fireCount : new.fireCount = if resets patch then 0 else job.fireCount
  times : ∀ times ∈ new.params.repeatTimes, 0 < times
  once : new.params.schedule.recurring = false → new.params.repeatTimes = some 1
  sameTimes : patch.get (js "repeat") = .undefined → requireRepeat (job.repeatTimes.elim .null fun times => .num (.ofNat times))
    new.params.schedule.recurring = .ok new.params.repeatTimes
  recurring : new.params.check.isSome = true → new.params.schedule.recurring = true
  kept : patch.get (js "schedule") = .undefined → new.params.schedule = job.schedule ∧ new.nextRunAt = job.nextRunAt
  rescheduled : patch.get (js "schedule") ≠ .undefined → ∃ normalized least, 0 < least ∧ new.params.schedule = normalized.schedule
    ∧ new.nextRunAt = some normalized.nextRunAt
    ∧ normalizeCronSchedule env.calendar (patch.get (js "schedule")) now
      ((patch.get (js "timezone")).coalesce (.str job.timezone)) false least = .ok normalized

theorem replacement_edited (success : replacement env job patch now = .ok new) : Edited env now job patch new := by
  obtain ⟨check, _, success⟩ := Checked.bind_eq_ok.mp success
  obtain ⟨⟨schedule, display, nextRunAt⟩, edited, success⟩ := Checked.bind_eq_ok.mp success
  obtain ⟨_, recurring, success⟩ := Checked.bind_eq_ok.mp success
  obtain ⟨_, _, success⟩ := Checked.bind_eq_ok.mp success
  obtain ⟨times, counted, success⟩ := Checked.bind_eq_ok.mp success
  cases success
  have least : 0 < (if check.isSome = true then minCheckedIntervalSeconds else minCronIntervalSeconds) := by
    split <;> decide
  unfold editedSchedule at edited
  simp only at edited
  constructor
  · cases job.state <;> cases resets patch <;> rfl
  · cases job.state <;> cases resets patch <;> rfl
  · rfl
  · exact requireRepeat_pos counted
  · exact requireRepeat_once counted
  · intro absent
    rwa [if_neg (by simpa using absent)] at counted
  · exact Checked.require_eq_ok.mp recurring
  · intro absent
    rw [if_pos absent] at edited
    cases edited
    refine ⟨rfl, ?_⟩
    simp only
    split <;> rfl
  · intro present
    rw [if_neg present] at edited
    obtain ⟨normalized, computed, done⟩ := Checked.bind_eq_ok.mp edited
    cases done
    have reset : resets patch = true := by simp [resets, present]
    exact ⟨normalized, _, least, rfl, by simp [reset], computed⟩

theorem resumeTime_future (forward : env.calendar.Forward) {time : ℤ}
    (interval : ∀ intervalSeconds timezone, job.schedule = .every intervalSeconds timezone → 0 < intervalSeconds)
    (success : resumeTime env job now = .ok time) :
    now < time ∨ ∃ instant timezone, job.schedule = .once instant timezone ∧ time = max now instant := by
  unfold resumeTime at success
  split at success
  · next instant timezone is =>
    cases success
    exact .inr ⟨instant, timezone, is, rfl⟩
  · next intervalSeconds timezone is =>
    cases success
    have positive := interval intervalSeconds timezone is
    left
    omega
  · obtain ⟨normalized, computed, done⟩ := Checked.bind_eq_ok.mp success
    cases done
    exact .inl (normalizeCronSchedule_upcoming forward (by decide) computed).future

end Edits

section Plans

variable {env : Env} {origin s : Scheduler} {now : ℤ} {op : Op} {jobId : JsString}

/-- What the schedule of every stored job satisfies. -/
structure Planned (job : Job) : Prop where
  recurring : job.check.isSome = true → job.schedule.recurring = true
  interval : ∀ intervalSeconds timezone, job.schedule = .every intervalSeconds timezone → 0 < intervalSeconds

theorem Evolves.planned {job next : Job} (evolves : Evolves env origin now op s jobId job next) (planned : Planned job) :
    Planned next := by
  cases evolves with
  | same => exact planned
  | touched => exact ⟨planned.recurring, planned.interval⟩
  | changed change =>
    cases change with
    | @edited selector patch new columns is named live computed applied =>
      have edited := replacement_edited computed
      refine ⟨edited.recurring, ?_⟩
      by_cases absent : patch.get (js "schedule") = .undefined
      · have schedule : (Store.replaced job new columns now).schedule = job.schedule := (edited.kept absent).1
        rw [schedule]
        exact planned.interval
      · obtain ⟨normalized, least, positive, schedule, _, computed⟩ := edited.rescheduled absent
        intro intervalSeconds timezone is
        have reaches := normalizeCronSchedule_interval computed intervalSeconds timezone (schedule.symm.trans is)
        omega
    | paused => exact ⟨planned.recurring, planned.interval⟩
    | resumed => exact ⟨planned.recurring, planned.interval⟩
    | removed => exact ⟨planned.recurring, planned.interval⟩
  | claimed claim => cases claim <;> exact ⟨planned.recurring, planned.interval⟩
  | deferred => exact ⟨planned.recurring, planned.interval⟩
  | @finished check result =>
    have same := afterFinish_samePlan job result check.scheduledAt now
    refine ⟨?_, ?_⟩
    · rw [same.check, same.schedule]
      exact planned.recurring
    · rw [same.schedule]
      exact planned.interval

theorem Move.planned {t : Scheduler} {emitted : List Emission} (move : Move env origin now op s emitted t)
    (planned : EachJob (fun _ job => Planned job) s) : EachJob (fun _ job => Planned job) t :=
  move.eachJob (fun _ _ _ fresh => ⟨fresh.recurring, fresh.interval⟩) (fun _ _ _ _ evolves => evolves.planned) planned

end Plans

end PersistentHarness.Cron
