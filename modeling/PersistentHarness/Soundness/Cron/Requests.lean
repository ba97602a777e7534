import PersistentHarness.Soundness.Cron.Moves

/-! # Requests are moves

A request that succeeds is one move, and one that throws changes nothing. Only a manual claim can be
refused by a unique index of the runs.
-/

namespace PersistentHarness.Cron

section Errors

/-- Whatever this computation throws, it is no violated index of the runs. -/
structure RunFree {α : Type} (x : CronResult α) : Prop where
  free : ∀ thrown, x = .error thrown → ∀ index, thrown = .unique index → index = .jobId ∨ index = .liveName

variable {α β : Type}

@[simp] theorem runFree_ok (a : α) : RunFree (.ok a : CronResult α) := by
  constructor
  intro thrown failed
  cases failed

@[simp] theorem runFree_pure (a : α) : RunFree (pure a : CronResult α) := runFree_ok a

@[simp] theorem runFree_typeError (message : JsString) : RunFree (.error (.typeError message) : CronResult α) := by
  constructor
  rintro thrown ⟨⟩ index ⟨⟩

@[simp] theorem runFree_error (message : JsString) : RunFree (.error (.error message) : CronResult α) := by
  constructor
  rintro thrown ⟨⟩ index ⟨⟩

@[simp] theorem runFree_column (name : String) : RunFree (.error (.column name) : CronResult α) := by
  constructor
  rintro thrown ⟨⟩ index ⟨⟩

@[simp] theorem runFree_jobId : RunFree (.error (.unique .jobId) : CronResult α) := by
  constructor
  rintro thrown ⟨⟩ index ⟨⟩
  exact .inl rfl

@[simp] theorem runFree_liveName : RunFree (.error (.unique .liveName) : CronResult α) := by
  constructor
  rintro thrown ⟨⟩ index ⟨⟩
  exact .inr rfl

theorem RunFree.bind {x : CronResult α} {f : α → CronResult β} (first : RunFree x) (later : ∀ a, RunFree (f a)) :
    RunFree (x >>= f) := by
  constructor
  intro thrown failed
  cases x with
  | ok a => exact (later a).free thrown failed
  | error e =>
    cases failed
    exact first.free _ rfl

theorem RunFree.require {condition : Prop} [Decidable condition] {error : CronError}
    (free : RunFree (.error error : CronResult Unit)) : RunFree (Checked.require condition error) := by
  unfold Checked.require
  split
  · exact runFree_ok ()
  · exact free

theorem runFree_requireType (condition : Prop) [Decidable condition] (message : String) :
    RunFree (requireType condition message) := .require (runFree_typeError _)

end Errors

section Inputs

variable (env : Env)

theorem runFree_validateCronTimezone (calendar : Calendar) (value : Value) : RunFree (validateCronTimezone calendar value) := by
  unfold validateCronTimezone
  split
  · refine .bind (runFree_requireType _ _) fun _ => .bind (.require (runFree_typeError _)) fun _ => runFree_pure _
  · exact runFree_typeError _

theorem runFree_cronDate (calendar : Calendar) (pattern timezone : JsString) (after : ℤ) (allowPastAt : Bool) :
    RunFree (cronDate calendar pattern timezone after allowPastAt) := by
  unfold cronDate
  split
  · exact runFree_ok _
  · exact runFree_typeError _

theorem runFree_isoAt (calendar : Calendar) (value : Value) (timezone : JsString) (now : ℤ) (allowPastAt : Bool) :
    RunFree (isoAt calendar value timezone now allowPastAt) := by
  unfold isoAt
  refine .bind (.require (runFree_typeError _)) fun _ => .bind ?_ fun explicitOffset => .bind ?_ fun timestamp => ?_
  · cases isoShape value.units <;> simp
  · split
    · exact runFree_ok _
    · exact runFree_cronDate ..
  · split
    · exact runFree_typeError _
    · exact .bind (runFree_requireType _ _) fun _ => runFree_pure _

theorem runFree_normalizeCronSchedule (calendar : Calendar) (input : Value) (now : ℤ) (defaultTimezone : Value)
    (allowPastAt : Bool) (least : ℕ) :
    RunFree (normalizeCronSchedule calendar input now defaultTimezone allowPastAt least) := by
  unfold normalizeCronSchedule
  refine .bind (runFree_requireType _ _) fun _ => .bind (runFree_validateCronTimezone ..) fun timezone => ?_
  split
  · exact .bind (runFree_isoAt ..) fun _ => runFree_pure _
  split
  · split
    · exact runFree_pure _
    · exact runFree_typeError _
  split
  · split
    · refine .bind (runFree_requireType _ _) fun _ => .bind (runFree_cronDate ..) fun next => ?_
      cases next
      · exact runFree_typeError _
      · exact runFree_pure _
    · exact runFree_typeError _
  · exact runFree_typeError _

theorem runFree_nextCronRunAfter (calendar : Calendar) (schedule : Schedule) (scheduledAt now : ℤ) :
    RunFree (nextCronRunAfter calendar schedule scheduledAt now) := by
  cases schedule with
  | once => exact runFree_pure _
  | every => exact .bind (runFree_requireType _ _) fun _ => runFree_pure _
  | cron => exact .bind (runFree_validateCronTimezone ..) fun _ => runFree_cronDate ..

theorem runFree_normalizeCronCheck (value : Value) : RunFree (normalizeCronCheck value) := by
  unfold normalizeCronCheck
  split
  · exact runFree_pure _
  · refine .bind (runFree_requireType _ _) fun _ => ?_
    split
    · exact runFree_typeError _
    · refine .bind (.require (runFree_typeError _)) fun _ => ?_
      simp only
      split
      · exact runFree_pure _
      · exact runFree_typeError _

theorem runFree_requireRepeat (value : Value) (recurring : Bool) : RunFree (requireRepeat value recurring) := by
  unfold requireRepeat
  split
  · exact runFree_pure _
  · split
    · exact runFree_typeError _
    · exact .bind (runFree_requireType _ _) fun _ => runFree_pure _

theorem runFree_columns (params : Store.JobParams) : RunFree params.columns := by
  have text : ∀ name value, RunFree (Store.textColumn name value) := by
    intro name value
    cases value <;> simp [Store.textColumn]
  unfold Store.JobParams.columns
  refine .bind (text ..) fun _ => .bind (text ..) fun _ => .bind ?_ fun _ => .bind ?_ fun _ => runFree_pure _
  · unfold Store.executionModeColumn
    split_ifs <;> simp
  · unfold Store.notificationIntentColumn
    split_ifs <;> simp

theorem runFree_resolveJob (store : Store) (selector : JsString) (includeRemoved : Bool) :
    RunFree (store.resolveJob selector includeRemoved) := by
  unfold Store.resolveJob
  simp only
  split
  · exact runFree_ok _
  · split <;> simp

theorem runFree_creationParams (origin : Option Origin) (originSessionId : JsString) (params : Value) (createdAt : ℤ)
    (allowPastAt : Bool) : RunFree (creationParams env origin originSessionId params createdAt allowPastAt) := by
  unfold creationParams
  split
  · exact runFree_error _
  · refine .bind (runFree_normalizeCronCheck _) fun _ => .bind (runFree_normalizeCronSchedule ..) fun _ => ?_
    exact .bind (runFree_requireType _ _) fun _ => .bind (runFree_requireRepeat ..) fun _ => runFree_pure _

theorem runFree_create (store : Store) (origin : Option Origin) (originSessionId : JsString) (params : Value) (now : ℤ)
    (jobId : Option JsString) (initiallyPaused : Bool) (draw : JsString) :
    RunFree (create env store origin originSessionId params now jobId initiallyPaused draw) := by
  unfold create
  refine .bind (runFree_requireType _ _) fun _ => ?_
  split
  · refine .bind (.bind (runFree_creationParams ..) fun requested => ?_) fun _ => runFree_pure _
    split <;> simp
  · refine .bind (runFree_creationParams ..) fun creation => .bind (runFree_columns _) fun columns => ?_
    simp only
    split
    · exact runFree_jobId
    · exact .bind (.require runFree_liveName) fun _ => runFree_pure _

theorem runFree_update (store : Store) (selector : JsString) (patch : Value) (now : ℤ) :
    RunFree (update env store selector patch now) := by
  unfold update
  refine .bind (runFree_resolveJob ..) fun named => .bind ?_ fun new => ?_
  · unfold replacement
    refine .bind ?_ fun check => .bind ?_ fun schedule => .bind (runFree_requireType _ _) fun _ =>
      .bind (runFree_requireType _ _) fun _ => .bind ?_ fun _ => runFree_pure _
    · split
      · exact runFree_pure _
      · exact runFree_normalizeCronCheck _
    · unfold editedSchedule
      simp only
      split
      · exact runFree_pure _
      · exact .bind (runFree_normalizeCronSchedule ..) fun _ => runFree_pure _
    · exact runFree_requireRepeat ..
  · unfold Store.replaceJob
    refine .bind (runFree_columns _) fun columns => ?_
    split
    · exact runFree_error _
    · exact .bind (.require runFree_liveName) fun _ => runFree_pure _

theorem runFree_changeJob (store : Store) (jobId : JsString) (expected : Job → Bool) (message : String) (f : Job → Job) :
    RunFree (store.changeJob jobId expected message f) := by
  unfold Store.changeJob
  split <;> simp

theorem runFree_resume (store : Store) (selector : JsString) (now : ℤ) (expectedJob : Option (JsString × Job)) :
    RunFree (resume env store selector now expectedJob) := by
  unfold resume
  refine .bind (runFree_resolveJob ..) fun named => .bind (.require (runFree_error _)) fun _ => .bind ?_ fun next => ?_
  · unfold resumeTime
    split
    · exact runFree_pure _
    · exact runFree_pure _
    · exact .bind (runFree_normalizeCronSchedule ..) fun _ => runFree_pure _
  · exact .bind (.require (runFree_error _)) fun _ => runFree_changeJob ..

end Inputs

section Successes

variable {env : Env} {store next : Store} {selector : JsString} {now : ℤ} {job : Job}

theorem resolveJob_eq_ok {jobId : JsString} (success : store.resolveJob selector false = .ok (jobId, job)) :
    store.getJob jobId = some job ∧ job.state ≠ .removed := by
  unfold Store.resolveJob at success
  simp only [Bool.false_or] at success
  split at success
  · next found =>
    cases success
    obtain ⟨found, live⟩ := Option.filter_eq_some_iff.mp found
    exact ⟨found, of_decide_eq_true live⟩
  · split at success
    · cases success
    · next rows =>
      cases success
      have listed : (jobId, job) ∈ store.jobs.rows.filter fun row =>
          decide (row.2.name.lower = selector.lower ∧ decide (row.2.state ≠ .removed) = true) := by
        rw [rows]
        exact List.mem_singleton_self _
      obtain ⟨member, holds⟩ := List.mem_filter.mp listed
      simp only [decide_eq_true_eq] at holds
      exact ⟨Table.mem_rows.mp member, holds.2⟩
    · cases success

theorem changeJob_eq_ok {jobId : JsString} {expected : Job → Bool} {message : String} {f : Job → Job}
    (success : store.changeJob jobId expected message f = .ok (next, job)) :
    ∃ before, store.getJob jobId = some before ∧ expected before = true ∧ next = store.updateJob jobId fun _ => f before := by
  unfold Store.changeJob at success
  split at success
  · cases success
  · next before found =>
    cases success
    obtain ⟨found, holds⟩ := Option.filter_eq_some_iff.mp found
    exact ⟨before, found, holds, rfl⟩

theorem requireRepeat_pos {value : Value} {recurring : Bool} {times : Option ℕ}
    (success : requireRepeat value recurring = .ok times) : ∀ n ∈ times, 0 < n := by
  unfold requireRepeat at success
  split at success
  · cases success
    cases recurring <;> simp
  · split at success
    · cases success
    · next n inRange =>
      obtain ⟨_, _, done⟩ := Checked.bind_eq_ok.mp success
      cases done
      obtain ⟨_, bounds⟩ := Option.filter_eq_some_iff.mp inRange
      simp only [Bool.decide_and, Bool.and_eq_true, decide_eq_true_eq] at bounds
      rintro m ⟨⟩
      omega

theorem requireRepeat_once {value : Value} {recurring : Bool} {times : Option ℕ}
    (success : requireRepeat value recurring = .ok times) (single : recurring = false) : times = some 1 := by
  subst single
  unfold requireRepeat at success
  split at success
  · cases success
    rfl
  · split at success
    · cases success
    · obtain ⟨_, single, done⟩ := Checked.bind_eq_ok.mp success
      cases done
      have single := Checked.require_eq_ok.mp single
      rw [single.resolve_left (by decide)]

/-- A repeat that is asked for again stays what it is. -/
theorem requireRepeat_same {n : ℕ} {recurring : Bool} {times : Option ℕ}
    (success : requireRepeat (.num (.ofNat n)) recurring = .ok times) : times = some n := by
  unfold requireRepeat at success
  split at success
  · next absent => rcases absent with absent | absent <;> cases absent
  · split at success
    · cases success
    · next m inRange =>
      obtain ⟨_, _, done⟩ := Checked.bind_eq_ok.mp success
      cases done
      obtain ⟨safe, _⟩ := Option.filter_eq_some_iff.mp inRange
      obtain ⟨natural, _⟩ := Option.filter_eq_some_iff.mp safe
      rw [JsNumber.toNat?_ofNat] at natural
      exact natural.symm

theorem normalizeCronSchedule_interval {calendar : Calendar} {input defaultTimezone : Value} {allowPastAt : Bool} {least : ℕ}
    {normalized : Normalized} (success : normalizeCronSchedule calendar input now defaultTimezone allowPastAt least = .ok normalized) :
    ∀ intervalSeconds timezone, normalized.schedule = .every intervalSeconds timezone → least ≤ intervalSeconds := by
  obtain ⟨_, _, success⟩ := Checked.bind_eq_ok.mp success
  obtain ⟨timezone, _, success⟩ := Checked.bind_eq_ok.mp success
  simp only at success
  split at success
  · obtain ⟨time, _, done⟩ := Checked.bind_eq_ok.mp success
    cases done
    rintro _ _ ⟨⟩
  split at success
  · split at success
    · next intervalSeconds inRange =>
      cases success
      obtain ⟨_, bounds⟩ := Option.filter_eq_some_iff.mp inRange
      simp only [Bool.decide_and, Bool.and_eq_true, decide_eq_true_eq] at bounds
      rintro _ _ ⟨⟩
      exact bounds.1
    · cases success
  split at success
  · split at success
    · obtain ⟨_, _, success⟩ := Checked.bind_eq_ok.mp success
      obtain ⟨next, _, success⟩ := Checked.bind_eq_ok.mp success
      split at success
      · cases success
        rintro _ _ ⟨⟩
      · cases success
    · cases success
  · cases success

theorem create_eq_ok {origin : Option Origin} {originSessionId : JsString} {params : Value} {jobId : Option JsString}
    {initiallyPaused : Bool} {draw : JsString}
    (success : create env store origin originSessionId params now jobId initiallyPaused draw = .ok (next, job)) :
    next = store ∨ ∃ newId jobs, store.jobs.insert? newId job = some jobs ∧ Fresh job ∧ next = { store with jobs } := by
  unfold create at success
  obtain ⟨_, _, success⟩ := Checked.bind_eq_ok.mp success
  split at success
  · obtain ⟨existing, _, done⟩ := Checked.bind_eq_ok.mp success
    cases done
    exact .inl rfl
  · obtain ⟨creation, computed, success⟩ := Checked.bind_eq_ok.mp success
    obtain ⟨columns, _, success⟩ := Checked.bind_eq_ok.mp success
    simp only at success
    split at success
    · cases success
    · next jobs inserted =>
      obtain ⟨_, _, done⟩ := Checked.bind_eq_ok.mp success
      cases done
      refine .inr ⟨_, jobs, inserted, ?_, rfl⟩
      unfold creationParams at computed
      split at computed
      · cases computed
      · obtain ⟨check, _, computed⟩ := Checked.bind_eq_ok.mp computed
        obtain ⟨normalized, normal, computed⟩ := Checked.bind_eq_ok.mp computed
        obtain ⟨_, recurring, computed⟩ := Checked.bind_eq_ok.mp computed
        obtain ⟨times, counted, computed⟩ := Checked.bind_eq_ok.mp computed
        cases computed
        constructor
        · rfl
        · cases initiallyPaused <;> rfl
        · cases initiallyPaused
          · exact .inl rfl
          · exact .inr rfl
        · rfl
        · exact Checked.require_eq_ok.mp recurring
        · intro intervalSeconds timezone is
          have least := normalizeCronSchedule_interval normal intervalSeconds timezone is
          have positive : 0 < (if check.isSome = true then minCheckedIntervalSeconds else minCronIntervalSeconds) := by
            split <;> decide
          omega
        · exact requireRepeat_pos counted
        · exact requireRepeat_once counted
        · rfl
        · exact ⟨rfl, rfl⟩

/-- An edit replaces the row that its selector names. -/
theorem update_eq_ok {patch : Value} (success : update env store selector patch now = .ok (next, job)) :
    ∃ jobId current new columns, store.resolveJob selector false = .ok (jobId, current)
      ∧ replacement env current patch now = .ok new
      ∧ next = store.updateJob jobId fun _ => Store.replaced current new columns now := by
  obtain ⟨⟨jobId, current⟩, named, success⟩ := Checked.bind_eq_ok.mp success
  obtain ⟨new, computed, success⟩ := Checked.bind_eq_ok.mp success
  obtain ⟨columns, _, success⟩ := Checked.bind_eq_ok.mp success
  split at success
  · cases success
  · next stored found =>
    obtain ⟨_, _, done⟩ := Checked.bind_eq_ok.mp success
    cases done
    have same : stored = current :=
      Option.some.inj ((Option.filter_eq_some_iff.mp found).1.symm.trans (resolveJob_eq_ok named).1)
    exact ⟨jobId, current, new, columns, named, computed, by rw [same]⟩

theorem resume_eq_ok {expectedJob : Option (JsString × Job)}
    (success : resume env store selector now expectedJob = .ok (next, job)) :
    ∃ jobId current time, store.resolveJob selector false = .ok (jobId, current) ∧ current.state = .paused
      ∧ resumeTime env current now = .ok time ∧ next = store.updateJob jobId fun _ => Store.resumed time now current := by
  obtain ⟨⟨jobId, current⟩, named, success⟩ := Checked.bind_eq_ok.mp success
  obtain ⟨_, paused, success⟩ := Checked.bind_eq_ok.mp success
  obtain ⟨time, computed, success⟩ := Checked.bind_eq_ok.mp success
  obtain ⟨_, _, success⟩ := Checked.bind_eq_ok.mp success
  obtain ⟨stored, found, _, rfl⟩ := changeJob_eq_ok success
  have same : stored = current := Option.some.inj (found.symm.trans (resolveJob_eq_ok named).1)
  exact ⟨jobId, current, time, named, Checked.require_eq_ok.mp paused, computed, by rw [same]⟩

end Successes

end PersistentHarness.Cron
