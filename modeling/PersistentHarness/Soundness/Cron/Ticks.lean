import PersistentHarness.Soundness.Cron.Requests

/-! # Ticks are sequences of moves

Both loops of a tick work on rows listed before, and every row is still as listed when its turn comes:
an iteration only rewrites its own job, and no job is listed twice. So each claim or deferral finds the
job due, or its result pending, as the listing saw it.
-/

namespace PersistentHarness.Cron

open Store (afterCheck afterOccurrence scheduledRun)

variable {env : Env} {origin : Scheduler} {now : ℤ}

/-- What a tick has done so far is a sequence of moves, and its free slots are real. -/
structure Progress (env : Env) (origin : Scheduler) (now : ℤ) (t : Tick) : Prop where
  moves : Moves env origin now .tick origin t.emitted t.state
  room : t.capacity ≠ 0 → t.state.store.countActiveRuns + t.capacity ≤ env.maxParallel
  roomBefore : t.capacity ≠ 0 → origin.store.countActiveRuns < env.maxParallel
  kept : ∀ runId, t.state.store.getRun runId = none → origin.store.getRun runId = none

/-- Where a tick has thrown, it threw for a reason. -/
def Justified (env : Env) (origin : Scheduler) (now : ℤ) (t : Tick) : Prop :=
  ∀ thrown, t.thrown = some thrown → Throws env origin now .tick t.state thrown

/-- The first loop leaves each job as it was or claimed, and no active run has ended. -/
structure PendingProgress (env : Env) (origin : Scheduler) (now : ℤ) (t : Tick) : Prop extends
    Progress env origin now t where
  busy : ∀ jobId, origin.store.hasActiveRun jobId = true → t.state.store.hasActiveRun jobId = true
  related : ∀ jobId job, t.state.store.getJob jobId = some job → origin.store.getJob jobId = some job
    ∨ ∃ earlier pending, origin.store.getJob jobId = some earlier ∧ job = afterCheck earlier pending now

section Single

variable {s : Store} {jobId : JsString} {job next : Job} {runId : RunId} {run : Run} {store : Store}

theorem hasActiveRun_insertRun (inserted : s.insertRun runId run = .ok store) {other : JsString}
    (busy : s.hasActiveRun other = true) : store.hasActiveRun other = true := by
  obtain ⟨busyId, busyRun, stored, same, active⟩ := Store.hasActiveRun_iff.mp busy
  refine Store.hasActiveRun_iff.mpr ⟨busyId, busyRun, ?_, same, active⟩
  rw [Store.getRun_insertRun inserted, if_neg, stored]
  rintro rfl
  rw [Store.fresh_of_insertRun inserted] at stored
  cases stored

theorem getRun_insertRun_none (inserted : s.insertRun runId run = .ok store) {other : RunId} (absent : store.getRun other = none) :
    s.getRun other = none := by
  rw [Store.getRun_insertRun inserted] at absent
  split at absent
  · cases absent
  · exact absent

/-- The claim of a run under a scheduled id is a move that takes no random draw. -/
theorem Move.claimed_scheduled {s : Scheduler} {scheduledAt : ℤ} (found : s.store.getJob jobId = some job)
    (claim : Claim env origin now .tick s jobId job (.scheduled jobId scheduledAt) run next)
    (inserted : s.store.insertRun (.scheduled jobId scheduledAt) run = .ok store)
    (kept : ∀ runId, s.store.getRun runId = none → origin.store.getRun runId = none) :
    Move env origin now .tick s (launch (.scheduled jobId scheduledAt) run)
      { s with store := store.updateJob jobId fun _ => next } := by
  have move := Move.claimed found claim inserted (kept _ (Store.fresh_of_insertRun inserted))
  have draws : max s.draws (RunId.scheduled jobId scheduledAt).draws = s.draws := Nat.max_zero _
  rwa [draws] at move

end Single

section Pending

/-- A row that the first loop still has to look at. -/
structure Waiting (origin : Scheduler) (t : Tick) (row : JsString × Job) : Prop where
  before : origin.store.getJob row.1 = some row.2
  here : t.state.store.getJob row.1 = some row.2
  pending : row.2.pendingCheck.isSome = true
  live : row.2.state ≠ .removed

theorem claim_pending {t : Tick} (awake : origin.stopped = false) (progress : PendingProgress env origin now t) {jobId : JsString} {job : Job}
    {pending : PendingCheck} {store : Store} {run : Run} {next : Job} (waiting : Waiting origin t (jobId, job))
    (waits : job.pendingCheck = some pending) (slots : t.capacity ≠ 0)
    (success : t.state.store.claimCheckedRun jobId (.scheduled jobId pending.scheduledAt) now = .ok (store, some (run, next))) :
    PendingProgress env origin now (t.claim store (.scheduled jobId pending.scheduledAt) run)
      ∧ ∀ other, other ≠ jobId → store.getJob other = t.state.store.getJob other := by
  rw [Store.claimCheckedRun_of_pending waiting.here waits waiting.live] at success
  split at success
  · cases success
  next idle =>
  obtain ⟨inserted, accepted, done⟩ := Checked.bind_eq_ok.mp success
  cases done
  have room := progress.room slots
  have claim : Claim env origin now .tick t.state jobId job (.scheduled jobId pending.scheduledAt) _ _ :=
    .checked rfl waits waiting.live (by simpa using idle) (by omega) awake waiting.before
      (Bool.eq_false_iff.mpr fun busy => idle (progress.busy _ busy)) (progress.roomBefore slots)
  have active : inserted.countActiveRuns = t.state.store.countActiveRuns + 1 := Store.countActiveRuns_insertRun accepted
  have others : ∀ other, other ≠ jobId →
      (inserted.updateJob jobId fun _ => afterCheck job pending now).getJob other = t.state.store.getJob other := by
    intro other different
    rw [Store.getJob_updateJob, if_neg different, Store.getJob_insertRun accepted]
  refine ⟨⟨⟨.snoc progress.moves (.claimed_scheduled waiting.here claim accepted progress.kept), fun _ => ?_,
    fun _ => progress.roomBefore slots, fun other absent => ?_⟩, fun other busy => ?_, fun other found job' => ?_⟩, others⟩
  · change inserted.countActiveRuns + (t.capacity - 1) ≤ env.maxParallel
    omega
  · exact progress.kept other (getRun_insertRun_none accepted absent)
  · exact hasActiveRun_insertRun accepted (progress.busy other busy)
  · by_cases here : other = jobId
    · subst here
      have written : found = afterCheck job pending now := by
        have stored : inserted.getJob other = some job := (Store.getJob_insertRun accepted other).trans waiting.here
        have read := (Store.getJob_updateJob_of stored (afterCheck job pending now) other).symm.trans job'
        rw [if_pos rfl] at read
        exact (Option.some.inj read).symm
      exact .inr ⟨job, pending, waiting.before, written⟩
    · exact progress.related other found ((others other here).symm.trans job')

theorem waiting_of_listed (s : Scheduler) (limit : ℕ) :
    ∀ row ∈ s.store.listPendingCheckJobs limit, Waiting s (Tick.start env s) row := by
  intro row member
  obtain ⟨found, holds⟩ := Table.mem_of_mem_select member
  simp only [decide_eq_true_eq] at holds
  exact ⟨found, found, holds.1, holds.2⟩

theorem pendingLoop_progress {rows : List (JsString × Job)} {t : Tick} (awake : origin.stopped = false) (progress : PendingProgress env origin now t)
    (quiet : t.thrown = none) (distinct : (Assoc.keys rows).Nodup) (listed : ∀ row ∈ rows, Waiting origin t row) :
    PendingProgress env origin now (Tick.pendingLoop now rows t)
      ∧ Justified env origin now (Tick.pendingLoop now rows t) := by
  have calm : Justified env origin now t := by
    intro thrown failed
    rw [quiet] at failed
    cases failed
  induction rows generalizing t with
  | nil => exact ⟨progress, calm⟩
  | cons row rest ih =>
    obtain ⟨jobId, job⟩ := row
    have waiting := listed _ (List.mem_cons_self ..)
    obtain ⟨fresh, distinct⟩ := List.nodup_cons.mp distinct
    obtain ⟨pending, waits⟩ := Option.isSome_iff_exists.mp waiting.pending
    change job.pendingCheck = some pending at waits
    unfold Tick.pendingLoop
    split
    · exact ⟨progress, calm⟩
    next slots =>
    simp only [waits]
    split
    · next thrown failed =>
      -- the listed row has a result and no active run, so its insert was refused
      rw [Store.claimCheckedRun_of_pending waiting.here waits waiting.live] at failed
      split at failed
      · cases failed
      next idle =>
      have refused : t.state.store.insertRun (.scheduled jobId pending.scheduledAt)
          (Run.claim jobId .scheduled pending.scheduledAt now job (some pending.result)) = .error thrown := by
        cases outcome : t.state.store.insertRun (.scheduled jobId pending.scheduledAt)
          (Run.claim jobId .scheduled pending.scheduledAt now job (some pending.result)) with
        | ok store => rw [outcome] at failed; cases failed
        | error other => rw [outcome] at failed; cases failed; rfl
      have room := progress.room slots
      have claim : Claim env origin now .tick t.state jobId job (.scheduled jobId pending.scheduledAt) _ _ :=
        .checked rfl waits waiting.live (by simpa using idle) (by omega) awake waiting.before
          (Bool.eq_false_iff.mpr fun busy => idle (progress.busy _ busy)) (progress.roomBefore slots)
      refine ⟨{ progress with }, ?_⟩
      rintro other ⟨⟩
      exact .refused waiting.here claim refused
    · next store success =>
      rw [Store.claimCheckedRun_of_pending waiting.here waits waiting.live] at success
      split at success
      · cases success
        exact ih progress quiet distinct (fun row member => listed row (List.mem_cons_of_mem _ member)) calm
      · obtain ⟨_, _, done⟩ := Checked.bind_eq_ok.mp success
        cases done
    · next store run next success =>
      obtain ⟨claimed, others⟩ := claim_pending awake progress waiting waits slots success
      have still : Justified env origin now (t.claim store (.scheduled jobId pending.scheduledAt) run) := by
        intro thrown failed
        cases quiet.symm.trans failed
      refine ih claimed quiet distinct (fun row member => ?_) still
      have later := listed row (List.mem_cons_of_mem _ member)
      have different : row.1 ≠ jobId := by
        rintro rfl
        exact fresh (List.mem_map.mpr ⟨row, member, rfl⟩)
      exact { later with here := (others row.1 different).trans later.here }

end Pending

section Dues

/-- A row that the second loop still has to look at. -/
structure Listed (origin : Scheduler) (now : ℤ) (t : Tick) (row : JsString × Job) : Prop where
  here : t.state.store.getJob row.1 = some row.2
  due : Due now row.2 (row.2.nextRunAt.getD 0)
  before : ∃ earlier, origin.store.getJob row.1 = some earlier ∧ Due now earlier (row.2.nextRunAt.getD 0)
    ∧ earlier.check = row.2.check ∧ earlier.schedule = row.2.schedule

/-- What the second loop lists was due before the tick: a claimed result leaves a due job as it was. -/
theorem PendingProgress.listed {t : Tick} (progress : PendingProgress env origin now t) (limit : ℕ) :
    ∀ row ∈ t.state.store.listDueJobs now limit, Listed origin now t row := by
  intro row member
  obtain ⟨found, isDue⟩ := Table.mem_of_mem_select member
  have due := due_of_dueAt isDue
  refine ⟨found, due, ?_⟩
  rcases progress.related row.1 row.2 found with same | ⟨earlier, result, before, written⟩
  · exact ⟨row.2, same, due, rfl, rfl⟩
  · rw [written] at due ⊢
    have goesOn : ¬Store.exhausts earlier = true := by
      intro exhausted
      have enabled := due.enabled
      simp only [afterCheck, exhausted, ↓reduceIte] at enabled
      cases enabled
    refine ⟨earlier, before, ⟨?_, ?_, ?_, due.past⟩, rfl, rfl⟩
    · simpa only [afterCheck, goesOn, Bool.false_eq_true, ↓reduceIte] using due.enabled
    · simpa only [afterCheck, goesOn, Bool.false_eq_true, ↓reduceIte] using due.scheduled
    · simpa only [afterCheck, goesOn, Bool.false_eq_true, ↓reduceIte] using due.next

theorem throws_of_runFree {α : Type} {x : CronResult α} {s : Scheduler} {op : Op} {thrown : CronError} (free : RunFree x)
    (failed : x = .error thrown) : Throws env origin now op s thrown := .other (free.free thrown failed)

theorem startCheck_eq_ok {s next : Scheduler} {jobId : JsString} {job : Job} {command : Check} {scheduledAt : ℤ}
    (awake : origin.stopped = false) (found : s.store.getJob jobId = some job) (due : Due now job scheduledAt) (checked : job.check = some command)
    (before : ∃ earlier, origin.store.getJob jobId = some earlier ∧ Due now earlier scheduledAt
      ∧ earlier.check = some command ∧ earlier.schedule = job.schedule)
    (success : Tick.startCheck env now s jobId job command scheduledAt = .ok next) :
    (next = s ∨ Move env origin now .tick s [] next) ∧ next.store.runs = s.store.runs
      ∧ ∀ other, other ≠ jobId → next.store.getJob other = s.store.getJob other := by
  unfold Tick.startCheck at success
  split at success
  · cases success
    exact ⟨.inl rfl, rfl, fun _ _ => rfl⟩
  next absent =>
  obtain ⟨nextRunAt, computed, success⟩ := Checked.bind_eq_ok.mp success
  simp only [not_or, Bool.not_eq_true, Option.isSome_eq_false_iff, Option.isNone_iff_eq_none] at absent
  have taken : s.store.deferCheckedOccurrence jobId scheduledAt nextRunAt now =
      (s.store.updateJob jobId fun _ => { job with nextRunAt, updatedAt := now }, true) := by
    unfold Store.deferCheckedOccurrence
    rw [found, Option.filter_some, if_pos (by simp [due.enabled, due.scheduled, due.next, absent.2.1])]
  have others : ∀ other, other ≠ jobId →
      (s.store.updateJob jobId fun _ => { job with nextRunAt, updatedAt := now }).getJob other = s.store.getJob other := by
    intro other different
    rw [Store.getJob_updateJob, if_neg different]
  simp only [taken] at success
  split at success
  · cases success
    exact ⟨.inr (.deferred rfl awake found due checked absent.2.1 absent.1 computed before (.inl rfl)), rfl, others⟩
  · cases success
    exact ⟨.inr (.deferred rfl awake found due checked absent.2.1 absent.1 computed before (.inr rfl)), rfl, others⟩

/-- The claim of a due occurrence inserts its run, or is refused by an index. -/
theorem claimDue_cases {s : Scheduler} {jobId : JsString} {job : Job} {scheduledAt : ℤ}
    (found : s.store.getJob jobId = some job) (due : Due now job scheduledAt) (unchecked : job.check = none)
    (room : s.store.countActiveRuns < env.maxParallel) :
    (∃ thrown, Tick.claimDue env now s jobId job scheduledAt = .error thrown ∧ Throws env origin now .tick s thrown)
      ∨ ∃ run next inserted, Claim env origin now .tick s jobId job (.scheduled jobId scheduledAt) run next
        ∧ run.status.active = !(s.store.activeRun? jobId).isSome
        ∧ s.store.insertRun (.scheduled jobId scheduledAt) run = .ok inserted
        ∧ Tick.claimDue env now s jobId job scheduledAt = .ok (inserted.updateJob jobId fun _ => next,
          if (s.store.activeRun? jobId).isSome then .skipped else .claimed run next) := by
  unfold Tick.claimDue
  cases computed : nextCronRunAfter env.calendar job.schedule scheduledAt now with
  | error thrown => exact .inl ⟨thrown, rfl, throws_of_runFree (runFree_nextCronRunAfter ..) computed⟩
  | ok nextRunAt =>
    rw [Checked.ok_bind, Store.claimScheduledRun_of_due found ⟨due.enabled, due.scheduled, due.next⟩]
    have claim : Claim env origin now .tick s jobId job (.scheduled jobId scheduledAt) _ _ :=
      .plain rfl due unchecked computed room rfl
    simp only
    cases outcome : s.store.insertRun (.scheduled jobId scheduledAt)
        (scheduledRun env.text jobId job scheduledAt now (s.store.activeRun? jobId)) with
    | error thrown => exact .inl ⟨thrown, rfl, .refused found claim outcome⟩
    | ok inserted =>
      refine .inr ⟨_, _, inserted, claim, ?_, outcome, rfl⟩
      cases s.store.activeRun? jobId <;> rfl

theorem dueLoop_progress {rows : List (JsString × Job)} {t : Tick} (awake : origin.stopped = false) (progress : Progress env origin now t)
    (quiet : t.thrown = none) (distinct : (Assoc.keys rows).Nodup) (listed : ∀ row ∈ rows, Listed origin now t row) :
    Progress env origin now (Tick.dueLoop env now rows t) ∧ Justified env origin now (Tick.dueLoop env now rows t) := by
  have calm : Justified env origin now t := by
    intro thrown failed
    cases quiet.symm.trans failed
  induction rows generalizing t with
  | nil => exact ⟨progress, calm⟩
  | cons row rest ih =>
    obtain ⟨jobId, job⟩ := row
    have head := listed _ (List.mem_cons_self ..)
    have found : t.state.store.getJob jobId = some job := head.here
    have due : Due now job (job.nextRunAt.getD 0) := head.due
    obtain ⟨fresh, distinct⟩ := List.nodup_cons.mp distinct
    have tail : ∀ {u : Tick}, (∀ other, other ≠ jobId → u.state.store.getJob other = t.state.store.getJob other) →
        ∀ row ∈ rest, Listed origin now u row := by
      intro u others row member
      have later := listed row (List.mem_cons_of_mem _ member)
      have different : row.1 ≠ jobId := by
        rintro rfl
        exact fresh (List.mem_map.mpr ⟨row, member, rfl⟩)
      exact { later with here := (others row.1 different).trans later.here }
    unfold Tick.dueLoop
    simp only
    split
    · next command checked =>
      have before : ∃ earlier, origin.store.getJob jobId = some earlier ∧ Due now earlier (job.nextRunAt.getD 0)
          ∧ earlier.check = some command ∧ earlier.schedule = job.schedule := by
        obtain ⟨earlier, stored, same, check, schedule⟩ := head.before
        exact ⟨earlier, stored, same, check.trans checked, schedule⟩
      split
      · next thrown failed =>
        refine ⟨{ progress with }, ?_⟩
        rintro other ⟨⟩
        unfold Tick.startCheck at failed
        split at failed
        · cases failed
        · cases computed : nextCronRunAfter env.calendar job.schedule (job.nextRunAt.getD 0) now with
          | error e =>
            rw [computed] at failed
            cases failed
            exact throws_of_runFree (runFree_nextCronRunAfter ..) computed
          | ok nextRunAt =>
            rw [computed, Checked.ok_bind] at failed
            simp only at failed
            split at failed <;> cases failed
      · next state success =>
        obtain ⟨moved, runs, others⟩ := startCheck_eq_ok awake found due checked before success
        have moves : Moves env origin now .tick origin t.emitted state := by
          rcases moved with rfl | move
          · exact progress.moves
          · have more := Moves.snoc progress.moves move
            rwa [List.append_nil] at more
        have counts : state.store.countActiveRuns = t.state.store.countActiveRuns := by
          unfold Store.countActiveRuns
          rw [runs]
        refine ih ⟨moves, fun slots => ?_, progress.roomBefore, fun runId absent => ?_⟩ quiet distinct (tail others) ?_
        · exact (congrArg (· + t.capacity) counts).trans_le (progress.room slots)
        · exact progress.kept runId ((congrArg (fun runs => Table.get? runs runId) runs).symm.trans absent)
        · intro thrown failed
          cases quiet.symm.trans failed
    · next unchecked =>
      split
      · exact ⟨progress, calm⟩
      next slots =>
      have room := progress.room slots
      have below : t.state.store.countActiveRuns < env.maxParallel := by omega
      rcases claimDue_cases found due unchecked below with
        ⟨thrown, failed, reason⟩ | ⟨run, next, inserted, claim, active, accepted, success⟩
      · simp only [failed]
        refine ⟨{ progress with }, ?_⟩
        rintro other ⟨⟩
        exact reason
      · have moves := Moves.snoc progress.moves (.claimed_scheduled found claim accepted progress.kept)
        have counts := Store.countActiveRuns_insertRun accepted
        have others : ∀ other, other ≠ jobId →
            (inserted.updateJob jobId fun _ => next).getJob other = t.state.store.getJob other := by
          intro other different
          rw [Store.getJob_updateJob, if_neg different, Store.getJob_insertRun accepted]
        have kept : ∀ runId, inserted.getRun runId = none → origin.store.getRun runId = none := fun runId absent =>
          progress.kept runId (getRun_insertRun_none accepted absent)
        simp only [success]
        cases busy : (t.state.store.activeRun? jobId).isSome with
        | true =>
          rw [busy] at active
          simp only [launch, active, Bool.not_true, Bool.false_eq_true, ↓reduceIte, List.append_nil, Nat.add_zero]
            at moves counts
          simp only [↓reduceIte]
          refine ih ⟨moves, fun _ => ?_, progress.roomBefore, kept⟩ quiet distinct (tail others) ?_
          · exact (congrArg (· + t.capacity) counts).trans_le room
          · intro thrown failed
            cases quiet.symm.trans failed
        | false =>
          rw [busy] at active
          simp only [launch, active, Bool.not_false, ↓reduceIte] at moves counts
          simp only [Bool.false_eq_true, ↓reduceIte]
          refine ih ⟨moves, fun _ => ?_, fun _ => progress.roomBefore slots, kept⟩ quiet distinct (tail others) ?_
          · change inserted.countActiveRuns + (t.capacity - 1) ≤ env.maxParallel
            omega
          · intro thrown failed
            cases quiet.symm.trans failed

end Dues

/-- A tick is a sequence of moves, and what it throws has a reason. -/
theorem tick_moves (env : Env) (origin : Scheduler) (now : ℤ) :
    Moves env origin now .tick origin (Tick.run env now origin).emitted (Tick.run env now origin).state
      ∧ Justified env origin now (Tick.run env now origin) := by
  unfold Tick.run
  split
  · refine ⟨.nil origin, ?_⟩
    rintro thrown ⟨⟩
  next running =>
  have awake : origin.stopped = false := by simpa using running
  have start : PendingProgress env origin now (Tick.start env origin) := by
    refine ⟨⟨.nil origin, fun slots => ?_, fun slots => ?_, fun _ absent => absent⟩, fun _ busy => busy, fun _ _ found => .inl found⟩
    · simp only [Tick.start] at slots ⊢
      omega
    · simp only [Tick.start] at slots
      omega
  obtain ⟨pending, reason⟩ := pendingLoop_progress awake start rfl (Table.select_nodup ..) (waiting_of_listed origin 64)
  simp only
  split
  · exact ⟨pending.moves, reason⟩
  next quiet =>
  have quiet := Option.not_isSome_iff_eq_none.mp quiet
  obtain ⟨due, reason⟩ := dueLoop_progress awake pending.toProgress quiet (Table.select_nodup ..) (pending.listed 64)
  split
  · exact ⟨due.moves, reason⟩
  · refine ⟨?_, fun thrown failed => ?_⟩
    · have moves := Moves.snoc due.moves (.pruned rfl)
      rwa [List.append_nil] at moves
    · next calm =>
      have calm := Option.not_isSome_iff_eq_none.mp calm
      cases calm.symm.trans failed

end PersistentHarness.Cron
