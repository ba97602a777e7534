import PersistentHarness.Soundness.Cron.Lifecycle
import PersistentHarness.Soundness.Cron.Occurrences

/-! # The guards of the store

Under a clock that never goes back, a job has one active run at most, all jobs together fill no more than
the run slots, an occurrence becomes one run at most, and no insert of a run meets a unique index. What a
run reports when it ends never changes. Every id names its run, so the indexes and the ids say the same.
-/

namespace PersistentHarness.Cron

variable {env : Env} {origin s t : Scheduler} {now : ℤ} {op : Op} {emitted : List Emission}

section Names

def RunId.Names (draws : ℕ) : RunId → Run → Prop
  | .scheduled jobId scheduledAt, run => run.source = .scheduled ∧ run.jobId = jobId ∧ run.scheduledAt = scheduledAt
  | .manual jobId _ draw, run => run.source = .manual ∧ run.jobId = jobId ∧ draw < draws

theorem RunId.Names.later {draws more : ℕ} {runId : RunId} {run : Run} (le : draws ≤ more) (names : runId.Names draws run) :
    runId.Names more run := by
  cases runId with
  | scheduled => exact names
  | manual => exact ⟨names.1, names.2.1, names.2.2.trans_le le⟩

theorem RunId.Names.evolves {draws : ℕ} {runId : RunId} {run next : Run} (names : runId.Names draws run)
    (evolves : RunEvolves now run next) : runId.Names draws next := by
  obtain ⟨named, source, occurrence, _⟩ := evolves.named
  cases runId with
  | scheduled => exact ⟨source.trans names.1, named.trans names.2.1, occurrence.trans names.2.2⟩
  | manual => exact ⟨source.trans names.1, named.trans names.2.1, names.2.2⟩

theorem Claim.names {jobId : JsString} {job next : Job} {runId : RunId} {run : Run} {draws : ℕ}
    (claim : Claim env origin now op s jobId job runId run next) (le : runId.draws ≤ draws) : runId.Names draws run := by
  have named := claim.named
  cases claim with
  | plain is due unchecked computed room makes =>
    rw [makes] at named ⊢
    refine ⟨?_, named, ?_⟩
    · unfold Store.scheduledRun
      split <;> rfl
    · unfold Store.scheduledRun
      split <;> rfl
  | checked => exact ⟨rfl, rfl, rfl⟩
  | manual => exact ⟨rfl, rfl, le⟩

theorem Move.draws_le (move : Move env origin now op s emitted t) : s.draws ≤ t.draws := by
  cases move with
  | claimed => exact Nat.le_max_left ..
  | @checkFinished check result =>
    cases result with
    | ok output =>
      unfold Cron.checkFinished
      simp only
      split <;> exact le_refl _
    | failed error =>
      unfold Cron.checkFinished
      simp only
      split <;> exact le_refl _
  | created => exact le_refl _
  | changed => exact le_refl _
  | deferred => exact le_refl _
  | rewritten => exact le_refl _
  | noted => exact le_refl _
  | reconciled => exact le_refl _
  | pruned => exact le_refl _
  | idle => exact le_refl _

end Names

section Counts

theorem Claim.room {jobId : JsString} {job next : Job} {runId : RunId} {run : Run}
    (claim : Claim env origin now op s jobId job runId run next) : s.store.countActiveRuns < env.maxParallel := by
  cases claim with
  | plain _ _ _ _ room => exact room
  | checked _ _ _ _ room => exact room
  | manual _ _ _ room => exact room

/-- Only claims make runs active, and they leave the limit its due. -/
theorem Move.room (move : Move env origin now op s emitted t) (room : s.store.countActiveRuns ≤ env.maxParallel) :
    t.store.countActiveRuns ≤ env.maxParallel := by
  cases move with
  | claimed found claim inserted =>
    refine (Store.countActiveRuns_insertRun inserted).le.trans ?_
    have below := claim.room
    split <;> omega
  | @checkFinished check result =>
    rw [Store.countActiveRuns, checkFinished_runs]
    exact room
  | rewritten stored change =>
    refine (Table.count_update_le fun before was => ?_).trans room
    exact (RunEvolves.changed (Option.some.inj (stored.symm.trans was) ▸ change)).active
  | noted notes => exact (Table.count_update_le fun before was => (@RunEvolves.noted now before _ notes).active).trans room
  | reconciled is =>
    refine (Table.count_modify_le fun runId before was => ?_).trans room
    exact (@RunEvolves.interrupted now before).active
  | pruned is => exact (Table.count_delete_le ..).trans room
  | created => exact room
  | changed => exact room
  | deferred => exact room
  | idle => exact room

end Counts

section Guarded

/-- At most one run of a job is active. -/
def Alone (s : Scheduler) : Prop :=
  ∀ a b run other, s.store.getRun a = some run → s.store.getRun b = some other → run.jobId = other.jobId →
    run.status.active = true → other.status.active = true → a = b

/-- What the guards of the store keep. -/
structure Guarded (env : Env) (clock : ℤ) (s : Scheduler) : Prop where
  known : Known s
  planned : EachJob (fun _ job => Planned job) s
  timelines : EachJob (Timeline clock s) s
  named : ∀ runId run, s.store.getRun runId = some run → runId.Names s.draws run
  alone : Alone s
  room : s.store.countActiveRuns ≤ env.maxParallel

theorem Timeline.later {clock : ℤ} {jobId : JsString} {job : Job} (timeline : Timeline clock s jobId job) (le : clock ≤ now) :
    Timeline now s jobId job :=
  { timeline with past := fun occurrence member => (timeline.past occurrence member).trans le }

theorem Guarded.later {clock : ℤ} (guarded : Guarded env clock s) (le : clock ≤ now) : Guarded env now s :=
  { guarded with timelines := fun jobId job found => (guarded.timelines jobId job found).later le }

/-- A claim inserts an active run only for a job without one. -/
theorem Move.alone (move : Move env origin now op s emitted t) (alone : Alone s) : Alone t := by
  intro a b run other first second same active busy
  rcases move.runs with ⟨jobId, job, newId, new, nextJob, store, stored, claim, inserted, _, _, runs⟩ | evolved
  · have read : ∀ runId, t.store.getRun runId = if newId = runId then some new else s.store.getRun runId := by
      intro runId
      rw [Store.getRun, runs]
      exact Store.getRun_insertRun inserted runId
    obtain ⟨_, _, _, _, idle⟩ := Store.insertRun_eq_ok.mp inserted
    rw [read] at first second
    -- a new active run finds every other run of its job over
    split at first
    · next here =>
      split at second
      · next there => exact here.symm.trans there
      · cases first
        have ended := Store.hasActiveRun_eq_false.mp (idle active) b other second same.symm
        rw [ended] at busy
        cases busy
    · split at second
      · cases second
        have ended := Store.hasActiveRun_eq_false.mp (idle busy) a run first same
        rw [ended] at active
        cases active
      · exact alone a b run other first second same active busy
  · obtain ⟨before, was, evolves⟩ := evolved a run first
    obtain ⟨beside, stood, changes⟩ := evolved b other second
    exact alone a b before beside was stood (evolves.named.1.symm.trans (same.trans changes.named.1)) (evolves.active active)
      (changes.active busy)

theorem Move.named (move : Move env origin now op s emitted t)
    (named : ∀ runId run, s.store.getRun runId = some run → runId.Names s.draws run) (runId : RunId) (run : Run)
    (stored : t.store.getRun runId = some run) : runId.Names t.draws run := by
  rcases move.run stored with ⟨_, _, _, _, _, claim, _, _, draws⟩ | ⟨before, was, evolves⟩
  · exact claim.names draws
  · exact ((named runId before was).later move.draws_le).evolves evolves

theorem Move.guarded (forward : env.calendar.Forward) (resumes : ResumesUnused origin now op)
    (move : Move env origin now op s emitted t) (guarded : Guarded env now s) : Guarded env now t := by
  constructor
  · exact move.known guarded.known
  · exact move.planned guarded.planned
  · exact move.timeline forward resumes guarded.known guarded.planned guarded.timelines
  · exact move.named guarded.named
  · exact move.alone guarded.alone
  · exact move.room guarded.room

theorem occurrence_of_named (named : ∀ runId run, s.store.getRun runId = some run → runId.Names s.draws run)
    {a b : RunId} {run other : Run} (first : s.store.getRun a = some run) (second : s.store.getRun b = some other) (scheduled : run.source = .scheduled)
    (also : other.source = .scheduled) (same : run.jobId = other.jobId) (at' : run.scheduledAt = other.scheduledAt) : a = b := by
  have names := named a run first
  have others := named b other second
  cases a with
  | manual => exact absurd (scheduled.symm.trans names.1) (by decide)
  | scheduled =>
    cases b with
    | manual => exact absurd (also.symm.trans others.1) (by decide)
    | scheduled => rw [← names.2.1, ← names.2.2, ← others.2.1, ← others.2.2, same, at']

theorem Guarded.occurrence {clock : ℤ} (guarded : Guarded env clock s) {a b : RunId} {run other : Run}
    (first : s.store.getRun a = some run) (second : s.store.getRun b = some other) (scheduled : run.source = .scheduled)
    (also : other.source = .scheduled) (same : run.jobId = other.jobId) (at' : run.scheduledAt = other.scheduledAt) : a = b :=
  occurrence_of_named guarded.named first second scheduled also same at'

/-- No claim is refused: its occurrence was next or waiting, so no stored run has it. -/
theorem Guarded.accepts {clock : ℤ} (guarded : Guarded env clock s) {jobId : JsString} {job next : Job} {runId : RunId} {run : Run}
    (found : s.store.getJob jobId = some job) (claim : Claim env origin now op s jobId job runId run next) {thrown : CronError} :
    s.store.insertRun runId run ≠ .error thrown := by
  intro refused
  have timeline := guarded.timelines jobId job found
  have unused : ∀ occurrence, occurrence ∉ s.store.used jobId → runId = .scheduled jobId occurrence → run.scheduledAt = occurrence →
      run.source = .scheduled → (run.status.active = true → s.store.hasActiveRun jobId = false) → False := by
    intro occurrence absent names same source idle
    have fresh : Store.FreshOccurrence s.store run := by
      rintro otherId other stored ⟨also, named, twin⟩
      exact absent (Store.mem_used.mpr ⟨otherId, other, stored, also, named.trans claim.named, twin.trans same⟩)
    rcases Store.insertRun_refused refused with taken | ⟨_, stale⟩ | ⟨active, busy⟩
    · obtain ⟨other, stored⟩ := Option.isSome_iff_exists.mp taken
      have names := names ▸ guarded.named runId other stored
      exact absent (Store.mem_used.mpr ⟨runId, other, stored, names.1, names.2.1, names.2.2⟩)
    · exact stale fresh
    · rw [claim.named, idle active] at busy
      cases busy
  cases claim with
  | @plain scheduledAt nextRunAt run is due unchecked computed room makes =>
    have free := timeline.free scheduledAt due.next
    refine unused scheduledAt (fun ran => free (mem_taken.mpr (.inr ran))) rfl ?_ ?_ fun active => ?_
    · rw [makes]
      unfold Store.scheduledRun
      split <;> rfl
    · rw [makes]
      unfold Store.scheduledRun
      split <;> rfl
    · rw [makes] at active
      unfold Store.scheduledRun at active
      rw [Store.hasActiveRun]
      split at active
      · next none => rw [none]; rfl
      · cases active
  | @checked pending is waits live idle =>
    refine unused pending.scheduledAt (fun ran => ?_) rfl rfl rfl fun _ => idle
    have single := (List.nodup_append.mp timeline.single).2.1
    rw [waits] at single
    exact (List.nodup_cons.mp single).1 ran
  | manual is live idle =>
    rcases Store.insertRun_refused refused with taken | ⟨scheduled, _⟩ | ⟨_, busy⟩
    · obtain ⟨other, stored⟩ := Option.isSome_iff_exists.mp taken
      exact absurd (guarded.named _ other stored).2.2 (lt_irrefl _)
    · cases scheduled
    · rw [show (Run.claim jobId .manual now now job none).jobId = jobId from rfl, idle] at busy
      cases busy

end Guarded

section Runs

theorem run_guarded_at (forward : env.calendar.Forward) {events : List (ℤ × Op)} (chronological : Chronological events)
    (meets : Meets env ResumesUnused events) {clock : ℤ} (past : ∀ event ∈ events, event.1 ≤ clock) :
    Guarded env clock (run env events) := by
  induction events using List.reverseRec generalizing clock with
  | nil =>
    have empty : Table.count (.empty : Table RunId Run) (fun _ run => run.status.active) = 0 := rfl
    constructor
    · constructor
      · rintro runId run ⟨⟩
      · rintro check ⟨⟩
    · rintro jobId job ⟨⟩
    · rintro jobId job ⟨⟩
    · rintro runId run ⟨⟩
    · rintro a b run other ⟨⟩
    · exact empty.trans_le (Nat.zero_le _)
  | append_singleton events event ih =>
    obtain ⟨earlier, last⟩ := meets_concat.mp meets
    have ordered := List.pairwise_append.mp (by simpa only [Chronological, List.map_append] using chronological)
    have before : ∀ other ∈ events, other.1 ≤ event.1 := fun other member =>
      ordered.2.2 other.1 (List.mem_map.mpr ⟨other, member, rfl⟩) event.1 (List.mem_singleton_self _)
    rw [run_concat]
    refine Guarded.later ?_ (past event (List.mem_append_right _ (List.mem_singleton_self _)))
    exact (step_moves env (run env events) event.1 event.2).1.preserves
      (fun s emitted t move => move.guarded forward last) (ih ordered.1 earlier before)

/-- Whatever the clock shows and whatever is resumed: a job has one active run at most, all jobs together fill no more than the
run slots, an occurrence has one run at most, a check has a recurring schedule, and no stored run or check is without its job. -/
theorem run_slotted (env : Env) (events : List (ℤ × Op)) : Alone (run env events) ∧
    (run env events).store.countActiveRuns ≤ env.maxParallel ∧
    (∀ a b row other, (run env events).store.getRun a = some row → (run env events).store.getRun b = some other →
      row.source = .scheduled → other.source = .scheduled → row.jobId = other.jobId → row.scheduledAt = other.scheduledAt → a = b) ∧
    EachJob (fun _ job => Planned job) (run env events) ∧ Known (run env events) := by
  have anyhow : Meets env (fun _ _ _ => True) events := fun _ _ _ _ _ => trivial
  have alone : Alone (run env events) :=
    run_invariant (by rintro a b run other ⟨⟩) (fun _ _ _ _ _ _ _ _ move => move.alone) anyhow
  have named : ∀ runId row, (run env events).store.getRun runId = some row → runId.Names (run env events).draws row :=
    run_invariant (by rintro runId row ⟨⟩) (fun _ _ _ _ _ _ _ _ move => move.named) anyhow
  refine ⟨alone, run_invariant (Nat.zero_le _) (fun _ _ _ _ _ _ _ _ move => move.room) anyhow, fun a b row other => ?_,
    run_invariant (by rintro jobId job ⟨⟩) (fun _ _ _ _ _ _ _ _ move => move.planned) anyhow,
    run_invariant ⟨by rintro runId row ⟨⟩, by rintro check ⟨⟩⟩ (fun _ _ _ _ _ _ _ _ move => move.known) anyhow⟩
  exact occurrence_of_named named

/-- What a run that is over keeps in a step, unless it is pruned. -/
def KeepsOver (s t : Scheduler) : Prop :=
  ∀ runId run next, s.store.getRun runId = some run → run.status.active = false → t.store.getRun runId = some next →
    next.status = run.status ∧ next.output = run.output ∧ next.error = run.error

theorem Move.keepsOver (move : Move env origin now op s emitted t) (keeps : KeepsOver origin s) : KeepsOver origin t := by
  intro runId run next stored ended found
  rcases move.run found with ⟨_, _, _, _, _, _, _, unclaimed, _⟩ | ⟨before, was, evolves⟩
  · rw [stored] at unclaimed
    cases unclaimed
  · obtain ⟨status, output, error⟩ := keeps runId run before stored ended was
    obtain ⟨status', output', error'⟩ := evolves.terminal (status ▸ ended)
    exact ⟨status'.trans status, output'.trans output, error'.trans error⟩

/-- In every chronological run that resumes no one-shot job at an instant it has run at, a job has one active
run at most and all jobs together fill no more than the run slots, an occurrence has one run at most, no insert
of a run meets a unique index, and a run that is over keeps its status, output and error while it is stored. -/
theorem run_guarded (env : Env) (forward : env.calendar.Forward) (events : List (ℤ × Op)) (chronological : Chronological events)
    (meets : Meets env ResumesUnused events) :
    (∀ a b row other, (run env events).store.getRun a = some row → (run env events).store.getRun b = some other →
        row.jobId = other.jobId → row.status.active = true → other.status.active = true → a = b)
      ∧ (run env events).store.countActiveRuns ≤ env.maxParallel
      ∧ (∀ a b row other, (run env events).store.getRun a = some row → (run env events).store.getRun b = some other →
        row.source = .scheduled → other.source = .scheduled → row.jobId = other.jobId → row.scheduledAt = other.scheduledAt → a = b)
      ∧ ∀ first now op later, events = first ++ (now, op) :: later →
        (∀ index, (step env (run env first) now op).2.thrown = some (.unique index) → index = .jobId ∨ index = .liveName)
          ∧ KeepsOver (run env first) (step env (run env first) now op).1 := by
  obtain ⟨clock, past⟩ : ∃ clock, ∀ event ∈ events, event.1 ≤ clock := by
    refine ⟨(events.map Prod.fst).foldr max 0, fun event member => ?_⟩
    have listed : event.1 ∈ events.map Prod.fst := List.mem_map.mpr ⟨event, member, rfl⟩
    generalize events.map Prod.fst = times at listed ⊢
    induction times with
    | nil => cases listed
    | cons time times ih =>
      rcases List.mem_cons.mp listed with rfl | later
      · exact le_max_left ..
      · exact (ih later).trans (le_max_right ..)
  have guarded := run_guarded_at forward chronological meets past
  refine ⟨guarded.alone, guarded.room, fun a b row other => guarded.occurrence, ?_⟩
  intro first now op later split
  subst split
  have ordered := List.pairwise_append.mp (by simpa only [Chronological, List.map_append] using chronological)
  have before : Guarded env now (run env first) := by
    refine run_guarded_at forward ordered.1 meets.initial fun event member => ?_
    exact ordered.2.2 event.1 (List.mem_map.mpr ⟨event, member, rfl⟩) now (List.mem_cons_self ..)
  have condition := meets first now op later rfl
  obtain ⟨moves, throws⟩ := step_moves env (run env first) now op
  constructor
  · intro index thrown
    have after : Guarded env now (step env (run env first) now op).1 :=
      moves.preserves (fun s emitted t move => move.guarded forward condition) before
    rcases throws _ thrown with ⟨found, claim, refused⟩ | different
    · exact (after.accepts found claim refused).elim
    · exact different index rfl
  · refine moves.preserves (fun s emitted t move => move.keepsOver) ?_
    rintro runId row next stored ended same
    rw [stored] at same
    cases same
    exact ⟨rfl, rfl, rfl⟩

/-- The sample environment on the day of its one-shot job. -/
def instantEnv : Env :=
  { sampleEnv with calendar := { sampleEnv.calendar with parse := fun _ => some 300000 } }

/-- Create the one-shot job `job`, five minutes after the start. -/
def instantJob : Op :=
  .create (some ⟨false, true, 0, js "/work", none⟩) (js "root")
    (Value.record [("name", Value.text "report"), ("prompt", Value.text "write the report"),
      ("schedule", Value.record [("kind", Value.text "at"), ("at", Value.text "1970-01-01T00:05:00Z")])])
    (some (js "job")) false (js "random")

/-- A one-shot job that ran on time is revived, paused and resumed at the same instant. -/
def secondResumption : List (ℤ × Op) :=
  [(0, .start), (0, instantJob), (300000, .tick), (300000, .update (js "job") (Value.record [("repeat", .num (.ofNat 1))])),
    (300000, .pause (js "job")), (300000, .resume (js "job") none)]

/-- The next tick throws, for the occurrence has its run already. -/
theorem run_guarded_secondResumption :
    instantEnv.calendar.Forward ∧ Chronological (secondResumption ++ [(300000, .tick)])
      ∧ ¬∀ first now op later, secondResumption ++ [(300000, .tick)] = first ++ (now, op) :: later →
        ∀ index, (step instantEnv (run instantEnv first) now op).2.thrown = some (.unique index) → index = .jobId ∨ index = .liveName := by
  refine ⟨?_, by decide, fun all => ?_⟩
  · rintro pattern timezone after next ⟨⟩
  · have thrown : (step instantEnv (run instantEnv secondResumption) 300000 .tick).2.thrown = some (.unique .runId) := by
      decide +kernel
    rcases all secondResumption 300000 .tick [] rfl .runId thrown with index | index <;> cases index

/-- The same job, paused and resumed before its instant. -/
def firstResumption : List (ℤ × Op) := [(0, .start), (0, instantJob), (1000, .pause (js "job"))]

theorem run_guarded_firstResumption :
    (run instantEnv (firstResumption ++ [(2000, .resume (js "job") none), (300000, .tick)])).store.countActiveRuns ≤ 2 := by
  have noRuns : (run instantEnv firstResumption).store.runs.rows = [] := by decide +kernel
  have meets : Meets instantEnv ResumesUnused ((firstResumption ++ [(2000, .resume (js "job") none)]) ++ [(300000, .tick)]) := by
    refine meets_concat.mpr ⟨meets_concat.mpr ⟨?_, ?_⟩, trivial⟩
    · exact meets_concat.mpr ⟨meets_concat.mpr ⟨meets_concat.mpr ⟨meets_nil, trivial⟩, trivial⟩, trivial⟩
    · intro jobId job time timezone _ _ _
      rw [Store.used, Table.collect, noRuns]
      exact List.not_mem_nil
  refine (run_guarded instantEnv ?_ (firstResumption ++ [(2000, .resume (js "job") none), (300000, .tick)]) (by decide) meets).2.1
  rintro pattern timezone after next ⟨⟩

end Runs

end PersistentHarness.Cron
