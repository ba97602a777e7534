import Mathlib.Order.Bounds.Basic
import Mathlib.Tactic.Linarith
import PersistentHarness.Soundness.Cron.Lifecycle
import PersistentHarness.Soundness.Cron.Occurrences

/-! # Interval schedules keep to their grid

The occurrences of an interval job stand in one line: those that were claimed, the one that a check or its result still
holds, and the next one. The line is increasing and lies on the grid of the first occurrence. A tick takes an occurrence
off its end and puts the least later point of the grid there.
-/

namespace PersistentHarness.Cron

open Store (afterCheck afterOccurrence)

/-- The points `first + k * interval`, the interval in seconds and the points in milliseconds. -/
def OnGrid (first : ℤ) (intervalSeconds : ℕ) (point : ℤ) : Prop := ∃ k : ℕ, point = first + k * (intervalSeconds * 1000 : ℕ)

/-- The occurrences of a job that emissions dispatch. -/
def claims (jobId : JsString) (emitted : List Emission) : List ℤ :=
  emitted.filterMap fun
    | .launched _ run => if run.source = .scheduled ∧ run.jobId = jobId then some run.scheduledAt else none
    | .handed .. => none

/-- The state after a sequence of timed steps from a given one. -/
def runFrom (env : Env) (s : Scheduler) (events : List (ℤ × Op)) : Scheduler :=
  events.foldl (fun s event => (step env s event.1 event.2).1) s

/-- The occurrences of a job that a sequence of steps claims, in order. -/
def claimed (env : Env) (jobId : JsString) : Scheduler → List (ℤ × Op) → List ℤ
  | _, [] => []
  | s, event :: rest =>
    claims jobId (step env s event.1 event.2).2.emitted ++ claimed env jobId (step env s event.1 event.2).1 rest

/-- The steps that do not give the job another schedule or another next run. -/
def Unedited (jobId : JsString) (s : Scheduler) : Op → Prop
  | .update selector _ | .resume selector _ => ∀ named job, s.store.resolveJob selector false = .ok (named, job) → named ≠ jobId
  | _ => True

/-- Every step of a sequence leaves the schedule of the job alone. -/
def AllUnedited (env : Env) (jobId : JsString) (s : Scheduler) (events : List (ℤ × Op)) : Prop :=
  ∀ earlier now op later, events = earlier ++ (now, op) :: later → Unedited jobId (runFrom env s earlier) op

/-! ## The next point -/

section Points

variable {first : ℤ} {intervalSeconds : ℕ} {scheduledAt now : ℤ}

theorem nextCronRunAfter_every {calendar : Calendar} {timezone : JsString} {nextRunAt : Option ℤ}
    (success : nextCronRunAfter calendar (.every intervalSeconds timezone) scheduledAt now = .ok nextRunAt) :
    0 < intervalSeconds ∧ nextRunAt = some (scheduledAt
      + (max 0 (now - scheduledAt) / (intervalSeconds * 1000 : ℕ) + 1) * (intervalSeconds * 1000 : ℕ)) := by
  obtain ⟨_, positive, done⟩ := Checked.bind_eq_ok.mp success
  have positive := (Checked.require_eq_ok.mp positive).2
  cases done
  exact ⟨by omega, rfl⟩

/-- One interval after the last whole number of intervals that have passed. -/
private theorem isLeast_after {interval : ℤ} {k : ℕ} (positive : 0 < interval) (due : first + k * interval ≤ now) :
    IsLeast {point | (∃ j : ℕ, point = first + j * interval) ∧ now < point ∧ first + k * interval < point}
      (first + k * interval + ((now - (first + k * interval)) / interval + 1) * interval) := by
  have whole : 0 ≤ (now - (first + k * interval)) / interval := Int.ediv_nonneg (by omega) positive.le
  have reached := Int.lt_ediv_add_one_mul_self (now - (first + k * interval)) positive
  refine ⟨⟨⟨k + ((now - (first + k * interval)) / interval).toNat + 1, ?_⟩, by omega, by omega⟩, ?_⟩
  · push_cast
    rw [Int.toNat_of_nonneg whole]
    ring
  · rintro _ ⟨⟨j, rfl⟩, later, _⟩
    have distance : ((j : ℤ) - k) * interval = j * interval - k * interval := Int.sub_mul ..
    have steps : (now - (first + k * interval)) / interval < (j : ℤ) - k :=
      Int.ediv_lt_of_lt_mul positive (by omega)
    have spans := Int.mul_le_mul_of_nonneg_right (show _ + 1 ≤ (j : ℤ) - k from steps) positive.le
    omega

theorem nextCronRunAfter_isLeast {calendar : Calendar} {timezone : JsString} {next : ℤ}
    (success : nextCronRunAfter calendar (.every intervalSeconds timezone) scheduledAt now = .ok (some next))
    (onGrid : OnGrid first intervalSeconds scheduledAt) (due : scheduledAt ≤ now) :
    IsLeast {point | OnGrid first intervalSeconds point ∧ now < point ∧ scheduledAt < point} next := by
  obtain ⟨positive, same⟩ := nextCronRunAfter_every success
  obtain ⟨k, rfl⟩ := onGrid
  have interval : (0 : ℤ) < ((intervalSeconds * 1000 : ℕ) : ℤ) := by exact_mod_cast Nat.mul_pos positive (by decide)
  rw [max_eq_right (sub_nonneg.mpr due)] at same
  rw [Option.some.inj same]
  exact isLeast_after interval due

end Points

/-! ## The line of occurrences -/

/-- The occurrences of an interval job: the claimed ones, the one under way, and the next one. -/
structure Line (first : ℤ) (intervalSeconds : ℕ) (jobId : JsString) (past : List ℤ) (s : Scheduler) (job : Job) : Prop where
  found : s.store.getJob jobId = some job
  schedule : ∃ timezone, job.schedule = .every intervalSeconds timezone
  ordered : (past ++ (waiting s jobId job ++ job.nextRunAt.toList)).Pairwise (· < ·)
  grid : ∀ occurrence ∈ past ++ (waiting s jobId job ++ job.nextRunAt.toList), OnGrid first intervalSeconds occurrence
  single : (waiting s jobId job).length ≤ 1
  unchecked : job.check = none → waiting s jobId job = []

section Lines

variable {env : Env} {origin s t : Scheduler} {now : ℤ} {op : Op} {emitted : List Emission} {jobId : JsString} {job next : Job}
  {first : ℤ} {intervalSeconds : ℕ} {past : List ℤ}

/-- Occurrences leave the line, and none enters it. -/
theorem Line.kept (line : Line first intervalSeconds jobId past s job) (found : t.store.getJob jobId = some next)
    (schedule : next.schedule = job.schedule) (check : next.check = job.check)
    (waits : (waiting t jobId next).Sublist (waiting s jobId job))
    (nextRunAt : next.nextRunAt.toList.Sublist job.nextRunAt.toList) : Line first intervalSeconds jobId past t next := by
  have fewer := (waits.append nextRunAt).append_left past
  refine ⟨found, schedule ▸ line.schedule, line.ordered.sublist fewer, fun occurrence member => ?_, ?_, fun none => ?_⟩
  · exact line.grid occurrence (fewer.subset member)
  · exact waits.length_le.trans line.single
  · have empty := line.unchecked (check ▸ none)
    rw [empty] at waits
    exact List.eq_nil_of_sublist_nil waits

/-- The next occurrence is taken off the end of the line, and a later one is put there. -/
theorem Line.consumed (line : Line first intervalSeconds jobId past s job) {occurrence : ℤ} {later : List ℤ}
    (was : job.nextRunAt = some occurrence) (empty : waiting s jobId job = []) (found : t.store.getJob jobId = some next)
    (schedule : next.schedule = job.schedule)
    (placed : (later ++ waiting t jobId next).Sublist [occurrence]) (unchecked : next.check = none → waiting t jobId next = [])
    (follows : ∀ n ∈ next.nextRunAt, OnGrid first intervalSeconds n ∧ occurrence < n) :
    Line first intervalSeconds jobId (past ++ later) t next := by
  have ordered := line.ordered
  have grid := line.grid
  rw [was, empty, List.nil_append, Option.toList_some] at ordered grid
  have fewer : (past ++ (later ++ waiting t jobId next)).Sublist (past ++ [occurrence]) := placed.append_left past
  have extends_ : (past ++ later ++ (waiting t jobId next ++ next.nextRunAt.toList)) =
      (past ++ (later ++ waiting t jobId next)) ++ next.nextRunAt.toList := by simp only [List.append_assoc]
  have last : ∀ earlier ∈ past ++ [occurrence], earlier ≤ occurrence := by
    intro earlier member
    rcases List.mem_append.mp member with before | here
    · exact ((List.pairwise_append.mp ordered).2.2 earlier before occurrence (List.mem_singleton.mpr rfl)).le
    · exact (List.mem_singleton.mp here).le
  refine ⟨found, schedule ▸ line.schedule, ?_, ?_, ?_, unchecked⟩
  · rw [extends_]
    refine List.pairwise_append.mpr ⟨ordered.sublist fewer, ?_, fun earlier member n isNext => ?_⟩
    · cases next.nextRunAt <;> simp
    · have below := last earlier (fewer.subset member)
      have after := (follows n (Option.mem_toList.mp isNext)).2
      omega
  · rw [extends_]
    intro point member
    rcases List.mem_append.mp member with earlier | isNext
    · exact grid point (fewer.subset earlier)
    · exact (follows point (Option.mem_toList.mp isNext)).1
  · have short := placed.length_le
    rw [List.length_append, List.length_singleton] at short
    omega

theorem Line.moved (line : Line first intervalSeconds jobId past s job) {occurrence : ℤ} (under : waiting s jobId job = [occurrence])
    (found : t.store.getJob jobId = some next) (schedule : next.schedule = job.schedule)
    (empty : waiting t jobId next = []) (nextRunAt : next.nextRunAt.toList.Sublist job.nextRunAt.toList) :
    Line first intervalSeconds jobId (past ++ [occurrence]) t next := by
  have fewer : (past ++ [occurrence] ++ (waiting t jobId next ++ next.nextRunAt.toList)).Sublist
      (past ++ (waiting s jobId job ++ job.nextRunAt.toList)) := by
    rw [under, empty, List.nil_append, List.append_assoc]
    exact (nextRunAt.append_left _).append_left _
  refine ⟨found, schedule ▸ line.schedule, line.ordered.sublist fewer, fun point member => ?_, ?_, fun _ => empty⟩
  · exact line.grid point (fewer.subset member)
  · rw [empty]
    exact Nat.zero_le _

/-- What a tick has made of a row, the occurrences that it has claimed included. -/
structure Turn (first : ℤ) (intervalSeconds : ℕ) (now : ℤ) (row : Job) (taken : List ℤ) (job : Job) : Prop where
  check : job.check = row.check
  own : row.check = none → ∀ occurrence ∈ taken, row.nextRunAt = some occurrence ∧ occurrence ≤ now
  once : taken = [] ∨ taken.length = 1 ∧ (job.check ≠ none → job.pendingCheck = none)
  next : ∀ n ∈ job.nextRunAt, row.nextRunAt = some n ∧ (row.check = none → taken = [])
    ∨ ∃ occurrence, row.nextRunAt = some occurrence ∧ occurrence ≤ now
      ∧ IsLeast {point | OnGrid first intervalSeconds point ∧ now < point ∧ occurrence < point} n

theorem Turn.start (row : Job) : Turn first intervalSeconds now row [] row :=
  ⟨rfl, fun _ _ member => absurd member List.not_mem_nil, .inl rfl, fun _ member => .inl ⟨member, fun _ => rfl⟩⟩

/-- Nothing is claimed, and the row keeps its next run or loses it. -/
theorem Turn.kept {row : Job} {taken : List ℤ} (turn : Turn first intervalSeconds now row taken job)
    (check : next.check = job.check) (nextRunAt : next.nextRunAt.toList.Sublist job.nextRunAt.toList)
    (pending : job.pendingCheck = none → next.pendingCheck = none) : Turn first intervalSeconds now row taken next := by
  refine ⟨check.trans turn.check, turn.own, ?_, fun n member => ?_⟩
  · rcases turn.once with none | ⟨one, empty⟩
    · exact .inl none
    · exact .inr ⟨one, fun checked => pending (empty (check ▸ checked))⟩
  · exact turn.next n (Option.mem_toList.mp (nextRunAt.subset (Option.mem_toList.mpr member)))

theorem Turn.due {row : Job} {taken : List ℤ} (turn : Turn first intervalSeconds now row taken job) {occurrence : ℤ}
    (due : Due now job occurrence) : row.nextRunAt = some occurrence ∧ (row.check = none → taken = []) := by
  rcases turn.next occurrence due.next with same | ⟨_, _, _, least⟩
  · exact same
  · have later := least.1.2.1
    have past := due.past
    omega

/-- What a move makes of the line of a job and of the turn that a tick gives it. -/
def Goes (first : ℤ) (intervalSeconds : ℕ) (now : ℤ) (op : Op) (jobId : JsString) (past : List ℤ) (job : Job) (emitted : List Emission)
    (t : Scheduler) : Prop :=
  ∃ next, Line first intervalSeconds jobId (past ++ claims jobId emitted) t next
    ∧ ∀ row taken, op = .tick → Turn first intervalSeconds now row taken job →
      Turn first intervalSeconds now row (taken ++ claims jobId emitted) next

theorem Line.goes (line : Line first intervalSeconds jobId past s job) (silent : claims jobId emitted = [])
    (found : t.store.getJob jobId = some next) (schedule : next.schedule = job.schedule) (check : next.check = job.check)
    (nextRunAt : next.nextRunAt.toList.Sublist job.nextRunAt.toList) (pending : next.pendingCheck = job.pendingCheck)
    (flights : (t.flights jobId).Sublist (s.flights jobId)) :
    Goes first intervalSeconds now op jobId past job emitted t := by
  refine ⟨next, ?_, fun row taken _ turn => ?_⟩
  · rw [silent, List.append_nil]
    refine line.kept found schedule check ?_ nextRunAt
    unfold waiting
    rw [pending]
    exact flights.append_right _
  · rw [silent, List.append_nil]
    exact turn.kept check nextRunAt fun empty => pending.trans empty

theorem Line.goes_same (line : Line first intervalSeconds jobId past s job) (silent : claims jobId emitted = [])
    (found : t.store.getJob jobId = some job) (flights : (t.flights jobId).Sublist (s.flights jobId)) :
    Goes first intervalSeconds now op jobId past job emitted t :=
  line.goes silent found rfl rfl (.refl _) rfl flights

theorem Change.goes (unedited : Unedited jobId origin op) (line : Line first intervalSeconds jobId past s job)
    (change : Change env origin now op jobId job next) (found : t.store.getJob jobId = some next)
    (flights : (t.flights jobId).Sublist (s.flights jobId)) : Goes first intervalSeconds now op jobId past job [] t := by
  cases change with
  | @edited selector patch new columns is named =>
    subst is
    exact (unedited jobId job named rfl).elim
  | paused => exact line.goes rfl found rfl rfl (.refl _) rfl flights
  | @resumed selector expected time is named =>
    subst is
    exact (unedited jobId job named rfl).elim
  | removed => exact line.goes rfl found rfl rfl (List.nil_sublist _) rfl flights

theorem claims_launch (jobId : JsString) (runId : RunId) (run : Run) : claims jobId (launch runId run) =
    if run.status.active = true ∧ run.source = .scheduled ∧ run.jobId = jobId then [run.scheduledAt] else [] := by
  unfold launch claims
  by_cases active : run.status.active = true
  · rw [if_pos active, List.filterMap_cons, List.filterMap_nil]
    by_cases ours : run.source = .scheduled ∧ run.jobId = jobId
    · simp [active, ours]
    · simp [active, ours]
  · simp [active]

theorem claims_other {target : JsString} {runId : RunId} {run : Run} (named : run.jobId = target) (other : target ≠ jobId) :
    claims jobId (launch runId run) = [] := by
  rw [claims_launch, if_neg]
  rintro ⟨_, _, same⟩
  exact other (named.symm.trans same)

theorem Claim.goes (line : Line first intervalSeconds jobId past s job) {runId : RunId} {run : Run}
    (claim : Claim env origin now op s jobId job runId run next) (found : t.store.getJob jobId = some next)
    (flights : t.flights jobId = s.flights jobId) :
    Goes first intervalSeconds now op jobId past job (launch runId run) t := by
  have emits := claims_launch jobId runId run
  cases claim with
  | @plain scheduledAt nextRunAt run is due unchecked computed room makes =>
    have ran : run.source = .scheduled ∧ run.scheduledAt = scheduledAt ∧ run.jobId = jobId := by
      rw [makes]
      unfold Store.scheduledRun
      split <;> exact ⟨rfl, rfl, rfl⟩
    have placed : claims jobId (launch (.scheduled jobId scheduledAt) run) = []
        ∨ claims jobId (launch (.scheduled jobId scheduledAt) run) = [scheduledAt] := by
      rw [emits, ran.2.1]
      split
      · exact .inr rfl
      · exact .inl rfl
    have empty := line.unchecked unchecked
    have still : waiting t jobId (afterOccurrence job run nextRunAt now) = [] := by
      have same : waiting t jobId (afterOccurrence job run nextRunAt now) = waiting s jobId job := by
        rw [waiting, waiting, flights]
        rfl
      rw [same, empty]
    obtain ⟨timezone, every⟩ := line.schedule
    have onGrid : OnGrid first intervalSeconds scheduledAt := by
      refine line.grid scheduledAt ?_
      rw [due.next]
      simp
    have least : ∀ n ∈ (afterOccurrence job run nextRunAt now).nextRunAt,
        IsLeast {point | OnGrid first intervalSeconds point ∧ now < point ∧ scheduledAt < point} n := by
      intro n member
      simp only [afterOccurrence] at member
      split at member
      · cases member
      · rw [show nextRunAt = some n from member, every] at computed
        exact nextCronRunAfter_isLeast computed onGrid due.past
    refine ⟨_, line.consumed due.next empty found rfl ?_ (fun _ => still) fun n member => ?_, fun row taken _ turn => ?_⟩
    · rw [still, List.append_nil]
      rcases placed with none | one
      · rw [none]
        exact List.nil_sublist _
      · rw [one]
    · exact ⟨(least n member).1.1, (least n member).1.2.2⟩
    · obtain ⟨was, before⟩ := turn.due due
      have own : row.check = none := turn.check.symm.trans unchecked
      rw [before own, List.nil_append]
      refine ⟨turn.check, fun _ occurrence member => ?_, ?_, fun n member => ?_⟩
      · rcases placed with none | one
        · rw [none] at member
          exact absurd member List.not_mem_nil
        · rw [one] at member
          rw [List.mem_singleton.mp member]
          exact ⟨was, due.past⟩
      · rcases placed with none | one
        · exact .inl none
        · rw [one]
          exact .inr ⟨rfl, fun checked => absurd unchecked checked⟩
      · exact .inr ⟨scheduledAt, was, due.past, least n member⟩
  | @checked pending is waits live idle room =>
    rw [if_pos ⟨rfl, rfl, rfl⟩] at emits
    have under : waiting s jobId job = [pending.scheduledAt] := by
      have single := line.single
      unfold waiting at single ⊢
      rw [waits] at single ⊢
      rw [List.length_append] at single
      have none : (s.flights jobId).length = 0 := by
        have one : (Option.map PendingCheck.scheduledAt (some pending)).toList.length = 1 := rfl
        omega
      rw [List.length_eq_zero_iff.mp none]
      rfl
    have isChecked : job.check ≠ none := by
      intro none
      rw [line.unchecked none] at under
      cases under
    have nextRunAt : (afterCheck job pending now).nextRunAt.toList.Sublist job.nextRunAt.toList := by
      simp only [afterCheck]
      split
      · exact List.nil_sublist _
      · exact .refl _
    have still : waiting t jobId (afterCheck job pending now) = [] := by
      have flying : s.flights jobId = [] := by
        have none : s.flights jobId ++ [pending.scheduledAt] = [] ++ [pending.scheduledAt] := by
          have same := under
          rw [waiting, waits] at same
          exact same
        exact List.append_cancel_right none
      rw [waiting, flights, flying]
      rfl
    refine ⟨afterCheck job pending now, ?_, fun row taken _ turn => ?_⟩
    · rw [emits]
      exact line.moved under found rfl still nextRunAt
    · have none : taken = [] := turn.once.resolve_right fun spent => by
        rw [spent.2 isChecked] at waits
        cases waits
      rw [none, List.nil_append, emits]
      refine ⟨turn.check, fun own => absurd (turn.check.trans own) isChecked, .inr ⟨rfl, fun _ => rfl⟩, fun n member => ?_⟩
      have before := turn.next n (Option.mem_toList.mp (nextRunAt.subset (Option.mem_toList.mpr member)))
      rcases before with ⟨same, _⟩ | later
      · exact .inl ⟨same, fun own => absurd (turn.check.trans own) isChecked⟩
      · exact .inr later
  | manual =>
    rw [if_neg (by rintro ⟨_, ⟨⟩, _⟩)] at emits
    exact line.goes emits found rfl rfl (.refl _) rfl (flights ▸ .refl _)

theorem claims_checkFinished (check : RunningCheck) (result : CheckResult) :
    claims jobId (checkFinished s check result now).2 = [] := by
  cases result with
  | ok output =>
    unfold checkFinished
    simp only
    split <;> rfl
  | failed error =>
    unfold checkFinished
    simp only
    split <;> rfl

/-- A check of the job that finishes is the occurrence under way. -/
theorem Line.finished (line : Line first intervalSeconds jobId past s job) {check : RunningCheck} (member : check ∈ s.checks)
    (named : check.jobId = jobId) (unfinished : check.finished = false) :
    s.flights jobId = [check.scheduledAt] ∧ job.pendingCheck = none := by
  have flies : check.scheduledAt ∈ s.flights jobId := Scheduler.mem_flights.mpr ⟨check, member, named, unfinished, rfl⟩
  have single := line.single
  rw [waiting, List.length_append] at single
  have positive := List.length_pos_of_mem flies
  constructor
  · obtain ⟨occurrence, only⟩ := List.length_eq_one_iff.mp (show (s.flights jobId).length = 1 by omega)
    rw [only] at flies ⊢
    rw [List.mem_singleton.mp flies]
  · cases slot : job.pendingCheck with
    | none => rfl
    | some pending =>
      rw [slot] at single
      simp only [Option.map_some, Option.toList_some, List.length_singleton] at single
      omega

theorem Line.finish (line : Line first intervalSeconds jobId past s job) {check : RunningCheck} {result : CheckResult}
    (is : op = .checkFinished check.jobId result) (member : check ∈ s.checks) (named : check.jobId = jobId)
    (unfinished : check.finished = false) :
    Goes first intervalSeconds now op jobId past job (checkFinished s check result now).2 (checkFinished s check result now).1 := by
  subst named
  obtain ⟨flights, empty⟩ := line.finished member rfl unfinished
  have plan := afterFinish_samePlan job result check.scheduledAt now
  have landed : (checkFinished s check result now).1.flights check.jobId = [] := by rw [flights_checkFinished, if_pos rfl]
  have found : (checkFinished s check result now).1.store.getJob check.jobId =
      some (afterFinish job result check.scheduledAt now) := by
    rw [(checkFinished_spec line.found result).1, if_pos rfl]
  have nextRunAt : (afterFinish job result check.scheduledAt now).nextRunAt.toList.Sublist job.nextRunAt.toList := by
    rw [plan.nextRunAt]
  refine ⟨afterFinish job result check.scheduledAt now, ?_, fun row taken ticks => ?_⟩
  · rw [claims_checkFinished, List.append_nil]
    refine line.kept found plan.schedule plan.check ?_ nextRunAt
    rw [waiting, waiting, landed, flights, empty]
    rcases afterFinish_pending job result check.scheduledAt now with slot | ⟨_, text, slot⟩
    · rw [slot, empty]
      exact List.nil_sublist _
    · rw [slot]
      exact .refl _
  · rw [is] at ticks
    cases ticks

theorem flights_started {target : JsString} {command : Check} {scheduledAt : ℤ} {cwd : JsString} {checks : List RunningCheck}
    {store : Store} (started : checks = s.checks ∨ checks = s.checks ++ [⟨target, scheduledAt, command, cwd, false⟩]) :
    Scheduler.flights { s with store, checks } jobId = s.flights jobId ∨ target = jobId
      ∧ Scheduler.flights { s with store, checks } jobId = s.flights jobId ++ [scheduledAt] := by
  rcases started with rfl | rfl
  · exact .inl rfl
  · by_cases here : target = jobId
    · subst here
      exact .inr ⟨rfl, by simp [Scheduler.flights]⟩
    · exact .inl (by simp [Scheduler.flights, here])

/-- A due occurrence goes into a check, or is dropped. -/
theorem Line.defer (line : Line first intervalSeconds jobId past s job) {command : Check} {scheduledAt : ℤ} {nextRunAt : Option ℤ}
    {store : Store} {checks : List RunningCheck} (due : Due now job scheduledAt) (checked : job.check = some command)
    (empty : job.pendingCheck = none) (idle : (s.checks.any fun check => check.jobId = jobId) = false)
    (computed : nextCronRunAfter env.calendar job.schedule scheduledAt now = .ok nextRunAt)
    (started : checks = s.checks ∨ checks = s.checks ++ [⟨jobId, scheduledAt, command, job.cwd, false⟩])
    (found : store.getJob jobId = some { job with nextRunAt, updatedAt := now }) :
    Goes first intervalSeconds now op jobId past job [] { s with store, checks } := by
  have grounded : s.flights jobId = [] := by
    apply List.eq_nil_iff_forall_not_mem.mpr
    intro occurrence member
    obtain ⟨check, present, named, _⟩ := Scheduler.mem_flights.mp member
    have other := List.any_eq_false.mp idle check present
    simp [named] at other
  have nothing : waiting s jobId job = [] := by
    rw [waiting, grounded, empty]
    rfl
  obtain ⟨timezone, every⟩ := line.schedule
  have onGrid : OnGrid first intervalSeconds scheduledAt := by
    refine line.grid scheduledAt ?_
    rw [due.next]
    simp
  have least : ∀ n ∈ nextRunAt,
      IsLeast {point | OnGrid first intervalSeconds point ∧ now < point ∧ scheduledAt < point} n := by
    intro n member
    rw [show nextRunAt = some n from member, every] at computed
    exact nextCronRunAfter_isLeast computed onGrid due.past
  refine ⟨{ job with nextRunAt, updatedAt := now }, ?_, fun row taken _ turn => ?_⟩
  · refine line.consumed due.next nothing found rfl ?_ (fun none => ?_) fun n member => ?_
    · rw [waiting, empty, Option.map_none, Option.toList_none, List.append_nil]
      change (Scheduler.flights { s with store, checks } jobId).Sublist _
      rcases flights_started started with same | ⟨_, flies⟩
      · rw [same, grounded]
        exact List.nil_sublist _
      · rw [flies, grounded]
        exact .refl _
    · cases checked.symm.trans none
    · exact ⟨(least n member).1.1, (least n member).1.2.2⟩
  · obtain ⟨was, _⟩ := turn.due due
    change Turn _ _ _ _ (taken ++ []) _
    rw [List.append_nil]
    refine ⟨turn.check, turn.own, ?_, fun n member => .inr ⟨scheduledAt, was, due.past, least n member⟩⟩
    exact turn.once

theorem Move.goes (unedited : Unedited jobId origin op) (move : Move env origin now op s emitted t)
    (line : Line first intervalSeconds jobId past s job) : Goes first intervalSeconds now op jobId past job emitted t := by
  have found := line.found
  cases move with
  | @created newId fresh jobs inserted =>
    have read := Table.get?_insert inserted jobId
    rw [if_neg] at read
    · exact line.goes_same rfl (read.trans found) (.refl _)
    · rintro rfl
      have absent := Table.fresh_of_insert? inserted
      cases absent.symm.trans found
  | @changed target row next stored change same =>
    have rows := Store.getJob_updateJob_of stored next jobId
    split at rows
    · next here =>
      subst here
      cases stored.symm.trans found
      exact change.goes unedited line rows (.refl _)
    · exact line.goes_same rfl (rows.trans found) (.refl _)
  | @claimed target row runId run next store stored claim inserted =>
    have rows : (store.updateJob target fun _ => next).getJob jobId =
        if jobId = target then some next else s.store.getJob jobId := by
      rw [Store.getJob_updateJob_of ((Store.getJob_insertRun inserted target).trans stored), Store.getJob_insertRun inserted]
    split at rows
    · next here =>
      subst here
      cases stored.symm.trans found
      exact claim.goes line rows rfl
    · next other => exact line.goes_same (claims_other claim.named (Ne.symm other)) (rows.trans found) (.refl _)
  | @deferred target row command scheduledAt nextRunAt checks is awake stored due checked empty idle computed before started =>
    have rows := Store.getJob_updateJob_of stored { row with nextRunAt, updatedAt := now } jobId
    split at rows
    · next here =>
      subst here
      cases stored.symm.trans found
      exact line.defer due checked empty idle computed started rows
    · next other =>
      refine line.goes_same rfl (rows.trans found) ?_
      rcases flights_started started with same | ⟨here, _⟩
      · rw [same]
      · exact absurd here.symm other
  | @checkFinished check result is member unfinished =>
    by_cases named : check.jobId = jobId
    · exact line.finish is member named unfinished
    · have kept : (Cron.checkFinished s check result now).1.store.getJob jobId = some job := by
        cases stored : s.store.getJob check.jobId with
        | none => rw [checkFinished_missing stored, found]
        | some row => rw [(checkFinished_spec stored result).1, if_neg (Ne.symm named), found]
      refine line.goes_same (claims_checkFinished ..) kept ?_
      rw [flights_checkFinished, if_neg (Ne.symm named)]
  | @rewritten runId run written f stored change touches =>
    obtain ⟨lastStatus, lastError, updatedAt, rfl⟩ := touches
    have read := Table.get?_update s.store.jobs written.jobId (fun job => { job with lastStatus, lastError, updatedAt }) jobId
    split at read
    · have written := read.trans (congrArg (Option.map _) found)
      exact line.goes rfl written rfl rfl (.refl _) rfl (.refl _)
    · exact line.goes_same rfl (read.trans found) (.refl _)
  | noted => exact line.goes_same rfl found (.refl _)
  | reconciled =>
    cases stored : (s.store.reconcileInterruptedRuns now).getJob jobId with
    | none =>
      have read := (Table.get?_modify ..).symm.trans stored
      cases (Option.map_eq_none_iff.mp read).symm.trans found
    | some next =>
      have read := (Table.get?_modify ..).symm.trans stored
      obtain ⟨row, here, same⟩ := Option.map_eq_some_iff.mp read
      cases here.symm.trans found
      split at same
      · subst same
        exact line.goes rfl stored rfl rfl (.refl _) rfl (.refl _)
      · subst same
        exact line.goes_same rfl stored (.refl _)
  | pruned => exact line.goes_same rfl found (.refl _)
  | idle fewer => exact line.goes_same rfl found (fewer.filterMap _)

theorem Moves.goes (unedited : Unedited jobId origin op) (moves : Moves env origin now op s emitted t)
    (line : Line first intervalSeconds jobId past s job) : Goes first intervalSeconds now op jobId past job emitted t := by
  induction moves with
  | nil => exact line.goes_same rfl line.found (.refl _)
  | @snoc t u emitted more moves move ih =>
    obtain ⟨middle, reached, turns⟩ := ih
    obtain ⟨next, further, ends⟩ := move.goes unedited reached
    have split : claims jobId (emitted ++ more) = claims jobId emitted ++ claims jobId more := List.filterMap_append
    refine ⟨next, ?_, fun row taken ticks turn => ?_⟩
    · rw [split, ← List.append_assoc]
      exact further
    · rw [split, ← List.append_assoc]
      exact ends row _ ticks (turns row taken ticks turn)

end Lines

/-! ## Runs -/

section Sequences

variable {env : Env} {s : Scheduler} {jobId : JsString} {job : Job} {first : ℤ} {intervalSeconds : ℕ} {past : List ℤ}

theorem AllUnedited.head {event : ℤ × Op} {rest : List (ℤ × Op)} (unedited : AllUnedited env jobId s (event :: rest)) :
    Unedited jobId s event.2 := unedited [] event.1 event.2 rest rfl

theorem AllUnedited.tail {event : ℤ × Op} {rest : List (ℤ × Op)} (unedited : AllUnedited env jobId s (event :: rest)) :
    AllUnedited env jobId (step env s event.1 event.2).1 rest := by
  rintro earlier now op later rfl
  exact unedited (event :: earlier) now op later rfl

theorem Line.run (line : Line first intervalSeconds jobId past s job) {events : List (ℤ × Op)}
    (unedited : AllUnedited env jobId s events) :
    ∃ next, Line first intervalSeconds jobId (past ++ claimed env jobId s events) (runFrom env s events) next := by
  induction events generalizing s job past with
  | nil => exact ⟨job, by rwa [claimed, List.append_nil]⟩
  | cons event rest ih =>
    obtain ⟨next, further, _⟩ := (step_moves env s event.1 event.2).1.goes unedited.head line
    obtain ⟨final, ends⟩ := ih further unedited.tail
    rw [List.append_assoc] at ends
    exact ⟨final, ends⟩

theorem AllUnedited.initial {earlier later : List (ℤ × Op)} (unedited : AllUnedited env jobId s (earlier ++ later)) :
    AllUnedited env jobId s earlier := by
  rintro before now op rest rfl
  exact unedited before now op (rest ++ later) (by rw [List.append_assoc, List.cons_append])

/-- In every run in which an interval job is neither edited nor resumed, the claimed occurrences are increasing and on the
grid of the first one, a tick claims at most one of them, and the next run that a tick stores for a due occurrence is the
least point of the grid after the tick and the occurrence. -/
theorem run_onGrid (env : Env) {timezone : JsString} (found : s.store.getJob jobId = some job)
    (every : job.schedule = .every intervalSeconds timezone) (starts : job.nextRunAt = some first)
    (fresh : waiting s jobId job = []) {events : List (ℤ × Op)} (unedited : AllUnedited env jobId s events) :
    (claimed env jobId s events).Pairwise (· < ·)
      ∧ (∀ occurrence ∈ claimed env jobId s events, OnGrid first intervalSeconds occurrence)
      ∧ ∀ earlier now later, events = earlier ++ (now, .tick) :: later →
        ∃ row next, (runFrom env s earlier).store.getJob jobId = some row
          ∧ (step env (runFrom env s earlier) now .tick).1.store.getJob jobId = some next
          ∧ (claims jobId (step env (runFrom env s earlier) now .tick).2.emitted).length ≤ 1
          ∧ (row.check = none → ∀ occurrence ∈ claims jobId (step env (runFrom env s earlier) now .tick).2.emitted,
            row.nextRunAt = some occurrence ∧ occurrence ≤ now)
          ∧ ∀ n ∈ next.nextRunAt,
            row.nextRunAt = some n ∧ (row.check = none → claims jobId (step env (runFrom env s earlier) now .tick).2.emitted = [])
              ∨ ∃ occurrence, row.nextRunAt = some occurrence ∧ occurrence ≤ now
                ∧ IsLeast {point | OnGrid first intervalSeconds point ∧ now < point ∧ occurrence < point} n := by
  have line : Line first intervalSeconds jobId [] s job := by
    refine ⟨found, ⟨timezone, every⟩, ?_, ?_, ?_, fun _ => fresh⟩
    · rw [fresh, starts]
      simp
    · intro occurrence member
      rw [fresh, starts] at member
      rw [List.mem_singleton.mp member]
      exact ⟨0, by simp⟩
    · rw [fresh]
      exact Nat.zero_le _
  obtain ⟨_, ends⟩ := line.run unedited
  rw [List.nil_append] at ends
  refine ⟨ends.ordered.sublist (List.sublist_append_left ..), fun occurrence member => ?_, ?_⟩
  · exact ends.grid occurrence (List.mem_append_left _ member)
  · rintro earlier now later rfl
    obtain ⟨row, reached⟩ := line.run unedited.initial
    have alone := unedited earlier now .tick later rfl
    obtain ⟨next, further, turns⟩ := (step_moves env (runFrom env s earlier) now .tick).1.goes alone reached
    have turn := turns row [] rfl (Turn.start row)
    rw [List.nil_append] at turn
    refine ⟨row, next, reached.found, further.found, ?_, turn.own, turn.next⟩
    rcases turn.once with none | ⟨one, _⟩
    · rw [none]
      exact Nat.zero_le _
    · exact one.le

end Sequences

section Samples

/-- A five-minute job, created at 0. -/
def intervalJob : Scheduler := run sampleEnv [(0, .start), (0, sampleJob 3 .null)]

/-- A tick on time, one that skips because the run is still active, and one that is two intervals late. -/
def lateTicks : List (ℤ × Op) :=
  [(300000, .tick), (600001, .tick), (600002, .finishRun (.scheduled (js "job") 300000) .completed none none), (1500007, .tick)]

theorem run_onGrid_sample : (claimed sampleEnv (js "job") intervalJob lateTicks).Pairwise (· < ·)
    ∧ claimed sampleEnv (js "job") intervalJob lateTicks = [300000, 900000] := by
  have present : (intervalJob.store.getJob (js "job")).isSome = true := by decide +kernel
  obtain ⟨job, found⟩ := Option.isSome_iff_exists.mp present
  have every : (intervalJob.store.getJob (js "job")).map (fun job => (job.schedule, job.nextRunAt, waiting intervalJob (js "job") job)) =
      some (.every 300 (js "UTC"), some 300000, []) := by decide +kernel
  rw [found, Option.map_some, Option.some.injEq, Prod.mk.injEq, Prod.mk.injEq] at every
  have unedited : AllUnedited sampleEnv (js "job") intervalJob lateTicks := by
    intro earlier now op later split
    have member : (now, op) ∈ lateTicks := split ▸ List.mem_append_right earlier List.mem_cons_self
    simp only [lateTicks, List.mem_cons, Prod.mk.injEq, List.not_mem_nil, or_false] at member
    rcases member with ⟨_, rfl⟩ | ⟨_, rfl⟩ | ⟨_, rfl⟩ | ⟨_, rfl⟩ <;> trivial
  exact ⟨(run_onGrid sampleEnv found every.1 every.2.1 every.2.2 unedited).1, by decide +kernel⟩

end Samples

end PersistentHarness.Cron
