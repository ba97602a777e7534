import Mathlib.Data.List.Nodup
import PersistentHarness.Model.PostRestart

/-! # What a restart job does to the supervisors and to its session

The identity of the supervisor is read once and compared by its PID alone later, so the job relies on the process that
answered a status request being the recorded one, and being there still when the shutdown request arrives. The stored
state moves forward through every crash, since it is read again before anything is done.
-/

namespace PersistentHarness.PostRestart

section Observed

def JobState.rank : JobState → ℕ
  | .scheduled => 0
  | .waitingForIdle => 1
  | .stopping => 2
  | .starting => 3
  | .nudging => 4
  | .complete => 5
  | .failed => 6

/-- A later state, or a failure of a job that is not complete. -/
def Forward (before after : JobState) : Prop :=
  after = .failed ∧ before ≠ .complete ∨ after ≠ .failed ∧ before.rank < after.rank

/-- The supervisor process recorded in a job. -/
def recorded (job : Job) : Option Process :=
  match job.oldPid, job.oldStartTime with
  | some pid, some startTime => some ⟨pid, startTime⟩
  | _, _ => none

/-- The job file after some observations, the latest first. -/
def lastStored (first : Job) : List Observation → Job
  | [] => first
  | .stored job :: _ => job
  | _ :: past => lastStored first past

/-- A supervisor other than the recorded one answered when the recorded one had stopped. -/
def Replaced (job : Job) (past : List Observation) : Prop :=
  ∃ old, recorded job = some old ∧ ∃ process running, .answered process running ∈ past ∧ process ≠ old ∧ old ∉ running

/-- What may be seen after the observations before it. -/
def Permitted (first : Job) (past : List Observation) : Observation → Prop
  | .stored job => Forward (lastStored first past).state job.state ∧ (job.state = .complete → Replaced job past)
  | .shutdown process => recorded (lastStored first past) = some process
  | .submitted sessionId id => sessionId = first.resumeSessionId ∧ id = requestId first
  | .answered _ _ => True

def Orderly (first : Job) : List Observation → Prop
  | [] => True
  | o :: past => Permitted first past o ∧ Orderly first past

end Observed

section Updates

variable {job next : Job} {now message : JsString} {state : JobState} {details : Job → Job} {worker : Worker}

theorem validateJob_eq (valid : validateJob job = .ok next) : next = { job with error := job.error.map (·.take 2048) } := by
  unfold validateJob at valid
  simp only [bind, Except.bind] at valid
  repeat' split at valid
  all_goals cases valid
  all_goals rfl

theorem update_eq (updated : update job state now details = .ok next) :
    next = { details { job with state, updatedAt := some now } with
      error := (details { job with state, updatedAt := some now }).error.map (·.take 2048) } := validateJob_eq updated

/-- An error leads to a stored failure, or to nothing. -/
theorem recover_some (recovered : recover job now message = some worker) :
    worker.pc = .storing ∧ worker.job.state = .failed ∧ job.state ≠ .complete ∧ worker.job.jobId = job.jobId
      ∧ worker.job.resumeSessionId = job.resumeSessionId := by
  unfold recover at recovered
  split at recovered
  · cases recovered
  · next open_ =>
    split at recovered
    · next failed updated =>
      cases recovered
      rw [update_eq updated]
      exact ⟨rfl, rfl, fun complete => open_ (.inl complete), rfl, rfl⟩
    · cases recovered

theorem proceed_some (proceeded : proceed job state now details = some worker) :
    worker.pc = .storing ∧ (update job state now details = .ok worker.job
      ∨ ∃ message, recover job now message = some worker) := by
  unfold proceed at proceeded
  split at proceeded
  · next updated =>
    cases proceeded
    exact ⟨rfl, .inl updated⟩
  · next message _ => exact ⟨(recover_some proceeded).1, .inr ⟨message, proceeded⟩⟩

end Updates

section Invariant

/-- What the state of a job says of the supervisor it recorded. -/
def Fits (first : Job) (s : System) (job : Job) : Prop :=
  (job.jobId = first.jobId ∧ job.resumeSessionId = first.resumeSessionId)
    ∧ match job.state with
      | .scheduled | .waitingForIdle | .complete | .failed => True
      | .stopping => ∃ old ∈ s.seen, recorded job = some old
      | .starting | .nudging => ∃ old ∈ s.seen, recorded job = some old ∧ old ∉ s.processes

/-- What a worker relies on at its next call. -/
def At (first : Job) (s : System) (worker : Worker) : Prop :=
  match worker.pc with
  | .loading => True
  | .storing =>
    Fits first s worker.job ∧ Forward s.stored.state worker.job.state ∧ (worker.job.state = .complete → Replaced worker.job s.log)
  | .waitForIdle _ | .identifying _ => worker.job = s.stored ∧ worker.job.state = .waitingForIdle
  | .checking | .pollingProcess _ => worker.job = s.stored ∧ worker.job.state = .stopping
  | .stopping answered => worker.job = s.stored ∧ worker.job.state = .stopping ∧ recorded worker.job = some answered
  | .pollingSocket _ processGone =>
    worker.job = s.stored ∧ worker.job.state = .stopping
      ∧ (processGone = true → ∀ old, recorded worker.job = some old → old ∉ s.processes)
  | .ensuring | .verifying _ => worker.job = s.stored ∧ worker.job.state = .starting
  | .finding => worker.job = s.stored ∧ worker.job.state = .nudging
  | .submitting _ => worker.job = s.stored ∧ worker.job.state = .nudging ∧ Replaced worker.job s.log

/-- The system without its worker. -/
structure Base (first : Job) (s : System) : Prop where
  orderly : Orderly first s.log
  stored : lastStored first s.log = s.stored
  fits : Fits first s s.stored
  known : ∀ process ∈ s.processes, process ∈ s.seen
  unique : (s.processes.map (·.pid)).Nodup
  inputs : s.inputs = [] ∨ s.inputs = [(first.resumeSessionId, requestId first)]

structure Sound (first : Job) (s : System) : Prop where
  base : Base first s
  worker : ∀ worker, s.worker = some worker → At first s worker

/-- The process that a step relies on is the one that was meant: a supervisor that answers under the recorded PID is the
recorded one, one that answers under another comes after it, and the one that answered gets the shutdown request. -/
def careful (s : System) : Event → Bool
  | .turn _ (.status _) =>
    match s.worker, s.serving with
    | some ⟨job, .checking⟩, some process =>
      if some process.pid = job.oldPid then recorded job = some process else (recorded job).all (· ∉ s.processes)
    | _, _ => true
  | .turn _ (.shutdown _) =>
    match s.worker with
    | some ⟨_, .stopping answered⟩ => s.serving.all (· = answered)
    | _ => true
  | _ => true

variable {first job next : Job} {s t : System} {worker : Worker} {now message : JsString} {state : JobState}
  {details : Job → Job}

theorem Forward.ne_complete {before after : JobState} (forward : Forward before after) : before ≠ .complete := by
  rintro rfl
  rcases forward with ⟨_, other⟩ | ⟨open_, less⟩
  · exact other rfl
  · cases after <;> first | exact open_ rfl | exact absurd less (by decide)

theorem Fits.follow (fits : Fits first s job) (seen : ∀ process ∈ s.seen, process ∈ t.seen)
    (gone : ∀ process ∈ s.seen, process ∉ s.processes → process ∉ t.processes) : Fits first t job := by
  obtain ⟨ids, fits⟩ := fits
  refine ⟨ids, ?_⟩
  cases held : job.state with
  | scheduled | waitingForIdle | complete | failed => trivial
  | stopping =>
    rw [held] at fits
    obtain ⟨old, was, same⟩ := fits
    exact ⟨old, seen old was, same⟩
  | starting | nudging =>
    rw [held] at fits
    obtain ⟨old, was, same, absent⟩ := fits
    exact ⟨old, seen old was, same, gone old was absent⟩

theorem At.follow (at_ : At first s worker) (fits : Fits first s s.stored) (stored : t.stored = s.stored) (log : t.log = s.log)
    (seen : ∀ process ∈ s.seen, process ∈ t.seen)
    (gone : ∀ process ∈ s.seen, process ∉ s.processes → process ∉ t.processes) : At first t worker := by
  unfold At at at_ ⊢
  rw [stored, log]
  cases pc : worker.pc with
  | storing =>
    rw [pc] at at_
    exact ⟨at_.1.follow seen gone, at_.2⟩
  | pollingSocket socketDown processGone =>
    rw [pc] at at_
    obtain ⟨same, held, absent⟩ := at_
    refine ⟨same, held, fun isGone old known => ?_⟩
    have was := fits.2
    rw [← same, held] at was
    obtain ⟨other, member, again⟩ := was
    rw [again] at known
    cases known
    exact gone old member (absent isGone old again)
  | loading | waitForIdle stable | identifying oldPid | checking | stopping answered | pollingProcess socketDown | ensuring
  | verifying ensured | finding | submitting newPid =>
    rw [pc] at at_
    exact at_

theorem Sound.workerIs (base : Base first s) {next : Option Worker} (at_ : ∀ worker, next = some worker → At first s worker) :
    Sound first (s.workerIs next) := by
  refine ⟨⟨base.orderly, base.stored, base.fits, base.known, base.unique, base.inputs⟩, fun worker held => ?_⟩
  exact at_ worker held

/-- A failure can be stored over every state but a complete one. -/
theorem at_recover (open_ : s.stored.state ≠ .complete)
    (ids : job.jobId = first.jobId ∧ job.resumeSessionId = first.resumeSessionId) :
    ∀ worker, recover job now message = some worker → At first s worker := by
  intro worker recovered
  obtain ⟨storing, failed, _, jobId, session⟩ := recover_some recovered
  unfold At
  rw [storing]
  refine ⟨⟨⟨jobId.trans ids.1, session.trans ids.2⟩, by rw [failed]; trivial⟩, .inl ⟨failed, open_⟩, fun complete => ?_⟩
  rw [failed] at complete
  cases complete

theorem at_proceed (open_ : s.stored.state ≠ .complete)
    (ids : job.jobId = first.jobId ∧ job.resumeSessionId = first.resumeSessionId)
    (fits : ∀ next, update job state now details = .ok next →
      Fits first s next ∧ Forward s.stored.state next.state ∧ (next.state = .complete → Replaced next s.log)) :
    ∀ worker, proceed job state now details = some worker → At first s worker := by
  intro worker proceeded
  obtain ⟨storing, updated | ⟨message, recovered⟩⟩ := proceed_some proceeded
  · unfold At
    rw [storing]
    exact fits worker.job updated
  · exact at_recover open_ ids worker recovered

theorem Base.observe (base : Base first s) {o : Observation} (permitted : Permitted first s.log o)
    (kept : lastStored first (o :: s.log) = lastStored first s.log) : Base first (s.observe o) :=
  ⟨⟨permitted, base.orderly⟩, kept.trans base.stored, base.fits, base.known, base.unique, base.inputs⟩

theorem Replaced.cons {past : List Observation} (replaced : Replaced job past) (o : Observation) : Replaced job (o :: past) := by
  obtain ⟨old, same, process, running, answered, other, stopped⟩ := replaced
  exact ⟨old, same, process, running, List.mem_cons_of_mem o answered, other, stopped⟩

theorem Fits.stopping (fits : Fits first s job) (held : job.state = .stopping) : ∃ old ∈ s.seen, recorded job = some old := by
  have known := fits.2
  rwa [held] at known

theorem Fits.gone (fits : Fits first s job) (held : job.state = .starting ∨ job.state = .nudging) :
    ∃ old ∈ s.seen, recorded job = some old ∧ old ∉ s.processes := by
  have known := fits.2
  rcases held with held | held
  · rwa [held] at known
  · rwa [held] at known

theorem at_enter (base : Base first s) : ∀ worker, enter s.stored now = some worker → At first s worker := by
  intro worker entered
  unfold enter at entered
  split at entered
  · next held =>
    have forward : Forward s.stored.state .waitingForIdle := by rw [held]; exact .inr (by decide)
    refine at_proceed forward.ne_complete base.fits.1 (fun next updated => ?_) worker entered
    rw [update_eq updated]
    exact ⟨⟨base.fits.1, trivial⟩, forward, nofun⟩
  · next held =>
    cases entered
    exact ⟨rfl, held⟩
  · next held =>
    cases entered
    exact ⟨rfl, held⟩
  · next held =>
    cases entered
    exact ⟨rfl, held⟩
  · next held =>
    cases entered
    exact ⟨rfl, held⟩
  · cases entered
  · next held => exact at_recover (by rw [held]; decide) base.fits.1 worker entered

theorem at_waitForShutdown (held : s.stored.state = .stopping) : At first s (waitForShutdown s.stored) := by
  refine ⟨rfl, held, fun gone old known => ?_⟩
  have none : s.stored.oldPid = none := by simpa [waitForShutdown] using gone
  change recorded s.stored = some old at known
  rw [recorded, none] at known
  cases known

theorem at_afterPoll (base : Base first s) (held : s.stored.state = .stopping) {socketDown processGone : Bool}
    (gone : processGone = true → ∀ old, recorded s.stored = some old → old ∉ s.processes) :
    ∀ worker, afterPoll s.stored now socketDown processGone = some worker → At first s worker := by
  intro worker polled
  unfold afterPoll at polled
  split at polled
  · next both =>
    rw [Bool.and_eq_true] at both
    have forward : Forward s.stored.state .starting := by rw [held]; exact .inr (by decide)
    refine at_proceed forward.ne_complete base.fits.1 (fun next updated => ?_) worker polled
    obtain ⟨old, seen, known⟩ := base.fits.stopping held
    rw [update_eq updated]
    exact ⟨⟨base.fits.1, old, seen, known, gone both.2 old known⟩, forward, nofun⟩
  · cases polled
    exact ⟨rfl, held, gone⟩

theorem Base.isGone (base : Base first s) (gone : isGone s.processes job = true) :
    ∀ old, recorded job = some old → old ∉ s.processes := by
  intro old known member
  unfold recorded at known
  unfold PostRestart.isGone at gone
  split at known
  · next pid startTime hasPid hasTime =>
    cases known
    rw [hasPid, hasTime] at gone
    dsimp only at gone
    cases found : processOf s.processes pid with
    | none =>
      have other := List.find?_eq_none.mp found _ member
      simp at other
    | some process =>
      rw [found] at gone
      have present := List.mem_of_find?_eq_some found
      have samePid : process.pid = pid := by simpa using List.find?_some found
      have same : process = ⟨pid, startTime⟩ := List.inj_on_of_nodup_map base.unique present member samePid
      rw [same] at gone
      simp at gone
  · cases known

theorem sound_answer (base : Base first s) (at_ : At first s worker) {process : Process} {past : List Observation}
    (log : s.log = .answered process s.processes :: past) (activeCount : ℤ)
    (meant : worker.pc = .checking → if some process.pid = worker.job.oldPid then recorded worker.job = some process
      else ∀ old, recorded worker.job = some old → old ∉ s.processes)
    (asks : worker.pc.asks = true) : Sound first (s.answer worker.job now process activeCount worker.pc) := by
  obtain ⟨job, pc⟩ := worker
  dsimp only at asks ⊢
  cases pc with
  | waitForIdle stable =>
    obtain ⟨rfl, held⟩ := at_
    rw [System.answer]
    have open_ : s.stored.state ≠ .complete := by
      intro complete
      change s.stored.state = _ at held
      rw [held] at complete
      cases complete
    split
    · split
      · exact Sound.workerIs base (at_recover open_ base.fits.1)
      · exact Sound.workerIs base fun _ some => by cases some; exact ⟨rfl, held⟩
    · exact Sound.workerIs base fun _ some => by cases some; exact ⟨rfl, held⟩
  | checking =>
    obtain ⟨rfl, held⟩ := at_
    have meant := meant rfl
    dsimp only at held meant
    rw [System.answer]
    split
    · next same =>
      rw [if_pos same] at meant
      exact Sound.workerIs base fun _ some => by cases some; exact ⟨rfl, held, meant⟩
    · next other =>
      rw [if_neg other] at meant
      split
      · refine Sound.workerIs base (at_proceed ?_ base.fits.1 fun next updated => ?_)
        · rw [held]
          decide
        · have forward : Forward s.stored.state .nudging := by rw [held]; exact .inr (by decide)
          obtain ⟨old, seen, known⟩ := base.fits.stopping held
          rw [update_eq updated]
          exact ⟨⟨base.fits.1, old, seen, known, meant old known⟩, forward, nofun⟩
      · exact Sound.workerIs base fun _ some => by cases some; exact at_waitForShutdown held
  | pollingSocket socketDown processGone =>
    obtain ⟨rfl, held, gone⟩ := at_
    rw [System.answer]
    split
    · next isGone => exact Sound.workerIs base (at_afterPoll base held fun _ => gone isGone)
    · exact Sound.workerIs base fun _ some => by cases some; exact ⟨rfl, held⟩
  | verifying ensured =>
    obtain ⟨rfl, held⟩ := at_
    dsimp only at held
    rw [System.answer]
    have forward : Forward s.stored.state .nudging := by rw [held]; exact .inr (by decide)
    split
    · exact Sound.workerIs base (at_recover forward.ne_complete base.fits.1)
    · refine Sound.workerIs base (at_proceed forward.ne_complete base.fits.1 fun next updated => ?_)
      obtain ⟨old, seen, known, absent⟩ := base.fits.gone (.inl held)
      rw [update_eq updated]
      exact ⟨⟨base.fits.1, old, seen, known, absent⟩, forward, nofun⟩
  | finding =>
    obtain ⟨rfl, held⟩ := at_
    dsimp only at held
    rw [System.answer]
    split
    · refine Sound.workerIs base (at_recover ?_ base.fits.1)
      rw [held]
      decide
    · next different =>
      refine Sound.workerIs base fun _ some => ?_
      cases some
      obtain ⟨old, seen, known, absent⟩ := base.fits.gone (.inr held)
      refine ⟨rfl, held, old, known, process, s.processes, by rw [log]; exact List.mem_cons_self .., ?_, absent⟩
      rintro rfl
      refine different (.inr ?_)
      unfold recorded at known
      split at known
      · next hasPid _ =>
        cases known
        exact hasPid.symm
      · cases known
  | loading | storing | identifying oldPid | stopping answered | pollingProcess socketDown | ensuring | submitting newPid =>
    cases asks

theorem sound_failed (base : Base first s) (at_ : At first s worker) :
    Sound first (s.failed worker.job now message worker.pc) := by
  obtain ⟨job, pc⟩ := worker
  dsimp only
  have working {state : JobState} (held : s.stored.state = state) (open_ : state ≠ .complete) :
      Sound first (s.workerIs (recover s.stored now message)) := by
    rw [← held] at open_
    exact Sound.workerIs base (at_recover open_ base.fits.1)
  cases pc with
  | loading => exact Sound.workerIs base fun _ none => by cases none
  | checking =>
    obtain ⟨rfl, held⟩ := at_
    exact Sound.workerIs base fun _ some => by cases some; exact at_waitForShutdown held
  | pollingSocket socketDown processGone =>
    obtain ⟨rfl, held, gone⟩ := at_
    rw [System.failed]
    split
    · next isGone => exact Sound.workerIs base (at_afterPoll base held fun _ => gone isGone)
    · exact Sound.workerIs base fun _ some => by cases some; exact ⟨rfl, held⟩
  | storing =>
    obtain ⟨fits, forward, _⟩ := at_
    have ids : job.jobId = first.jobId ∧ job.resumeSessionId = first.resumeSessionId := fits.1
    have open_ : s.stored.state ≠ .complete := forward.ne_complete
    rw [System.failed]
    by_cases failed : job.state = .failed
    · rw [if_pos failed]
      exact Sound.workerIs base fun _ none => by cases none
    · rw [if_neg failed]
      exact Sound.workerIs base (at_recover open_ ids)
  | waitForIdle stable | identifying oldPid =>
    obtain ⟨rfl, held⟩ := at_
    exact working held (by decide)
  | stopping answered =>
    obtain ⟨rfl, held, _⟩ := at_
    exact working held (by decide)
  | pollingProcess socketDown =>
    obtain ⟨rfl, held⟩ := at_
    exact working held (by decide)
  | ensuring | verifying ensured | finding =>
    obtain ⟨rfl, held⟩ := at_
    exact working held (by decide)
  | submitting newPid =>
    obtain ⟨rfl, held, _⟩ := at_
    exact working held (by decide)

theorem sound_stored (base : Base first s) (at_ : At first s worker) (storing : worker.pc = .storing) :
    Sound first (({ s with stored := worker.job }.observe (.stored worker.job)).workerIs
      (if worker.job.state = JobState.failed then none else enter worker.job now)) := by
  unfold At at at_
  rw [storing] at at_
  obtain ⟨fits, forward, replaced⟩ := at_
  have after : Base first ({ s with stored := worker.job }.observe (.stored worker.job)) := by
    refine ⟨⟨⟨?_, replaced⟩, base.orderly⟩, rfl, fits, base.known, base.unique, base.inputs⟩
    rw [base.stored]
    exact forward
  refine Sound.workerIs after fun next entered => ?_
  split at entered
  · cases entered
  · exact at_enter after next entered

/-- The start time of the supervisor that is to be stopped is read. -/
theorem sound_identify (base : Base first s) (held : s.stored.state = .waitingForIdle) (oldPid : ℕ) {process : Process}
    (found : processOf s.processes oldPid = some process) :
    Sound first (s.workerIs (proceed s.stored .stopping now fun job =>
      { job with oldPid := some oldPid, oldStartTime := some process.startTime })) := by
  have forward : Forward s.stored.state .stopping := by rw [held]; exact .inr (by decide)
  refine Sound.workerIs base (at_proceed forward.ne_complete base.fits.1 fun next updated => ?_)
  have member := List.mem_of_find?_eq_some found
  have pid : process.pid = oldPid := by simpa using List.find?_some found
  rw [update_eq updated]
  exact ⟨⟨base.fits.1, process, base.known process member, by subst pid; rfl⟩, forward, nofun⟩

/-- The input is accepted, once for its request id. -/
theorem base_submit (base : Base first s) : Base first (s.submit s.stored.resumeSessionId (requestId s.stored)) := by
  have session : s.stored.resumeSessionId = first.resumeSessionId := base.fits.1.2
  have id : requestId s.stored = requestId first := by rw [requestId, base.fits.1.1, requestId]
  rw [session, id]
  refine ⟨⟨⟨rfl, rfl⟩, base.orderly⟩, base.stored, base.fits, base.known, base.unique, ?_⟩
  dsimp only [System.submit, System.observe]
  rcases base.inputs with none | one
  · rw [none]
    exact .inr rfl
  · rw [one, if_pos (List.mem_singleton_self _)]
    exact .inr rfl

theorem sound_turn (base : Base first s) (at_ : At first s worker) (running : s.worker = some worker) (outcome : Outcome)
    (kept : careful s (.turn now outcome) = true) : Sound first (s.turn worker now outcome) := by
  have same : Sound first s := ⟨base, fun other held => by rw [running] at held; cases held; exact at_⟩
  cases outcome with
  | loaded succeeds =>
    rw [System.turn]
    split
    · refine Sound.workerIs base fun next entered => ?_
      split at entered
      · exact at_enter base next entered
      · cases entered
    · exact same
  | stored =>
    rw [System.turn]
    split
    · next storing => exact sound_stored base at_ storing
    · exact same
  | status activeCount =>
    rw [System.turn.eq_def]
    dsimp only
    split
    · next process serving =>
      split
      · next asks =>
        have after : Base first (s.observe (.answered process s.processes)) := base.observe trivial rfl
        refine sound_answer after ?_ rfl activeCount (fun checking => ?_) asks
        · obtain ⟨job, pc⟩ := worker
          cases pc with
          | waitForIdle stable | checking | pollingSocket socketDown processGone | verifying ensured | finding => exact at_
          | loading | storing | identifying oldPid | stopping answered | pollingProcess socketDown | ensuring
          | submitting newPid => cases asks
        · obtain ⟨job, pc⟩ := worker
          cases checking
          rw [careful, running, serving] at kept
          dsimp only at kept ⊢
          split at kept
          · next same =>
            rw [if_pos same]
            exact of_decide_eq_true kept
          · next other =>
            rw [if_neg other]
            intro old known
            rw [known] at kept
            have absent : old ∉ s.processes := by simpa using kept
            exact absent
      · exact same
    · exact same
  | read =>
    rw [System.turn.eq_def]
    dsimp only
    split
    · next oldPid identifying =>
      unfold At at at_
      rw [identifying] at at_
      obtain ⟨held, state⟩ := at_
      rw [held] at state ⊢
      split
      · next process found => exact sound_identify base state oldPid found
      · refine Sound.workerIs base (at_recover ?_ base.fits.1)
        rw [state]
        decide
    · next socketDown polling =>
      unfold At at at_
      rw [polling] at at_
      obtain ⟨held, state⟩ := at_
      rw [held] at state ⊢
      exact Sound.workerIs base (at_afterPoll base state base.isGone)
    · exact same
  | shutdown answers =>
    rw [System.turn.eq_def]
    dsimp only
    split
    · next answered process stopping serving =>
      obtain ⟨job, pc⟩ := worker
      cases stopping
      obtain ⟨rfl, state, known⟩ := at_
      dsimp only at state known ⊢
      rw [careful, running, serving] at kept
      have meant : process = answered := by simpa using kept
      subst meant
      have after : Base first (s.observe (.shutdown process)) := base.observe (by rw [Permitted, base.stored, known]) rfl
      refine Sound.workerIs after fun next entered => ?_
      split at entered
      · cases entered
        exact at_waitForShutdown state
      · have open_ : (s.observe (.shutdown process)).stored.state ≠ .complete := by
          change s.stored.state ≠ _
          rw [state]
          decide
        exact at_recover open_ after.fits.1 next entered
    · exact same
  | ensured value =>
    rw [System.turn]
    split
    · next ensuring =>
      unfold At at at_
      rw [ensuring] at at_
      exact Sound.workerIs base fun next some => by cases some; exact at_
    · exact same
  | submitted inputId answers =>
    rw [System.turn.eq_def]
    dsimp only
    split
    · next newPid submitting =>
      unfold At at at_
      rw [submitting] at at_
      obtain ⟨held, state, replaced⟩ := at_
      rw [held] at state replaced ⊢
      have after := base_submit base
      have forward : Forward s.stored.state .complete := by rw [state]; exact .inr (by decide)
      refine Sound.workerIs after fun next entered => ?_
      split at entered
      · refine at_proceed (s := s.submit s.stored.resumeSessionId (requestId s.stored)) forward.ne_complete base.fits.1
          (fun job updated => ?_) next entered
        rw [update_eq updated]
        exact ⟨⟨base.fits.1, trivial⟩, forward, fun _ => replaced.cons _⟩
      · exact at_recover (s := s.submit s.stored.resumeSessionId (requestId s.stored)) forward.ne_complete base.fits.1 next entered
    · exact same
  | fails message =>
    rw [System.turn]
    exact sound_failed base at_
  | timesOut =>
    rw [System.turn.eq_def]
    dsimp only
    split
    · next stable waiting =>
      unfold At at at_
      rw [waiting] at at_
      obtain ⟨held, state⟩ := at_
      rw [held] at state ⊢
      refine Sound.workerIs base (at_recover ?_ base.fits.1)
      rw [state]
      decide
    · next socketDown processGone polling =>
      unfold At at at_
      rw [polling] at at_
      obtain ⟨held, state, _⟩ := at_
      rw [held] at state ⊢
      refine Sound.workerIs base (at_recover ?_ base.fits.1)
      rw [state]
      decide
    · exact same

theorem Sound.follow (sound : Sound first s) (stored : t.stored = s.stored) (log : t.log = s.log) (worker : t.worker = s.worker)
    (inputs : t.inputs = s.inputs) (seen : ∀ process ∈ s.seen, process ∈ t.seen)
    (gone : ∀ process ∈ s.seen, process ∉ s.processes → process ∉ t.processes)
    (known : ∀ process ∈ t.processes, process ∈ t.seen) (unique : (t.processes.map (·.pid)).Nodup) : Sound first t where
  base :=
    ⟨log ▸ sound.base.orderly, by rw [log, stored]; exact sound.base.stored, by rw [stored]; exact sound.base.fits.follow seen gone,
      known, unique, inputs ▸ sound.base.inputs⟩
  worker other held := (sound.worker other (worker ▸ held)).follow sound.base.fits stored log seen gone

/-- Every step keeps the job sound, as long as its processes are the ones that were meant. -/
theorem Sound.step (sound : Sound first s) (event : Event) (kept : careful s event = true) : Sound first (s.step event) := by
  obtain ⟨base, at_⟩ := sound
  cases event with
  | starts process =>
    rw [System.step]
    split
    · exact ⟨base, at_⟩
    · next fresh =>
      rw [not_or] at fresh
      obtain ⟨new, free⟩ := fresh
      refine Sound.follow ⟨base, at_⟩ rfl rfl rfl rfl (fun other member => List.mem_cons_of_mem _ member)
        (fun other member absent present => ?_) (fun other present => ?_) ?_
      · rcases List.mem_append.mp present with before | now
        · exact absent before
        · exact new (List.mem_singleton.mp now ▸ member)
      · rcases List.mem_append.mp present with before | now
        · exact List.mem_cons_of_mem _ (base.known other before)
        · rw [List.mem_singleton.mp now]
          exact List.mem_cons_self ..
      · rw [List.map_append]
        refine List.nodup_append.mpr ⟨base.unique, List.nodup_singleton _, ?_⟩
        rintro a member b only rfl
        obtain ⟨other, present, same⟩ := List.mem_map.mp member
        refine free (List.find?_isSome.mpr ⟨other, present, ?_⟩)
        have own : a = process.pid := List.mem_singleton.mp only
        simpa using same.trans own
  | exits process =>
    refine Sound.follow ⟨base, at_⟩ rfl rfl rfl rfl (fun other member => member)
      (fun other _ absent present => absent (List.mem_filter.mp present).1)
      (fun other present => base.known other (List.mem_filter.mp present).1) ?_
    exact base.unique.sublist (List.filter_sublist.map _)
  | serves process =>
    rw [System.step]
    split
    · exact Sound.follow ⟨base, at_⟩ rfl rfl rfl rfl (fun _ member => member) (fun _ _ absent => absent) base.known base.unique
    · exact ⟨base, at_⟩
  | closes =>
    exact Sound.follow ⟨base, at_⟩ rfl rfl rfl rfl (fun _ member => member) (fun _ _ absent => absent) base.known base.unique
  | run =>
    rw [System.step]
    split
    · exact Sound.workerIs base fun next some => by cases some; trivial
    · exact ⟨base, at_⟩
  | crash => exact Sound.workerIs base fun _ none => by cases none
  | turn now outcome =>
    rw [System.step]
    split
    · next worker running => exact sound_turn base (at_ worker running) running outcome kept
    · exact ⟨base, at_⟩

end Invariant

section Runs

def carefulRun (s : System) : List Event → Bool
  | [] => true
  | event :: rest => careful s event && carefulRun (s.step event) rest

theorem Sound.run {first : Job} {s : System} (sound : Sound first s) {events : List Event} (kept : carefulRun s events = true) :
    Sound first (s.run events) := by
  induction events generalizing s with
  | nil => exact sound
  | cons event rest ih =>
    rw [carefulRun, Bool.and_eq_true] at kept
    exact ih (sound.step event kept.1) kept.2

theorem sound_initial {job : Job} (new : job.state = .scheduled) {processes : List Process}
    (distinct : (processes.map (·.pid)).Nodup) (serving : Option Process) : Sound job (.initial job processes serving) where
  base := ⟨trivial, rfl, ⟨⟨rfl, rfl⟩, by rw [System.initial, new]; trivial⟩, fun _ member => member, distinct, .inl rfl⟩
  worker _ held := by cases held

/-- Where the processes are the ones that were meant, the stored state moves forward, a shutdown is acted on by the recorded
supervisor, the job completes when another one answered after that had stopped, and the session gets one input at most. -/
theorem run_forward (job : Job) (new : job.state = .scheduled) (processes : List Process)
    (distinct : (processes.map (·.pid)).Nodup) (serving : Option Process) (events : List Event)
    (kept : carefulRun (.initial job processes serving) events = true) :
    Orderly job ((System.initial job processes serving).run events).log
      ∧ (((System.initial job processes serving).run events).inputs = []
        ∨ ((System.initial job processes serving).run events).inputs = [(job.resumeSessionId, requestId job)]) := by
  have sound := (sound_initial new distinct serving).run kept
  exact ⟨sound.base.orderly, sound.base.inputs⟩

/-! ## A restart -/

def sampleJob : Job where
  jobId := js "job-1"
  state := .scheduled
  createdAt := js "2026-01-01T00:00:00.000Z"
  resumeSessionId := js "session-a"
  socketPath := js "/run/supervisor.sock"
  databasePath := js "/run/harness.sqlite"
  pidPath := js "/run/supervisor.pid"
  timeoutMs := 600000

def oldSupervisor : Process := ⟨10, js "5"⟩

def newSupervisor : Process := ⟨11, js "9"⟩

/-- The worker up to its shutdown request. -/
def sampleShutdown : List Event :=
  [.run, .turn (js "t") (.loaded true), .turn (js "t") .stored, .turn (js "t") (.status 0), .turn (js "t") (.status 0),
    .turn (js "t") .read, .turn (js "t") .stored, .turn (js "t") (.status 0)]

/-- The supervisor that answered stops, and the one after it takes the input. -/
def sampleRestart : List Event :=
  sampleShutdown ++ [.turn (js "t") (.shutdown true), .exits oldSupervisor, .turn (js "t") (.fails (js "ENOENT")),
    .turn (js "t") .read, .turn (js "t") .stored, .starts newSupervisor, .serves newSupervisor,
    .turn (js "t") (.ensured .null), .turn (js "t") (.status 0), .turn (js "t") .stored, .turn (js "t") (.status 0),
    .turn (js "t") (.submitted (js "input-1") true), .turn (js "t") .stored]

theorem run_forward_sample :
    Orderly sampleJob ((System.initial sampleJob [oldSupervisor] (some oldSupervisor)).run sampleRestart).log
      ∧ (((System.initial sampleJob [oldSupervisor] (some oldSupervisor)).run sampleRestart).inputs = []
        ∨ ((System.initial sampleJob [oldSupervisor] (some oldSupervisor)).run sampleRestart).inputs
          = [(sampleJob.resumeSessionId, requestId sampleJob)]) :=
  run_forward sampleJob rfl [oldSupervisor] (by decide) (some oldSupervisor) sampleRestart (by decide +kernel)

example : ((System.initial sampleJob [oldSupervisor] (some oldSupervisor)).run sampleRestart).stored.state = .complete := by
  decide +kernel

theorem permitted_head {first : Job} {log : List Observation} (orderly : Orderly first log) {o : Observation}
    (head : log.head? = some o) : Permitted first log.tail o := by
  cases log with
  | nil => cases head
  | cons other past =>
    cases head
    exact orderly.1

/-- The supervisor that answered exits and another one takes its socket before the shutdown request arrives. -/
theorem successor_shut_down :
    ¬Orderly sampleJob ((System.initial sampleJob [oldSupervisor] (some oldSupervisor)).run
      (sampleShutdown ++ [.exits oldSupervisor, .starts newSupervisor, .serves newSupervisor,
        .turn (js "t") (.shutdown true)])).log := by
  intro orderly
  have meant : recorded (lastStored sampleJob _) = some newSupervisor :=
    permitted_head orderly (o := .shutdown newSupervisor) (by decide +kernel)
  exact absurd meant (by decide +kernel)

end Runs

end PersistentHarness.PostRestart
