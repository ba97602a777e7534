import PersistentHarness.Lib.Trace
import PersistentHarness.Soundness.Cron.Guards

/-! # Creations that are repeated

A creation with a given id is compared with the job of that id by normalizing the request again, as of the creation of the job
and with past times allowed. Nothing but an edit touches what is compared.
-/

namespace PersistentHarness.Cron

section Normalizing

variable {calendar : Calendar}

/-- The instant of a local date-time does not depend on whether it may be past. -/
def Calendar.Once (calendar : Calendar) : Prop :=
  ∀ pattern timezone after time, isoShape pattern = some false → calendar.nextRun pattern timezone after = .ok (some time) →
    calendar.getOnce pattern timezone = .ok (some time)

theorem cronDate_ok {pattern timezone : JsString} {after : ℤ} {allowPastAt : Bool} {value : Option ℤ}
    (success : cronDate calendar pattern timezone after allowPastAt = .ok value) :
    (if allowPastAt then calendar.getOnce pattern timezone else calendar.nextRun pattern timezone after) = .ok value := by
  unfold cronDate at success
  split at success
  · next given computed =>
    rw [computed]
    exact congrArg Except.ok (Except.ok.inj success)
  · cases success

/-- An instant that was accepted is accepted again once it may be past. -/
theorem isoAt_past (once : calendar.Once) {value : Value} {timezone : JsString} {now : ℤ} {allowPastAt : Bool} {time : ℤ}
    (success : isoAt calendar value timezone now allowPastAt = .ok time) : isoAt calendar value timezone now true = .ok time := by
  unfold isoAt at success ⊢
  obtain ⟨_, isText, success⟩ := Checked.bind_eq_ok.mp success
  obtain ⟨explicitOffset, shaped, success⟩ := Checked.bind_eq_ok.mp success
  obtain ⟨timestamp, dated, success⟩ := Checked.bind_eq_ok.mp success
  refine Checked.bind_eq_ok.mpr ⟨(), isText, Checked.bind_eq_ok.mpr ⟨explicitOffset, shaped, ?_⟩⟩
  cases timestamp with
  | none => cases success
  | some instant =>
    obtain ⟨_, _, done⟩ := Checked.bind_eq_ok.mp success
    refine Checked.bind_eq_ok.mpr ⟨some instant, ?_, Checked.bind_eq_ok.mpr ⟨(), Checked.require_of (.inl rfl), done⟩⟩
    split at dated
    · next offset => rw [if_pos offset, dated]
    · next unmarked =>
      rw [if_neg unmarked]
      unfold cronDate
      cases allowPastAt with
      | true => exact dated
      | false =>
        have next := cronDate_ok dated
        have shape : isoShape value.units = some false := by
          cases found : isoShape value.units with
          | none =>
            rw [found] at shaped
            cases shaped
          | some offset =>
            rw [found] at shaped
            cases Except.ok.inj shaped
            exact congrArg some (Bool.eq_false_of_not_eq_true unmarked)
        rw [if_pos rfl, once _ _ _ _ shape next]

theorem normalizeCronSchedule_past (once : calendar.Once) {input defaultTimezone : Value} {now : ℤ} {allowPastAt : Bool}
    {least : ℕ} {normalized : Normalized}
    (success : normalizeCronSchedule calendar input now defaultTimezone allowPastAt least = .ok normalized) :
    normalizeCronSchedule calendar input now defaultTimezone true least = .ok normalized := by
  unfold normalizeCronSchedule at success ⊢
  obtain ⟨_, isObject, success⟩ := Checked.bind_eq_ok.mp success
  obtain ⟨timezone, known, success⟩ := Checked.bind_eq_ok.mp success
  refine Checked.bind_eq_ok.mpr ⟨(), isObject, Checked.bind_eq_ok.mpr ⟨timezone, known, ?_⟩⟩
  dsimp only at success ⊢
  split at success
  · next kind =>
    rw [if_pos kind]
    obtain ⟨time, computed, done⟩ := Checked.bind_eq_ok.mp success
    exact Checked.bind_eq_ok.mpr ⟨time, isoAt_past once computed, done⟩
  · next other =>
    rw [if_neg other]
    exact success

end Normalizing

section Intents

variable {env : Env} {origin : Option Origin} {originSessionId jobId : JsString} {params : Value} {now : ℤ}

/-- What is compared of a request and a job. -/
structure Intent where
  name : Value
  prompt : Value
  schedule : Schedule
  timezone : JsString
  executionMode : Value
  notificationIntent : Value
  originSessionId : Option JsString
  cwd : JsString
  repositoryRoot : Option JsString
  launch : Launch
  repeatTimes : Option ℕ
  check : Option Check
deriving DecidableEq

def CreationParams.intent (creation : CreationParams) : Intent where
  name := creation.params.name
  prompt := creation.params.prompt
  schedule := creation.params.schedule
  timezone := creation.params.schedule.timezone
  executionMode := creation.params.executionMode
  notificationIntent := creation.params.notificationIntent
  originSessionId := some creation.originSessionId
  cwd := creation.cwd
  repositoryRoot := creation.repositoryRoot
  launch := creation.params.launch
  repeatTimes := creation.params.repeatTimes
  check := creation.params.check

def Job.intent (job : Job) : Intent where
  name := .str job.name
  prompt := .str job.prompt
  schedule := job.schedule
  timezone := job.timezone
  executionMode := executionModeValue job.executionMode
  notificationIntent := notificationIntentValue job.notificationIntent
  originSessionId := job.originSessionId
  cwd := job.cwd
  repositoryRoot := job.repositoryRoot
  launch := job.launch
  repeatTimes := job.repeatTimes
  check := job.check

theorem differingIntent_eq_none {requested : CreationParams} {existing : Job} :
    differingIntent requested existing = none ↔ requested.intent = existing.intent := by
  unfold differingIntent CreationParams.intent Job.intent
  rw [Option.map_eq_none_iff, List.find?_eq_none]
  simp only [List.forall_mem_cons, List.not_mem_nil, Bool.not_eq_true, Bool.not_eq_false', decide_eq_true_eq,
    IsEmpty.forall_iff, implies_true, and_true, Intent.mk.injEq]

/-- What a request normalizes to, as of an instant and with past times allowed. -/
def normalIntent (env : Env) (origin : Option Origin) (originSessionId : JsString) (params : Value) (createdAt : ℤ) :
    CronResult Intent := (creationParams env origin originSessionId params createdAt true).map CreationParams.intent

theorem normalIntent_eq_ok {createdAt : ℤ} {intent : Intent} :
    normalIntent env origin originSessionId params createdAt = .ok intent ↔
      ∃ requested, creationParams env origin originSessionId params createdAt true = .ok requested ∧ requested.intent = intent := by
  unfold normalIntent
  cases creationParams env origin originSessionId params createdAt true with
  | error thrown =>
    constructor
    · rintro ⟨⟩
    · rintro ⟨_, ⟨⟩, _⟩
  | ok requested =>
    constructor
    · intro same
      exact ⟨requested, rfl, Except.ok.inj same⟩
    · rintro ⟨_, ⟨⟩, rfl⟩
      rfl

theorem create_existing {store : Store} {job : Job} (valid : validJobId jobId = true) (found : store.getJob jobId = some job)
    (now : ℤ) (initiallyPaused : Bool) (draw : JsString) :
    (normalIntent env origin originSessionId params job.createdAt = .ok job.intent →
        create env store origin originSessionId params now (some jobId) initiallyPaused draw = .ok (store, job))
      ∧ (normalIntent env origin originSessionId params job.createdAt ≠ .ok job.intent →
        ∃ thrown, create env store origin originSessionId params now (some jobId) initiallyPaused draw = .error thrown) := by
  have given : ∀ id ∈ some jobId, validJobId id = true := by
    rintro id ⟨⟩
    exact valid
  have reuses : create env store origin originSessionId params now (some jobId) initiallyPaused draw
      = (reuseCreation env job origin originSessionId params).map fun job => (store, job) := by
    unfold create
    rw [requireType, Checked.require_of given, Checked.ok_bind, Option.bind_some, found]
    dsimp only
    cases reuseCreation env job origin originSessionId params with
    | ok job => rfl
    | error thrown => rfl
  rw [reuses]
  constructor
  · intro same
    obtain ⟨requested, computed, same⟩ := normalIntent_eq_ok.mp same
    unfold reuseCreation
    rw [computed, Checked.ok_bind, differingIntent_eq_none.mpr same]
    rfl
  · intro differs
    unfold reuseCreation
    cases computed : creationParams env origin originSessionId params job.createdAt true with
    | error thrown => exact ⟨thrown, rfl⟩
    | ok requested =>
      rw [Checked.ok_bind]
      cases difference : differingIntent requested job with
      | none => exact absurd (normalIntent_eq_ok.mpr ⟨requested, computed, differingIntent_eq_none.mp difference⟩) differs
      | some key => exact ⟨_, rfl⟩

/-- The database keeps this text as it is. -/
def WellFormed (value : Value) : Prop := value.units.toWellFormed = value.units

/-- The session is a live root, in this directory and repository. -/
def RootAt (origin : Option Origin) (cwd : JsString) (repositoryRoot : Option JsString) : Prop :=
  ∃ session, origin = some session ∧ (!session.deleted && session.isRoot && session.depth == 0) = true ∧ session.cwd = cwd
    ∧ session.repositoryRoot = repositoryRoot

/-- Creation parameters are made alike from the same session at any later time. -/
theorem creationParams_past (once : env.calendar.Once) {createdAt : ℤ} {allowPastAt : Bool} {creation : CreationParams}
    (success : creationParams env origin originSessionId params createdAt allowPastAt = .ok creation) {other : Option Origin}
    (root : RootAt other creation.cwd creation.repositoryRoot) :
    creationParams env other originSessionId params createdAt true = .ok creation := by
  unfold creationParams at success ⊢
  split at success
  · cases success
  next session live =>
  obtain ⟨check, checked, success⟩ := Checked.bind_eq_ok.mp success
  obtain ⟨normalized, computed, success⟩ := Checked.bind_eq_ok.mp success
  obtain ⟨_, recurring, success⟩ := Checked.bind_eq_ok.mp success
  obtain ⟨times, counted, done⟩ := Checked.bind_eq_ok.mp success
  obtain rfl := Except.ok.inj done
  obtain ⟨there, rfl, liveThere, cwd, repositoryRoot⟩ := root
  rw [Option.filter_some, if_pos liveThere]
  dsimp only at cwd repositoryRoot ⊢
  rw [cwd, repositoryRoot, checked, Checked.ok_bind, normalizeCronSchedule_past once computed, Checked.ok_bind, recurring,
    Checked.ok_bind, counted, Checked.ok_bind]
  rfl

theorem rootAt_of_creationParams {createdAt : ℤ} {allowPastAt : Bool} {creation : CreationParams}
    (success : creationParams env origin originSessionId params createdAt allowPastAt = .ok creation) :
    RootAt origin creation.cwd creation.repositoryRoot := by
  unfold creationParams at success
  split at success
  · cases success
  next session live =>
  obtain ⟨check, checked, success⟩ := Checked.bind_eq_ok.mp success
  obtain ⟨normalized, computed, success⟩ := Checked.bind_eq_ok.mp success
  obtain ⟨_, recurring, success⟩ := Checked.bind_eq_ok.mp success
  obtain ⟨times, counted, done⟩ := Checked.bind_eq_ok.mp success
  obtain rfl := Except.ok.inj done
  obtain ⟨is, holds⟩ := Option.filter_eq_some_iff.mp live
  exact ⟨session, is, holds, rfl, rfl⟩

theorem creationParams_named {createdAt : ℤ} {allowPastAt : Bool} {creation : CreationParams}
    (success : creationParams env origin originSessionId params createdAt allowPastAt = .ok creation) :
    creation.params.name = params.get (js "name") ∧ creation.params.prompt = params.get (js "prompt")
      ∧ creation.params.notificationIntent ≠ .undefined ∧ creation.originSessionId = originSessionId := by
  unfold creationParams at success
  split at success
  · cases success
  obtain ⟨check, checked, success⟩ := Checked.bind_eq_ok.mp success
  obtain ⟨normalized, computed, success⟩ := Checked.bind_eq_ok.mp success
  obtain ⟨_, recurring, success⟩ := Checked.bind_eq_ok.mp success
  obtain ⟨times, counted, done⟩ := Checked.bind_eq_ok.mp success
  obtain rfl := Except.ok.inj done
  refine ⟨rfl, rfl, ?_, rfl⟩
  change (params.get (js "notificationIntent")).coalesce .null ≠ .undefined
  cases params.get (js "notificationIntent") with
  | undefined | null | bool _ | num _ | str _ | arr _ | obj _ => exact Value.noConfusion

theorem textColumn_ok {column : String} {value : Value} {text : JsString} (bound : Store.textColumn column value = .ok text)
    (plain : WellFormed value) : value = .str text := by
  cases value with
  | str given =>
    rw [← Except.ok.inj bound]
    exact congrArg Value.str plain.symm
  | undefined | null | bool _ | num _ | arr _ | obj _ => cases bound

theorem executionModeColumn_ok {value : Value} {mode : ExecutionMode} (bound : Store.executionModeColumn value = .ok mode) :
    value = executionModeValue mode := by
  unfold Store.executionModeColumn at bound
  split at bound
  · next fresh =>
    cases bound
    exact fresh
  split at bound
  · next origin =>
    cases bound
    exact origin
  · cases bound

theorem notificationIntentColumn_ok {value : Value} {intent : Option NotificationIntent} (defined : value ≠ .undefined)
    (bound : Store.notificationIntentColumn value = .ok intent) : value = notificationIntentValue intent := by
  unfold Store.notificationIntentColumn at bound
  split at bound
  · next missing =>
    cases bound
    exact missing.resolve_left defined
  split at bound
  · next result =>
    cases bound
    exact result
  split at bound
  · next conditional =>
    cases bound
    exact conditional
  split at bound
  · next silent =>
    cases bound
    exact silent
  · cases bound

theorem create_intent (once : env.calendar.Once) {store next : Store} {initiallyPaused : Bool} {draw : JsString} {job : Job}
    (accepted : create env store origin originSessionId params now (some jobId) initiallyPaused draw = .ok (next, job))
    (name : WellFormed (params.get (js "name"))) (prompt : WellFormed (params.get (js "prompt"))) :
    validJobId jobId = true ∧ next.getJob jobId = some job ∧ RootAt origin job.cwd job.repositoryRoot
      ∧ ∀ other, RootAt other job.cwd job.repositoryRoot →
        normalIntent env other originSessionId params job.createdAt = .ok job.intent := by
  unfold create at accepted
  obtain ⟨_, valid, accepted⟩ := Checked.bind_eq_ok.mp accepted
  refine ⟨Checked.require_eq_ok.mp valid jobId rfl, ?_⟩
  split at accepted
  · next existing found =>
    obtain ⟨reused, same, done⟩ := Checked.bind_eq_ok.mp accepted
    obtain ⟨rfl, rfl⟩ := Prod.mk.inj (Except.ok.inj done)
    unfold reuseCreation at same
    obtain ⟨requested, computed, same⟩ := Checked.bind_eq_ok.mp same
    split at same
    · cases same
    · next nothing =>
      obtain rfl := Except.ok.inj same
      have alike := differingIntent_eq_none.mp nothing
      have cwd : requested.cwd = existing.cwd := congrArg Intent.cwd alike
      have repositoryRoot : requested.repositoryRoot = existing.repositoryRoot := congrArg Intent.repositoryRoot alike
      have here := rootAt_of_creationParams computed
      rw [cwd, repositoryRoot] at here
      refine ⟨found, here, fun other root => normalIntent_eq_ok.mpr ⟨requested, creationParams_past once computed ?_, alike⟩⟩
      rw [cwd, repositoryRoot]
      exact root
  · next free =>
    obtain ⟨creation, computed, accepted⟩ := Checked.bind_eq_ok.mp accepted
    obtain ⟨columns, bound, accepted⟩ := Checked.bind_eq_ok.mp accepted
    dsimp only at accepted
    split at accepted
    · cases accepted
    next jobs inserted =>
    obtain ⟨_, _, done⟩ := Checked.bind_eq_ok.mp accepted
    obtain ⟨rfl, rfl⟩ := Prod.mk.inj (Except.ok.inj done)
    refine ⟨?_, rootAt_of_creationParams computed,
      fun other root => normalIntent_eq_ok.mpr ⟨creation, creationParams_past once computed root, ?_⟩⟩
    · exact (Table.get?_insert inserted jobId).trans (if_pos rfl)
    · obtain ⟨nameText, named, bound⟩ := Checked.bind_eq_ok.mp bound
      obtain ⟨promptText, prompted, bound⟩ := Checked.bind_eq_ok.mp bound
      obtain ⟨mode, moded, bound⟩ := Checked.bind_eq_ok.mp bound
      obtain ⟨intent, intended, bound⟩ := Checked.bind_eq_ok.mp bound
      obtain rfl := Except.ok.inj bound
      obtain ⟨nameGiven, promptGiven, defined, session⟩ := creationParams_named computed
      dsimp only at named prompted moded intended
      have nameSame := textColumn_ok named (nameGiven ▸ name)
      have promptSame := textColumn_ok prompted (promptGiven ▸ prompt)
      have modeSame := executionModeColumn_ok moded
      have intentSame := notificationIntentColumn_ok defined intended
      unfold CreationParams.intent Job.intent Store.created
      dsimp only
      rw [nameSame, promptSame, modeSame, intentSame, session]

end Intents

section Later

variable {env : Env} {jobId : JsString} {s t : Scheduler} {now : ℤ} {op : Op} {job next : Job}

def Edits (env : Env) (jobId : JsString) (s : Scheduler) (now : ℤ) (op : Op) : Prop :=
  ∃ selector patch job result, op = .update selector patch ∧ s.store.resolveJob selector false = .ok (jobId, job)
    ∧ update env s.store selector patch now = .ok result

theorem afterFinish_intent (job : Job) (result : CheckResult) (scheduledAt now : ℤ) :
    (afterFinish job result scheduledAt now).intent = job.intent
      ∧ (afterFinish job result scheduledAt now).createdAt = job.createdAt := by
  have recorded : (recordOutcome job now result).1.intent = job.intent
      ∧ (recordOutcome job now result).1.createdAt = job.createdAt := by
    cases result with
    | ok output => exact ⟨rfl, rfl⟩
    | failed error => exact ⟨rfl, rfl⟩
  have taken (pending : PendingCheck) (before : Job) :
      (takeResult before pending now).intent = before.intent ∧ (takeResult before pending now).createdAt = before.createdAt := by
    unfold takeResult
    split
    · exact ⟨rfl, rfl⟩
    · exact ⟨rfl, rfl⟩
  unfold afterFinish
  cases outcome : recordOutcome job now result with
  | mk after text =>
    rw [outcome] at recorded
    cases text with
    | none => exact recorded
    | some text => exact ⟨(taken _ _).1.trans recorded.1, (taken _ _).2.trans recorded.2⟩

theorem Evolves.intent {origin : Scheduler} (evolves : Evolves env origin now op s jobId job next)
    (unedited : ¬Edits env jobId origin now op) : next.intent = job.intent ∧ next.createdAt = job.createdAt := by
  cases evolves with
  | same => exact ⟨rfl, rfl⟩
  | touched => exact ⟨rfl, rfl⟩
  | changed change =>
    cases change with
    | edited is named live computed applied =>
      obtain ⟨result, applied⟩ := applied
      exact absurd ⟨_, _, job, result, is, named, applied⟩ unedited
    | paused is scheduled => exact ⟨rfl, rfl⟩
    | resumed is named paused computed => exact ⟨rfl, rfl⟩
    | removed is => exact ⟨rfl, rfl⟩
  | claimed claim =>
    cases claim with
    | plain is due unchecked computed room makes => exact ⟨rfl, rfl⟩
    | checked is waits live idle room awake before idleBefore roomBefore => exact ⟨rfl, rfl⟩
    | manual is live idle room => exact ⟨rfl, rfl⟩
  | deferred => exact ⟨rfl, rfl⟩
  | finished is named member unfinished => exact afterFinish_intent job _ _ now

/-- The job is stored, with this intent and instant of creation. -/
def Holds (jobId : JsString) (intent : Intent) (createdAt : ℤ) (s : Scheduler) : Prop :=
  ∃ job, s.store.getJob jobId = some job ∧ job.intent = intent ∧ job.createdAt = createdAt

variable {intent : Intent} {createdAt : ℤ}

theorem Move.holds {origin : Scheduler} {emitted : List Emission} (move : Move env origin now op s emitted t)
    (unedited : ¬Edits env jobId origin now op) (holds : Holds jobId intent createdAt s) : Holds jobId intent createdAt t := by
  obtain ⟨job, found, rfl, rfl⟩ := holds
  obtain ⟨next, there⟩ := move.keepsJob found
  rcases move.job there with ⟨absent, _⟩ | ⟨before, stored, evolves⟩
  · rw [found] at absent
    cases absent
  · obtain rfl := Option.some.inj (found.symm.trans stored)
    obtain ⟨sameIntent, sameCreation⟩ := evolves.intent unedited
    exact ⟨next, there, sameIntent, sameCreation⟩

theorem step_holds (event : ℤ × Op) (holds : Holds jobId intent createdAt s) (unedited : ¬Edits env jobId s event.1 event.2) :
    Holds jobId intent createdAt (step env s event.1 event.2).1 :=
  (step_moves env s event.1 event.2).1.preserves (fun _ _ _ move before => move.holds unedited before) holds

/-- The state after timed steps. -/
def after (env : Env) (s : Scheduler) (events : List (ℤ × Op)) : Scheduler :=
  events.foldl (fun s event => (step env s event.1 event.2).1) s

/-- No step of the run edits the job. -/
def LeftAlone (env : Env) (jobId : JsString) (s : Scheduler) (events : List (ℤ × Op)) : Prop :=
  Course (fun s (event : ℤ × Op) => (step env s event.1 event.2).1) (fun s event => ¬Edits env jobId s event.1 event.2) s events

/-- A creation that was accepted under a fixed id is repeated any time before the job is edited: while the session is still a live
root in the directory and repository of the job, the same request gives the job as it is, and a request that normalizes differently
throws. Neither changes anything. -/
theorem create_again (once : env.calendar.Once) (s : Scheduler) (origin : Option Origin) (originSessionId : JsString)
    (params : Value) {now : ℤ} {initiallyPaused : Bool} {draw : JsString} {store : Store}
    (accepted : create env s.store origin originSessionId params now (some jobId) initiallyPaused draw = .ok (store, job))
    (name : WellFormed (params.get (js "name"))) (prompt : WellFormed (params.get (js "prompt"))) {events : List (ℤ × Op)}
    (unedited : LeftAlone env jobId { s with store } events) :
    ∃ existing, (after env { s with store } events).store.getJob jobId = some existing
      ∧ (∀ other later paused fresh, RootAt other existing.cwd existing.repositoryRoot →
        create env (after env { s with store } events).store other originSessionId params later (some jobId) paused fresh
            = .ok ((after env { s with store } events).store, existing)
          ∧ step env (after env { s with store } events) later (.create other originSessionId params (some jobId) paused fresh)
            = (after env { s with store } events, .quiet))
      ∧ ∀ other otherSession otherParams later paused fresh,
        normalIntent env other otherSession otherParams existing.createdAt
            ≠ normalIntent env origin originSessionId params existing.createdAt →
        ∃ thrown, create env (after env { s with store } events).store other otherSession otherParams later (some jobId) paused
              fresh = .error thrown
          ∧ step env (after env { s with store } events) later (.create other otherSession otherParams (some jobId) paused fresh)
            = (after env { s with store } events, ⟨some thrown, []⟩) := by
  obtain ⟨valid, found, here, intended⟩ := create_intent once accepted name prompt
  have holds : Holds jobId job.intent job.createdAt (after env { s with store } events) :=
    Course.preserves (fun s event before free => step_holds event before free) unedited ⟨job, found, rfl, rfl⟩
  obtain ⟨existing, there, sameIntent, sameCreation⟩ := holds
  have cwd : existing.cwd = job.cwd := congrArg Intent.cwd sameIntent
  have repositoryRoot : existing.repositoryRoot = job.repositoryRoot := congrArg Intent.repositoryRoot sameIntent
  have normal (other : Option Origin) (root : RootAt other existing.cwd existing.repositoryRoot) :
      normalIntent env other originSessionId params existing.createdAt = .ok existing.intent := by
    rw [sameIntent, sameCreation]
    rw [cwd, repositoryRoot] at root
    exact intended other root
  refine ⟨existing, there, ?_, ?_⟩
  · intro other later paused fresh root
    have again := (create_existing valid there later paused fresh).1 (normal other root)
    refine ⟨again, ?_⟩
    unfold step
    dsimp only
    rw [again]
    rfl
  · intro other otherSession otherParams later paused fresh differs
    rw [← cwd, ← repositoryRoot] at here
    rw [normal origin here] at differs
    obtain ⟨thrown, refused⟩ := (create_existing valid there later paused fresh).2 differs
    refine ⟨thrown, refused, ?_⟩
    unfold step
    dsimp only
    rw [refused]
    rfl

/-- The parameters of a one-shot job. -/
def instantParams (prompt : JsString) : Value :=
  Value.record [("name", Value.text "report"), ("prompt", .str prompt),
    ("schedule", Value.record [("kind", Value.text "at"), ("at", Value.text "1970-01-01T00:05:00Z")])]

/-- Create the job `job` with this prompt, from a live session or from a deleted one. -/
def promptedJob (prompt : JsString) (deleted : Bool) : Op :=
  .create (some ⟨deleted, true, 0, js "/work", none⟩) (js "root") (instantParams prompt) (some (js "job")) false (js "random")

/-- The same request is refused once its session is deleted, and so is one whose prompt the database cannot keep. -/
theorem create_again_refused : instantEnv.calendar.Once
    ∧ (step instantEnv .initial 0 (promptedJob (js "go on") false)).2.thrown = none
    ∧ (step instantEnv (run instantEnv [(0, promptedJob (js "go on") false)]) 1000 (promptedJob (js "go on") true)).2.thrown
      = some (.error (js "cron jobs may only be created from a live root session"))
    ∧ (step instantEnv .initial 0 (promptedJob [0xD800] false)).2.thrown = none
    ∧ (step instantEnv (run instantEnv [(0, promptedJob [0xD800] false)]) 1000 (promptedJob [0xD800] false)).2.thrown
      = some (.error (js "cron jobId already exists with different intent: prompt")) := by
  refine ⟨?_, by decide +kernel, by decide +kernel, by decide +kernel, by decide +kernel⟩
  rintro pattern timezone after time _ ⟨⟩

/-- Start after the instant of the job, let it run, and pause it. -/
def overdue : List (ℤ × Op) := [(400000, .start), (400000, .tick), (500000, .pause (js "job"))]

theorem create_again_overdue : ∃ store job existing,
    create instantEnv .empty (some ⟨false, true, 0, js "/work", none⟩) (js "root") (instantParams (js "go on")) 0 (some (js "job"))
        false (js "random") = .ok (store, job)
      ∧ (after instantEnv { Scheduler.initial with store } overdue).store.getJob (js "job") = some existing
      ∧ existing.state ≠ job.state
      ∧ step instantEnv (after instantEnv { Scheduler.initial with store } overdue) 600000 (promptedJob (js "go on") false)
        = (after instantEnv { Scheduler.initial with store } overdue, .quiet) := by
  have once : instantEnv.calendar.Once := by
    rintro pattern timezone after time _ ⟨⟩
  have works : (create instantEnv .empty (some ⟨false, true, 0, js "/work", none⟩) (js "root") (instantParams (js "go on")) 0
      (some (js "job")) false (js "random")).toOption.map (fun created =>
        (created.2.state, ((after instantEnv { Scheduler.initial with store := created.1 } overdue).store.getJob (js "job")).map
          fun existing => (existing.cwd, existing.repositoryRoot, existing.state)))
      = some (.scheduled, some (js "/work", none, .completed)) := by decide +kernel
  cases accepted : create instantEnv .empty (some ⟨false, true, 0, js "/work", none⟩) (js "root") (instantParams (js "go on")) 0
      (some (js "job")) false (js "random") with
  | error thrown =>
    rw [accepted] at works
    cases works
  | ok created =>
    obtain ⟨store, job⟩ := created
    rw [accepted] at works
    have unedited : LeftAlone instantEnv (js "job") { Scheduler.initial with store } overdue := by
      refine ⟨?_, ?_, ?_, trivial⟩
      · rintro ⟨_, _, _, _, ⟨⟩, _⟩
      · rintro ⟨_, _, _, _, ⟨⟩, _⟩
      · rintro ⟨_, _, _, _, ⟨⟩, _⟩
    obtain ⟨existing, found, again, _⟩ :=
      create_again once Scheduler.initial _ _ _ accepted (by unfold WellFormed; decide) (by unfold WellFormed; decide) unedited
    obtain ⟨state, there⟩ := Prod.mk.inj (Option.some.inj works)
    dsimp only at state there
    rw [found] at there
    obtain ⟨cwd, there⟩ := Prod.mk.inj (Option.some.inj there)
    obtain ⟨repositoryRoot, completed⟩ := Prod.mk.inj there
    refine ⟨store, job, existing, rfl, found, ?_, (again _ 600000 false (js "random") ⟨_, rfl, rfl, cwd.symm, repositoryRoot.symm⟩).2⟩
    rw [state, completed]
    exact JobState.noConfusion

end Later

end PersistentHarness.Cron
