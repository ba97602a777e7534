import PersistentHarness.Model.BackgroundNotifier

/-! # Dispatches and notification markers

A scan acts on an old reading, but every delivery that can publish a marker while it reads was in flight when the scan
began, and the scan dispatches none of those again. A marker that is on disk is read, unless the reading of it fails; and
it stays there until the directory is removed, unless the removal fails half way. These are the two ways to a second
dispatch of a job that was notified.
-/

namespace PersistentHarness.BackgroundNotifier

/-! ## What may be seen -/

def Observation.id : Observation → JsString
  | .admitted id | .dispatched id | .resolved id _ | .rejected id | .published id _ | .settled id | .removing id
  | .removed id => id

/-- The deliveries in flight after some observations, the latest first. -/
def running : List Observation → List JsString
  | [] => []
  | .admitted id :: past => running past ++ [id]
  | .settled id :: past => (running past).filter (· ≠ id)
  | _ :: past => running past

/-- The directories that are being removed. -/
def removals : List Observation → List JsString
  | [] => []
  | .removing id :: past => id :: removals past
  | .removed id :: past => (removals past).filter (· ≠ id)
  | _ :: past => removals past

/-- The last observation about a job. -/
def latest (id : JsString) (log : List Observation) : Option Observation := log.find? (·.id = id)

/-- A marker of the job was there at the beginning, or was published since. -/
def Notified (disk : JsString → JobFiles) (log : List Observation) (id : JsString) : Prop :=
  notificationState id (disk id).notification ≠ none ∨ ∃ state, .published id state ∈ log

/-- What may be seen after the observations before it. -/
def Permitted (disk : JsString → JobFiles) (past : List Observation) : Observation → Prop
  | .admitted id => id ∉ running past ∧ (running past).length < MAX_JOBS ∧ id ∉ removals past
  | .dispatched id => latest id past = some (.admitted id) ∧ ¬Notified disk past id
  | .resolved id _ | .rejected id => latest id past = some (.dispatched id)
  | .published id state => latest id past = some (.resolved id state)
  | .removing id => Notified disk past id ∧ id ∉ running past
  | .settled _ | .removed _ => True

def Orderly (disk : JsString → JobFiles) : List Observation → Prop
  | [] => True
  | o :: past => Permitted disk past o ∧ Orderly disk past

section Ledger

variable {disk : JsString → JobFiles} {inFlight : List Delivery} {log : List Observation} {id : JsString} {o : Observation}

theorem latest_cons_same (same : o.id = id) : latest id (o :: log) = some o := by
  rw [latest, List.find?_cons_of_pos (by simpa using same)]

theorem latest_cons_other (other : o.id ≠ id) : latest id (o :: log) = latest id log := by
  rw [latest, List.find?_cons_of_neg (by simpa using other), latest]

theorem Notified.cons (notified : Notified disk log id) (o : Observation) : Notified disk (o :: log) id :=
  notified.imp_right fun ⟨state, seen⟩ => ⟨state, List.mem_cons_of_mem o seen⟩

theorem notified_cons (other : ∀ state, o ≠ .published id state) : Notified disk (o :: log) id ↔ Notified disk log id := by
  refine ⟨fun notified => notified.imp_right fun ⟨state, seen⟩ => ⟨state, ?_⟩, fun notified => notified.cons o⟩
  rcases List.mem_cons.mp seen with same | before
  · exact absurd same.symm (other state)
  · exact before

/-- What was seen last of a delivery tells its next call. -/
def Standing (disk : JsString → JobFiles) (log : List Observation) (d : Delivery) : Prop :=
  match d.stage with
  | .queued => latest d.job.id log = some (.admitted d.job.id) ∧ ¬Notified disk log d.job.id
  | .dispatching => latest d.job.id log = some (.dispatched d.job.id)
  | .writing state | .publishing state => latest d.job.id log = some (.resolved d.job.id state)
  | .cleaning | .published => True

theorem Standing.cons {d : Delivery} (standing : Standing disk log d) (other : o.id ≠ d.job.id) : Standing disk (o :: log) d := by
  unfold Standing at standing ⊢
  have calm : ∀ state, o ≠ .published d.job.id state := fun state same => other (congrArg Observation.id same)
  cases stage : d.stage with
  | queued =>
    rw [stage] at standing
    exact ⟨(latest_cons_other other).trans standing.1, fun notified => standing.2 ((notified_cons calm).mp notified)⟩
  | dispatching | writing state | publishing state =>
    rw [stage] at standing
    exact (latest_cons_other other).trans standing
  | cleaning | published => trivial

structure Ledger (disk : JsString → JobFiles) (inFlight : List Delivery) (log : List Observation) : Prop where
  orderly : Orderly disk log
  running : running log = inFlight.map (·.job.id)
  nodup : (inFlight.map (·.job.id)).Nodup
  bounded : inFlight.length ≤ MAX_JOBS
  standing : ∀ d ∈ inFlight, Standing disk log d

def restage (inFlight : List Delivery) (id : JsString) (stage : DeliveryStage) : List Delivery :=
  inFlight.map fun d => if d.job.id = id then { d with stage } else d

theorem restage_ids (inFlight : List Delivery) (id : JsString) (stage : DeliveryStage) :
    (restage inFlight id stage).map (·.job.id) = inFlight.map (·.job.id) := by
  rw [restage, List.map_map]
  refine List.map_congr_left fun d _ => ?_
  dsimp only [Function.comp]
  split <;> rfl

/-- A delivery moves on, and something is seen of it. -/
theorem Ledger.advance (ledger : Ledger disk inFlight log) {stage : DeliveryStage} (about : o.id = id)
    (permitted : Permitted disk log o) (same : BackgroundNotifier.running (o :: log) = BackgroundNotifier.running log)
    (standing : ∀ d : Delivery, d.job.id = id → d.stage = stage → Standing disk (o :: log) d) :
    Ledger disk (restage inFlight id stage) (o :: log) where
  orderly := ⟨permitted, ledger.orderly⟩
  running := by rw [same, ledger.running, restage_ids]
  nodup := by rw [restage_ids]; exact ledger.nodup
  bounded := by rw [restage, List.length_map]; exact ledger.bounded
  standing d member := by
    obtain ⟨before, kept, rfl⟩ := List.mem_map.mp member
    split
    · next own => exact standing _ own rfl
    · next other => exact (ledger.standing before kept).cons (by rw [about]; exact Ne.symm other)

theorem Ledger.restage (ledger : Ledger disk inFlight log) {stage : DeliveryStage}
    (standing : ∀ d : Delivery, d.job.id = id → d.stage = stage → Standing disk log d) :
    Ledger disk (restage inFlight id stage) log where
  orderly := ledger.orderly
  running := by rw [ledger.running, restage_ids]
  nodup := by rw [restage_ids]; exact ledger.nodup
  bounded := by rw [BackgroundNotifier.restage, List.length_map]; exact ledger.bounded
  standing d member := by
    obtain ⟨before, kept, rfl⟩ := List.mem_map.mp member
    split
    · next own => exact standing _ own rfl
    · exact ledger.standing before kept

/-- Something is seen that is not about a delivery in flight. -/
theorem Ledger.aside (ledger : Ledger disk inFlight log) (permitted : Permitted disk log o)
    (same : BackgroundNotifier.running (o :: log) = BackgroundNotifier.running log) (other : o.id ∉ inFlight.map (·.job.id)) :
    Ledger disk inFlight (o :: log) :=
  ⟨⟨permitted, ledger.orderly⟩, same.trans ledger.running, ledger.nodup, ledger.bounded,
    fun d member => (ledger.standing d member).cons fun own => other (own ▸ List.mem_map_of_mem member)⟩

theorem Ledger.settle (ledger : Ledger disk inFlight log) (id : JsString) :
    Ledger disk (inFlight.filter (·.job.id ≠ id)) (.settled id :: log) where
  orderly := ⟨trivial, ledger.orderly⟩
  running := by
    rw [BackgroundNotifier.running, ledger.running, List.filter_map]
    rfl
  nodup := ledger.nodup.sublist (List.filter_sublist.map _)
  bounded := (List.length_filter_le _ _).trans ledger.bounded
  standing d member := by
    obtain ⟨kept, other⟩ := List.mem_filter.mp member
    have other : d.job.id ≠ id := by simpa using other
    exact (ledger.standing d kept).cons other.symm

theorem Ledger.accept (ledger : Ledger disk inFlight log) (job : Completed) (message : JsString)
    (fresh : job.id ∉ inFlight.map (·.job.id)) (room : inFlight.length < MAX_JOBS) (calm : removals log = [])
    (unnotified : ¬Notified disk log job.id) :
    Ledger disk (inFlight ++ [⟨job, message, .queued⟩]) (.admitted job.id :: log) where
  orderly := by
    refine ⟨⟨?_, ?_, ?_⟩, ledger.orderly⟩
    · rwa [ledger.running]
    · rwa [ledger.running, List.length_map]
    · rw [calm]
      exact List.not_mem_nil
  running := by rw [BackgroundNotifier.running, ledger.running, List.map_append]; rfl
  nodup := by
    rw [List.map_append]
    refine List.nodup_append.mpr ⟨ledger.nodup, List.pairwise_singleton _ _, ?_⟩
    rintro a member b only rfl
    rw [List.mem_singleton.mp only] at member
    exact fresh member
  bounded := by
    rw [List.length_append]
    exact room
  standing d member := by
    rcases List.mem_append.mp member with before | new
    · refine (ledger.standing d before).cons fun own => fresh ?_
      rw [show job.id = d.job.id from own]
      exact List.mem_map_of_mem before
    · rw [List.mem_singleton.mp new]
      exact ⟨latest_cons_same rfl, fun notified => unnotified ((notified_cons (by simp)).mp notified)⟩

end Ledger

/-! ## What is on disk -/

/-- A directory that the monitor dispatches no more: it has its marker, or it lost what makes a completion. -/
def Retired (disk : JsString → JobFiles) (pruned : List JsString) (id : JsString) : Prop :=
  notificationState id (disk id).notification ≠ none ∨ id ∈ pruned ∧ ((disk id).metadata = none ∨ (disk id).exit = none)

/-- Markers are those that were published, and what was published is still there unless the directory was removed. -/
structure Shelf (first disk : JsString → JobFiles) (pruned : List JsString) (log : List Observation) : Prop where
  retired : ∀ id, Notified first log id → Retired disk pruned id
  known : ∀ id, notificationState id (disk id).notification ≠ none → Notified first log id

section Shelf

variable {first disk : JsString → JobFiles} {pruned : List JsString} {log : List Observation} {id : JsString}

theorem Shelf.cons (shelf : Shelf first disk pruned log) {o : Observation} (calm : ∀ id state, o ≠ .published id state) :
    Shelf first disk pruned (o :: log) :=
  ⟨fun id notified => shelf.retired id ((notified_cons (calm id)).mp notified), fun id marked => (shelf.known id marked).cons o⟩

theorem Shelf.prune (shelf : Shelf first disk pruned log) (id : JsString) : Shelf first disk (id :: pruned) log :=
  ⟨fun other notified => (shelf.retired other notified).imp_right fun gone => ⟨List.mem_cons_of_mem id gone.1, gone.2⟩,
    shelf.known⟩

theorem Shelf.write (shelf : Shelf first disk pruned log) {files : JobFiles}
    (keeps : Retired disk pruned id → Retired (Function.update disk id files) pruned id)
    (brings : notificationState id files.notification ≠ none → notificationState id (disk id).notification ≠ none) :
    Shelf first (Function.update disk id files) pruned log where
  retired other notified := by
    by_cases same : other = id
    · subst same
      exact keeps (shelf.retired other notified)
    · have retired := shelf.retired other notified
      rwa [Retired, Function.update_of_ne same]
  known other marked := by
    by_cases same : other = id
    · subst same
      rw [Function.update_self] at marked
      exact shelf.known other (brings marked)
    · rw [Function.update_of_ne same] at marked
      exact shelf.known other marked

theorem notificationState_marker (id : JsString) (state : NotificationState) (updatedAt : JsString) :
    notificationState id (some (marker id state updatedAt)) = some state := by
  have version : (marker id state updatedAt).get (js "version") = .num (.ofNat 1) := by
    simp [marker, Value.record, Value.get, Value.fields, Assoc.lookup]
  have jobId : (marker id state updatedAt).get (js "jobId") = .str id := by
    simp [marker, Value.record, Value.get, Value.fields, Assoc.lookup]
  have word : (marker id state updatedAt).get (js "state") = .str state.text := by
    simp [marker, Value.record, Value.get, Value.fields, Assoc.lookup]
  simp only [notificationState, Option.bind_eq_bind, Option.bind_some, version, jobId, word, ne_eq, not_true_eq_false, or_self,
    if_false]
  cases state <;> decide

theorem Shelf.publish (shelf : Shelf first disk pruned log) (id : JsString) (state : NotificationState) (updatedAt : JsString) :
    Shelf first (Function.update disk id { disk id with notification := some (marker id state updatedAt) }) pruned
      (.published id state :: log) where
  retired other notified := by
    by_cases same : other = id
    · subst same
      refine .inl ?_
      rw [Function.update_self, notificationState_marker]
      exact Option.some_ne_none state
    · rw [Retired, Function.update_of_ne same]
      exact shelf.retired other ((notified_cons fun _ published => same (Observation.published.inj published).1.symm).mp notified)
  known other marked := by
    by_cases same : other = id
    · exact .inr ⟨state, by rw [same]; exact List.mem_cons_self ..⟩
    · rw [Function.update_of_ne same] at marked
      exact (shelf.known other marked).cons _

end Shelf

/-! ## What a scan knows -/

/-- What was read of a job is true of it, or it was being dispatched when the scan began. -/
def Known (first disk : JsString → JobFiles) (pruned : List JsString) (log : List Observation) (owners : List JsString)
    (id : JsString) : Progress → Prop
  | .directory | .metadata | .done none | .done (some (.active _)) => True
  | .exit _ | .process _ => id ∈ pruned → (disk id).metadata ≠ none
  | .notification _ _ => id ∈ pruned → (disk id).metadata ≠ none ∧ (disk id).exit ≠ none
  | .done (some (.completed job)) =>
    (job.notificationState = none → job.id ∈ owners ∨ ¬Notified first log job.id)
      ∧ (job.notificationState ≠ none → Notified first log job.id)

/-- The marker that was read is there. -/
def Judged (first : JsString → JobFiles) (log : List Observation) (job : Job) : Prop :=
  ∀ completed ∈ job.completed?, completed.notificationState ≠ none → Notified first log completed.id

def Underway (first : JsString → JobFiles) (s : System) : Prop :=
  match s.scan with
  | none => removals s.log = []
  | some ⟨owners, .listing _ _⟩ => removals s.log = [] ∧ ∀ id ∈ s.owned, id ∈ owners
  | some ⟨owners, .reading jobs⟩ =>
    removals s.log = [] ∧ (∀ id ∈ s.owned, id ∈ owners) ∧ ∀ job ∈ jobs, Known first s.disk s.pruned s.log owners job.1 job.2
  | some ⟨_, .pruning id rest _⟩ =>
    removals s.log = [id] ∧ id ∉ s.owned ∧ id ∈ s.pruned ∧ ∀ job ∈ rest, Judged first s.log job
  | some ⟨_, .completing⟩ => removals s.log = []

/-- The monitor in a reachable state. -/
structure Sound (first : JsString → JobFiles) (s : System) : Prop where
  ledger : Ledger first s.inFlight s.log
  shelf : Shelf first s.disk s.pruned s.log
  underway : Underway first s

def Progress.readsMarker : Progress → Bool
  | .notification _ _ => true
  | _ => false

/-- The marker of a job is not lost to a failing read, nor taken away by a removal that leaves the completion. -/
def careful (s : System) : Event → Bool
  | .read id fails _ =>
    match s.scan with
    | some ⟨owners, .reading jobs⟩ =>
      !fails || id ∈ owners || (notificationState id (s.disk id).notification).isNone
        || jobs.all fun job => job.1 ≠ id || !job.2.readsMarker
    | _ => true
  | .removed (some gone) =>
    match s.scan with
    | some ⟨_, .pruning id _ _⟩ =>
      (notificationState id ((s.disk id).without gone).notification).isSome
        || ((s.disk id).without gone).metadata.isNone || ((s.disk id).without gone).exit.isNone
    | _ => true
  | _ => true

section Scans

variable {c : Config} {first : JsString → JobFiles} {s : System}

theorem Judged.cons {log : List Observation} {job : Job} (judged : Judged first log job) (o : Observation) :
    Judged first (o :: log) job := fun completed found marked => (judged completed found marked).cons o

/-- The dispatches of a scan that began when everything that could publish was in flight. -/
theorem sound_admitJob {owners : List JsString} {jobs : List Job}
    (known : ∀ job ∈ jobs, ∀ completed ∈ job.completed?, completed.notificationState = none →
      completed.id ∈ owners ∨ ¬Notified first s.log completed.id)
    (ledger : Ledger first s.inFlight s.log) (shelf : Shelf first s.disk s.pruned s.log) (calm : removals s.log = []) :
    let t := jobs.foldl (System.admitJob owners) s
    Ledger first t.inFlight t.log ∧ Shelf first t.disk t.pruned t.log ∧ removals t.log = []
      ∧ (∀ id, Notified first t.log id ↔ Notified first s.log id) := by
  induction jobs generalizing s with
  | nil => exact ⟨ledger, shelf, calm, fun _ => Iff.rfl⟩
  | cons job rest ih =>
    have here := known job (List.mem_cons_self ..)
    have later := fun other member => known other (List.mem_cons_of_mem job member)
    rw [List.foldl_cons]
    cases job with
    | active job => exact ih later ledger shelf calm
    | completed job =>
      rw [System.admitJob]
      split
      · exact ih later ledger shelf calm
      · next free =>
        simp only [Bool.or_eq_true, decide_eq_true_eq, not_or, Bool.not_eq_true, Option.isSome_eq_false_iff, Option.isNone_iff_eq_none] at free
        obtain ⟨⟨⟨⟨_, unmarked⟩, foreign⟩, fresh⟩, room⟩ := free
        have unnotified := (here job rfl unmarked).resolve_left foreign
        have same (id : JsString) : Notified first (.admitted job.id :: s.log) id ↔ Notified first s.log id :=
          notified_cons (by simp)
        obtain ⟨ledger, shelf, calm, notified⟩ := ih (s := { s with
            inFlight := s.inFlight ++ [⟨job, backgroundCompletionMessage job, .queued⟩]
            log := .admitted job.id :: s.log })
          (fun other member completed found none => (later other member completed found none).imp_right fun calm notified =>
            calm ((same _).mp notified))
          (ledger.accept job _ fresh (Nat.lt_of_not_le room) calm unnotified) (shelf.cons (by simp)) calm
        exact ⟨ledger, shelf, calm, fun id => (notified id).trans (same id)⟩

theorem sound_complete (ledger : Ledger first s.inFlight s.log) (shelf : Shelf first s.disk s.pruned s.log)
    (calm : removals s.log = []) (scan : Scan) : Sound first (s.complete scan) := by
  unfold System.complete
  split
  · exact ⟨ledger, shelf, calm⟩
  · exact ⟨ledger, shelf, calm⟩

theorem sound_pruneFinished (ledger : Ledger first s.inFlight s.log) (shelf : Shelf first s.disk s.pruned s.log)
    (calm : removals s.log = []) {jobs : List Job} (judged : ∀ job ∈ jobs, Judged first s.log job) (scan : Scan) (cutoff : ℤ) :
    Sound first (s.pruneFinished c scan cutoff jobs) := by
  unfold System.pruneFinished
  split
  · exact sound_complete ledger shelf calm scan
  · next job rest found =>
    have left := List.dropWhile_sublist (fun job => !s.removable c cutoff job) (l := jobs)
    rw [found] at left
    have eligible : s.removable c cutoff job = true := by
      have head := List.head?_dropWhile_not (fun job => !s.removable c cutoff job) jobs
      rw [found] at head
      simpa using head
    have listed : job ∈ jobs := left.subset (List.mem_cons_self ..)
    cases job with
    | active job => cases eligible
    | completed job =>
      simp only [System.removable, Bool.and_eq_true, decide_eq_true_eq, Option.isSome_iff_ne_none] at eligible
      obtain ⟨⟨marked, absent⟩, _⟩ := eligible
      have notified := judged _ listed job rfl marked
      refine ⟨ledger.aside ⟨notified, ?_⟩ rfl absent, (shelf.prune job.id).cons (by simp [Job.id]), ?_⟩
      · rw [Job.id, ledger.running]
        exact absent
      · refine ⟨?_, absent, List.mem_cons_self .., fun other member => (judged other ?_).cons _⟩
        · change _ :: removals s.log = _
          rw [calm]
        · exact left.subset (List.mem_cons_of_mem _ member)

/-- A scan goes on while deliveries publish and settle. -/
theorem Underway.follow {t : System} (underway : Underway first s) (scan : t.scan = s.scan) (pruned : t.pruned = s.pruned)
    (same : removals t.log = removals s.log) (fewer : ∀ id ∈ t.owned, id ∈ s.owned)
    (files : ∀ id ∈ s.pruned, (t.disk id).metadata = (s.disk id).metadata ∧ (t.disk id).exit = (s.disk id).exit)
    (grows : ∀ id, Notified first s.log id → Notified first t.log id)
    (brings : ∀ id, Notified first t.log id → Notified first s.log id ∨ id ∈ s.owned) : Underway first t := by
  unfold Underway at underway ⊢
  rw [scan, same, pruned]
  split
  · next none =>
    rw [none] at underway
    exact underway
  · next owners ids count found =>
    rw [found] at underway
    exact ⟨underway.1, fun id member => underway.2 id (fewer id member)⟩
  · next owners jobs found =>
    rw [found] at underway
    obtain ⟨calm, owned, known⟩ := underway
    refine ⟨calm, fun id member => owned id (fewer id member), fun job member => ?_⟩
    have known := known job member
    obtain ⟨id, progress⟩ := job
    cases progress with
    | directory | metadata => trivial
    | exit metadata | process metadata => exact fun gone => by rw [(files id gone).1]; exact known gone
    | notification metadata exit => exact fun gone => by rw [(files id gone).1, (files id gone).2]; exact known gone
    | done job =>
      cases job with
      | none => trivial
      | some job =>
        cases job with
        | active job => trivial
        | completed job =>
          refine ⟨fun unmarked => ?_, fun marked => grows _ (known.2 marked)⟩
          rcases known.1 unmarked with foreign | unnotified
          · exact .inl foreign
          · by_cases running : job.id ∈ s.owned
            · exact .inl (owned _ running)
            · exact .inr fun notified => (brings _ notified).elim unnotified running
  · next owners id rest cutoff found =>
    rw [found] at underway
    obtain ⟨open_, absent, gone, judged⟩ := underway
    exact ⟨open_, fun member => absent (fewer _ member), gone,
      fun job member completed held marked => grows _ (judged job member completed held marked)⟩
  · next owners found =>
    rw [found] at underway
    exact underway

theorem stageOf_some {id : JsString} {stage : DeliveryStage} (found : s.stageOf id = some stage) :
    ∃ d ∈ s.inFlight, d.job.id = id ∧ d.stage = stage := by
  obtain ⟨d, held, same⟩ := Option.map_eq_some_iff.mp found
  exact ⟨d, List.mem_of_find?_eq_some held, by simpa using List.find?_some held, same⟩

theorem Sound.standing (sound : Sound first s) {id : JsString} {stage : DeliveryStage} (found : s.stageOf id = some stage) :
    id ∈ s.owned ∧ ∃ d, d.job.id = id ∧ d.stage = stage ∧ Standing first s.log d := by
  obtain ⟨d, member, same, staged⟩ := stageOf_some found
  exact ⟨same ▸ List.mem_map_of_mem member, d, same, staged, sound.ledger.standing d member⟩

theorem Sound.advance (sound : Sound first s) {id : JsString} {stage : DeliveryStage} {o : Observation} (about : o.id = id)
    (permitted : Permitted first s.log o) (same : running (o :: s.log) = running s.log)
    (closed : removals (o :: s.log) = removals s.log) (calm : ∀ id state, o ≠ .published id state)
    (standing : ∀ d : Delivery, d.job.id = id → d.stage = stage → Standing first (o :: s.log) d) :
    Sound first ((s.setStage id stage).observe o) where
  ledger := sound.ledger.advance about permitted same standing
  shelf := sound.shelf.cons calm
  underway := by
    refine sound.underway.follow rfl rfl closed (fun other member => ?_) (fun _ _ => ⟨rfl, rfl⟩)
      (fun _ notified => notified.cons o) (fun other notified => .inl ((notified_cons (calm other)).mp notified))
    rwa [System.owned, System.observe, System.setStage, ← restage, restage_ids] at member

theorem Sound.restage (sound : Sound first s) {id : JsString} {stage : DeliveryStage}
    (standing : ∀ d : Delivery, d.job.id = id → d.stage = stage → Standing first s.log d) : Sound first (s.setStage id stage) where
  ledger := sound.ledger.restage standing
  shelf := sound.shelf
  underway := by
    refine sound.underway.follow rfl rfl rfl (fun other member => ?_) (fun _ _ => ⟨rfl, rfl⟩) (fun _ notified => notified)
      (fun other notified => .inl notified)
    rwa [System.owned, System.setStage, ← BackgroundNotifier.restage, restage_ids] at member

theorem Sound.settle (sound : Sound first s) (id : JsString) : Sound first (s.settle id) where
  ledger := sound.ledger.settle id
  shelf := sound.shelf.cons (by simp)
  underway := by
    refine sound.underway.follow rfl rfl rfl (fun other member => ?_) (fun _ _ => ⟨rfl, rfl⟩)
      (fun _ notified => notified.cons _) (fun other notified => .inl ((notified_cons (by simp)).mp notified))
    obtain ⟨d, kept, rfl⟩ := List.mem_map.mp member
    exact List.mem_map_of_mem (List.mem_filter.mp kept).1

/-- Nothing depends on the jobs to be retried. -/
theorem Sound.retry (sound : Sound first s) (id : JsString) : Sound first (s.retry id) := by
  unfold System.retry
  split
  · exact ⟨sound.ledger, sound.shelf, sound.underway⟩
  · exact sound

theorem Sound.runScan (sound : Sound first s) : Sound first s.runScan := by
  unfold System.runScan
  split
  · exact sound
  · next free =>
    simp only [Bool.or_eq_true, not_or, Bool.not_eq_true, Option.isSome_eq_false_iff, Option.isNone_iff_eq_none] at free
    have underway := sound.underway
    unfold Underway at underway
    rw [free.2] at underway
    exact ⟨sound.ledger, sound.shelf, underway, fun _ member => member⟩

theorem underway_readJobs {owners ids : List JsString} (calm : removals s.log = []) (owned : ∀ id ∈ s.owned, id ∈ owners)
    (phase : Phase) : Underway first (s.readJobs ⟨owners, phase⟩ ids) := by
  refine ⟨calm, owned, fun job member => ?_⟩
  obtain ⟨id, _, rfl⟩ := List.mem_map.mp member
  trivial

theorem known_readJob {owners : List JsString} {id : JsString} {progress : Progress}
    (known : Known first s.disk s.pruned s.log owners id progress) (shelf : Shelf first s.disk s.pruned s.log) (fails live : Bool)
    (kept : fails = false ∨ id ∈ owners ∨ notificationState id (s.disk id).notification = none
      ∨ progress.readsMarker = false) :
    Known first s.disk s.pruned s.log owners id (readJob c id (s.disk id) fails live progress) := by
  cases progress with
  | directory =>
    rw [readJob]
    split <;> trivial
  | metadata =>
    rw [readJob]
    split
    · next metadata found =>
      intro _ gone
      cases fails <;> simp [jobMetadata, gone] at found
    · trivial
  | exit metadata =>
    rw [readJob]
    split
    · next exit found =>
      refine fun gone => ⟨known gone, fun none => ?_⟩
      cases fails <;> simp [terminalExit, none] at found
    · exact known
  | process metadata =>
    rw [readJob]
    split <;> trivial
  | notification metadata exit =>
    rw [readJob]
    refine ⟨fun unmarked => ?_, fun marked => ?_⟩
    · dsimp only at unmarked ⊢
      by_cases foreign : id ∈ owners
      · exact .inl foreign
      refine .inr fun notified => ?_
      rcases shelf.retired id notified with marked | ⟨gone, nothing⟩
      · rcases kept with reads | owner | unmarked | other
        · rw [reads] at unmarked
          exact marked unmarked
        · exact foreign owner
        · exact marked unmarked
        · cases other
      · exact nothing.elim (known gone).1 (known gone).2
    · refine shelf.known id fun none => marked ?_
      dsimp only
      split
      · rfl
      · exact none
  | done job => exact known

theorem known_done {disk : JsString → JobFiles} {pruned owners : List JsString} {log : List Observation}
    {jobs : List (JsString × Progress)} (known : ∀ entry ∈ jobs, Known first disk pruned log owners entry.1 entry.2) :
    ∀ job ∈ (jobs.filterMap fun
      | (_, .done job) => job
      | _ => none), ∀ completed ∈ job.completed?,
      (completed.notificationState = none → completed.id ∈ owners ∨ ¬Notified first log completed.id)
        ∧ (completed.notificationState ≠ none → Notified first log completed.id) := by
  intro job member completed found
  obtain ⟨⟨id, progress⟩, listed, done⟩ := List.mem_filterMap.mp member
  have known := known _ listed
  cases job with
  | active job => cases found
  | completed job =>
    cases found
    cases progress with
    | done result =>
      cases done
      exact known
    | directory | metadata | exit metadata | process metadata | notification metadata exit => cases done

theorem Sound.act (sound : Sound first s) {owners : List JsString} {jobs : List (JsString × Progress)}
    (reading : s.scan = some ⟨owners, .reading jobs⟩) (now : ℤ) :
    Sound first (s.act c ⟨owners, .reading jobs⟩ now (jobs.filterMap fun
      | (_, .done job) => job
      | _ => none)) := by
  obtain ⟨ledger, shelf, underway⟩ := sound
  unfold Underway at underway
  rw [reading] at underway
  obtain ⟨calm, _, known⟩ := underway
  have known := known_done known
  unfold System.act
  dsimp only
  split
  · exact ⟨ledger, shelf, calm⟩
  · generalize jobs.filterMap _ = all at known ⊢
    generalize (all.filterMap _).take MAX_JOBS = active
    obtain ⟨ledger, shelf, calm, notified⟩ := sound_admitJob
      (s := { s with
        retryJobs := s.retryJobs.filter (· ∈ ((all.filterMap Job.completed?).filter (·.notificationState = none) |>.map (·.id)))
        activeJobs := active })
      (fun job member completed found => (known job member completed found).1) ledger shelf calm
    refine sound_pruneFinished ledger shelf calm (fun job member completed found marked => ?_) _ _
    exact (notified _).mpr ((known job member completed found).2 marked)

theorem Sound.removed (sound : Sound first s) (failed : Option Leftover) (kept : careful s (.removed failed) = true) :
    Sound first (s.step c (.removed failed)) := by
  rw [System.step]
  split
  · next owners id rest cutoff found =>
    obtain ⟨ledger, shelf, underway⟩ := sound
    unfold Underway at underway
    rw [found] at underway
    obtain ⟨calm, absent, gone, judged⟩ := underway
    have closed : removals (.removed id :: s.log) = [] := by
      rw [removals, calm]
      simp
    have finish (files : JobFiles) (left : Shelf first (s.write id files).disk s.pruned s.log) : Sound first
        (((s.write id files).observe (.removed id)).pruneFinished c ⟨owners, .pruning id rest cutoff⟩ cutoff rest) :=
      sound_pruneFinished (s := (s.write id files).observe (.removed id)) (ledger.aside trivial rfl absent)
        (left.cons (by simp)) closed (fun job member => (judged job member).cons _) _ _
    cases failed with
    | none =>
      refine finish {} (shelf.write (fun _ => .inr ⟨gone, .inl ?_⟩) fun marked => absurd rfl marked)
      rw [Function.update_self]
    | some leftover =>
      refine finish _ (shelf.write (fun _ => ?_) fun marked none => marked ?_)
      · rw [careful, found] at kept
        simp only [Bool.or_eq_true, Option.isSome_iff_ne_none, Option.isNone_iff_eq_none] at kept
        rw [Retired, Function.update_self]
        rcases kept with (marked | metadata) | exit
        · exact .inl marked
        · exact .inr ⟨gone, .inl metadata⟩
        · exact .inr ⟨gone, .inr exit⟩
      · dsimp only [JobFiles.without]
        split
        · rfl
        · exact none
  · exact sound

/-- The marker of a delivery appears. -/
theorem Sound.renamed (sound : Sound first s) (id : JsString) (succeeds : Bool) (updatedAt : JsString) :
    Sound first (s.step c (.renamed id succeeds updatedAt)) := by
  rw [System.step]
  split
  · next state staged =>
    obtain ⟨owned, d, rfl, stage, standing⟩ := sound.standing staged
    unfold Standing at standing
    rw [stage] at standing
    split
    · refine ⟨?_, sound.shelf.publish d.job.id state updatedAt, ?_⟩
      · refine sound.ledger.advance rfl standing rfl fun other _ staged => ?_
        rw [Standing, staged]
        trivial
      · refine sound.underway.follow rfl rfl rfl (fun other member => ?_) (fun other _ => ?_) (fun _ notified => notified.cons _)
          fun other notified => ?_
        · rwa [System.owned, System.observe, System.setStage, ← BackgroundNotifier.restage, restage_ids] at member
        · change (Function.update s.disk d.job.id _ other).metadata = _ ∧ (Function.update s.disk d.job.id _ other).exit = _
          by_cases same : other = d.job.id
          · subst same
            rw [Function.update_self]
            exact ⟨rfl, rfl⟩
          · rw [Function.update_of_ne same]
            exact ⟨rfl, rfl⟩
        · by_cases same : other = d.job.id
          · exact .inr (same ▸ owned)
          · exact .inl ((notified_cons fun _ published => same (Observation.published.inj published).1.symm).mp notified)
    · refine sound.restage fun other _ staged => ?_
      rw [Standing, staged]
      trivial
  · exact sound

theorem Sound.jobWrites (sound : Sound first s) (id : JsString) (directory : Bool) (metadata exit : Option Value) :
    Sound first (s.step c (.jobWrites id directory metadata exit)) := by
  rw [System.step]
  split
  · exact sound
  · next present =>
    refine ⟨sound.ledger, sound.shelf.write (fun retired => ?_) (fun marked => marked), ?_⟩
    · rw [Retired, Function.update_self]
      exact .inl (retired.resolve_right fun gone => present gone.1)
    · refine sound.underway.follow rfl rfl rfl (fun _ member => member) (fun other gone => ?_) (fun _ notified => notified)
        fun _ notified => .inl notified
      have other : other ≠ id := fun same => present (same ▸ gone)
      change (Function.update s.disk id _ _).metadata = _ ∧ (Function.update s.disk id _ _).exit = _
      rw [Function.update_of_ne other]
      exact ⟨rfl, rfl⟩

theorem settle_setStage (s : System) (id : JsString) (stage : DeliveryStage) : (s.setStage id stage).settle id = s.settle id := by
  have same : (s.setStage id stage).inFlight.filter (·.job.id ≠ id) = s.inFlight.filter (·.job.id ≠ id) := by
    dsimp only [System.setStage]
    induction s.inFlight with
    | nil => rfl
    | cons d rest ih =>
      rw [List.map_cons, List.filter_cons, List.filter_cons, ih]
      split
      · next own => simp [own]
      · rfl
  rw [System.settle, System.settle, same]
  rfl

theorem retry_setStage (s : System) (id : JsString) (stage : DeliveryStage) :
    (s.setStage id stage).retry id = (s.retry id).setStage id stage := by
  unfold System.retry System.setStage
  dsimp only
  split <;> rfl

theorem Sound.dispatchSettled (sound : Sound first s) (id : JsString) (result : Option NotificationState) :
    Sound first (s.step c (.dispatchSettled id result)) := by
  rw [System.step.eq_def]
  dsimp only
  split
  · next staged =>
    obtain ⟨owned, d, rfl, stage, standing⟩ := sound.standing staged
    unfold Standing at standing
    rw [stage] at standing
    cases result with
    | some state =>
      refine sound.advance rfl standing rfl rfl (by simp) fun other own staged => ?_
      rw [Standing, staged, own]
      exact latest_cons_same rfl
    | none =>
      have cleaned : Sound first ((s.observe (.rejected d.job.id)).setStage d.job.id .cleaning) :=
        sound.advance (o := .rejected d.job.id) rfl standing rfl rfl (by simp) fun other _ staged => by rw [Standing, staged]; trivial
      have left := (cleaned.retry d.job.id).settle d.job.id
      rwa [retry_setStage, settle_setStage] at left
  · exact sound

/-- Every step keeps the monitor sound, as long as no marker is lost. -/
theorem Sound.step (sound : Sound first s) (event : Event) (kept : careful s event = true) : Sound first (s.step c event) := by
  cases event with
  | start =>
    rw [System.step]
    split
    · exact Sound.runScan (s := { s with stopped := false }) ⟨sound.ledger, sound.shelf, sound.underway⟩
    · exact sound
  | stop => exact ⟨sound.ledger, sound.shelf, sound.underway⟩
  | tick => exact sound.runScan
  | closeReader => exact ⟨sound.ledger, sound.shelf, sound.underway⟩
  | opened succeeds =>
    rw [System.step.eq_def]
    dsimp only
    split
    · next owners ids count found =>
      have underway := sound.underway
      unfold Underway at underway
      rw [found] at underway
      split
      · exact sound
      · split
        · exact ⟨sound.ledger, sound.shelf, sound.underway⟩
        · exact ⟨sound.ledger, sound.shelf, underway_readJobs underway.1 underway.2 _⟩
    · exact sound
  | listed entry =>
    rw [System.step.eq_def]
    dsimp only
    split
    · next owners ids count found =>
      have underway := sound.underway
      unfold Underway at underway
      rw [found] at underway
      split
      · exact sound
      · cases entry with
        | none =>
          exact ⟨sound.ledger, sound.shelf,
            underway_readJobs (s := { s with directoryReader := false }) underway.1 underway.2 _⟩
        | some entry =>
          dsimp only
          split
          · exact ⟨sound.ledger, sound.shelf, underway⟩
          · exact ⟨sound.ledger, sound.shelf, underway_readJobs underway.1 underway.2 _⟩
    · exact sound
  | listFails =>
    rw [System.step.eq_def]
    dsimp only
    split
    · next owners ids count found =>
      have underway := sound.underway
      unfold Underway at underway
      rw [found] at underway
      exact ⟨sound.ledger, sound.shelf,
        underway_readJobs (s := { s with directoryReader := false }) underway.1 underway.2 _⟩
    · exact sound
  | read id fails live =>
    rw [System.step.eq_def]
    dsimp only
    split
    · next owners jobs found =>
      have underway := sound.underway
      unfold Underway at underway
      rw [found] at underway
      refine ⟨sound.ledger, sound.shelf, underway.1, underway.2.1, fun job member => ?_⟩
      obtain ⟨before, listed, rfl⟩ := List.mem_map.mp member
      have known := underway.2.2 before listed
      split
      · next same =>
        subst same
        refine known_readJob known sound.shelf fails live ?_
        rw [careful, found] at kept
        simp only [Bool.or_eq_true, Bool.not_eq_true', decide_eq_true_eq, Option.isNone_iff_eq_none, List.all_eq_true] at kept
        rcases kept with ((reads | owner) | unmarked) | other
        · exact .inl reads
        · exact .inr (.inl owner)
        · exact .inr (.inr (.inl unmarked))
        · exact .inr (.inr (.inr (by simpa using other before listed)))
      · exact known
    · exact sound
  | acts now =>
    rw [System.step.eq_def]
    dsimp only
    split
    · next owners jobs found =>
      split
      · exact sound.act found now
      · exact sound
    · exact sound
  | removed failed => exact sound.removed failed kept
  | scanCompleted =>
    rw [System.step.eq_def]
    dsimp only
    split
    · next owners found =>
      have underway := sound.underway
      unfold Underway at underway
      rw [found] at underway
      exact ⟨sound.ledger, sound.shelf, underway⟩
    · exact sound
  | dispatches id =>
    rw [System.step]
    split
    · next staged =>
      obtain ⟨owned, d, rfl, stage, standing⟩ := sound.standing staged
      unfold Standing at standing
      rw [stage] at standing
      refine sound.advance rfl standing rfl rfl (by simp) fun other own staged => ?_
      rw [Standing, staged, own]
      exact latest_cons_same rfl
    · exact sound
  | dispatchSettled id result => exact sound.dispatchSettled id result
  | temporaryWritten id succeeds =>
    rw [System.step.eq_def]
    dsimp only
    split
    · next state staged =>
      obtain ⟨owned, d, rfl, stage, standing⟩ := sound.standing staged
      unfold Standing at standing
      rw [stage] at standing
      split
      · refine sound.restage fun other own staged => ?_
        rw [Standing, staged, own]
        exact standing
      · exact (sound.retry _).settle _
    · exact sound
  | renamed id succeeds updatedAt => exact sound.renamed id succeeds updatedAt
  | temporaryRemoved id =>
    rw [System.step]
    split
    · exact (sound.retry id).settle id
    · exact sound
  | deliverySettled id =>
    rw [System.step]
    split
    · have kept : Sound first { s with retryJobs := s.retryJobs.filter (· ≠ id) } := ⟨sound.ledger, sound.shelf, sound.underway⟩
      exact kept.settle id
    · exact sound
  | jobWrites id directory metadata exit => exact sound.jobWrites id directory metadata exit

end Scans

/-! ## Runs -/

theorem sound_initial (disk : JsString → JobFiles) : Sound disk (.initial disk) where
  ledger := ⟨trivial, rfl, List.nodup_nil, Nat.zero_le _, nofun⟩
  shelf := ⟨fun _ notified => .inl (notified.resolve_right nofun), fun _ marked => .inl marked⟩
  underway := rfl

def carefulRun (c : Config) (s : System) : List Event → Bool
  | [] => true
  | event :: rest => careful s event && carefulRun c (s.step c event) rest

theorem Sound.run {c : Config} {first : JsString → JobFiles} {s : System} (sound : Sound first s) {events : List Event}
    (kept : carefulRun c s events = true) : Sound first (s.run c events) := by
  induction events generalizing s with
  | nil => exact sound
  | cons event rest ih =>
    rw [carefulRun, Bool.and_eq_true] at kept
    exact ih (sound.step event kept.1) kept.2

/-- In a run that loses no marker, a job has one delivery at a time and there are no more than the limit, a notified job is
not dispatched, a marker follows the dispatch that resolved, and a directory is removed when its marker was published and
while no delivery of it is in flight. -/
theorem run_orderly (c : Config) (disk : JsString → JobFiles) (events : List Event)
    (kept : carefulRun c (.initial disk) events = true) :
    Orderly disk ((System.initial disk).run c events).log
      ∧ (running ((System.initial disk).run c events).log).Nodup
      ∧ (running ((System.initial disk).run c events).log).length ≤ MAX_JOBS := by
  have sound := (sound_initial disk).run kept
  rw [sound.ledger.running, List.length_map]
  exact ⟨sound.ledger.orderly, sound.ledger.nodup, sound.ledger.bounded⟩

/-! ## A job -/

def sampleJob : JsString := js "bg-0123456789ab"

def sampleConfig : Config := ⟨604800000, fun _ => some 0⟩

/-- The directory of a job that exited, with a marker or without one. -/
def sampleDisk (notification : Option Value) : JsString → JobFiles :=
  Function.update (fun _ => {}) sampleJob
    { directory := true
      metadata := some (.record [("schema", .text "background.job.v1"), ("id", .str sampleJob), ("kind", .text "launched"),
        ("session_id", .text "session-a"), ("name", .text "build")])
      exit := some (.record [("exit_code", .num (.ofNat 0)), ("signal", .null), ("ended_at", .text "1970-01-01T00:00:00Z")])
      notification }

def sampleScan (fails : Bool) : List Event :=
  [.start, .opened true, .listed (some (sampleJob, true)), .listed none, .read sampleJob false false, .read sampleJob false false,
    .read sampleJob false false, .read sampleJob fails false, .acts 0, .dispatches sampleJob]

/-- A job is dispatched and marked. -/
theorem run_orderly_sample :
    Orderly (sampleDisk none) ((System.initial (sampleDisk none)).run sampleConfig
        (sampleScan false ++ [.dispatchSettled sampleJob (some .sent), .temporaryWritten sampleJob true,
          .renamed sampleJob true (js "now"), .deliverySettled sampleJob])).log
      ∧ (running ((System.initial (sampleDisk none)).run sampleConfig
        (sampleScan false ++ [.dispatchSettled sampleJob (some .sent), .temporaryWritten sampleJob true,
          .renamed sampleJob true (js "now"), .deliverySettled sampleJob])).log).Nodup
      ∧ (running ((System.initial (sampleDisk none)).run sampleConfig
        (sampleScan false ++ [.dispatchSettled sampleJob (some .sent), .temporaryWritten sampleJob true,
          .renamed sampleJob true (js "now"), .deliverySettled sampleJob])).log).length ≤ MAX_JOBS :=
  run_orderly sampleConfig (sampleDisk none) _ (by decide +kernel)

/-- The marker of a notified job cannot be read, and it is dispatched again. -/
theorem unread_marker_dispatches_again :
    ¬Orderly (sampleDisk (some (marker sampleJob .sent (js "now"))))
      ((System.initial (sampleDisk (some (marker sampleJob .sent (js "now"))))).run sampleConfig (sampleScan true)).log := by
  have seen : ((System.initial (sampleDisk (some (marker sampleJob .sent (js "now"))))).run sampleConfig (sampleScan true)).log
      = [.dispatched sampleJob, .admitted sampleJob] := by decide +kernel
  rw [seen]
  intro orderly
  exact orderly.1.2 (.inl (by decide +kernel))

end PersistentHarness.BackgroundNotifier
