import PersistentHarness.Soundness.Session.Turns

/-! # What sessions show of their activity

A resident session shows whether it works, delegates or is idle, and since when it is quiet; the quiet interval
is its own, whatever goes on below. A session without a worker shows whether it delegates, unless a call went
over it without a look at who works below.
-/

namespace PersistentHarness.SessionStore

def DescendantWorks (sessions : Sessions) (id : JsString) : Prop :=
  ∃ other row, Ancestor sessions id other ∧ sessions.get? other = some row ∧ row.deleted = false ∧ row.activity = .working

structure ResidentShown (sessions : Sessions) (id : JsString) (row : Session) : Prop where
  working : row.activity = .working ↔ row.streaming = true
  delegating : row.streaming = false → (row.activity = .delegating ↔ DescendantWorks sessions id)
  idle : row.streaming = false → (row.activity = .idle ↔ ¬DescendantWorks sessions id)
  quiet : row.quietSince = none ↔ row.streaming = true

/-- What a session without a resident worker shows. -/
structure AwayShown (sessions : Sessions) (id : JsString) (row : Session) : Prop where
  delegating : row.activity = .delegating ↔ DescendantWorks sessions id
  inactive : row.activity = .inactive ↔ ¬DescendantWorks sessions id

/-- The columns of the actors fit each other. -/
structure ActivitySound (sessions : Sessions) : Prop where
  resident : ∀ id row, sessions.get? id = some row → row.lifecycle = .resident →
    row.activity = shownActivity row (decide (0 < workingDescendantCount sessions id))
      ∧ (row.quietSince = none ↔ row.streaming = true)
  away : ∀ id row, sessions.get? id = some row → row.lifecycle ≠ .resident → row.activity ≠ .working

/-- Every live session without a resident worker shows what works below it. -/
def DelegationSound (sessions : Sessions) : Prop :=
  ∀ id row, sessions.get? id = some row → row.deleted = false → row.lifecycle ≠ .resident →
    row.activity = shownActivity row (decide (0 < workingDescendantCount sessions id))

def Rests (sessions : Sessions) (id : JsString) : Prop :=
  ∃ row, sessions.get? id = some row ∧ row.lifecycle = .resident ∧ row.streaming = false

section Calls

variable {stale : Prop} {s t u : Sessions} {id : JsString}

theorem ActivitySound.busy (sound : ActivitySound s) : Busy s := by
  intro id row stored
  by_cases resident : row.lifecycle = .resident
  · rw [(sound.resident id row stored resident).1]
    exact shownActivity_working
  · simp [sound.away id row stored resident, resident]

theorem SameActor.sameWork {a b : Session} (same : SameActor a b) : SameWork a b :=
  ⟨same.toPlaced, same.deleted, by rw [same.activity]⟩

theorem SameActor.shownActivity {a b : Session} (same : SameActor a b) (delegates : Bool) :
    shownActivity b delegates = shownActivity a delegates := by
  unfold SessionStore.shownActivity
  rw [same.lifecycle, same.streaming]

theorem SameActor.count (rooted : Rooted s) (same : s.Evolves SameActor u) (id : JsString) :
    decide (0 < workingDescendantCount u id) = decide (0 < workingDescendantCount s id) :=
  count_evolve rooted (same.mono fun _ _ => SameActor.sameWork) id

theorem ActivitySound.evolve (sound : ActivitySound s) (rooted : Rooted s) (same : s.Evolves SameActor u) : ActivitySound u where
  resident id row stored resident := by
    obtain ⟨old, found, kept⟩ := same.before stored
    rw [kept.shownActivity, SameActor.count rooted same, kept.activity, kept.quietSince, kept.streaming]
    exact sound.resident id old found (kept.lifecycle ▸ resident)
  away id row stored away := by
    obtain ⟨old, found, kept⟩ := same.before stored
    rw [kept.activity]
    exact sound.away id old found (kept.lifecycle ▸ away)

theorem ActorCall.activitySound (call : ActorCall stale s t) (rooted : Rooted s) (rooted' : Rooted t) (sound : ActivitySound s) :
    ActivitySound t := by
  refine ⟨fun id row found resident => ?_, fun id row found away => ?_⟩
  all_goals
    obtain ⟨u, same, outcome⟩ := call.row rooted rooted' sound.busy found
    have before := sound.evolve rooted same
    have rooted'' := rooted.evolve (same.mono fun _ _ => SameActor.toPlaced)
  · cases outcome with
    | admitted fresh waits => exact absurd (waits.1.symm.trans resident) (by rintro ⟨⟩)
    | kept stored kept works =>
      rw [kept.shownActivity, decide_count rooted'' rooted' works, kept.activity, kept.quietSince, kept.streaming]
      exact before.resident id _ stored (kept.lifecycle ▸ resident)
    | shown stored shown =>
      subst shown
      exact ⟨rfl, refreshed_quiet resident⟩
    | turned stored turned => exact turned.resident resident
    | buried gone => exact absurd (gone.symm.trans resident) (by rintro ⟨⟩)
    | requeued waits => exact absurd (waits.1.symm.trans resident) (by rintro ⟨⟩)
    | left stored away => exact absurd resident away
  · cases outcome with
    | admitted fresh waits =>
      rw [waits.2]
      rintro ⟨⟩
    | kept stored kept works =>
      rw [kept.activity]
      exact before.away id _ stored (kept.lifecycle ▸ away)
    | shown stored shown =>
      subst shown
      exact fun works => away (shownActivity_working.mp works).1
    | turned stored turned => exact turned.away away
    | buried gone idle => exact idle
    | requeued waits =>
      rw [waits.2]
      rintro ⟨⟩
    | left stored away' => exact before.away id row stored away

/-- Every session without a worker shows what works below it, unless the call is stale. -/
theorem ActorCall.delegationSound (call : ActorCall stale s t) (rooted : Rooted s) (rooted' : Rooted t) (sound : ActivitySound s)
    (shows : DelegationSound s) (fresh : ¬stale) : DelegationSound t := by
  intro id row found live away
  obtain ⟨u, same, outcome⟩ := call.row rooted rooted' sound.busy found
  have rooted'' := rooted.evolve (same.mono fun _ _ => SameActor.toPlaced)
  have alone : ¬WorksBelow t id → decide (0 < workingDescendantCount t id) = false := fun alone =>
    decide_eq_false fun works => alone ((workingDescendantCount_pos rooted').mp works)
  have before : ∀ old, u.get? id = some old → old.deleted = false → old.lifecycle ≠ .resident →
      old.activity = SessionStore.shownActivity old (decide (0 < workingDescendantCount u id)) := by
    intro old stored live away
    obtain ⟨first, here, kept⟩ := same.before stored
    rw [kept.shownActivity, SameActor.count rooted same, kept.activity]
    exact shows id first here (kept.deleted ▸ live) (kept.lifecycle ▸ away)
  cases outcome with
  | admitted _ waits nobody =>
    rw [alone nobody, waits.2]
    simp [SessionStore.shownActivity, waits.1]
  | kept stored kept works =>
    rw [kept.shownActivity, decide_count rooted'' rooted' works, kept.activity]
    exact before _ stored (kept.deleted ▸ live) (kept.lifecycle ▸ away)
  | shown stored shown =>
    subst shown
    rfl
  | turned stored turned => exact turned.shows fresh
  | buried gone => simp [Session.deleted, gone] at live
  | requeued waits nobody =>
    rw [alone nobody, waits.2]
    simp [SessionStore.shownActivity, waits.1]
  | left stored _ nobody stales =>
    have idle : decide (0 < workingDescendantCount u id) = false :=
      decide_eq_false fun works => stales fresh live ((workingDescendantCount_pos rooted'').mp works)
    rw [alone nobody, ← idle]
    exact before row stored live away

/-- A stale call leaves a session that does not show what works below it. -/
theorem ActorCall.not_delegationSound (call : ActorCall stale s t) (rooted : Rooted s) (rooted' : Rooted t)
    (sound : ActivitySound s) (shows : DelegationSound s) (stales : stale) : ¬DelegationSound t := by
  intro after
  cases call with
  | steady fresh => exact fresh stales
  | bury fresh => exact fresh stales
  | @turn id row next now stored turned rows =>
    obtain ⟨starting, inactive, works⟩ := turned.stales stales
    have shown := after id next (turn_self rooted stored rows) turned.live.2 (by rw [starting]; rintro ⟨⟩)
    have below := turn_counts rooted sound.busy stored turned rows rooted.not_ancestor
    rw [decide_count rooted rooted' below, works, inactive] at shown
    simp [SessionStore.shownActivity, starting] at shown
  | @requeue owner rows known lost stales' =>
    obtain ⟨id, row, stored, live, other, works⟩ := stales'.mp stales
    obtain ⟨next, found, _, left⟩ := rows id row stored
    cases left other
    have away : row.lifecycle ≠ .resident := fun resident => other (lost id _ stored resident)
    have shown := after id _ found live away
    have idle : decide (0 < workingDescendantCount t id) = false := decide_eq_false fun works =>
      requeue_idle sound.busy rows known lost ((workingDescendantCount_pos rooted').mp works)
    rw [shows id _ stored live away, idle, decide_eq_true works] at shown
    simp [SessionStore.shownActivity, away] at shown

theorem ActorCall.quietSince (call : ActorCall stale s t) (rooted : Rooted s) (rooted' : Rooted t) (sound : ActivitySound s)
    {row next : Session} (stored : s.get? id = some row) (resident : row.lifecycle = .resident) (quiet : row.streaming = false)
    (found : t.get? id = some next) (resident' : next.lifecycle = .resident) (quiet' : next.streaming = false) :
    next.quietSince = row.quietSince := by
  obtain ⟨since, set⟩ : ∃ since, row.quietSince = some since := by
    rw [← Option.ne_none_iff_exists']
    intro unset
    rw [(sound.resident id row stored resident).2.mp unset] at quiet
    cases quiet
  obtain ⟨u, same, outcome⟩ := call.row rooted rooted' sound.busy found
  obtain ⟨between, here, kept⟩ := same.after stored
  have set' := kept.quietSince.trans set
  rw [set]
  cases outcome with
  | admitted fresh => exact absurd (fresh.symm.trans here) (by rintro ⟨⟩)
  | kept stored' kept' =>
    cases here.symm.trans stored'
    exact kept'.quietSince.trans set'
  | shown stored' shown =>
    cases here.symm.trans stored'
    subst shown
    simp [refreshed, kept.lifecycle, kept.streaming, resident, quiet, set']
  | turned stored' turned =>
    cases here.symm.trans stored'
    exact turned.rests (kept.lifecycle.trans resident) resident' quiet' since set'
  | buried gone => exact absurd (gone.symm.trans resident') (by rintro ⟨⟩)
  | requeued waits => exact absurd (waits.1.symm.trans resident') (by rintro ⟨⟩)
  | left _ away => exact absurd resident' away

end Calls

section Runs

variable {env : Env}

theorem activitySound_empty : ActivitySound Store.empty.sessions where
  resident := by rintro id row ⟨⟩
  away := by rintro id row ⟨⟩

theorem run_activitySound (events : List Event) (named : ∀ event ∈ events, event.op.named = true) :
    Rooted (run env events).sessions ∧ ActivitySound (run env events).sessions := by
  refine run_invariant (P := fun s => Rooted s.sessions ∧ ActivitySound s.sessions) ⟨rooted_empty, activitySound_empty⟩ ?_
  rintro event member s ⟨rooted, sound⟩
  have rooted' : Rooted (act env s event).sessions := act_rooted (named event member) rooted
  exact ⟨rooted', (step_call rooted sound.busy event.op).activitySound rooted rooted' sound⟩

theorem Move.placed {w : Writes} {s t : Store} {emission : Option Unit} (move : Move w s emission t) {id : JsString} {row : Session}
    (found : s.sessions.get? id = some row) : ∃ later, t.sessions.get? id = some later ∧ Placed row later := by
  cases move with
  | touch kept => exact (kept.mono fun _ _ => SessionKept.placed).after found
  | enroll inserted =>
    refine ⟨row, ?_, .refl row⟩
    rw [Table.get?_insert inserted, if_neg, found]
    rintro rfl
    rw [Table.fresh_of_insert? inserted] at found
    cases found
  | clear same => exact ⟨row, same ▸ found, .refl row⟩
  | bury _ buries =>
    refine Table.Evolves.after (.of_map buries.sessions fun id row _ => ?_) found
    split
    · exact tombstone_placed _ row
    · exact .refl row
  | _ => exact ⟨row, found, .refl row⟩

def KeepsPlaces (s t : Store) : Prop :=
  ∀ id row, s.sessions.get? id = some row → ∃ later, t.sessions.get? id = some later ∧ Placed row later

theorem KeepsPlaces.trans {s t u : Store} (first : KeepsPlaces s t) (second : KeepsPlaces t u) : KeepsPlaces s u := by
  intro id row found
  obtain ⟨middle, there, same⟩ := first id row found
  obtain ⟨later, last, still⟩ := second id middle there
  exact ⟨later, last, still.parent.trans same.parent, still.depth.trans same.depth⟩

/-- The sessions are a forest whose depths count from the roots, and no session ever leaves its place in it. -/
theorem run_forest (env : Env) (events more : List Event) (named : ∀ event ∈ events, event.op.named = true) :
    (run env events).sessions.Ranked Session.parentSessionId Session.depth ∧
      (∀ id, ¬Ancestor (run env events).sessions id id) ∧ KeepsPlaces (run env events) (run env (events ++ more)) := by
  have rooted := (@run_activitySound env events named).1
  have same : ∀ s, KeepsPlaces s s := fun _ _ row found => ⟨row, found, .refl row⟩
  refine ⟨rooted.ranked, fun id => rooted.not_ancestor, run_relates same (fun _ _ _ => .trans) (fun w s t acts => ?_) events more⟩
  obtain ⟨emitted, trace, -⟩ := acts
  exact trace.preserves (fun _ _ _ move before => before.trans fun _ _ => move.placed) (same s)

theorem descendantWorks_iff (events : List Event) (named : ∀ event ∈ events, event.op.named = true) (id : JsString) :
    DescendantWorks (run env events).sessions id ↔ 0 < workingDescendantCount (run env events).sessions id := by
  rw [workingDescendantCount_pos (run_activitySound events named).1, worksBelow_iff (run_supported events)]
  rfl

theorem quietSince_kept {first more : List Event} (named : ∀ event ∈ first ++ more, event.op.named = true) {id : JsString}
    (rests : ∀ n ≤ more.length, Rests (run env (first ++ more.take n)).sessions id) :
    ((run env (first ++ more)).sessions.get? id).map Session.quietSince =
      ((run env first).sessions.get? id).map Session.quietSince := by
  induction more using List.reverseRecOn with
  | nil => rw [List.append_nil]
  | append_singleton more event ih =>
    have named' : ∀ event ∈ first ++ more, event.op.named = true := fun other member =>
      named other (by rw [← List.append_assoc]; exact List.mem_append_left _ member)
    have before := rests more.length (by simp)
    have after := rests (more.length + 1) (by simp)
    rw [List.take_left' rfl] at before
    rw [List.take_of_length_le (by simp)] at after
    rw [← ih named' fun n short => ?_]
    · obtain ⟨rooted, sound⟩ := @run_activitySound env (first ++ more) named'
      rw [← List.append_assoc, run_snoc] at after ⊢
      obtain ⟨row, stored, resident, quiet⟩ := before
      obtain ⟨next, found, resident', quiet'⟩ := after
      have rooted' := @act_rooted env _ _ (named event (by simp)) rooted
      have kept := (step_call rooted sound.busy event.op).quietSince rooted rooted' sound stored resident quiet found resident' quiet'
      rw [stored, found, Option.map_some, Option.map_some, kept]
    · have same := rests n (by simp; omega)
      rwa [List.take_append_of_le_length short] at same

/-- Resident sessions show what they and their descendants do, and a session that keeps resting keeps its quiet interval. -/
theorem run_residents (env : Env) (events : List Event) (named : ∀ event ∈ events, event.op.named = true) :
    (∀ id row, (run env events).sessions.get? id = some row → row.lifecycle = .resident →
        ResidentShown (run env events).sessions id row)
      ∧ ∀ first more id, events = first ++ more → (∀ n ≤ more.length, Rests (run env (first ++ more.take n)).sessions id) →
        ((run env events).sessions.get? id).map Session.quietSince = ((run env first).sessions.get? id).map Session.quietSince := by
  obtain ⟨rooted, sound⟩ := @run_activitySound env events named
  refine ⟨fun id row stored resident => ?_, fun first more id split rests => ?_⟩
  · obtain ⟨shown, quiet⟩ := sound.resident id row stored resident
    have works := @descendantWorks_iff env events named id
    refine ⟨?_, fun rests => ?_, fun rests => ?_, quiet⟩
    · rw [shown, shownActivity_working]
      simp [resident]
    · rw [shown, works]
      simp [shownActivity, resident, rests]
    · rw [shown, works]
      simp [shownActivity, resident, rests]
  · subst split
    exact quietSince_kept named rests

end Runs

end PersistentHarness.SessionStore

/-! ## Sessions without a worker

The display of a session without a worker is right in every store of a run exactly when no call of the run was
stale: a revival above a working descendant, or a restart that lost the workers below a session that it does not
queue again.
-/

namespace PersistentHarness.SessionStore

/-- Every live session without a resident worker shows what works below it. -/
def DelegationShown (sessions : Sessions) : Prop :=
  ∀ id row, sessions.get? id = some row → row.deleted = false → row.lifecycle ≠ .resident → AwayShown sessions id row

section Runs

variable {env : Env}

theorem delegationShown_iff (events : List Event) (named : ∀ event ∈ events, event.op.named = true) :
    DelegationShown (run env events).sessions ↔ DelegationSound (run env events).sessions := by
  refine forall_congr' fun id => forall_congr' fun row => imp_congr_right fun _ => imp_congr_right fun _ =>
    imp_congr_right fun away => ?_
  have works := @descendantWorks_iff env events named id
  by_cases below : 0 < workingDescendantCount (run env events).sessions id
  · have shown : shownActivity row (decide (0 < workingDescendantCount (run env events).sessions id)) = .delegating := by
      simp [shownActivity, away, below]
    rw [shown]
    exact ⟨fun shows => shows.delegating.mpr (works.mpr below),
      fun shows => ⟨by simp [shows, works, below], by simp [shows, works, below]⟩⟩
  · have shown : shownActivity row (decide (0 < workingDescendantCount (run env events).sessions id)) = .inactive := by
      simp [shownActivity, away, below]
    rw [shown]
    exact ⟨fun shows => shows.inactive.mpr fun here => below (works.mp here),
      fun shows => ⟨by simp [shows, works, below], by simp [shows, works, below]⟩⟩

/-- After a call the display is right exactly when the call is not stale. -/
theorem act_delegationSound (events : List Event) (event : Event) (named : ∀ other ∈ events ++ [event], other.op.named = true)
    (shows : DelegationSound (run env events).sessions) :
    DelegationSound (run env (events ++ [event])).sessions ↔ event.op.stale (run env events) = false := by
  obtain ⟨rooted, sound⟩ := @run_activitySound env events fun other member => named other (by simp [member])
  have rooted' := @act_rooted env _ _ (named event (by simp)) rooted
  have call := @step_call env event.observer _ event.now rooted sound.busy event.op
  rw [run_snoc, ← Bool.not_eq_true]
  constructor
  · intro after stales
    exact call.not_delegationSound rooted rooted' sound shows stales after
  · intro fresh
    exact call.delegationSound rooted rooted' sound shows fresh

/-- In every store of a run the sessions without a worker show what works below them exactly when no call was stale. -/
theorem run_delegation (env : Env) (events : List Event) (named : ∀ event ∈ events, event.op.named = true) :
    (∀ before, before <+: events → DelegationShown (run env before).sessions)
      ↔ ∀ before event, before ++ [event] <+: events → event.op.stale (run env before) = false := by
  have within : ∀ before, before <+: events → ∀ event ∈ before, event.op.named = true :=
    fun before short event member => named event (short.subset member)
  refine prefixes_iff ?_ fun before event short shows => ?_
  · rintro id row ⟨⟩
  · rw [delegationShown_iff _ (within _ short)]
    exact act_delegationSound before event (within _ short)
      ((delegationShown_iff before (within before ((List.prefix_append before [event]).trans short))).mp shows)

end Runs

section Samples

/-- A root starts, its child starts and streams, and the root passivates. -/
def workBelow : List Event :=
  [⟨1, none, .createRoot ⟨js "root", none, some (js "/w"), none, some (js "root"), js "token", .obj []⟩⟩,
    ⟨2, none, .markActorStarted (js "root") 1 ⟨none, none, none⟩⟩,
    ⟨3, none, .createChild (js "root") ⟨js "child", none, .obj [], js "token"⟩⟩,
    ⟨4, none, .markActorStarted (js "child") 1 ⟨none, none, none⟩⟩,
    ⟨5, none, .setActorActivity (js "child") 1 true⟩,
    ⟨6, none, .markActorLifecycle (js "root") 1 (js "passivated") none false⟩]

/-- The passivated root is revived while its child works. -/
def revivalAboveWork : List Event :=
  workBelow ++ [⟨7, none, .prepareActorRevival (js "root") (js "next") false none⟩]

theorem not_delegation : ¬∀ env events, (∀ event ∈ events, event.op.named = true) → DelegationShown (run env events).sessions := by
  intro claim
  have named : ∀ event ∈ revivalAboveWork, event.op.named = true := by decide +kernel
  have columns : ((run plainEnv revivalAboveWork).sessions.get? (js "root")).map (fun row => (row.lifecycle, row.activity))
      = some (.starting, .inactive) := by decide +kernel
  have works : 0 < workingDescendantCount (run plainEnv revivalAboveWork).sessions (js "root") := by decide +kernel
  obtain ⟨row, stored, shown⟩ := Option.map_eq_some_iff.mp columns
  obtain ⟨starting, inactive⟩ := Prod.mk.inj shown
  have away := claim plainEnv revivalAboveWork named (js "root") row stored (by simp [Session.deleted, starting])
    (by simp [starting])
  exact away.inactive.mp inactive ((descendantWorks_iff _ named _).mpr works)

theorem run_delegation_sample : DelegationShown (run plainEnv workBelow).sessions :=
  (run_delegation plainEnv workBelow (by decide +kernel)).mpr
    (fun before event short => by
      have calm : ∀ event ∈ workBelow, ∀ s, event.op.stale s = false := by simp [workBelow, Op.stale]
      exact calm event (short.subset (by simp)) _)
    workBelow (List.prefix_refl _)

/-- The root that rests above its working child has been quiet since it started. -/
theorem run_residents_sample : ∃ row, (run plainEnv (workBelow.take 5)).sessions.get? (js "root") = some row
    ∧ ResidentShown (run plainEnv (workBelow.take 5)).sessions (js "root") row := by
  have columns : ((run plainEnv (workBelow.take 5)).sessions.get? (js "root")).map Session.lifecycle = some .resident := by
    decide +kernel
  obtain ⟨row, stored, resident⟩ := Option.map_eq_some_iff.mp columns
  exact ⟨row, stored, (run_residents plainEnv (workBelow.take 5) (by decide +kernel)).1 _ row stored resident⟩

theorem run_forest_sample : ¬Ancestor (run plainEnv workBelow).sessions (js "root") (js "root") :=
  (run_forest plainEnv workBelow [] (by decide +kernel)).2.1 _

end Samples

end PersistentHarness.SessionStore
