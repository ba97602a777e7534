import PersistentHarness.Soundness.Session.Burials
import PersistentHarness.Data.JsonRoundTrip

/-! # Deleted sessions

Nothing live hangs below a deleted session and nothing waits for one. The invariant names the live session that
each edge and each waiting row needs; every move keeps it, so it holds of every store that calls lead to.
-/

namespace PersistentHarness.SessionStore

/-- What is live or waits has the live sessions that it needs. -/
structure Supported (s : Store) : Prop where
  parents : ∀ id row parent, s.sessions.get? id = some row → row.deleted = false → row.parentSessionId = some parent →
    s.Live parent
  targets : ∀ id row, s.messages.get? id = some row → row.state.waiting = true → s.Live row.targetId
  senders : ∀ id row, s.messages.get? id = some row → row.state = .accepted → s.Live row.senderId
  tasks : ∀ id row, s.tasks.get? id = some row → row.unfinished = true → s.Live row.childId
  inputs : ∀ id row, s.inputs.get? id = some row → s.Live row.sessionId

theorem supported_empty : Supported .empty where
  parents := by rintro id row parent ⟨⟩
  targets := by rintro id row ⟨⟩
  senders := by rintro id row ⟨⟩
  tasks := by rintro id row ⟨⟩
  inputs := by rintro id row ⟨⟩

theorem Store.Live.not_deleted {s : Store} {id : JsString} (live : s.Live id) : ¬s.Deleted id := by
  rintro ⟨row, stored, deleted⟩
  obtain ⟨other, found, alive⟩ := live
  cases found.symm.trans stored
  rw [alive] at deleted
  cases deleted

section Sessions

variable {s : Store} {sessions : Sessions}

theorem live_touch {w : Writes} (kept : s.sessions.Evolves (SessionKept w) sessions) {id : JsString} (live : s.Live id) :
    Store.Live { s with sessions } id := by
  obtain ⟨row, stored, alive⟩ := live
  obtain ⟨next, found, same⟩ := kept.after stored
  exact ⟨next, found, same.deleted.trans alive⟩

theorem live_admit {id : JsString} {row : Session} (inserted : s.sessions.insert? id row = some sessions) {other : JsString}
    (live : s.Live other) : Store.Live { s with sessions } other := by
  obtain ⟨old, stored, alive⟩ := live
  refine ⟨old, ?_, alive⟩
  rw [Table.get?_insert inserted, if_neg, stored]
  rintro rfl
  rw [Table.fresh_of_insert? inserted] at stored
  cases stored

theorem Buries.live {t : Store} {ids : List JsString} {now : ℤ} (buries : Buries s t ids now) {id : JsString}
    (live : s.Live id) (outside : id ∉ ids) : t.Live id := by
  obtain ⟨row, stored, alive⟩ := live
  exact ⟨row, by rw [buries.sessions, stored, Option.map_some, if_neg outside], alive⟩

theorem Buries.row {t : Store} {ids : List JsString} {now : ℤ} (buries : Buries s t ids now) {id : JsString} {row : Session}
    (stored : t.sessions.get? id = some row) (alive : row.deleted = false) :
    id ∉ ids ∧ s.sessions.get? id = some row := by
  rw [buries.sessions] at stored
  obtain ⟨old, found, rfl⟩ := Option.map_eq_some_iff.mp stored
  split at alive
  · rw [tombstone_deleted] at alive
    cases alive
  · next outside => exact ⟨outside, by rw [if_neg outside, found]⟩

end Sessions

section Messages

variable {a b : Message}

theorem MessageStep.waiting (step : MessageStep a b) (waiting : b.state.waiting = true) : a.state.waiting = true := by
  rcases step.state with same | next
  · rwa [← same]
  · rw [← Bool.not_eq_false]
    intro ended
    generalize b.state = later at next waiting
    generalize a.state = earlier at next ended
    cases next with
    | reject => cases waiting
    | _ => cases ended

theorem MessageStep.accepted (step : MessageStep a b) (accepted : b.state = .accepted) : a.state = .accepted := by
  rcases step.state with same | next
  · rw [← same, accepted]
  · rw [accepted] at next
    generalize a.state = earlier at next
    cases next

end Messages

theorem Supported.step {s : Store} (supported : Supported s) {t : Store} {id : JsString} {row next : Message}
    (found : s.messages.get? id = some row) (step : MessageStep row next) (live : ∀ id, s.Live id → t.Live id) :
    (next.state.waiting = true → t.Live next.targetId) ∧ (next.state = .accepted → t.Live next.senderId) := by
  refine ⟨fun waiting => ?_, fun accepted => ?_⟩
  · rw [step.targetId]
    exact live _ (supported.targets id row found (step.waiting waiting))
  · rw [step.senderId]
    exact live _ (supported.senders id row found (step.accepted accepted))

theorem Supported.bury {s t : Store} {ids : List JsString} {now : ℤ} (supported : Supported s) (buries : Buries s t ids now) :
    Supported t where
  parents id row parent stored alive edge := by
    obtain ⟨outside, found⟩ := buries.row stored alive
    refine buries.live (supported.parents id row parent found alive edge) fun above => ?_
    exact outside (buries.closed id row parent found rfl edge above)
  targets id row stored waiting := by
    obtain ⟨old, found, ends⟩ := buries.messages.before stored
    rw [ends.step.targetId]
    refine buries.live (supported.targets id old found (ends.step.waiting waiting)) fun below => ?_
    rw [ends.target (ends.step.targetId ▸ below)] at waiting
    cases waiting
  senders id row stored accepted := by
    obtain ⟨old, found, ends⟩ := buries.messages.before stored
    rw [ends.step.senderId]
    refine buries.live (supported.senders id old found (ends.step.accepted accepted)) fun below => ?_
    exact ends.sender (ends.step.senderId ▸ below) accepted
  tasks id row stored unfinished := by
    obtain ⟨old, found, ends⟩ := buries.tasks.before stored
    rw [ends.childId]
    refine buries.live (supported.tasks id old found (ends.unfinished unfinished)) fun below => ?_
    rw [ends.ended (ends.childId ▸ below)] at unfinished
    cases unfinished
  inputs id row stored := by
    rw [buries.inputs] at stored
    obtain ⟨found, outside⟩ := Option.filter_eq_some_iff.mp stored
    exact buries.live (supported.inputs id row found) (of_decide_eq_true outside)

theorem Move.supported {w : Writes} {s t : Store} {emission : Option Unit} (move : Move w s emission t) (supported : Supported s) :
    Supported t := by
  cases move with
  | memory => exact ⟨supported.parents, supported.targets, supported.senders, supported.tasks, supported.inputs⟩
  | touch kept =>
    refine ⟨fun id row parent stored alive edge => ?_, fun id row stored waiting => live_touch kept (supported.targets id row stored waiting),
      fun id row stored accepted => live_touch kept (supported.senders id row stored accepted),
      fun id row stored unfinished => live_touch kept (supported.tasks id row stored unfinished),
      fun id row stored => live_touch kept (supported.inputs id row stored)⟩
    obtain ⟨old, found, same⟩ := kept.before stored
    exact live_touch kept (supported.parents id old parent found (same.deleted ▸ alive) (same.parent ▸ edge))
  | @enroll new session sessions inserted _ fresh =>
    refine ⟨fun id row parent stored alive edge => ?_, fun id row stored waiting => live_admit inserted (supported.targets id row stored waiting),
      fun id row stored accepted => live_admit inserted (supported.senders id row stored accepted),
      fun id row stored unfinished => live_admit inserted (supported.tasks id row stored unfinished),
      fun id row stored => live_admit inserted (supported.inputs id row stored)⟩
    rw [Table.get?_insert inserted] at stored
    split at stored
    · cases stored
      exact live_admit inserted (fresh.parent parent edge).1
    · exact live_admit inserted (supported.parents id row parent stored alive edge)
  | @assign new task tasks inserted live =>
    refine ⟨supported.parents, supported.targets, supported.senders, fun id row stored unfinished => ?_, supported.inputs⟩
    rw [Table.get?_insert inserted] at stored
    split at stored
    · cases stored
      exact live
    · exact supported.tasks id row stored unfinished
  | work kept =>
    refine ⟨supported.parents, supported.targets, supported.senders, fun id row stored unfinished => ?_, supported.inputs⟩
    obtain ⟨old, found, same⟩ := kept.before stored
    rw [same.childId]
    exact supported.tasks id old found (same.unfinished unfinished)
  | @receive new receipt input receipts inputs recorded queued admits =>
    refine ⟨supported.parents, supported.targets, supported.senders, supported.tasks, fun id row stored => ?_⟩
    rw [Table.get?_insert queued] at stored
    split at stored
    · cases stored
      rw [admits.sessionId]
      exact admits.live
    · exact supported.inputs id row stored
  | rewrite kept =>
    refine ⟨supported.parents, supported.targets, supported.senders, supported.tasks, fun id row stored => ?_⟩
    obtain ⟨old, found, same⟩ := kept.before stored
    rw [same.sessionId]
    exact supported.inputs id old found
  | annotate => exact ⟨supported.parents, supported.targets, supported.senders, supported.tasks, supported.inputs⟩
  | settle =>
    refine ⟨supported.parents, supported.targets, supported.senders, supported.tasks, fun id row stored => ?_⟩
    exact supported.inputs id row (Option.filter_eq_some_iff.mp ((Table.get?_delete ..).symm.trans stored)).1
  | @post new message messages inserted opened =>
    refine ⟨supported.parents, fun id row stored waiting => ?_, fun id row stored accepted => ?_, supported.tasks, supported.inputs⟩
    · rw [Table.get?_insert inserted] at stored
      split at stored
      · cases stored
        exact opened.target
      · exact supported.targets id row stored waiting
    · rw [Table.get?_insert inserted] at stored
      split at stored
      · cases stored
        rcases opened.opened with ⟨_, _, sender⟩ | ⟨queued, _⟩
        · exact sender
        · rw [accepted] at queued
          cases queued
      · exact supported.senders id row stored accepted
  | @advance new message next found step fresh =>
    have kept := supported.step (t := s) found step fun _ => id
    refine ⟨supported.parents, fun id row stored waiting => ?_, fun id row stored accepted => ?_, supported.tasks, supported.inputs⟩
    · rw [Table.get?_update_of found] at stored
      split at stored
      · cases stored
        exact kept.1 waiting
      · exact supported.targets id row stored waiting
    · rw [Table.get?_update_of found] at stored
      split at stored
      · cases stored
        exact kept.2 accepted
      · exact supported.senders id row stored accepted
  | clear same tasks messages =>
    rw [same]
    refine ⟨supported.parents, fun id row stored waiting => ?_, fun id row stored accepted => ?_,
      fun id row stored unfinished => ?_, supported.inputs⟩
    · obtain ⟨old, found, ends⟩ := messages.before stored
      exact (supported.step (t := s) found ends.step fun _ live => live).1 waiting
    · obtain ⟨old, found, ends⟩ := messages.before stored
      exact (supported.step (t := s) found ends.step fun _ live => live).2 accepted
    · obtain ⟨old, found, ends⟩ := tasks.before stored
      rw [ends.childId]
      exact supported.tasks id old found (ends.unfinished unfinished)
  | bury _ buries => exact supported.bury buries

/-- No move takes a deleted session back. -/
theorem Move.deleted {w : Writes} {s t : Store} {emission : Option Unit} (move : Move w s emission t) {id : JsString} (deleted : s.Deleted id) :
    t.Deleted id := by
  obtain ⟨row, stored, gone⟩ := deleted
  cases move with
  | touch kept =>
    obtain ⟨next, found, same⟩ := kept.after stored
    exact ⟨next, found, same.deleted.trans gone⟩
  | enroll inserted =>
    refine ⟨row, ?_, gone⟩
    rw [Table.get?_insert inserted, if_neg, stored]
    rintro rfl
    rw [Table.fresh_of_insert? inserted] at stored
    cases stored
  | clear same =>
    rw [same]
    exact ⟨row, stored, gone⟩
  | bury _ buries =>
    refine ⟨row, ?_, gone⟩
    rw [buries.sessions, stored, Option.map_some, tombstone_of_deleted gone, ite_self]
  | _ => exact ⟨row, stored, gone⟩

section Runs

variable {env : Env} {w : Writes}

/-- Ids are the draws in decimal, and a digest is the text itself. -/
def plainEnv : Env := ⟨fun text => text, Json.decimal⟩

theorem Acts.supported {s t : Store} (acts : Acts w s t) (supported : Supported s) : Supported t := by
  obtain ⟨emitted, trace, _⟩ := acts
  exact trace.preserves (fun _ _ _ move => move.supported) supported

theorem Acts.deleted {s t : Store} (acts : Acts w s t) {id : JsString} (deleted : s.Deleted id) : t.Deleted id := by
  obtain ⟨emitted, trace, _⟩ := acts
  exact trace.preserves (fun _ _ _ move => move.deleted) deleted

theorem run_snoc (events : List Event) (event : Event) : run env (events ++ [event]) = act env (run env events) event := by
  rw [run, List.foldl_append]
  rfl

theorem run_invariant {P : Store → Prop} {events : List Event} (empty : P .empty)
    (acts : ∀ event ∈ events, ∀ s, P s → P (act env s event)) : P (run env events) := by
  induction events using List.reverseRecOn with
  | nil => exact empty
  | append_singleton events event ih =>
    rw [run, List.foldl_append]
    exact acts event (by simp) _ (ih fun event member => acts event (by simp [member]))

/-- An invariant of every call holds of every run. -/
theorem run_induction {P : Store → Prop} (empty : P .empty) (acts : ∀ w s t, Acts w s t → P s → P t) (events : List Event) :
    P (run env events) :=
  run_invariant empty fun event _ _ => acts _ _ _ (step_acts event.op)

/-- A preorder that every call climbs. -/
theorem run_relates {R : Store → Store → Prop} (refl : ∀ s, R s s) (trans : ∀ s t u, R s t → R t u → R s u)
    (acts : ∀ w s t, Acts w s t → R s t) (events more : List Event) : R (run env events) (run env (events ++ more)) := by
  rw [run, run, List.foldl_append]
  exact foldl_relates refl trans (act env) (fun s event => acts _ s _ (step_acts event.op)) more _

theorem run_supported (events : List Event) : Supported (run env events) :=
  run_induction supported_empty (fun _ _ _ acts => acts.supported) events

end Runs

section Claims

/-- `ancestor` is above `id` in the forest of sessions. -/
def Ancestor (sessions : Sessions) : JsString → JsString → Prop :=
  Relation.TransGen fun parent id => ∃ row, sessions.get? id = some row ∧ row.parentSessionId = some parent

theorem Supported.ancestor {s : Store} (supported : Supported s) {ancestor id : JsString}
    (above : Ancestor s.sessions ancestor id) (live : s.Live id) : s.Live ancestor := by
  induction above using Relation.TransGen.head_induction_on with
  | single edge =>
    obtain ⟨row, stored, parent⟩ := edge
    obtain ⟨other, found, alive⟩ := live
    cases found.symm.trans stored
    exact supported.parents _ row _ stored alive parent
  | head edge _ ih =>
    obtain ⟨row, stored, parent⟩ := edge
    obtain ⟨other, found, alive⟩ := ih
    cases found.symm.trans stored
    exact supported.parents _ row _ stored alive parent

/-- What is deleted has no live session below it and no work waiting for it, and the store reports none. -/
structure Cleared (s : Store) : Prop where
  ancestors : ∀ ancestor id, Ancestor s.sessions ancestor id → s.Live id → ¬s.Deleted ancestor
  targets : ∀ id row, s.messages.get? id = some row → row.state.waiting = true → ¬s.Deleted row.targetId
  senders : ∀ id row, s.messages.get? id = some row → row.state = .accepted → ¬s.Deleted row.senderId
  tasks : ∀ id row, s.tasks.get? id = some row → row.unfinished = true → ¬s.Deleted row.childId
  inputs : ∀ id row, s.inputs.get? id = some row → ¬s.Deleted row.sessionId
  diagnosis : ∀ violations, ∀ issue ∈ diagnose s violations, issue.code ≠ .messageTargetsDeletedSession
    ∧ issue.code ≠ .messageAwaitsDeletedSender ∧ issue.code ≠ .taskTargetsDeletedChild

theorem deletedSessionIssues_eq_nil {α : Type} {s : Store} {t : Table JsString α} {code : IssueCode} {owner : α → JsString}
    {waits : α → Bool} (live : ∀ id row, t.get? id = some row → waits row = true → s.Live (owner row)) :
    deletedSessionIssues s.sessions t code owner waits = [] := by
  have nothing : (t.collect fun id row =>
      if waits row = true ∧ (s.sessions.get? (owner row)).any Session.deleted = true then
        some (⟨code, id, owner row⟩ : Issue) else none) = [] := by
    apply List.eq_nil_iff_forall_not_mem.mpr
    intro issue member
    obtain ⟨id, row, stored, listed⟩ := Table.mem_collect.mp member
    split at listed
    · next waiting => exact (live id row stored waiting.1).not_deleted (isDeleted_iff.mp waiting.2)
    · cases listed
  rw [deletedSessionIssues, nothing, List.take_nil]

theorem Supported.cleared {s : Store} (supported : Supported s) : Cleared s where
  ancestors ancestor id above live := (supported.ancestor above live).not_deleted
  targets id row stored waiting := (supported.targets id row stored waiting).not_deleted
  senders id row stored accepted := (supported.senders id row stored accepted).not_deleted
  tasks id row stored unfinished := (supported.tasks id row stored unfinished).not_deleted
  inputs id row stored := (supported.inputs id row stored).not_deleted
  diagnosis violations issue member := by
    have targets := @deletedSessionIssues_eq_nil _ _ _ .messageTargetsDeletedSession _ Message.waits supported.targets
    have senders := @deletedSessionIssues_eq_nil _ _ _ .messageAwaitsDeletedSender _ Message.awaitsEntry
      fun id row stored awaits => supported.senders id row stored (of_decide_eq_true awaits)
    have tasks := @deletedSessionIssues_eq_nil _ _ _ .taskTargetsDeletedChild _ ChildTask.unfinished supported.tasks
    rw [diagnose, targets, senders, tasks, List.append_nil, List.append_nil, List.append_nil] at member
    rcases List.mem_append.mp (List.mem_of_mem_take member) with own | violation
    · obtain ⟨row, _, listed⟩ := List.mem_flatMap.mp own
      unfold sessionIssues at listed
      split at listed
      · cases listed
      · simp only [List.mem_append] at listed
        rcases listed with (listed | listed) | listed <;> split at listed <;>
          simp only [List.mem_singleton, List.not_mem_nil] at listed <;> simp [listed]
    · obtain ⟨violation, _, rfl⟩ := List.mem_map.mp violation
      exact ⟨by simp, by simp, by simp⟩

/-- Deletion is final, and in every store that calls lead to, deleted sessions are cleared. -/
theorem run_cleared (env : Env) (events : List Event) :
    Cleared (run env events) ∧ ∀ more id, (run env events).Deleted id → (run env (events ++ more)).Deleted id :=
  ⟨(run_supported events).cleared, fun more id =>
    run_relates (R := fun s t => s.Deleted id → t.Deleted id) (fun _ deleted => deleted) (fun _ _ _ first second => second ∘ first)
      (fun _ _ _ acts => acts.deleted) events more⟩

end Claims

end PersistentHarness.SessionStore

/-! ## Launch policies

A launch policy is written as JSON and read back before every update. A reachable store holds only policies
that were written, and an update that leaves the pending selection of a policy alone leaves it alone in the
store.
-/

namespace PersistentHarness.SessionStore

open Checked (Ensures)

/-- The selection of a session that its actor has not applied yet. -/
def pendingOf (s : Store) (id : JsString) : Value :=
  ((s.sessions.get? id).map fun row => (launchOf row).get (js "pendingInference")).getD .undefined

section Values

theorem written_eq {v : Value} (defined : v ≠ .undefined) : written v = Json.readBack v := by
  rw [written, Json.parse_stringify_readBack defined, Option.getD_some]

/-- Member names are distinct, as in every value of the program. -/
def Plain (v : Value) : Prop := (Assoc.keys v.fields).Nodup

theorem Plain.set {v : Value} (plain : Plain v) (key : JsString) (w : Value) : Plain (v.set key w) :=
  Assoc.keys_nodup_set plain key w

theorem Plain.delete {v : Value} (plain : Plain v) (key : JsString) : Plain (v.delete key) :=
  Assoc.keys_nodup_erase plain key

theorem plain_of_isData {v : Value} (data : Json.IsData v) : Plain v := by
  cases v with
  | obj fields => exact data.1
  | _ => exact List.nodup_nil

theorem get_written {v : Value} (plain : Plain v) (key : JsString) : (written v).get key = Json.readBackMember (v.get key) := by
  by_cases defined : v = .undefined
  · rw [defined]
    rfl
  · rw [written_eq defined, Json.get_readBack plain]

theorem written_plain (v : Value) : Plain (written v) := by
  by_cases defined : v = .undefined
  · rw [defined]
    exact List.nodup_nil
  · rw [written_eq defined]
    exact plain_of_isData (Json.isData_readBack v)

theorem written_get (v : Value) (key : JsString) : Json.readBackMember ((written v).get key) = (written v).get key := by
  by_cases defined : v = .undefined
  · rw [defined]
    rfl
  · have plain := plain_of_isData (Json.isData_readBack v)
    rw [written_eq defined, ← Json.get_readBack plain, Json.readBack_readBack]

end Values

section Rows

variable {w : Writes} {s t : Store} {emission : Option Unit}

/-- The launch policy of a row was written, if it has one. -/
def Session.Written (row : Session) : Prop := row.launch = none ∨ ∃ launch, row.launch = some (written launch)

def LaunchesWritten (s : Store) : Prop := ∀ id row, s.sessions.get? id = some row → Session.Written row

theorem Session.Written.plain {row : Session} (stored : Session.Written row) : Plain (launchOf row) := by
  rcases stored with none | ⟨launch, some⟩
  · rw [launchOf, none]
    exact List.nodup_nil
  · rw [launchOf, some]
    exact written_plain launch

theorem Session.Written.get {row : Session} (stored : Session.Written row) (key : JsString) :
    Json.readBackMember ((launchOf row).get key) = (launchOf row).get key := by
  rcases stored with none | ⟨launch, some⟩
  · rw [launchOf, none]
    rfl
  · rw [launchOf, some]
    exact written_get launch key

theorem tombstone_launch (now : ℤ) (row : Session) : (tombstone now row).launch = row.launch := by
  unfold tombstone
  split <;> rfl

theorem Move.launchesWritten (move : Move w s emission t) (stored : LaunchesWritten s) : LaunchesWritten t := by
  intro id row found
  cases move with
  | touch kept =>
    obtain ⟨before, here, same⟩ := kept.before found
    rcases same.launch with launch | ⟨_, written⟩
    · rw [Session.Written, launch]
      exact stored id before here
    · exact .inr written
  | enroll inserted _ fresh =>
    rw [Table.get?_insert inserted] at found
    split at found
    · cases found
      exact .inr fresh.launch
    · exact stored id row found
  | clear same =>
    rw [same] at found
    exact stored id row found
  | bury _ buries =>
    rw [buries.sessions] at found
    obtain ⟨before, here, rfl⟩ := Option.map_eq_some_iff.mp found
    split
    · rw [Session.Written, tombstone_launch]
      exact stored id before here
    · exact stored id before here
  | _ => exact stored id row found

theorem run_launchesWritten (env : Env) (events : List Event) : LaunchesWritten (run env events) :=
  run_induction (by rintro id row ⟨⟩)
    (fun _ _ _ ⟨_, trace, _⟩ stored => trace.preserves (fun _ _ _ move => move.launchesWritten) stored) events

/-- A call that writes no policy leaves every policy as it is. -/
theorem Move.launch (steady : w.launch = false) (move : Move w s emission t) {id : JsString} {row : Session}
    (found : s.sessions.get? id = some row) : ∃ next, t.sessions.get? id = some next ∧ next.launch = row.launch := by
  cases move with
  | touch kept =>
    obtain ⟨next, here, same⟩ := kept.after found
    exact ⟨next, here, same.launch_eq steady⟩
  | enroll inserted =>
    refine ⟨row, ?_, rfl⟩
    rw [Table.get?_insert inserted, if_neg, found]
    rintro rfl
    rw [Table.fresh_of_insert? inserted] at found
    cases found
  | clear same =>
    rw [same]
    exact ⟨row, found, rfl⟩
  | bury _ buries =>
    refine ⟨_, by rw [buries.sessions, found, Option.map_some], ?_⟩
    split
    · exact tombstone_launch _ row
    · rfl
  | _ => exact ⟨row, found, rfl⟩

theorem Acts.launch (steady : w.launch = false) (acts : Acts w s t) {id : JsString} {row : Session}
    (found : s.sessions.get? id = some row) : ∃ next, t.sessions.get? id = some next ∧ next.launch = row.launch := by
  obtain ⟨emitted, trace, _⟩ := acts
  refine trace.preserves (P := fun t => ∃ next, t.sessions.get? id = some next ∧ next.launch = row.launch) ?_ ⟨row, found, rfl⟩
  rintro s' emission t' move ⟨next, here, same⟩
  obtain ⟨last, there, kept⟩ := move.launch steady here
  exact ⟨last, there, kept.trans same⟩

end Rows

end PersistentHarness.SessionStore
