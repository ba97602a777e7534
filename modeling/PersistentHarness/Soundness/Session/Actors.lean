import PersistentHarness.Soundness.Session.Refresh

/-! # Calls on actors

A call changes one session and refreshes those above it, buries a subtree, queues the actors of a lost daemon, or
leaves the columns of the actors alone. What works below a session is followed through each of these.
-/

namespace PersistentHarness.SessionStore

open Checked (Ensures)

/-- A session keeps its place and the columns of its actor. -/
structure SameActor (a b : Session) : Prop extends Placed a b, ActorKept a b where
  deleted : b.deleted = a.deleted

/-- The sessions of before keep the columns of their actors, and new ones wait for their start. -/
structure Steady (s t : Sessions) : Prop where
  kept : ∀ id row, s.get? id = some row → ∃ next, t.get? id = some next ∧ SameActor row next
  admitted : ∀ id row, s.get? id = none → t.get? id = some row → row.lifecycle = .starting ∧ row.activity = .inactive

/-- The actor of a session is queued again. -/
structure Requeued (row next : Session) : Prop extends Placed row next where
  lifecycle : next.lifecycle = .starting
  activity : next.activity = .inactive

/-- What a call makes of the session of one actor; a `stale` call does not look at who works below it. -/
structure Turned (stale : Prop) (delegates : Bool) (row next : Session) : Prop extends Placed row next where
  live : row.deleted = false ∧ next.deleted = false
  shows : ¬stale → next.activity = shownActivity next delegates
  resident : next.lifecycle = .resident → next.activity = shownActivity next delegates
    ∧ (next.quietSince = none ↔ next.streaming = true)
  away : next.lifecycle ≠ .resident → next.activity ≠ .working
  rests : row.lifecycle = .resident → next.lifecycle = .resident → next.streaming = false → ∀ since,
    row.quietSince = some since → next.quietSince = some since
  stales : stale → next.lifecycle = .starting ∧ next.activity = .inactive ∧ delegates = true

inductive ActorCall (stale : Prop) (s t : Sessions) : Prop
  | steady (fresh : ¬stale) (same : Steady s t)
  | turn {id : JsString} {row next : Session} {now : ℤ} (stored : s.get? id = some row)
      (turned : Turned stale (decide (0 < workingDescendantCount s id)) row next)
      (rows : Refreshed now (s.update id fun _ => next) t fun other => Ancestor s other id)
  | bury {u v : Sessions} {id : JsString} {ids : List JsString} {now time : ℤ} (fresh : ¬stale) (before : s.Evolves SameActor u)
      (below : ∀ other row, u.get? other = some row → (other ∈ ids ↔ other = id ∨ Ancestor u id other))
      (buried : ∀ other, v.get? other = (u.get? other).map fun row => if other ∈ ids then tombstone time row else row)
      (rows : Refreshed now v t fun other => Ancestor u other id)
  | requeue {owner : JsString → Prop} (rows : ∀ id row, s.get? id = some row → ∃ next, t.get? id = some next ∧
        (owner id → Requeued row next) ∧ (¬owner id → next = row))
      (known : ∀ id row, t.get? id = some row → ∃ old, s.get? id = some old)
      (lost : ∀ id row, s.get? id = some row → row.lifecycle = .resident → owner id)
      (stales : stale ↔ ∃ id row, s.get? id = some row ∧ row.deleted = false ∧ ¬owner id
        ∧ 0 < workingDescendantCount s id)

section Works

variable {s t : Sessions} {id : JsString}

theorem worksBelow_agree (placed : s.Evolves Placed t) (agree : ∀ other, Ancestor s id other → t.get? other = s.get? other) :
    WorksBelow t id ↔ WorksBelow s id := by
  have agree' : ∀ other, Ancestor t id other → t.get? other = s.get? other :=
    fun other above => agree other ((ancestor_evolve placed).mpr above)
  constructor
  · rintro ⟨other, row, below, stored, works⟩
    refine ⟨other, row, below.mono fun l a path found live => ?_, (agree' other below.ancestor) ▸ stored, works⟩
    exact ⟨a, (agree' l (LiveBelow.ancestor path)) ▸ found, live, rfl⟩
  · rintro ⟨other, row, below, stored, works⟩
    refine ⟨other, row, below.mono fun l a path found live => ?_, (agree other below.ancestor).trans stored, works⟩
    exact ⟨a, (agree l (LiveBelow.ancestor path)).trans found, live, rfl⟩

theorem SameActor.refl (a : Session) : SameActor a a := ⟨.refl a, .refl a, rfl⟩

theorem SameActor.trans {a b c : Session} (first : SameActor a b) (second : SameActor b c) : SameActor a c :=
  ⟨⟨second.parent.trans first.parent, second.depth.trans first.depth⟩, first.toActorKept.trans second.toActorKept,
    second.deleted.trans first.deleted⟩

theorem Steady.refl (s : Sessions) : Steady s s where
  kept id row stored := ⟨row, stored, .refl row⟩
  admitted id row fresh stored := by
    rw [fresh] at stored
    cases stored

theorem Steady.trans {u : Sessions} (first : Steady s t) (second : Steady t u) : Steady s u where
  kept id row stored := by
    obtain ⟨middle, found, kept⟩ := first.kept id row stored
    obtain ⟨last, found', kept'⟩ := second.kept id middle found
    exact ⟨last, found', kept.trans kept'⟩
  admitted id row fresh stored := by
    cases here : t.get? id with
    | none => exact second.admitted id row here stored
    | some between =>
      obtain ⟨starting, inactive⟩ := first.admitted id between fresh here
      obtain ⟨last, found, kept⟩ := second.kept id between here
      cases found.symm.trans stored
      exact ⟨kept.lifecycle.trans starting, kept.activity.trans inactive⟩

theorem Steady.path (same : Steady s t) (rooted : Rooted s) {other : JsString} {old : Session} (below : LiveBelow t id other)
    (stored : s.get? other = some old) : (∃ row, s.get? id = some row) ∧ LiveBelow s id other := by
  induction below generalizing old with
  | single edge =>
    obtain ⟨row, found, live, parent⟩ := edge
    obtain ⟨next, found', kept⟩ := same.kept _ old stored
    cases found.symm.trans found'
    have edge : old.parentSessionId = some id := kept.parent ▸ parent
    obtain ⟨above, there, _⟩ := rooted.ranked _ old id stored edge
    exact ⟨⟨above, there⟩, .single ⟨old, stored, by simpa [kept.deleted] using live, edge⟩⟩
  | tail _ edge ih =>
    obtain ⟨row, found, live, parent⟩ := edge
    obtain ⟨next, found', kept⟩ := same.kept _ old stored
    cases found.symm.trans found'
    have edge : old.parentSessionId = some _ := kept.parent ▸ parent
    obtain ⟨above, there, _⟩ := rooted.ranked _ old _ stored edge
    obtain ⟨known, path⟩ := ih there
    exact ⟨known, .tail path ⟨old, stored, by simpa [kept.deleted] using live, edge⟩⟩

theorem Steady.worksBelow (same : Steady s t) (rooted : Rooted s) :
    WorksBelow t id ↔ WorksBelow s id := by
  constructor
  · rintro ⟨other, row, below, stored, works⟩
    cases here : s.get? other with
    | none =>
      rw [(same.admitted other row here stored).2] at works
      cases works
    | some old =>
      obtain ⟨next, found, kept⟩ := same.kept other old here
      cases found.symm.trans stored
      exact ⟨other, old, (same.path rooted below here).2, here, kept.activity.symm.trans works⟩
  · rintro ⟨other, row, below, stored, works⟩
    obtain ⟨next, found, kept⟩ := same.kept other row stored
    refine ⟨other, next, below.mono fun l a _ there live => ?_, found, kept.activity.trans works⟩
    obtain ⟨later, found', kept⟩ := same.kept l a there
    exact ⟨later, found', by rw [kept.deleted]; exact live, kept.parent⟩

theorem Steady.not_worksBelow (same : Steady s t) (rooted : Rooted s) (fresh : s.get? id = none) : ¬WorksBelow t id := by
  intro works
  obtain ⟨other, row, below, stored, _⟩ := (same.worksBelow rooted).mp works
  obtain ⟨⟨old, there⟩, _⟩ := (Steady.refl s).path rooted below stored
  rw [fresh] at there
  cases there

end Works

section Rows

variable {stale : Prop} {s t u : Sessions} {now : ℤ} {id : JsString}

inductive RowCall (stale : Prop) (s t : Sessions) (id : JsString) (row : Session) : Prop
  | admitted (fresh : s.get? id = none) (waits : row.lifecycle = .starting ∧ row.activity = .inactive)
      (alone : ¬WorksBelow t id)
  | kept {old : Session} (stored : s.get? id = some old) (same : SameActor old row)
      (works : WorksBelow t id ↔ WorksBelow s id)
  | shown {old : Session} {now : ℤ} (stored : s.get? id = some old)
      (shown : row = refreshed now (decide (0 < workingDescendantCount t id)) old)
  | turned {old : Session} (stored : s.get? id = some old)
      (turned : Turned stale (decide (0 < workingDescendantCount t id)) old row)
  | buried (gone : row.lifecycle = .deleted) (idle : row.activity ≠ .working)
  | requeued (waits : row.lifecycle = .starting ∧ row.activity = .inactive) (alone : ¬WorksBelow t id)
  | left (stored : s.get? id = some row) (away : row.lifecycle ≠ .resident) (alone : ¬WorksBelow t id)
      (stales : ¬stale → row.deleted = false → ¬WorksBelow s id)

theorem Refreshed.sameWork {above : JsString → Prop} (rows : Refreshed now u t above) (busy : Busy u) :
    u.Evolves SameWork t := by
  classical
  refine .of_map (f := fun id row =>
    if above id then refreshed now (decide (0 < workingDescendantCount u id)) row else row) (fun id => ?_) fun id row stored => ?_
  · by_cases up : above id
    · simp only [if_pos up, rows.inside id up]
    · simp only [if_neg up, rows.outside id up, Option.map_id']
  · split
    · exact refreshed_sameWork (busy id row stored)
    · exact .refl row

theorem turn_agree (rooted : Rooted s) {row next : Session} (stored : s.get? id = some row) (placed : Placed row next)
    {other : JsString} (apart : ¬Ancestor s other id) :
    WorksBelow (s.update id fun _ => next) other ↔ WorksBelow s other := by
  refine worksBelow_agree (.update Placed.refl fun old found => ?_) fun below path => ?_
  · cases stored.symm.trans found
    exact placed
  · rw [Table.get?_update_of stored, if_neg]
    rintro rfl
    exact apart path

theorem turn_busy (busy : Busy s) {row next : Session} (stored : s.get? id = some row)
    (turned : Turned stale (decide (0 < workingDescendantCount s id)) row next) : Busy (s.update id fun _ => next) := by
  intro other old found
  rw [Table.get?_update_of stored] at found
  split at found
  · cases found
    by_cases resident : next.lifecycle = .resident
    · rw [(turned.resident resident).1]
      exact shownActivity_working
    · simp [turned.away resident, resident]
  · exact busy other old found

theorem turn_placed {row next : Session} (stored : s.get? id = some row)
    (turned : Turned stale (decide (0 < workingDescendantCount s id)) row next) :
    s.Evolves Placed (s.update id fun _ => next) := .update Placed.refl fun old here => by
  cases stored.symm.trans here
  exact turned.toPlaced

theorem turn_counts (rooted : Rooted s) (busy : Busy s) {row next : Session} (stored : s.get? id = some row)
    (turned : Turned stale (decide (0 < workingDescendantCount s id)) row next)
    (rows : Refreshed now (s.update id fun _ => next) t fun other => Ancestor s other id) {other : JsString}
    (apart : ¬Ancestor s other id) : WorksBelow t other ↔ WorksBelow s other :=
  (worksBelow_evolve (rows.sameWork (turn_busy busy stored turned))).symm.trans
    (turn_agree rooted stored turned.toPlaced apart)

theorem turn_self (rooted : Rooted s) {row next : Session} (stored : s.get? id = some row)
    (rows : Refreshed now (s.update id fun _ => next) t fun other => Ancestor s other id) : t.get? id = some next := by
  rw [rows.outside id rooted.not_ancestor, Table.get?_update_of stored, if_pos rfl]

theorem decide_count (rooted : Rooted s) (rooted' : Rooted t) (works : WorksBelow t id ↔ WorksBelow s id) :
    decide (0 < workingDescendantCount t id) = decide (0 < workingDescendantCount s id) := by
  rw [decide_eq_decide, workingDescendantCount_pos rooted', workingDescendantCount_pos rooted, works]

theorem turn_rows (rooted : Rooted s) (rooted' : Rooted t) (busy : Busy s) {row next : Session} (stored : s.get? id = some row)
    (turned : Turned stale (decide (0 < workingDescendantCount s id)) row next)
    (rows : Refreshed now (s.update id fun _ => next) t fun other => Ancestor s other id) {other : JsString} {final : Session}
    (found : t.get? other = some final) : RowCall stale s t other final := by
  have same := rows.sameWork (turn_busy busy stored turned)
  by_cases up : Ancestor s other id
  · have shown := rows.inside other up
    rw [Table.get?_update_of stored, if_neg (by rintro rfl; exact rooted.not_ancestor up), found] at shown
    obtain ⟨old, here, same'⟩ := Option.map_eq_some_iff.mp shown.symm
    rw [← count_evolve (rooted.evolve (turn_placed stored turned)) same other] at same'
    exact .shown here same'.symm
  · have works := turn_counts rooted busy stored turned rows up
    have kept := (rows.outside other up).symm.trans found
    rw [Table.get?_update_of stored] at kept
    split at kept
    · next here =>
      subst here
      cases kept
      exact .turned stored (decide_count rooted rooted' works ▸ turned)
    · exact .kept kept (.refl final) works

theorem Steady.row (same : Steady s t) (rooted : Rooted s) {row : Session} (found : t.get? id = some row) :
    RowCall stale s t id row := by
  cases here : s.get? id with
  | none => exact .admitted here (same.admitted id row here found) (same.not_worksBelow rooted here)
  | some old =>
    obtain ⟨next, found', kept⟩ := same.kept id old here
    cases found'.symm.trans found
    exact .kept here kept (same.worksBelow rooted)

theorem tombstone_gone (time : ℤ) (row : Session) (busy : row.activity = .working ↔ row.lifecycle = .resident ∧ row.streaming = true) :
    (tombstone time row).lifecycle = .deleted ∧ (tombstone time row).activity ≠ .working := by
  unfold tombstone
  split
  · next deleted =>
    have gone : row.lifecycle = .deleted := of_decide_eq_true deleted
    exact ⟨gone, fun works => by simp [gone] at busy; exact busy works⟩
  · exact ⟨rfl, by rintro ⟨⟩⟩

theorem Busy.evolve (busy : Busy s) (same : s.Evolves SameActor u) : Busy u := by
  intro id row found
  obtain ⟨old, here, kept⟩ := same.before found
  rw [kept.activity, kept.lifecycle, kept.streaming]
  exact busy id old here

theorem buried_placed {v : Sessions} {ids : List JsString} {time : ℤ}
    (buried : ∀ other, v.get? other = (u.get? other).map fun row => if other ∈ ids then tombstone time row else row) :
    u.Evolves Placed v := .of_map buried fun other row _ => by
  split
  · exact tombstone_placed time row
  · exact .refl row

theorem Busy.bury (busy : Busy u) {v : Sessions} {ids : List JsString} {time : ℤ}
    (buried : ∀ other, v.get? other = (u.get? other).map fun row => if other ∈ ids then tombstone time row else row) :
    Busy v := by
  intro other row stored
  rw [buried] at stored
  obtain ⟨old, here, rfl⟩ := Option.map_eq_some_iff.mp stored
  split
  · obtain ⟨gone, idle⟩ := tombstone_gone time old (busy other old here)
    simp [gone, idle]
  · exact busy other old here

theorem bury_rows (rooted : Rooted u) (busy : Busy u) {v : Sessions} {ids : List JsString} {time : ℤ}
    (below : ∀ other row, u.get? other = some row → (other ∈ ids ↔ other = id ∨ Ancestor u id other))
    (buried : ∀ other, v.get? other = (u.get? other).map fun row => if other ∈ ids then tombstone time row else row)
    (rows : Refreshed now v t fun other => Ancestor u other id) {other : JsString} {final : Session}
    (found : t.get? other = some final) : RowCall stale u t other final := by
  have placed := buried_placed buried
  have rooted' := rooted.evolve placed
  have same := rows.sameWork (busy.bury buried)
  have up_out : ∀ other row, u.get? other = some row → Ancestor u other id → other ∉ ids := by
    intro other row stored up member
    rcases (below other row stored).mp member with rfl | down
    · exact rooted.not_ancestor up
    · exact rooted.not_ancestor (up.trans down)
  by_cases up : Ancestor u other id
  · have shown := rows.inside other up
    rw [found, buried] at shown
    obtain ⟨middle, there, same'⟩ := Option.map_eq_some_iff.mp shown.symm
    obtain ⟨old, here, rfl⟩ := Option.map_eq_some_iff.mp there
    rw [if_neg (up_out other old here up), ← count_evolve rooted' same other] at same'
    exact .shown here same'.symm
  · have kept := (rows.outside other up).symm.trans found
    rw [buried] at kept
    obtain ⟨old, here, rfl⟩ := Option.map_eq_some_iff.mp kept
    by_cases member : other ∈ ids
    · rw [if_pos member]
      obtain ⟨gone, idle⟩ := tombstone_gone time old (busy other old here)
      exact .buried gone idle
    · rw [if_neg member]
      refine .kept here (.refl old) ((worksBelow_evolve same).symm.trans (worksBelow_agree placed fun down path => ?_))
      rw [buried]
      cases there : u.get? down with
      | none => rfl
      | some row =>
        rw [Option.map_some, if_neg]
        -- a session that is buried below this one puts this one above or below the deleted session
        intro gone
        rcases (below down row there).mp gone with rfl | under
        · exact up path
        · rcases (ancestor_iff_below.mp path).compare (ancestor_iff_below.mp under) with same | above | beneath
          · exact member ((below other old here).mpr (.inl same))
          · exact up (ancestor_iff_below.mpr above)
          · exact member ((below other old here).mpr (.inr (ancestor_iff_below.mpr beneath)))

/-- Nobody works after the restart of a daemon. -/
theorem requeue_idle (busy : Busy s) {owner : JsString → Prop}
    (rows : ∀ id row, s.get? id = some row → ∃ next, t.get? id = some next ∧ (owner id → Requeued row next)
      ∧ (¬owner id → next = row))
    (known : ∀ id row, t.get? id = some row → ∃ old, s.get? id = some old)
    (lost : ∀ id row, s.get? id = some row → row.lifecycle = .resident → owner id) : ¬WorksBelow t id := by
  rintro ⟨other, row, _, stored, works⟩
  obtain ⟨old, here⟩ := known other row stored
  obtain ⟨next, there, requeued, left⟩ := rows other old here
  cases there.symm.trans stored
  by_cases own : owner other
  · rw [(requeued own).activity] at works
    cases works
  · cases left own
    exact own (lost other row here ((busy other row here).mp works).1)

theorem requeue_rows (rooted : Rooted s) (busy : Busy s) {owner : JsString → Prop}
    (rows : ∀ id row, s.get? id = some row → ∃ next, t.get? id = some next ∧ (owner id → Requeued row next)
      ∧ (¬owner id → next = row))
    (known : ∀ id row, t.get? id = some row → ∃ old, s.get? id = some old)
    (lost : ∀ id row, s.get? id = some row → row.lifecycle = .resident → owner id)
    (stales : stale ↔ ∃ id row, s.get? id = some row ∧ row.deleted = false ∧ ¬owner id ∧ 0 < workingDescendantCount s id)
    {final : Session} (found : t.get? id = some final) : RowCall stale s t id final := by
  have alone : ¬WorksBelow t id := requeue_idle busy rows known lost
  obtain ⟨old, here⟩ := known id final found
  obtain ⟨next, there, requeued, left⟩ := rows id old here
  cases there.symm.trans found
  by_cases own : owner id
  · exact .requeued ⟨(requeued own).lifecycle, (requeued own).activity⟩ alone
  · cases left own
    refine .left here (fun resident => own (lost id _ here resident)) alone fun fresh live works => ?_
    exact fresh (stales.mpr ⟨id, _, here, live, own, (workingDescendantCount_pos rooted).mpr works⟩)

theorem ActorCall.row (call : ActorCall stale s t) (rooted : Rooted s) (rooted' : Rooted t) (busy : Busy s) {row : Session}
    (found : t.get? id = some row) :
    ∃ u, s.Evolves SameActor u ∧ RowCall stale u t id row := by
  have itself : s.Evolves SameActor s := .refl SameActor.refl s
  cases call with
  | steady fresh same => exact ⟨s, itself, same.row rooted found⟩
  | turn stored turned rows => exact ⟨s, itself, turn_rows rooted rooted' busy stored turned rows found⟩
  | bury fresh before below buried rows =>
    have rooted' := rooted.evolve (before.mono fun _ _ => SameActor.toPlaced)
    exact ⟨_, before, bury_rows rooted' (busy.evolve before) below buried rows found⟩
  | requeue rows known lost stales =>
    exact ⟨s, itself, requeue_rows rooted busy rows known lost stales found⟩

end Rows

end PersistentHarness.SessionStore
