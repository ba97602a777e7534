import PersistentHarness.Soundness.Session.Deleted

/-! # The forest of sessions

A child is admitted below a session that is there, so depths grow along the edges and nothing is below itself.
The working descendants that the store counts are the sessions that work below a session, with live sessions only
between them.
-/

namespace PersistentHarness.SessionStore

/-- A new child has an id; the transcript that it is admitted with names it. -/
def Op.named : Op → Bool
  | .createChild _ params => params.sessionId ≠ []
  | _ => true

/-- Depths grow along the edges, and every session has an id. -/
structure Rooted (sessions : Sessions) : Prop where
  ranked : sessions.Ranked Session.parentSessionId Session.depth
  named : ∀ id row, sessions.get? id = some row → id ≠ []

/-- A session keeps its place in the forest. -/
structure Placed (a b : Session) : Prop where
  parent : b.parentSessionId = a.parentSessionId
  depth : b.depth = a.depth

/-- `other` is below `id` with live sessions only between them. -/
def LiveBelow (sessions : Sessions) : JsString → JsString → Prop :=
  sessions.Below Session.parentSessionId fun row => !row.deleted

def WorksBelow (sessions : Sessions) (id : JsString) : Prop :=
  ∃ other row, LiveBelow sessions id other ∧ sessions.get? other = some row ∧ row.activity = .working

section Forest

variable {sessions next : Sessions} {id : JsString}

theorem Placed.refl (a : Session) : Placed a a := ⟨rfl, rfl⟩

theorem SessionKept.placed {w : Writes} {a b : Session} (kept : SessionKept w a b) : Placed a b := ⟨kept.parent, kept.depth⟩

theorem tombstone_placed (now : ℤ) (row : Session) : Placed row (tombstone now row) := by
  unfold tombstone
  split
  · exact .refl row
  · exact ⟨rfl, rfl⟩

theorem Rooted.evolve (rooted : Rooted sessions) (placed : sessions.Evolves Placed next) : Rooted next where
  ranked id row parent stored edge := by
    obtain ⟨old, found, same⟩ := placed.before stored
    obtain ⟨above, there, grows⟩ := rooted.ranked id old parent found (same.parent ▸ edge)
    obtain ⟨later, there', same'⟩ := placed.after there
    exact ⟨later, there', by rw [same.depth, same'.depth, grows]⟩
  named id row stored := by
    obtain ⟨old, found, _⟩ := placed.before stored
    exact rooted.named id old found

theorem Rooted.ancestor (rooted : Rooted sessions) {row : Session} (stored : sessions.get? id = some row) :
    row.ancestor = row.parentSessionId := by
  unfold Session.ancestor
  cases edge : row.parentSessionId with
  | none => rfl
  | some parent =>
    obtain ⟨above, there, _⟩ := rooted.ranked id row parent stored edge
    exact Option.filter_eq_some_iff.mpr ⟨rfl, decide_eq_true (rooted.named parent above there)⟩

theorem workingDescendantCount_pos (rooted : Rooted sessions) : 0 < workingDescendantCount sessions id ↔ WorksBelow sessions id := by
  unfold workingDescendantCount
  rw [Table.count_pos]
  constructor
  · rintro ⟨other, row, stored, counted⟩
    obtain ⟨below, apart, works⟩ := of_decide_eq_true counted
    exact ⟨other, row, (Table.mem_descendants.mp below).resolve_left apart, stored, works⟩
  · rintro ⟨other, row, below, stored, works⟩
    refine ⟨other, row, stored, decide_eq_true ⟨Table.mem_descendants.mpr (.inr below), ?_, works⟩⟩
    rintro rfl
    exact rooted.ranked.irrefl below

end Forest

section Runs

variable {env : Env} {w : Writes} {s t : Store}

theorem Move.rooted {emission : Option Unit} (move : Move w s emission t)
    (named : ∀ id, w.admits = some (.child, id) → id ≠ []) (rooted : Rooted s.sessions) : Rooted t.sessions := by
  cases move with
  | touch kept => exact rooted.evolve (kept.mono fun _ _ => SessionKept.placed)
  | @enroll new row sessions inserted admitted fresh =>
    refine ⟨fun id other parent stored edge => ?_, fun id other stored => ?_⟩
    · have above : ∀ row, s.sessions.get? parent = some row → sessions.get? parent = some row := by
        intro row there
        rw [Table.get?_insert inserted, if_neg, there]
        rintro rfl
        rw [Table.fresh_of_insert? inserted] at there
        cases there
      rw [Table.get?_insert inserted] at stored
      split at stored
      · cases stored
        obtain ⟨⟨parentRow, there, _⟩, depth⟩ := fresh.parent parent edge
        exact ⟨parentRow, above parentRow there, depth parentRow there⟩
      · obtain ⟨parentRow, there, grows⟩ := rooted.ranked id other parent stored edge
        exact ⟨parentRow, above parentRow there, grows⟩
    · rw [Table.get?_insert inserted] at stored
      split at stored
      · next here =>
        subst here
        cases kind : row.kind with
        | root => exact fresh.named kind
        | child => exact named _ (kind ▸ admitted)
      · exact rooted.named id other stored
  | clear same =>
    rw [same]
    exact rooted
  | bury _ buries =>
    refine rooted.evolve (.of_map buries.sessions fun id row _ => ?_)
    split
    · exact tombstone_placed _ row
    · exact .refl row
  | _ => exact rooted

theorem Acts.rooted (acts : Acts w s t) (named : ∀ id, w.admits = some (.child, id) → id ≠ []) (rooted : Rooted s.sessions) :
    Rooted t.sessions := by
  obtain ⟨emitted, trace, _⟩ := acts
  exact trace.preserves (P := fun s => Rooted s.sessions) (fun _ _ _ move => move.rooted named) rooted

theorem Op.named_admits {op : Op} (named : op.named = true) (id : JsString) (admitted : op.writes.admits = some (.child, id)) :
    id ≠ [] := by
  cases op with
  | createChild =>
    cases admitted
    exact of_decide_eq_true named
  | _ => cases admitted

theorem rooted_empty : Rooted Store.empty.sessions where
  ranked := by rintro id row parent ⟨⟩
  named := by rintro id row ⟨⟩

/-- A call that names its new child keeps the forest. -/
theorem act_rooted {event : Event} (named : event.op.named = true) (rooted : Rooted s.sessions) : Rooted (act env s event).sessions :=
  (step_acts event.op).rooted (Op.named_admits named) rooted

theorem liveBelow_of_ancestor (supported : Supported s) {id other : JsString} (above : Ancestor s.sessions id other)
    (live : s.Live other) : LiveBelow s.sessions id other := by
  induction above with
  | single edge =>
    obtain ⟨row, stored, parent⟩ := edge
    obtain ⟨alive, found, there⟩ := live
    cases found.symm.trans stored
    exact .single ⟨row, stored, by simp [there], parent⟩
  | tail before edge ih =>
    obtain ⟨row, stored, parent⟩ := edge
    obtain ⟨alive, found, there⟩ := live
    cases found.symm.trans stored
    exact .tail (ih (supported.parents _ row _ stored there parent)) ⟨row, stored, by simp [there], parent⟩

theorem LiveBelow.ancestor {sessions : Sessions} {id other : JsString} (below : LiveBelow sessions id other) :
    Ancestor sessions id other := by
  induction below with
  | single edge =>
    obtain ⟨row, stored, _, parent⟩ := edge
    exact .single ⟨row, stored, parent⟩
  | tail _ edge ih =>
    obtain ⟨row, stored, _, parent⟩ := edge
    exact .tail ih ⟨row, stored, parent⟩

theorem worksBelow_iff (supported : Supported s) {id : JsString} : WorksBelow s.sessions id ↔
    ∃ other row, Ancestor s.sessions id other ∧ s.sessions.get? other = some row ∧ row.deleted = false
      ∧ row.activity = .working := by
  constructor
  · rintro ⟨other, row, below, stored, works⟩
    refine ⟨other, row, below.ancestor, stored, ?_, works⟩
    obtain ⟨_, _, last, found, live, _⟩ := Relation.TransGen.tail'_iff.mp below
    cases found.symm.trans stored
    simpa using live
  · rintro ⟨other, row, above, stored, live, works⟩
    exact ⟨other, row, liveBelow_of_ancestor supported above ⟨row, stored, live⟩, stored, works⟩

end Runs

end PersistentHarness.SessionStore

/-! ## Refreshing the sessions above one

The walk up the ancestors rewrites the derived columns of each of them once. It changes nobody who works, so the
counts that it reads on its way are those from before.
-/

namespace PersistentHarness.SessionStore

/-- The activity that a session shows; `delegates` says whether a live descendant works. -/
def shownActivity (row : Session) (delegates : Bool) : Activity :=
  if row.lifecycle = .resident then if row.streaming then .working else if delegates then .delegating else .idle
  else if delegates then .delegating else .inactive

/-- A session after the refresh of its derived columns. -/
def refreshed (now : ℤ) (delegates : Bool) (row : Session) : Session :=
  { row with
    activity := shownActivity row delegates
    quietSince := if row.lifecycle = .resident ∧ row.streaming = false then row.quietSince.or (some now) else none }

def Busy (sessions : Sessions) : Prop :=
  ∀ id row, sessions.get? id = some row → (row.activity = .working ↔ row.lifecycle = .resident ∧ row.streaming = true)

/-- The rows of some sessions are refreshed, and the others are as they were. -/
structure Refreshed (now : ℤ) (sessions next : Sessions) (above : JsString → Prop) : Prop where
  inside : ∀ id, above id →
    next.get? id = (sessions.get? id).map (refreshed now (decide (0 < workingDescendantCount sessions id)))
  outside : ∀ id, ¬above id → next.get? id = sessions.get? id

/-- A session keeps its place, stays live or deleted, and works as before. -/
structure SameWork (a b : Session) : Prop extends Placed a b where
  deleted : b.deleted = a.deleted
  works : b.activity = .working ↔ a.activity = .working

section Rows

theorem SameWork.refl (a : Session) : SameWork a a := ⟨.refl a, rfl, .rfl⟩

theorem shownActivity_working {row : Session} {delegates : Bool} :
    shownActivity row delegates = .working ↔ row.lifecycle = .resident ∧ row.streaming = true := by
  unfold shownActivity
  split
  · next resident =>
    cases streaming : row.streaming with
    | true => simp [resident]
    | false => cases delegates <;> simp
  · next away => cases delegates <;> simp [away]

theorem refreshed_quiet {now : ℤ} {delegates : Bool} {row : Session} (resident : row.lifecycle = .resident) :
    (refreshed now delegates row).quietSince = none ↔ row.streaming = true := by
  cases streaming : row.streaming <;> simp [refreshed, resident, streaming]

theorem refreshed_sameWork {now : ℤ} {delegates : Bool} {row : Session}
    (busy : row.activity = .working ↔ row.lifecycle = .resident ∧ row.streaming = true) :
    SameWork row (refreshed now delegates row) :=
  ⟨⟨rfl, rfl⟩, rfl, shownActivity_working.trans busy.symm⟩

end Rows

section Tables

variable {sessions next : Sessions} {now : ℤ}

theorem liveBelow_evolve (same : sessions.Evolves SameWork next) {id other : JsString} (below : LiveBelow sessions id other) :
    LiveBelow next id other := by
  refine below.mono fun l row _ found live => ?_
  obtain ⟨later, found', kept⟩ := same.after found
  exact ⟨later, found', by rw [kept.deleted]; exact live, kept.parent⟩

theorem worksBelow_evolve (same : sessions.Evolves SameWork next) {id : JsString} : WorksBelow sessions id ↔ WorksBelow next id := by
  constructor
  · rintro ⟨other, row, below, stored, works⟩
    obtain ⟨later, found, kept⟩ := same.after stored
    exact ⟨other, later, liveBelow_evolve same below, found, kept.works.mpr works⟩
  · rintro ⟨other, row, below, stored, works⟩
    obtain ⟨old, found, kept⟩ := same.before stored
    refine ⟨other, old, below.mono fun l later _ there live => ?_, found, kept.works.mp works⟩
    obtain ⟨earlier, here, before⟩ := same.before there
    exact ⟨earlier, here, by rw [← before.deleted]; exact live, before.parent.symm⟩

theorem count_evolve (rooted : Rooted sessions) (same : sessions.Evolves SameWork next) (id : JsString) :
    decide (0 < workingDescendantCount next id) = decide (0 < workingDescendantCount sessions id) := by
  have rooted' := rooted.evolve (same.mono fun _ _ => SameWork.toPlaced)
  rw [decide_eq_decide, workingDescendantCount_pos rooted', workingDescendantCount_pos rooted]
  exact (worksBelow_evolve same).symm

theorem Busy.update (busy : Busy sessions) (current : JsString) {delegates : Bool} :
    Busy (sessions.update current (refreshed now delegates)) := by
  intro id row stored
  rw [Table.get?_update] at stored
  split at stored
  · obtain ⟨old, found, rfl⟩ := Option.map_eq_some_iff.mp stored
    exact shownActivity_working
  · exact busy id row stored

theorem ancestor_iff_below {id other : JsString} :
    Ancestor sessions id other ↔ sessions.Below Session.parentSessionId (fun _ => true) id other := by
  unfold Ancestor Table.Below
  simp only [true_and]

theorem Rooted.not_ancestor (rooted : Rooted sessions) {id : JsString} : ¬Ancestor sessions id id :=
  fun above => rooted.ranked.irrefl (ancestor_iff_below.mp above)

theorem ancestor_evolve (same : sessions.Evolves Placed next) {id other : JsString} :
    Ancestor sessions id other ↔ Ancestor next id other := by
  rw [ancestor_iff_below, ancestor_iff_below]
  constructor
  · refine fun above => above.mono fun l row _ found _ => ?_
    obtain ⟨later, found', kept⟩ := same.after found
    exact ⟨later, found', rfl, kept.parent⟩
  · refine fun above => above.mono fun l row _ found _ => ?_
    obtain ⟨old, found', kept⟩ := same.before found
    exact ⟨old, found', rfl, kept.parent.symm⟩

theorem ancestor_of_parent {id current parent : JsString} {row : Session} (stored : sessions.get? current = some row)
    (edge : row.parentSessionId = some parent) :
    Ancestor sessions id current ↔ id = parent ∨ Ancestor sessions id parent := by
  unfold Ancestor
  rw [Relation.TransGen.tail'_iff]
  constructor
  · rintro ⟨middle, path, other, found, up⟩
    cases stored.symm.trans found
    cases edge.symm.trans up
    rcases Relation.reflTransGen_iff_eq_or_transGen.mp path with same | above
    · exact .inl same.symm
    · exact .inr above
  · rintro (rfl | above)
    · exact ⟨_, .refl, row, stored, edge⟩
    · exact ⟨_, above.to_reflTransGen, row, stored, edge⟩

theorem walk_room {seen : List JsString} {current : JsString} {row : Session} (stored : sessions.get? current = some row)
    (distinct : seen.Nodup) (known : ∀ id ∈ seen, ∃ row, sessions.get? id = some row) (fresh : current ∉ seen) :
    seen.length < sessions.rows.length := by
  have keys : (current :: seen) ⊆ Assoc.keys sessions.rows := by
    intro id member
    have there : ∃ row, sessions.get? id = some row := by
      rcases List.mem_cons.mp member with rfl | later
      · exact ⟨row, stored⟩
      · exact known id later
    obtain ⟨row, found⟩ := there
    exact List.mem_map.mpr ⟨(id, row), Table.mem_rows.mpr found, rfl⟩
  have short := List.Nodup.length_le_of_subset (List.nodup_cons.mpr ⟨fresh, distinct⟩) keys
  rw [List.length_cons, Assoc.keys, List.length_map] at short
  exact short

theorem refreshFrom_succ {fuel : ℕ} {seen : List JsString} {current : JsString} {row : Session}
    (stored : sessions.get? current = some row) (fresh : current ∉ seen) :
    Store.refreshFrom now (fuel + 1) seen sessions current =
      let next := sessions.update current (refreshed now (decide (0 < workingDescendantCount sessions current)))
      match row.ancestor with
      | none => next
      | some parent => Store.refreshFrom now fuel (current :: seen) next parent := by
  have found : ((sessions.get? current).filter fun _ => decide (current ∉ seen)) = some row := by
    rw [stored]
    exact Option.filter_eq_some_iff.mpr ⟨rfl, decide_eq_true fresh⟩
  have agree : ∀ old, sessions.get? current = some old →
      { old with
        activity :=
          if row.lifecycle = .resident then
            if row.streaming then .working
            else if 0 < workingDescendantCount sessions current then .delegating else .idle
          else if 0 < workingDescendantCount sessions current then .delegating else .inactive
        quietSince := if row.lifecycle = .resident ∧ row.streaming = false then row.quietSince.or (some now) else none } =
      refreshed now (decide (0 < workingDescendantCount sessions current)) old := by
    intro old here
    cases stored.symm.trans here
    simp only [refreshed, shownActivity, decide_eq_true_eq]
  rw [Store.refreshFrom]
  simp only [found]
  rw [Table.update_congr agree] <;> rfl

theorem fresh_of_deeper {seen : List JsString} {current : JsString} {row : Session} (stored : sessions.get? current = some row)
    (deeper : ∀ id ∈ seen, ∃ other, sessions.get? id = some other ∧ row.depth < other.depth) : current ∉ seen := by
  intro member
  obtain ⟨other, found, below⟩ := deeper current member
  cases stored.symm.trans found
  exact Nat.lt_irrefl _ below

/-- The walk refreshes a session and everything above it. -/
theorem refreshFrom_refreshed (rooted : Rooted sessions) (busy : Busy sessions) {fuel : ℕ} {seen : List JsString}
    {current : JsString} {row : Session} (stored : sessions.get? current = some row) (distinct : seen.Nodup)
    (deeper : ∀ id ∈ seen, ∃ other, sessions.get? id = some other ∧ row.depth < other.depth)
    (room : sessions.rows.length ≤ fuel + seen.length) :
    Refreshed now sessions (Store.refreshFrom now fuel seen sessions current)
      fun id => id = current ∨ Ancestor sessions id current := by
  induction fuel generalizing sessions seen current row with
  | zero =>
    have short := walk_room stored distinct (fun id member => (deeper id member).imp fun _ there => there.1)
      (fresh_of_deeper stored deeper)
    omega
  | succ fuel ih =>
    have fresh := fresh_of_deeper stored deeper
    rw [refreshFrom_succ stored fresh, rooted.ancestor stored]
    have here (id : JsString) := Table.get?_update_of stored
      (refreshed now (decide (0 < workingDescendantCount sessions current))) id
    have same : sessions.Evolves SameWork
        (sessions.update current (refreshed now (decide (0 < workingDescendantCount sessions current)))) :=
      .update SameWork.refl fun row found => refreshed_sameWork (busy current row found)
    have length : (sessions.update current (refreshed now (decide (0 < workingDescendantCount sessions current)))).rows.length
        = sessions.rows.length := by rw [Table.update_rows, List.length_map]
    have working : Busy (sessions.update current (refreshed now (decide (0 < workingDescendantCount sessions current)))) :=
      busy.update current
    generalize sessions.update current (refreshed now (decide (0 < workingDescendantCount sessions current))) = next
      at here same length working
    dsimp only
    split
    · next top =>
      have nothing : ∀ id, ¬Ancestor sessions id current := by
        intro id above
        obtain ⟨_, _, other, found, edge⟩ := Relation.TransGen.tail'_iff.mp above
        cases stored.symm.trans found
        rw [top] at edge
        cases edge
      refine ⟨fun id above => ?_, fun id other => ?_⟩
      · cases above.resolve_right (nothing id)
        rw [here, if_pos rfl, stored, Option.map_some]
      · rw [here, if_neg fun at_it => other (.inl at_it)]
    · next parent edge =>
      have placed : sessions.Evolves Placed next := same.mono fun _ _ => SameWork.toPlaced
      obtain ⟨above, there, grows⟩ := rooted.ranked current row parent stored edge
      obtain ⟨above', there', kept⟩ := placed.after there
      have further : ∀ id ∈ current :: seen, ∃ other, next.get? id = some other ∧ above'.depth < other.depth := by
        intro id member
        have known : ∃ other, sessions.get? id = some other ∧ above.depth < other.depth := by
          rcases List.mem_cons.mp member with rfl | later
          · exact ⟨row, stored, by omega⟩
          · obtain ⟨other, found, below⟩ := deeper id later
            exact ⟨other, found, by omega⟩
        obtain ⟨other, found, below⟩ := known
        obtain ⟨later, found', kept'⟩ := placed.after found
        exact ⟨later, found', by rw [kept.depth, kept'.depth]; exact below⟩
      have rest := ih (rooted.evolve placed) working there' (List.nodup_cons.mpr ⟨fresh, distinct⟩) further
        (by rw [length, List.length_cons]; omega)
      refine ⟨fun id up => ?_, fun id other => ?_⟩
      · by_cases at_it : id = current
        · subst at_it
          have self := (here id).trans (if_pos rfl)
          rw [rest.outside, self, stored, Option.map_some]
          obtain ⟨later, found, kept'⟩ := placed.after stored
          rw [← ancestor_of_parent found (kept'.parent.trans edge)]
          exact (rooted.evolve placed).not_ancestor
        · have above := (ancestor_of_parent stored edge).mp (up.resolve_left at_it)
          rw [rest.inside id (above.imp_right (ancestor_evolve placed).mp), here, if_neg at_it, count_evolve rooted same]
      · rw [rest.outside, here, if_neg fun at_it => other (.inl at_it)]
        rintro (rfl | above)
        · exact other (.inr ((ancestor_of_parent stored edge).mpr (.inl rfl)))
        · exact other (.inr ((ancestor_of_parent stored edge).mpr (.inr ((ancestor_evolve placed).mpr above))))

theorem refreshAncestors_refreshed {s : Store} (now : ℤ) (rooted : Rooted s.sessions) (busy : Busy s.sessions) {id : JsString}
    {row : Session} (stored : s.sessions.get? id = some row) :
    Refreshed now s.sessions (s.refreshAncestors id now).sessions fun other => Ancestor s.sessions other id := by
  unfold Store.refreshAncestors
  rw [stored, Option.bind_some, rooted.ancestor stored]
  split
  · next top =>
    refine ⟨fun other above => ?_, fun _ _ => rfl⟩
    obtain ⟨_, _, last, found, edge⟩ := Relation.TransGen.tail'_iff.mp above
    cases stored.symm.trans found
    rw [top] at edge
    cases edge
  · next parent edge =>
    obtain ⟨above, there, _⟩ := rooted.ranked id row parent stored edge
    have walk := @refreshFrom_refreshed s.sessions now rooted busy s.sessions.rows.length [] _ _ there List.nodup_nil
      (by rintro id ⟨⟩) (Nat.le_refl _)
    exact ⟨fun other up => walk.inside other ((ancestor_of_parent stored edge).mp up),
      fun other apart => walk.outside other fun up => apart ((ancestor_of_parent stored edge).mpr up)⟩

end Tables

end PersistentHarness.SessionStore
