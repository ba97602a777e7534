import PersistentHarness.Soundness.Session.Deleted

/-! # The pending selection of a session

A queued selection replaces the one before it. After that only a receipt with its request id and the current
generation takes it away or marks it failed, whatever else reads and rewrites the policy in between.
-/

namespace PersistentHarness.SessionStore

open Checked (Ensures)

section Rewrites

variable {s : Store} {sessionId id : JsString} {row : Session} {launch : Value} {now : ℤ}

/-- A rewrite of a policy that leaves the pending selection alone. -/
structure Leaves (a b : Value) : Prop where
  plain : Plain a → Plain b
  pending : b.get (js "pendingInference") = a.get (js "pendingInference")

theorem Leaves.refl (a : Value) : Leaves a a := ⟨id, rfl⟩

theorem Leaves.trans {a b c : Value} (first : Leaves a b) (second : Leaves b c) : Leaves a c :=
  ⟨fun plain => second.plain (first.plain plain), second.pending.trans first.pending⟩

theorem leaves_set (a v : Value) {key : String} (other : js key ≠ js "pendingInference") : Leaves a (a.set (js key) v) :=
  ⟨fun plain => plain.set _ v, Value.get_set_of_ne a v other⟩

theorem Leaves.set {a b : Value} (leaves : Leaves a b) (v : Value) {key : String} (other : js key ≠ js "pendingInference") :
    Leaves a (b.set (js key) v) := leaves.trans (leaves_set b v other)

theorem Leaves.ite {a b c : Value} {condition : Prop} [Decidable condition] (yes : Leaves a b) (no : Leaves a c) :
    Leaves a (if condition then b else c) := by
  split
  · exact yes
  · exact no

theorem pendingOf_of_get (found : s.sessions.get? id = some row) :
    pendingOf s id = (launchOf row).get (js "pendingInference") := by
  rw [pendingOf, found, Option.map_some, Option.getD_some]

theorem pendingOf_setLaunch (found : s.sessions.get? sessionId = some row) (launch : Value) (now : ℤ) (id : JsString) :
    pendingOf (s.setLaunch sessionId launch now) id =
      if id = sessionId then (written launch).get (js "pendingInference") else pendingOf s id := by
  rw [pendingOf, Store.setLaunch, Store.updateSession, Table.get?_update_of found]
  split
  · rfl
  · rw [pendingOf]

/-- A policy that is rewritten around its pending selection. -/
theorem pendingOf_setLaunch_leaves (stored : LaunchesWritten s) (found : s.sessions.get? sessionId = some row)
    (leaves : Leaves (launchOf row) launch) (now : ℤ) (id : JsString) :
    pendingOf (s.setLaunch sessionId launch now) id = pendingOf s id := by
  have written := stored _ _ found
  rw [pendingOf_setLaunch found]
  split
  · next same => rw [same, pendingOf_of_get found, get_written (leaves.plain written.plain), leaves.pending, written.get]
  · rfl

theorem liveSession_found (s : Store) (sessionId : JsString) :
    Ensures (liveSession s sessionId) fun row => s.sessions.get? sessionId = some row ∧ row.deleted = false := by
  unfold liveSession
  split
  · exact .error _
  · next row found => exact .ok (live_of_filter found)

end Rewrites

section Calls

variable {env : Env} {s : Store} {sessionId : JsString}

theorem firstResolution_leaves (launch resolved : Value) {key : String} (other : js key ≠ js "pendingInference") :
    Leaves launch (firstResolution launch key resolved) := leaves_set launch _ other

theorem setResolved_leaves (launch resolved : Value) {key : String} (other : js key ≠ js "pendingInference") :
    Leaves launch (setResolved launch key resolved) := leaves_set launch _ other

theorem recordResolvedSessionInference_pending (stored : LaunchesWritten s) (generation : ℕ) (selection : Selection) (now : ℤ)
    (id : JsString) : Ensures (recordResolvedSessionInference s sessionId generation selection now) fun done =>
      pendingOf done.1 id = pendingOf s id := by
  unfold recordResolvedSessionInference
  refine .bind (liveSession_found s sessionId) fun row ⟨found, _⟩ => ?_
  refine .bind (.any _) fun _ _ => .bind (.any _) fun _ _ => .bind (.any _) fun _ _ => .ite (fun _ => .pure ?_) fun _ => .pure rfl
  refine pendingOf_setLaunch_leaves stored found ?_ now id
  refine .set (.set (.ite ?_ (.trans ?_ (firstResolution_leaves _ _ (by decide)))) _ (by decide)) _ (by decide)
  all_goals exact .ite (.refl _) (firstResolution_leaves _ _ (by decide))

theorem updateSessionFastMode_pending (stored : LaunchesWritten s) (enabled expected : Bool) (now : ℤ) (id : JsString) :
    Ensures (updateSessionFastMode s sessionId enabled expected now) fun t => pendingOf t id = pendingOf s id := by
  unfold updateSessionFastMode
  refine .bind (liveSession_found s sessionId) fun row ⟨found, _⟩ => ?_
  refine .bind (.any _) fun _ _ => .bind (.any _) fun _ _ => .bind (.any _) fun _ _ => .pure ?_
  exact pendingOf_setLaunch_leaves stored found (leaves_set _ _ (by decide)) now id

theorem queueSessionInference_pending (stored : LaunchesWritten s) (selection activeSelection : Selection) (now : ℤ)
    (id : JsString) : Ensures (queueSessionInference env s sessionId selection activeSelection now) fun done =>
      pendingOf done.1 id = if id = sessionId then written (selection.request (env.uuid s.draws)) else pendingOf s id := by
  unfold queueSessionInference
  refine .bind (liveSession_found s sessionId) fun row ⟨found, _⟩ => .pure ?_
  have unchanged : ∀ t : Store, ∀ draws, pendingOf { t with draws } id = pendingOf t id := fun _ _ => rfl
  have written := (stored _ _ found).plain
  rw [unchanged, pendingOf_setLaunch found]
  refine if_congr Iff.rfl ?_ rfl
  have plain : ∀ launch, Leaves (launchOf row) launch → Plain launch := fun launch leaves => leaves.plain written
  rw [get_written (Plain.set (plain _ ?leaves) _ _), Value.get_set_self, Json.readBackMember_ne_undefined (by rintro ⟨⟩),
    written_eq (by rintro ⟨⟩)]
  exact .ite (.refl _) ((setResolved_leaves _ _ (by decide)).trans (setResolved_leaves _ _ (by decide)) |>.set _ (by decide))

/-- A result names the request that is pending. -/
def answers (pending : Value) (requestId : Option JsString) : Bool :=
  (requestId.filter (· ≠ [])).any fun id => pending.get (js "requestId") = .str id

/-- A policy whose pending selection goes or stays is read back with its pending selection gone or as it was. -/
theorem get_written_around {launch around : Value} (plain : Plain launch)
    (fixed : Json.readBackMember (launch.get (js "pendingInference")) = launch.get (js "pendingInference"))
    (leaves : Leaves launch around) (goes : Bool) :
    (written (if goes = true then around.delete (js "pendingInference") else around)).get (js "pendingInference") =
      if goes = true then .undefined else launch.get (js "pendingInference") := by
  split
  · rw [get_written ((leaves.plain plain).delete _), Value.get_delete_self]
    rfl
  · rw [get_written (leaves.plain plain), leaves.pending, fixed]

/-- An update takes the pending selection away exactly when it names its request. -/
theorem updateSessionInference_pending (stored : LaunchesWritten s) (selection : Selection) (expectedLaunch : Option Value)
    (now : ℤ) (requestId : Option JsString) :
    Ensures (updateSessionInference s sessionId selection expectedLaunch now requestId) fun done =>
      (∃ next, done.1.sessions.get? sessionId = some next ∧ next.launch = some done.2 ∧ Session.Written next)
        ∧ ∀ id, pendingOf done.1 id = if id = sessionId ∧ answers (pendingOf s id) requestId = true then .undefined
          else pendingOf s id := by
  unfold updateSessionInference
  refine .bind (liveSession_found s sessionId) fun row ⟨found, _⟩ => .bind (.any _) fun _ _ => .pure ⟨?_, ?_⟩
  · refine ⟨{ row with launch := some (written _), updatedAt := now }, ?_, rfl, .inr ⟨_, rfl⟩⟩
    rw [Store.setLaunch, Store.updateSession, Table.get?_update_of found, if_pos rfl]
  · intro id
    have written := stored _ _ found
    rw [pendingOf_setLaunch found]
    by_cases same : id = sessionId
    · rw [if_pos same, same, pendingOf_of_get found]
      refine (get_written_around written.plain (written.get _) ?_ (answers _ requestId)).trans (by simp)
      refine .set (.ite ?_ (.set (leaves_set _ _ (by decide)) _ (by decide))) _ (by decide)
      exact (setResolved_leaves _ _ (by decide)).trans (setResolved_leaves _ _ (by decide))
    · rw [if_neg same, if_neg fun both => same both.1]

theorem keepSelection_pending (stored : LaunchesWritten s) {row : Session} (found : s.sessions.get? sessionId = some row)
    (selection : Option Selection) (now : ℤ) :
    Ensures (keepSelection s sessionId (launchOf row) selection now) fun done =>
      (∃ next, done.1.sessions.get? sessionId = some next ∧ launchOf next = done.2 ∧ Session.Written next)
        ∧ ∀ id, pendingOf done.1 id = pendingOf s id := by
  unfold keepSelection
  split
  · exact .ok ⟨⟨row, found, rfl, stored _ _ found⟩, fun _ => rfl⟩
  · refine .weaken (updateSessionInference_pending stored _ _ now none) fun done ensured => ?_
    obtain ⟨⟨next, here, launch, written⟩, same⟩ := ensured
    refine ⟨⟨next, here, by rw [launchOf, launch, Option.getD_some], written⟩, fun id => ?_⟩
    rw [same, if_neg]
    rintro ⟨_, ⟨⟩⟩

/-- A receipt of a live session from its current generation. -/
def Store.current (s : Store) (id : JsString) (generation : ℕ) : Bool :=
  (s.sessions.get? id).any fun row => row.deleted = false ∧ row.actorGeneration = generation

/-- An applied selection, under the id of the request that is pending. -/
def InferenceResult.applies (result : InferenceResult) (pending : Value) : Bool :=
  !result.error && result.selection.isSome && answers pending (some result.requestId)

/-- A failed selection, under the id of the request that is pending. -/
def InferenceResult.fails (result : InferenceResult) (pending : Value) : Bool :=
  result.error && pending.get (js "requestId") = .str result.requestId

/-- What a receipt of the current generation makes of the pending selection. -/
def InferenceResult.settle (result : InferenceResult) (pending : Value) : Value :=
  if result.applies pending then .undefined
  else if result.fails pending then pending.set (js "error") inferenceError
  else pending

theorem isObject_of_get {v : Value} {key : JsString} (has : v.get key ≠ .undefined) : v.isObject = true := by
  cases v with
  | obj fields => rfl
  | _ => exact absurd rfl has

theorem recordSessionInferenceResult_pending (stored : LaunchesWritten s) (generation : ℕ) (result : InferenceResult) (now : ℤ)
    (id : JsString) : Ensures (recordSessionInferenceResult s sessionId generation result now) fun done =>
      pendingOf done.1 id = if id = sessionId ∧ s.current sessionId generation = true then result.settle (pendingOf s id)
        else pendingOf s id := by
  unfold recordSessionInferenceResult
  split
  · next late =>
    refine .ok (if_neg fun both => ?_).symm
    obtain ⟨row, found, current⟩ := Option.any_eq_true .. |>.mp both.2
    rw [found, Option.filter_some, if_pos current] at late
    cases late
  · next selection row kept =>
    obtain ⟨found, current⟩ := Option.filter_eq_some_iff.mp kept
    have here : s.current sessionId generation = true := Option.any_eq_true .. |>.mpr ⟨row, found, current⟩
    dsimp only
    split
    · next failed =>
      refine .bind (keepSelection_pending stored found _ now) fun done ⟨⟨next, there, launch, written⟩, same⟩ => ?_
      have pending : done.2.get (js "pendingInference") = pendingOf s sessionId := by
        rw [← same, pendingOf_of_get there, launch]
      have unapplied : result.applies (pendingOf s sessionId) = false := by simp [InferenceResult.applies, failed]
      refine .ite (fun other => .pure ?_) fun matching => .pure ?_
      · rw [pending] at other
        rw [same]
        split
        · next both => simp [InferenceResult.settle, InferenceResult.fails, both.1, unapplied, other]
        · rfl
      · rw [not_not, pending] at matching
        have isObject : (pendingOf s sessionId).isObject = true := isObject_of_get (by rw [matching]; rintro ⟨⟩)
        have defined : pendingOf s sessionId ≠ .undefined := by
          intro none
          rw [none] at isObject
          cases isObject
        have fixed := (stored _ _ found).get (js "pendingInference")
        rw [← pendingOf_of_get found, Json.readBackMember_ne_undefined defined] at fixed
        rw [pendingOf_setLaunch there, same, pending]
        by_cases mine : id = sessionId
        · rw [if_pos mine, if_pos ⟨mine, here⟩, mine, get_written ((launch ▸ written.plain).set _ _), Value.get_set_self,
            Json.readBackMember_ne_undefined (by rintro ⟨⟩), Json.readBack_set fixed isObject rfl]
          simp [InferenceResult.settle, InferenceResult.fails, unapplied, failed, matching]
        · rw [if_neg mine, if_neg fun both => mine both.1]
    · next applied =>
      split
      · exact .error _
      · next given =>
        refine .bind (updateSessionInference_pending stored _ _ now _) fun done ⟨_, same⟩ => .pure ?_
        rw [same]
        by_cases mine : id = sessionId
        · simp [mine, here, InferenceResult.settle, InferenceResult.applies, InferenceResult.fails, applied, given]
        · rw [if_neg fun both => mine both.1, if_neg fun both => mine both.1]

theorem recordSessionInferenceResult_ok (s : Store) (sessionId : JsString) (generation : ℕ) {result : InferenceResult}
    (failed : result.error = true) (now : ℤ) :
    ∃ done, recordSessionInferenceResult s sessionId generation result now = .ok done := by
  unfold recordSessionInferenceResult
  split
  · exact ⟨_, rfl⟩
  · next selection row kept =>
    obtain ⟨found, current⟩ := Option.filter_eq_some_iff.mp kept
    have live : liveSession s sessionId = .ok row := by
      rw [liveSession, found, Option.filter_some, if_pos (by simp [(of_decide_eq_true current).1])]
    have keeps : ∃ done, keepSelection s sessionId (launchOf row) result.selection now = .ok done := by
      unfold keepSelection
      split
      · exact ⟨_, rfl⟩
      · next kept _ =>
        cases updated : updateSessionInference s sessionId kept (some (launchOf row)) now none with
        | ok done => exact ⟨done, rfl⟩
        | error failure =>
          rw [updateSessionInference, live, Checked.ok_bind] at updated
          dsimp only at updated
          rw [Checked.require_of (by simp), Checked.ok_bind] at updated
          cases updated
    obtain ⟨done, kept⟩ := keeps
    dsimp only
    rw [if_pos failed, kept, Checked.ok_bind]
    split <;> exact ⟨_, rfl⟩

end Calls

section Defaults

variable {env : Env} {params : Retarget} {now : ℤ} {s : Store} {id : JsString}

/-- The selection that moves a live session to the new default. -/
def Retarget.request (params : Retarget) (requestId : JsString) (thinkingLevel : Value) : Value :=
  .record [("requestId", .str requestId), ("provider", .str params.toProvider), ("model", .str params.toModel),
    ("thinkingLevel", thinkingLevel), ("followDefault", .bool true)]

/-- What one round of the retargeting loop does: nothing, or it lists a session without a pending selection and,
when it applies, rewrites its policy. -/
inductive Round (env : Env) (params : Retarget) (now : ℤ) (progress : RetargetProgress) (key : JsString) : RetargetProgress → Prop
  | rest {next : RetargetProgress} (store : next.store = progress.store) (rows : next.rows = progress.rows)
      (moved : next.result.moved = progress.result.moved) : Round env params now progress key next
  | list {next : RetargetProgress} {row : RetargetRow} (found : Assoc.lookup progress.rows key = some row) (off : params.apply = false)
      (store : next.store = progress.store) (rows : next.rows = progress.rows) : Round env params now progress key next
  | move {next : RetargetProgress} {row : RetargetRow} {live : Bool} (found : Assoc.lookup progress.rows key = some row)
      (idle : (row.launch.get (js "pendingInference")).truthy = false) (on : params.apply = true)
      (sessions : next.store.sessions = (progress.store.setLaunch key
        (retargetedLaunch env params live progress.store.draws row.launch) now).sessions)
      (rows : next.rows = Assoc.set progress.rows key
        { row with launch := retargetedLaunch env params live progress.store.draws row.launch })
      (moved : next.result.moved = progress.result.moved ++ [(key, row.name, live)]) : Round env params now progress key next

theorem retargetRow_round (progress : RetargetProgress) (key : JsString) :
    Round env params now progress key (retargetRow env params now progress key) := by
  unfold retargetRow
  split
  · exact .rest rfl rfl rfl
  · next row found =>
    dsimp only
    split
    · split
      · exact .rest rfl rfl rfl
      · exact .rest rfl rfl rfl
    · split
      · split
        · exact .rest rfl rfl rfl
        · exact .rest rfl rfl rfl
      · split
        · exact .rest rfl rfl rfl
        · next idle =>
          rw [Bool.not_eq_true] at idle
          split
          · next on => exact .move found idle on (by split <;> rfl) rfl rfl
          · next off => exact .list found (Bool.not_eq_true _ ▸ off) rfl rfl

theorem pendingOf_fixed (stored : LaunchesWritten s) (id : JsString) : Json.readBackMember (pendingOf s id) = pendingOf s id := by
  cases found : s.sessions.get? id with
  | none =>
    rw [pendingOf, found]
    rfl
  | some row =>
    rw [pendingOf_of_get found]
    exact (stored _ _ found).get _

theorem retargetedLaunch_leaves (env : Env) (params : Retarget) (draw : ℕ) (launch : Value) :
    Leaves launch (retargetedLaunch env params false draw launch) := by
  rw [retargetedLaunch, if_neg (by decide)]
  have model : Leaves launch (setResolved launch "model"
      (.record [("provider", .str params.toProvider), ("id", .str params.toModel)])) := setResolved_leaves _ _ (by decide)
  exact .set (.ite (model.trans (setResolved_leaves _ _ (by decide))) model) _ (by decide)

theorem retargetedLaunch_plain {launch : Value} (plain : Plain launch) (env : Env) (params : Retarget) (live : Bool) (draw : ℕ) :
    Plain (retargetedLaunch env params live draw launch) := by
  cases live with
  | false => exact (retargetedLaunch_leaves env params draw launch).plain plain
  | true => exact plain.set _ _

theorem retargetedLaunch_pending (env : Env) (params : Retarget) (draw : ℕ) (launch : Value) :
    (retargetedLaunch env params true draw launch).get (js "pendingInference") =
      params.request (env.uuid draw) (params.thinkingFor (launchField launch "thinking" "resolved")) := by
  rw [retargetedLaunch, if_pos rfl, Value.get_set_self]
  rfl

def Listed (progress : RetargetProgress) : Prop := ∀ key row, Assoc.lookup progress.rows key = some row →
  (∃ stored, progress.store.sessions.get? key = some stored) ∧ Plain row.launch

/-- A session that the loop did not move alive keeps its pending selection. -/
structure Unmoved (s : Store) (id : JsString) (progress : RetargetProgress) : Prop where
  moved : ∀ name, (id, name, true) ∉ progress.result.moved
  pending : pendingOf progress.store id = pendingOf s id
  rows : ∀ row, Assoc.lookup progress.rows id = some row → row.launch.get (js "pendingInference") = pendingOf s id

/-- A session that the loop moved alive had no pending selection, and is asked to follow the default. -/
structure Moved (env : Env) (params : Retarget) (s : Store) (id : JsString) (progress : RetargetProgress) : Prop where
  idle : (pendingOf s id).truthy = false
  pending : ∃ draw level, pendingOf progress.store id = written (params.request (env.uuid draw) level)
  rows : ∀ row, Assoc.lookup progress.rows id = some row → (row.launch.get (js "pendingInference")).truthy = true

theorem Listed.round (on : params.apply = true) {progress next : RetargetProgress} {key : JsString} (listed : Listed progress)
    (round : Round env params now progress key next) : Listed next := by
  cases round with
  | rest store same => rwa [Listed, store, same]
  | list _ off => simp [on] at off
  | @move row live found _ _ sessions same =>
    obtain ⟨⟨before, here⟩, plain⟩ := listed key row found
    intro other entry there
    have kept : (∃ stored, progress.store.sessions.get? other = some stored) →
        ∃ stored, next.store.sessions.get? other = some stored := by
      rintro ⟨stored, found⟩
      rw [sessions, Store.setLaunch, Store.updateSession, Table.get?_update, found]
      split <;> exact ⟨_, rfl⟩
    rw [same, Assoc.lookup_set] at there
    split at there
    · next key =>
      cases there
      exact ⟨kept ⟨before, key ▸ here⟩, retargetedLaunch_plain plain env params live _⟩
    · obtain ⟨stored, plain⟩ := listed other entry there
      exact ⟨kept stored, plain⟩

theorem selection_other {progress next : RetargetProgress} {key : JsString} {row : RetargetRow} {live : Bool} {launch : Value}
    (other : id ≠ key) (pending : pendingOf next.store id = pendingOf progress.store id)
    (same : next.rows = Assoc.set progress.rows key { row with launch })
    (moved : next.result.moved = progress.result.moved ++ [(key, row.name, live)])
    (selection : Unmoved s id progress ∨ Moved env params s id progress) : Unmoved s id next ∨ Moved env params s id next := by
  have listed : ∀ entry, Assoc.lookup next.rows id = some entry → Assoc.lookup progress.rows id = some entry := by
    intro entry here
    rwa [same, Assoc.lookup_set_of_ne _ _ (Ne.symm other)] at here
  rcases selection with unmoved | ⟨idle, before, busy⟩
  · refine .inl ⟨fun name member => ?_, pending.trans unmoved.pending, fun entry here => unmoved.rows entry (listed entry here)⟩
    rw [moved, List.mem_append, List.mem_singleton] at member
    exact member.elim (unmoved.moved name) fun last => other (Prod.mk.inj last).1
  · exact .inr ⟨idle, pending ▸ before, fun entry here => busy entry (listed entry here)⟩

theorem Unmoved.move (stored : LaunchesWritten s) {progress next : RetargetProgress} {row : RetargetRow} {live : Bool}
    (unmoved : Unmoved s id progress) (found : Assoc.lookup progress.rows id = some row) (plain : Plain row.launch)
    (idle : (row.launch.get (js "pendingInference")).truthy = false)
    (pending : pendingOf next.store id =
      (written (retargetedLaunch env params live progress.store.draws row.launch)).get (js "pendingInference"))
    (same : next.rows = Assoc.set progress.rows id
      { row with launch := retargetedLaunch env params live progress.store.draws row.launch })
    (moved : next.result.moved = progress.result.moved ++ [(id, row.name, live)]) :
    Unmoved s id next ∨ Moved env params s id next := by
  have rewritten : ∀ entry, Assoc.lookup next.rows id = some entry →
      entry.launch = retargetedLaunch env params live progress.store.draws row.launch := by
    intro entry here
    rw [same, Assoc.lookup_set_self] at here
    cases here
    rfl
  rw [get_written (retargetedLaunch_plain plain env params live _)] at pending
  cases live with
  | false =>
    have leaves := retargetedLaunch_leaves env params progress.store.draws row.launch
    refine .inl ⟨fun name member => ?_, ?_, fun entry here => ?_⟩
    · rw [moved, List.mem_append, List.mem_singleton] at member
      exact member.elim (unmoved.moved name) (by rintro ⟨⟩)
    · rw [pending, leaves.pending, unmoved.rows row found, pendingOf_fixed stored]
    · rw [rewritten entry here, leaves.pending, unmoved.rows row found]
  | true =>
    refine .inr ⟨unmoved.rows row found ▸ idle,
      ⟨progress.store.draws, params.thinkingFor (launchField row.launch "thinking" "resolved"), ?_⟩, fun entry here => ?_⟩
    · rw [pending, retargetedLaunch_pending, Json.readBackMember_ne_undefined (by rintro ⟨⟩), ← written_eq (by rintro ⟨⟩)]
    · rw [rewritten entry here, retargetedLaunch_pending]
      rfl

/-- What one round makes of the pending selection of a session. -/
theorem selection_round (stored : LaunchesWritten s) (on : params.apply = true) {progress next : RetargetProgress} {key : JsString}
    (listed : Listed progress) (round : Round env params now progress key next)
    (selection : Unmoved s id progress ∨ Moved env params s id progress) : Unmoved s id next ∨ Moved env params s id next := by
  cases round with
  | rest store same moved =>
    refine selection.imp (fun unmoved => ⟨?_, ?_, ?_⟩) fun busy => ⟨busy.idle, ?_, ?_⟩
    · exact moved ▸ unmoved.moved
    · exact store ▸ unmoved.pending
    · exact same ▸ unmoved.rows
    · exact store ▸ busy.pending
    · exact same ▸ busy.rows
  | list _ off => simp [on] at off
  | @move row live found idle _ sessions same moved =>
    obtain ⟨⟨before, here⟩, plain⟩ := listed key row found
    have pending : pendingOf next.store id =
        if id = key then (written (retargetedLaunch env params live progress.store.draws row.launch)).get (js "pendingInference")
        else pendingOf progress.store id := by
      rw [← pendingOf_setLaunch here _ now, pendingOf, sessions, pendingOf]
    by_cases mine : id = key
    · subst mine
      rw [if_pos rfl] at pending
      rcases selection with unmoved | busy
      · exact unmoved.move stored found plain idle pending same moved
      · simp [busy.rows row found] at idle
    · rw [if_neg mine] at pending
      exact selection_other mine pending same moved selection

/-- A retargeting queues the new default for the sessions it moves alive, none of which had a pending selection. -/
theorem retargetDefaultInference_pending (stored : LaunchesWritten s) (params : Retarget) (now : ℤ) (id : JsString) :
    ((params.apply = false ∨ ∀ name, (id, name, true) ∉ (retargetDefaultInference env s params now).2.moved)
        ∧ pendingOf (retargetDefaultInference env s params now).1 id = pendingOf s id)
      ∨ ((pendingOf s id).truthy = false ∧ ∃ draw level, pendingOf (retargetDefaultInference env s params now).1 id =
        written (params.request (env.uuid draw) level)) := by
  unfold retargetDefaultInference
  dsimp only
  generalize listing : s.sessions.collect _ = rows
  have read : ∀ key row, Assoc.lookup rows key = some row →
      ∃ before, s.sessions.get? key = some before ∧ row.launch = launchOf before := by
    intro key row found
    rw [← listing] at found
    obtain ⟨id, before, here, given⟩ := Table.mem_collect.mp (Assoc.mem_of_lookup found)
    split at given
    · cases given
      exact ⟨before, here, rfl⟩
    · cases given
  by_cases on : params.apply = true
  · have listed : Listed ⟨s, rows, ⟨[], [], [], []⟩⟩ := by
      intro key row found
      obtain ⟨before, here, launch⟩ := read key row found
      exact ⟨⟨before, here⟩, launch ▸ (stored _ _ here).plain⟩
    have unmoved : Unmoved s id ⟨s, rows, ⟨[], [], [], []⟩⟩ := by
      refine ⟨fun _ => List.not_mem_nil, rfl, fun row found => ?_⟩
      obtain ⟨before, here, launch⟩ := read id row found
      rw [launch, pendingOf_of_get here]
    have final := List.foldlRecOn (motive := fun progress => Listed progress ∧ (Unmoved s id progress ∨ Moved env params s id progress))
      (rows.map Prod.fst) (retargetRow env params now) ⟨listed, .inl unmoved⟩ fun progress kept key _ =>
        ⟨kept.1.round on (@retargetRow_round _ _ now progress key), selection_round stored on kept.1 (retargetRow_round progress key) kept.2⟩
    rcases final.2 with unmoved | moved
    · exact .inl ⟨.inr unmoved.moved, unmoved.pending⟩
    · exact .inr ⟨moved.idle, moved.pending⟩
  · have off : params.apply = false := Bool.not_eq_true _ ▸ on
    have same := foldl_keeps RetargetProgress.store (retargetRow env params now) (fun progress key => ?_) (rows.map Prod.fst)
      ⟨s, rows, ⟨[], [], [], []⟩⟩
    · exact .inl ⟨.inl off, by rw [same]⟩
    · cases @retargetRow_round env params now progress key with
      | rest store => exact store
      | list _ _ store => exact store
      | move _ _ on' => simp [off] at on'

end Defaults

section Events

variable {env : Env} {s : Store} {id : JsString}

/-- A call that queues a selection for a session. -/
def Event.queues (env : Env) (s : Store) (id : JsString) (event : Event) : Bool :=
  match event.op, (step env event.observer s event.now event.op).2 with
  | .queueSessionInference sessionId _ _, .launch _ => sessionId = id
  | .retargetDefaultInference params, .retargeted result =>
    params.apply && result.moved.any fun (sessionId, _, live) => sessionId = id && live
  | _, _ => false

/-- What a call that queues a selection asks of the actor. -/
inductive Asked (env : Env) (s : Store) : Op → Value → Prop
  | selection (sessionId : JsString) (selection activeSelection : Selection) :
      Asked env s (.queueSessionInference sessionId selection activeSelection) (written (selection.request (env.uuid s.draws)))
  | default (params : Retarget) (draw : ℕ) (thinkingLevel : Value) :
      Asked env s (.retargetDefaultInference params) (written (params.request (env.uuid draw) thinkingLevel))

/-- A receipt that applies exactly the pending request, from the current generation. -/
def Op.applies (s : Store) (id : JsString) : Op → Bool
  | .recordSessionInferenceResult sessionId generation result =>
    sessionId = id && s.current id generation && result.applies (pendingOf s id)
  | .updateSessionInference sessionId _ _ requestId => sessionId = id && answers (pendingOf s id) requestId
  | _ => false

/-- A failed receipt of exactly the pending request, from the current generation. -/
def Op.fails (s : Store) (id : JsString) : Op → Bool
  | .recordSessionInferenceResult sessionId generation result =>
    sessionId = id && s.current id generation && result.fails (pendingOf s id)
  | _ => false

/-- A call that admits a root again, with a launch policy of its own. -/
def Op.readmits (id : JsString) : Op → Bool
  | .admitRoot params => params.sessionId = id
  | _ => false

/-- A call after which another selection is pending, or none. -/
def Event.settles (env : Env) (s : Store) (id : JsString) (event : Event) : Bool :=
  event.queues env s id || event.op.applies s id || event.op.readmits id

theorem admitRoot_pending {params : RootParams} (other : params.sessionId ≠ id) (now : ℤ) :
    Ensures (admitRoot env s params now) fun done => pendingOf done.1 id = pendingOf s id := by
  have inserts : ∀ row, Ensures (insertSession s params.sessionId row) fun t => pendingOf t id = pendingOf s id := by
    intro row
    unfold insertSession
    split
    · exact .error _
    · next sessions inserted =>
      refine .bind (.any _) fun _ _ => .bind (.any _) fun _ _ => .pure ?_
      rw [pendingOf, Table.get?_insert inserted, if_neg other, pendingOf]
  unfold admitRoot
  split
  · refine .bind ?_ fun t same => .pure same
    unfold insertRoot
    exact .bind (.any _) fun _ _ => .bind (.any _) fun _ _ => .bind (.any _) fun _ _ => inserts _
  · refine .bind (.any _) fun _ _ => .bind (.any _) fun _ _ => .bind (.any _) fun _ _ => .pure ?_
    rw [pendingOf, Store.updateSession, Table.get?_update, if_neg (Ne.symm other), pendingOf]

theorem checked_pending {α : Type} {f : α → Output} {result : Result (Store × α)} {pending : Value}
    (same : pendingOf s id = pending) (done : Ensures result fun done => pendingOf done.1 id = pending) :
    pendingOf (checked s (giving f result)).1 id = pending := by
  cases result with
  | error failure => exact same
  | ok next => exact done next rfl

/-- A call that does not settle the pending selection leaves it, or marks it failed. -/
theorem act_pending (stored : LaunchesWritten s) (busy : (pendingOf s id).truthy = true) (event : Event)
    (unsettled : event.settles env s id = false) :
    pendingOf (act env s event) id =
      if event.op.fails s id = true then (pendingOf s id).set (js "error") inferenceError else pendingOf s id := by
  obtain ⟨row, found⟩ : ∃ row, s.sessions.get? id = some row := by
    cases found : s.sessions.get? id with
    | none =>
      rw [pendingOf, found] at busy
      cases busy
    | some row => exact ⟨row, rfl⟩
  obtain ⟨now, observer, op⟩ := event
  have steady : op.writes.launch = false → pendingOf (act env s ⟨now, observer, op⟩) id = pendingOf s id := by
    intro steady
    obtain ⟨next, here, launch⟩ := (step_acts op).launch steady found
    rw [act, pendingOf_of_get here, pendingOf_of_get found, launchOf, launch, launchOf]
  simp only [Event.settles, Bool.or_eq_false_iff] at unsettled
  obtain ⟨⟨unqueued, unapplied⟩, kept⟩ := unsettled
  cases op with
  | admitRoot params => exact checked_pending rfl (admitRoot_pending (of_decide_eq_false kept) now)
  | recordResolvedSessionInference => exact checked_pending rfl (recordResolvedSessionInference_pending stored _ _ now id)
  | updateSessionFastMode sessionId enabled expected =>
    have done := @updateSessionFastMode_pending _ sessionId stored enabled expected now id
    show pendingOf (checked s (noResult _)).1 id = pendingOf s id
    cases result : updateSessionFastMode s sessionId enabled expected now with
    | error failure => rfl
    | ok next => exact done next result
  | queueSessionInference sessionId selection activeSelection =>
    have done := @queueSessionInference_pending env _ sessionId stored selection activeSelection now id
    show pendingOf (checked s (giving .launch _)).1 id = pendingOf s id
    cases result : queueSessionInference env s sessionId selection activeSelection now with
    | error failure => rfl
    | ok next =>
      have other : sessionId ≠ id := by simpa [Event.queues, step, checked, giving, Except.map, result] using unqueued
      exact (done next result).trans (if_neg (Ne.symm other))
  | updateSessionInference sessionId selection expectedLaunch requestId =>
    refine checked_pending rfl (.weaken (updateSessionInference_pending stored _ _ now _) fun done ensured => ?_)
    rw [ensured.2]
    refine if_neg fun both => ?_
    obtain ⟨rfl, named⟩ := both
    simp [Op.applies, named] at unapplied
  | recordSessionInferenceResult sessionId generation result =>
    have settled : (if id = sessionId ∧ s.current sessionId generation = true then result.settle (pendingOf s id) else pendingOf s id)
        = if Op.fails s id (.recordSessionInferenceResult sessionId generation result) = true then
            (pendingOf s id).set (js "error") inferenceError else pendingOf s id := by
      by_cases mine : sessionId = id ∧ s.current id generation = true
      · obtain ⟨rfl, current⟩ := mine
        simp only [Op.applies, current, decide_true, Bool.true_and] at unapplied
        simp [Op.fails, InferenceResult.settle, current, unapplied]
      · rw [if_neg fun both : id = sessionId ∧ _ => mine ⟨both.1.symm, both.1 ▸ both.2⟩, if_neg]
        simpa [Op.fails] using fun same current => absurd ⟨same, current⟩ mine
    have done := @recordSessionInferenceResult_pending _ sessionId stored generation result now id
    show pendingOf (checked s (giving .flag _)).1 id = _
    cases returned : recordSessionInferenceResult s sessionId generation result now with
    | error failure =>
      have unfailed : result.error = false := by
        by_contra failed
        obtain ⟨done, ok⟩ := recordSessionInferenceResult_ok s sessionId generation (Bool.not_eq_false _ ▸ failed) now
        rw [ok] at returned
        cases returned
      rw [if_neg (by simp [Op.fails, InferenceResult.fails, unfailed])]
      rfl
    | ok next => exact (done next returned).trans settled
  | retargetDefaultInference params =>
    rcases @retargetDefaultInference_pending env _ stored params now id with ⟨_, same⟩ | ⟨idle, _⟩
    · exact same
    · simp [busy] at idle
  | _ => exact steady rfl

theorem truthy_of_isObject {v : Value} (isObject : v.isObject = true) : v.truthy = true := by
  cases v with
  | obj fields => rfl
  | _ => cases isObject

theorem act_queued (stored : LaunchesWritten s) {event : Event} (queues : event.queues env s id = true) :
    ∃ request, Asked env s event.op request ∧ request.isObject = true ∧ pendingOf (act env s event) id = request := by
  have isObject : ∀ fields, (written (.obj fields)).isObject = true := fun fields => by rw [written_eq (by rintro ⟨⟩)]; rfl
  obtain ⟨now, observer, op⟩ := event
  cases op with
  | queueSessionInference sessionId selection activeSelection =>
    refine ⟨_, .selection sessionId selection activeSelection, isObject _, ?_⟩
    have done := @queueSessionInference_pending env _ sessionId stored selection activeSelection now id
    show pendingOf (checked s (giving .launch _)).1 id = _
    cases result : queueSessionInference env s sessionId selection activeSelection now with
    | error failure => simp [Event.queues, step, checked, giving, Except.map, result] at queues
    | ok next =>
      have mine : sessionId = id := by simpa [Event.queues, step, checked, giving, Except.map, result] using queues
      exact (done next result).trans (if_pos mine.symm)
  | retargetDefaultInference params =>
    simp only [Event.queues, step, Bool.and_eq_true, List.any_eq_true, decide_eq_true_eq] at queues
    obtain ⟨on, ⟨key, name, live⟩, member, rfl, rfl⟩ := queues
    rcases @retargetDefaultInference_pending env _ stored params now key with ⟨unmoved, _⟩ | ⟨_, draw, level, pending⟩
    · rcases unmoved with off | unmoved
      · simp [on] at off
      · exact absurd member (unmoved name)
    · exact ⟨_, .default params draw level, isObject _, pending⟩
  | _ => cases queues

/-- A queued selection stays pending until another one is queued, a receipt with its request id and the current
generation applies it, or its root is admitted again; only a failed receipt of that kind marks it. -/
theorem run_selection (env : Env) (events : List Event) (event : Event) (more : List Event) (id : JsString)
    (queues : event.queues env (run env events) id = true)
    (unsettled : ∀ before call, before ++ [call] <+: more → call.settles env (run env (events ++ event :: before)) id = false) :
    ∃ request, Asked env (run env events) event.op request ∧
      (pendingOf (run env (events ++ event :: more)) id = request
        ∧ (∀ before call, before ++ [call] <+: more → call.op.fails (run env (events ++ event :: before)) id = false)
      ∨ pendingOf (run env (events ++ event :: more)) id = request.set (js "error") inferenceError
        ∧ ∃ before call, before ++ [call] <+: more ∧ call.op.fails (run env (events ++ event :: before)) id = true) := by
  obtain ⟨request, asked, isObject, pending⟩ := act_queued (run_launchesWritten env events) queues
  refine ⟨request, asked, ?_⟩
  induction more using List.reverseRecOn with
  | nil =>
    refine .inl ⟨by rw [run_snoc, pending], fun before call within => ?_⟩
    simp at within
  | append_singleton more last ih =>
    have earlier := ih fun before call within => unsettled before call (within.trans (List.prefix_append more [last]))
    have next : run env (events ++ event :: (more ++ [last])) = act env (run env (events ++ event :: more)) last := by
      rw [← run_snoc, List.append_assoc, List.cons_append]
    have kept := fun busy => act_pending (run_launchesWritten env _) busy last (unsettled more last (List.prefix_refl _))
    rw [next]
    rcases earlier with ⟨same, unfailed⟩ | ⟨same, before, call, within, failed⟩
    · rw [same] at kept
      rw [kept (truthy_of_isObject isObject)]
      by_cases fails : last.op.fails (run env (events ++ event :: more)) id = true
      · exact .inr ⟨if_pos fails, more, last, List.prefix_refl _, fails⟩
      · refine .inl ⟨if_neg fails, fun before call within => ?_⟩
        rcases List.prefix_concat_iff.mp within with whole | within
        · obtain ⟨rfl, rfl⟩ := List.append_inj' whole rfl |>.imp_right List.singleton_inj.mp
          exact Bool.not_eq_true _ ▸ fails
        · exact unfailed before call within
    · rw [same] at kept
      refine .inr ⟨?_, before, call, within.trans (List.prefix_append more [last]), failed⟩
      rw [kept rfl, Value.set_set, ite_self]

end Events

section Samples

def startedRoot : List Event :=
  [⟨1, none, .createRoot ⟨js "root", none, some (js "/w"), none, some (js "root"), js "token", .obj []⟩⟩,
    ⟨2, none, .markActorStarted (js "root") 1 ⟨none, none, none⟩⟩]

def chooseModel : Event := ⟨3, none, .queueSessionInference (js "root")
  ⟨js "lab", js "next", Value.text "high", true⟩ ⟨js "lab", js "now", Value.text "low", false⟩⟩

/-- A receipt of the generation before, and one for another request. -/
def lateReceipts : List Event :=
  [⟨4, none, .recordSessionInferenceResult (js "root") 0 ⟨js "0", some ⟨js "lab", js "next", Value.text "high", true⟩, false⟩⟩,
    ⟨5, none, .recordSessionInferenceResult (js "root") 1 ⟨js "1", some ⟨js "lab", js "now", Value.text "low", true⟩, false⟩⟩]

/-- Late receipts leave the selection pending. -/
theorem run_selection_sample : ∃ request, Asked plainEnv (run plainEnv startedRoot) chooseModel.op request
    ∧ (pendingOf (run plainEnv (startedRoot ++ chooseModel :: lateReceipts)) (js "root") = request
        ∧ (∀ before call, before ++ [call] <+: lateReceipts →
          call.op.fails (run plainEnv (startedRoot ++ chooseModel :: before)) (js "root") = false)
      ∨ pendingOf (run plainEnv (startedRoot ++ chooseModel :: lateReceipts)) (js "root") = request.set (js "error") inferenceError
        ∧ ∃ before call, before ++ [call] <+: lateReceipts ∧
          call.op.fails (run plainEnv (startedRoot ++ chooseModel :: before)) (js "root") = true) := by
  refine run_selection plainEnv startedRoot chooseModel lateReceipts (js "root") (by decide +kernel) ?_
  intro before call within
  rcases before with _ | ⟨first, _ | ⟨second, rest⟩⟩
  · obtain rfl : call = _ := by simpa [lateReceipts] using within
    decide +kernel
  · obtain ⟨rfl, rfl⟩ : first = _ ∧ call = _ := by simpa [lateReceipts] using within
    decide +kernel
  · simp [lateReceipts] at within

end Samples

end PersistentHarness.SessionStore
