import PersistentHarness.Soundness.Session.Selection

/-! # Moving the default

Every live session gets one verdict from its own launch and the sources of its ancestors. The loop rewrites launches
as it goes, but never a source, so its verdicts are those of the rows it started with, whatever order they come in.
A moved session keeps its source, so it follows the default afterwards, and it is not moved a second time.
-/

namespace PersistentHarness.SessionStore

/-! ## Verdicts -/

/-- What a retargeting says of a live session. -/
inductive Verdict where
  | moved (live : Bool)
  | pinned
  | pending
  | otherModel (model : Value)
  | unreported
deriving DecidableEq, Repr

/-- The model that a launch resolved to is the one that is replaced. -/
def Retarget.current (params : Retarget) (launch : Value) : Bool :=
  (launchField launch "model" "resolved").get (js "provider") = .str params.fromProvider
    ∧ (launchField launch "model" "resolved").get (js "id") = .str params.fromModel

def Retarget.verdict (params : Retarget) (rows : List (JsString × RetargetRow)) (id : JsString) (row : RetargetRow) : Verdict :=
  if followsDefault rows maxAncestorDepth row = false then
    if params.current row.launch then .pinned else .unreported
  else if params.current row.launch = false then
    if (launchField row.launch "model" "resolved").truthy then
      .otherModel ((launchField row.launch "model" "resolved").get (js "id"))
    else .unreported
  else if (row.launch.get (js "pendingInference")).truthy then .pending
  else .moved (id ∈ params.liveSessionIds)

/-- Add a session to the list of its verdict. -/
def Retargeted.add (result : Retargeted) (id name : JsString) : Verdict → Retargeted
  | .moved live => { result with moved := result.moved ++ [(id, name, live)] }
  | .pinned => { result with pinned := result.pinned ++ [(id, name)] }
  | .pending => { result with pending := result.pending ++ [(id, name)] }
  | .otherModel model => { result with otherModels := result.otherModels ++ [(id, name, model)] }
  | .unreported => result

def Retarget.report (params : Retarget) (rows order : List (JsString × RetargetRow)) : Retargeted :=
  order.foldl (fun result entry => result.add entry.1 entry.2.name (params.verdict rows entry.1 entry.2)) ⟨[], [], [], []⟩

/-- Move one session: rewrite its launch, in the store and among the rows. -/
def moveRow (env : Env) (params : Retarget) (now : ℤ) (live : Bool) (progress : RetargetProgress) (id : JsString)
    (row : RetargetRow) : RetargetProgress :=
  let launch := retargetedLaunch env params live progress.store.draws row.launch
  let store := progress.store.setLaunch id launch now
  { progress with
    store := if live then { store with draws := store.draws + 1 } else store
    rows := Assoc.set progress.rows id { row with launch } }

/-- One round of the loop: the verdict is recorded, and an applied move is carried out. -/
theorem retargetRow_eq (env : Env) (params : Retarget) (now : ℤ) (progress : RetargetProgress) {id : JsString}
    {row : RetargetRow} (found : Assoc.lookup progress.rows id = some row) :
    retargetRow env params now progress id =
      { (match params.verdict progress.rows id row with
          | .moved live => if params.apply then moveRow env params now live progress id row else progress
          | _ => progress) with
        result := progress.result.add id row.name (params.verdict progress.rows id row) } := by
  unfold retargetRow Retarget.verdict Retarget.current
  rw [found]
  dsimp only
  split
  · split <;> rfl
  · split
    · split <;> rfl
    · split
      · rfl
      · dsimp only
        split <;> rfl

/-! ## Sources -/

/-- What decides whether a session follows the default: its parent, and where its model comes from. -/
def RetargetRow.origin (row : RetargetRow) : Option JsString × Value := (row.parent, launchField row.launch "model" "source")

def SameOrigins (rows others : List (JsString × RetargetRow)) : Prop :=
  ∀ id, (Assoc.lookup rows id).map RetargetRow.origin = (Assoc.lookup others id).map RetargetRow.origin

theorem followsDefault_congr {rows others : List (JsString × RetargetRow)} (same : SameOrigins rows others) (depth : ℕ)
    {row other : RetargetRow} (alike : row.origin = other.origin) :
    followsDefault rows depth row = followsDefault others depth other := by
  obtain ⟨sameParent, sameSource⟩ := Prod.mk.inj alike
  induction depth generalizing row other with
  | zero => rw [followsDefault, followsDefault, sameSource]
  | succ depth ih =>
    have above : (row.parent.bind (Assoc.lookup rows)).any (followsDefault rows depth) =
        (other.parent.bind (Assoc.lookup others)).any (followsDefault others depth) := by
      rw [sameParent]
      cases other.parent with
      | none => rfl
      | some parent =>
        have there := same parent
        rw [Option.bind_some, Option.bind_some]
        cases found : Assoc.lookup rows parent with
        | none =>
          rw [found, Option.map_none, eq_comm, Option.map_eq_none_iff] at there
          rw [there]
          rfl
        | some up =>
          rw [found, Option.map_some, eq_comm, Option.map_eq_some_iff] at there
          obtain ⟨up', found', alike'⟩ := there
          rw [found']
          obtain ⟨parents, sources⟩ := Prod.mk.inj alike'.symm
          exact ih alike'.symm parents sources
    rw [followsDefault, followsDefault, sameSource, above]

theorem Retarget.verdict_congr (params : Retarget) {rows others : List (JsString × RetargetRow)}
    (same : SameOrigins rows others) (id : JsString) (row : RetargetRow) :
    params.verdict rows id row = params.verdict others id row := by
  unfold Retarget.verdict
  rw [followsDefault_congr same maxAncestorDepth rfl]

/-- `{ provider: to.provider, id: to.id }`. -/
def Retarget.target (params : Retarget) : Value :=
  .record [("provider", .str params.toProvider), ("id", .str params.toModel)]

theorem retargetedLaunch_model (env : Env) (params : Retarget) (live : Bool) (draw : ℕ) (launch : Value) :
    (retargetedLaunch env params live draw launch).get (js "model") =
      if live then launch.get (js "model") else (launch.get (js "model")).set (js "resolved") params.target := by
  have pendingOther : js "pendingInference" ≠ js "model" := by decide
  have thinkingOther : js "thinking" ≠ js "model" := by decide
  have fastOther : js "fastModeSupported" ≠ js "model" := by decide
  unfold retargetedLaunch
  dsimp only
  split
  · rw [Value.get_set_of_ne _ _ pendingOther]
  · rw [Value.get_set_of_ne _ _ fastOther]
    split
    · rw [setResolved, Value.get_set_of_ne _ _ thinkingOther, setResolved, Value.get_set_self, Retarget.target]
    · rw [setResolved, Value.get_set_self, Retarget.target]

theorem retargetedLaunch_source (env : Env) (params : Retarget) (live : Bool) (draw : ℕ) (launch : Value) :
    launchField (retargetedLaunch env params live draw launch) "model" "source" = launchField launch "model" "source" := by
  have resolvedOther : js "resolved" ≠ js "source" := by decide
  rw [launchField, retargetedLaunch_model, launchField]
  split
  · rfl
  · rw [Value.get_set_of_ne _ _ resolvedOther]

theorem SameOrigins.set {rows others : List (JsString × RetargetRow)} (same : SameOrigins rows others) {id : JsString}
    {row next : RetargetRow} (found : Assoc.lookup rows id = some row) (alike : next.origin = row.origin) :
    SameOrigins (Assoc.set rows id next) others := by
  intro other
  rw [← same other, Assoc.lookup_set]
  split
  · next here => rw [← here, found, Option.map_some, Option.map_some, alike]
  · rfl

/-! ## The loop -/

/-- What applied moves leave of a store: only the launches of the moved sessions differ, and when they were updated. -/
structure Applied (env : Env) (params : Retarget) (now : ℤ) (s t : Store) (moved : List (JsString × JsString × Bool)) :
    Prop where
  rest : { t with sessions := s.sessions, draws := s.draws } = s
  still : ∀ id, id ∉ moved.map Prod.fst → t.sessions.get? id = s.sessions.get? id
  moved : ∀ entry ∈ moved, ∃ row draw, s.sessions.get? entry.1 = some row ∧ t.sessions.get? entry.1 =
    some { row with launch := some (written (retargetedLaunch env params entry.2.2 draw (launchOf row))), updatedAt := now }

theorem Applied.start (env : Env) (params : Retarget) (now : ℤ) (s : Store) : Applied env params now s s [] :=
  ⟨rfl, fun _ _ => rfl, fun _ member => absurd member List.not_mem_nil⟩

/-- The row of a session as the loop reads it. -/
def RetargetRow.of (row : Session) : RetargetRow := ⟨row.parentSessionId, row.displayName, launchOf row⟩

theorem Applied.move {env : Env} {params : Retarget} {now : ℤ} {s : Store} {progress : RetargetProgress}
    {moved : List (JsString × JsString × Bool)} (applied : Applied env params now s progress.store moved) {id : JsString}
    (apart : id ∉ moved.map Prod.fst) {row : Session} (found : s.sessions.get? id = some row) (live : Bool) :
    Applied env params now s (moveRow env params now live progress id (.of row)).store
      (moved ++ [(id, row.displayName, live)]) := by
  have sessions : (moveRow env params now live progress id (.of row)).store.sessions = progress.store.sessions.update id
      fun row' => { row' with
        launch := some (written (retargetedLaunch env params live progress.store.draws (launchOf row))), updatedAt := now } := by
    unfold moveRow
    split <;> rfl
  have here : progress.store.sessions.get? id = some row := (applied.still id apart).trans found
  refine ⟨?_, fun other outside => ?_, fun entry member => ?_⟩
  · refine Eq.trans ?_ applied.rest
    unfold moveRow
    dsimp only
    split <;> rfl
  · rw [List.map_append, List.mem_append, not_or] at outside
    have apart' : ¬other = id := fun same => outside.2 (same ▸ List.mem_singleton_self _)
    rw [sessions, Table.get?_update, if_neg apart']
    exact applied.still other outside.1
  · rw [sessions]
    rcases List.mem_append.mp member with before | last
    · have other : ¬entry.1 = id := fun same => apart (same ▸ List.mem_map_of_mem before)
      obtain ⟨row', draw, found', rewritten⟩ := applied.moved entry before
      exact ⟨row', draw, found', by rw [Table.get?_update, if_neg other, rewritten]⟩
    · obtain rfl := List.mem_singleton.mp last
      exact ⟨row, progress.store.draws, found, by rw [Table.get?_update_of here, if_pos rfl]⟩

/-- The loop between two rows: those that follow are as they were read, and the moves so far are carried out. -/
structure Looping (env : Env) (params : Retarget) (now : ℤ) (s : Store) (base : List (JsString × RetargetRow))
    (progress : RetargetProgress) (ahead : List (JsString × RetargetRow)) : Prop where
  unique : (Assoc.keys ahead).Nodup
  fresh : ∀ entry ∈ ahead, Assoc.lookup progress.rows entry.1 = some entry.2
  read : ∀ entry ∈ ahead, ∃ row, s.sessions.get? entry.1 = some row ∧ entry.2 = .of row
  apart : ∀ entry ∈ ahead, entry.1 ∉ progress.result.moved.map Prod.fst
  origins : SameOrigins progress.rows base
  applied : params.apply = true → Applied env params now s progress.store progress.result.moved
  preview : params.apply = false → progress.store = s

theorem add_moved_keys {result : Retargeted} {id name other : JsString} {verdict : Verdict}
    (member : other ∈ (result.add id name verdict).moved.map Prod.fst) : other = id ∨ other ∈ result.moved.map Prod.fst := by
  cases verdict with
  | moved live =>
    rw [Retargeted.add, List.map_append, List.mem_append] at member
    rcases member with before | last
    · exact .inr before
    · exact .inl (List.mem_singleton.mp last)
  | _ => exact .inr member

section Loop

variable {env : Env} {params : Retarget} {now : ℤ} {s : Store} {base ahead : List (JsString × RetargetRow)}
  {progress : RetargetProgress} {entry : JsString × RetargetRow}

theorem Looping.result (looping : Looping env params now s base progress (entry :: ahead)) :
    (retargetRow env params now progress entry.1).result =
      progress.result.add entry.1 entry.2.name (params.verdict base entry.1 entry.2) := by
  rw [retargetRow_eq env params now progress (looping.fresh entry (List.mem_cons_self ..)),
    params.verdict_congr looping.origins]

theorem Looping.step (looping : Looping env params now s base progress (entry :: ahead)) :
    Looping env params now s base (retargetRow env params now progress entry.1) ahead := by
  obtain ⟨notAhead, unique⟩ := List.nodup_cons.mp looping.unique
  have found := looping.fresh entry (List.mem_cons_self ..)
  obtain ⟨row, stored, reads⟩ := looping.read entry (List.mem_cons_self ..)
  have apart := looping.apart entry (List.mem_cons_self ..)
  have other : ∀ later ∈ ahead, later.1 ≠ entry.1 := fun later member same =>
    notAhead (same ▸ List.mem_map_of_mem member)
  have result := looping.result
  have moved : ∀ later ∈ ahead, later.1 ∉ (retargetRow env params now progress entry.1).result.moved.map Prod.fst := by
    intro later member listed
    rw [result] at listed
    rcases add_moved_keys listed with here | before
    · exact other later member here
    · exact looping.apart later (List.mem_cons_of_mem _ member) before
  have next := retargetRow_eq env params now progress found
  rw [params.verdict_congr looping.origins] at next
  have read : ∀ later ∈ ahead, ∃ row, s.sessions.get? later.1 = some row ∧ later.2 = .of row :=
    fun later member => looping.read later (List.mem_cons_of_mem _ member)
  have fresh : ∀ later ∈ ahead, Assoc.lookup progress.rows later.1 = some later.2 :=
    fun later member => looping.fresh later (List.mem_cons_of_mem _ member)
  -- unless the session moves and moves are applied, neither the store nor the rows change
  have stays : (retargetRow env params now progress entry.1).store = progress.store →
      (retargetRow env params now progress entry.1).rows = progress.rows →
      (params.apply = true → (retargetRow env params now progress entry.1).result.moved = progress.result.moved) →
      Looping env params now s base (retargetRow env params now progress entry.1) ahead := by
    intro sameStore sameRows sameMoved
    refine ⟨unique, ?_, read, moved, ?_, fun apply => ?_, fun preview => ?_⟩
    · rw [sameRows]
      exact fresh
    · rw [sameRows]
      exact looping.origins
    · rw [sameStore, sameMoved apply]
      exact looping.applied apply
    · rw [sameStore]
      exact looping.preview preview
  cases verdict : params.verdict base entry.1 entry.2 with
  | moved live =>
    cases apply : params.apply with
    | false =>
      rw [verdict, apply] at next
      refine stays (by rw [next]; rfl) (by rw [next]; rfl) fun applied => ?_
      rw [apply] at applied
      contradiction
    | true =>
      rw [verdict, apply] at next
      simp only [↓reduceIte] at next
      refine ⟨unique, fun later member => ?_, read, moved, ?_, fun _ => ?_, fun preview => ?_⟩
      · rw [next]
        show Assoc.lookup (Assoc.set progress.rows entry.1 _) later.1 = _
        rw [Assoc.lookup_set_of_ne _ _ (other later member).symm]
        exact fresh later member
      · rw [next]
        exact looping.origins.set found (Prod.ext rfl (retargetedLaunch_source ..))
      · rw [next]
        have carried := (looping.applied apply).move apart stored live
        rw [← reads, show row.displayName = entry.2.name from reads ▸ rfl] at carried
        exact carried
      · rw [apply] at preview
        contradiction
  | pinned | pending | otherModel | unreported =>
    rw [verdict] at next
    exact stays (by rw [next]) (by rw [next]) fun _ => by rw [next]; rfl

theorem Looping.run (looping : Looping env params now s base progress ahead) :
    ((ahead.map Prod.fst).foldl (retargetRow env params now) progress).result =
        ahead.foldl (fun result entry => result.add entry.1 entry.2.name (params.verdict base entry.1 entry.2)) progress.result ∧
      Looping env params now s base ((ahead.map Prod.fst).foldl (retargetRow env params now) progress) [] := by
  induction ahead generalizing progress with
  | nil => exact ⟨rfl, looping⟩
  | cons entry rest ih =>
    rw [List.map_cons, List.foldl_cons, List.foldl_cons, ← looping.result]
    exact ih looping.step

end Loop

/-! ## Any order of the rows -/

/-- The live sessions as the query returns them, in the order of the table. -/
def retargetRows (s : Store) : List (JsString × RetargetRow) :=
  s.sessions.collect fun id row =>
    if row.deletedAt = none ∧ row.deleted = false then some (id, RetargetRow.of row) else none

def retargetInOrder (env : Env) (s : Store) (params : Retarget) (now : ℤ) (rows : List (JsString × RetargetRow)) :
    Store × Retargeted :=
  let done := (rows.map Prod.fst).foldl (retargetRow env params now) ⟨s, rows, ⟨[], [], [], []⟩⟩
  (done.store, done.result)

theorem mem_retargetRows {s : Store} {id : JsString} {row : RetargetRow} : (id, row) ∈ retargetRows s ↔
    ∃ session, s.sessions.get? id = some session ∧ session.deletedAt = none ∧ session.deleted = false ∧ row = .of session := by
  rw [retargetRows, Table.mem_collect]
  constructor
  · rintro ⟨key, session, found, kept⟩
    split at kept
    · next live =>
      cases kept
      exact ⟨session, found, live.1, live.2, rfl⟩
    · contradiction
  · rintro ⟨session, found, kept, live, rfl⟩
    exact ⟨id, session, found, if_pos ⟨kept, live⟩⟩

theorem retargetRows_nodup (s : Store) : (Assoc.keys (retargetRows s)).Nodup := by
  have listed : ∀ rows : List (JsString × Session), (Assoc.keys (rows.filterMap fun entry =>
      if entry.2.deletedAt = none ∧ entry.2.deleted = false then some (entry.1, RetargetRow.of entry.2) else none)).Sublist
      (Assoc.keys rows) := by
    intro rows
    induction rows with
    | nil => exact .slnil
    | cons entry rest ih =>
      rw [List.filterMap_cons]
      by_cases live : entry.2.deletedAt = none ∧ entry.2.deleted = false
      · rw [if_pos live]
        exact ih.cons_cons _
      · rw [if_neg live]
        exact ih.cons _
  exact s.sessions.unique.sublist (listed s.sessions.rows)

theorem lookup_retargetRows (s : Store) (id : JsString) : Assoc.lookup (retargetRows s) id =
    ((s.sessions.get? id).filter fun row => row.deletedAt = none ∧ row.deleted = false).map .of := by
  apply Option.ext
  intro row
  have listed : Assoc.lookup (retargetRows s) id = some row ↔ (id, row) ∈ retargetRows s :=
    ⟨Assoc.mem_of_lookup, Assoc.lookup_of_mem (retargetRows_nodup s)⟩
  rw [listed, mem_retargetRows]
  simp only [Option.map_eq_some_iff, Option.filter_eq_some_iff, decide_eq_true_iff]
  constructor
  · rintro ⟨session, found, kept, live, rfl⟩
    exact ⟨session, ⟨found, kept, live⟩, rfl⟩
  · rintro ⟨session, ⟨found, kept, live⟩, rfl⟩
    exact ⟨session, found, kept, live, rfl⟩

section Orders

variable {s : Store} {order : List (JsString × RetargetRow)}

theorem lookup_order (arranged : order.Perm (retargetRows s)) (id : JsString) :
    Assoc.lookup order id = Assoc.lookup (retargetRows s) id := by
  have unique : (Assoc.keys order).Nodup := (arranged.map Prod.fst).nodup_iff.mpr (retargetRows_nodup s)
  apply Option.ext
  intro row
  constructor
  · intro found
    exact Assoc.lookup_of_mem (retargetRows_nodup s) (arranged.mem_iff.mp (Assoc.mem_of_lookup found))
  · intro found
    exact Assoc.lookup_of_mem unique (arranged.mem_iff.mpr (Assoc.mem_of_lookup found))

theorem looping_start (env : Env) (params : Retarget) (now : ℤ) (arranged : order.Perm (retargetRows s)) :
    Looping env params now s (retargetRows s) ⟨s, order, ⟨[], [], [], []⟩⟩ order := by
  have unique : (Assoc.keys order).Nodup := (arranged.map Prod.fst).nodup_iff.mpr (retargetRows_nodup s)
  refine ⟨unique, fun entry member => Assoc.lookup_of_mem unique member, fun entry member => ?_,
    fun _ _ => List.not_mem_nil, fun id => by rw [lookup_order arranged], fun _ => .start env params now s, fun _ => rfl⟩
  obtain ⟨session, found, -, -, reads⟩ := mem_retargetRows.mp (arranged.mem_iff.mp member)
  exact ⟨session, found, reads⟩

theorem retargetInOrder_report (env : Env) (params : Retarget) (now : ℤ) (arranged : order.Perm (retargetRows s)) :
    (retargetInOrder env s params now order).2 = params.report (retargetRows s) order :=
  (looping_start env params now arranged).run.1

theorem retargetInOrder_applied (env : Env) {params : Retarget} (now : ℤ) (arranged : order.Perm (retargetRows s))
    (apply : params.apply = true) : Applied env params now s (retargetInOrder env s params now order).1
      (retargetInOrder env s params now order).2.moved :=
  (looping_start env params now arranged).run.2.applied apply

theorem retargetInOrder_preview (env : Env) {params : Retarget} (now : ℤ) (arranged : order.Perm (retargetRows s))
    (preview : params.apply = false) : (retargetInOrder env s params now order).1 = s :=
  (looping_start env params now arranged).run.2.preview preview

end Orders

/-! ## The partition -/

/-- What a verdict lists under `moved`. -/
def Verdict.movedEntry (id name : JsString) : Verdict → Option (JsString × JsString × Bool)
  | .moved live => some (id, name, live)
  | _ => none

/-- What a verdict lists under `otherModels`. -/
def Verdict.otherEntry (id name : JsString) : Verdict → Option (JsString × JsString × Value)
  | .otherModel model => some (id, name, model)
  | _ => none

def Verdict.entry (kind : Verdict) (id name : JsString) (verdict : Verdict) : Option (JsString × JsString) :=
  if verdict = kind then some (id, name) else none

theorem Verdict.movedEntry_eq_some {id name : JsString} {verdict : Verdict} {entry : JsString × JsString × Bool} :
    verdict.movedEntry id name = some entry ↔ id = entry.1 ∧ name = entry.2.1 ∧ verdict = .moved entry.2.2 := by
  obtain ⟨_, _, _⟩ := entry
  cases verdict <;> simp [Verdict.movedEntry]

theorem Verdict.otherEntry_eq_some {id name : JsString} {verdict : Verdict} {entry : JsString × JsString × Value} :
    verdict.otherEntry id name = some entry ↔ id = entry.1 ∧ name = entry.2.1 ∧ verdict = .otherModel entry.2.2 := by
  obtain ⟨_, _, _⟩ := entry
  cases verdict <;> simp [Verdict.otherEntry]

theorem Verdict.entry_eq_some {kind : Verdict} {id name : JsString} {verdict : Verdict} {entry : JsString × JsString} :
    kind.entry id name verdict = some entry ↔ id = entry.1 ∧ name = entry.2 ∧ verdict = kind := by
  obtain ⟨_, _⟩ := entry
  unfold Verdict.entry
  split
  · next same => simp [same]
  · next other => simp [other]

def Retargeted.sessionIds (result : Retargeted) : List JsString :=
  result.moved.map Prod.fst ++ result.pinned.map Prod.fst ++ result.pending.map Prod.fst ++ result.otherModels.map Prod.fst

/-- No session is reported twice, and each one where its verdict says. -/
structure Partition (params : Retarget) (s : Store) (result : Retargeted) : Prop where
  once : result.sessionIds.Nodup
  moved : ∀ id name live, (id, name, live) ∈ result.moved ↔ ∃ row, (id, row) ∈ retargetRows s ∧ row.name = name ∧
    params.verdict (retargetRows s) id row = .moved live
  pinned : ∀ id name, (id, name) ∈ result.pinned ↔ ∃ row, (id, row) ∈ retargetRows s ∧ row.name = name ∧
    params.verdict (retargetRows s) id row = .pinned
  pending : ∀ id name, (id, name) ∈ result.pending ↔ ∃ row, (id, row) ∈ retargetRows s ∧ row.name = name ∧
    params.verdict (retargetRows s) id row = .pending
  otherModels : ∀ id name model, (id, name, model) ∈ result.otherModels ↔ ∃ row, (id, row) ∈ retargetRows s ∧
    row.name = name ∧ params.verdict (retargetRows s) id row = .otherModel model

theorem add_sessionIds (result : Retargeted) (id name : JsString) (verdict : Verdict) :
    (result.add id name verdict).sessionIds.Perm result.sessionIds ∨
      (result.add id name verdict).sessionIds.Perm (id :: result.sessionIds) := by
  have middle : ∀ front back : List JsString, (front ++ [id] ++ back).Perm (id :: (front ++ back)) := by
    intro front back
    rw [List.append_assoc, List.singleton_append]
    exact List.perm_middle
  unfold Retargeted.sessionIds
  cases verdict with
  | moved live =>
    right
    simp only [Retargeted.add, List.map_append, List.map_cons, List.map_nil, List.append_assoc]
    simpa only [List.append_assoc] using middle (result.moved.map Prod.fst) _
  | pinned =>
    right
    simp only [Retargeted.add, List.map_append, List.map_cons, List.map_nil, List.append_assoc]
    simpa only [List.append_assoc] using middle (result.moved.map Prod.fst ++ result.pinned.map Prod.fst) _
  | pending =>
    right
    simp only [Retargeted.add, List.map_append, List.map_cons, List.map_nil, List.append_assoc]
    simpa only [List.append_assoc] using
      middle (result.moved.map Prod.fst ++ result.pinned.map Prod.fst ++ result.pending.map Prod.fst) _
  | otherModel model =>
    right
    have last := middle result.sessionIds []
    rw [List.append_nil, List.append_nil] at last
    simpa only [Retargeted.add, Retargeted.sessionIds, List.map_append, List.map_cons, List.map_nil, List.append_assoc]
      using last
  | unreported => exact .inl (.refl _)

section Reports

variable {verdict : JsString × RetargetRow → Verdict}

/-- The report of rows in some order, after what was reported before. -/
def reportAfter (verdict : JsString × RetargetRow → Verdict) (result : Retargeted) (order : List (JsString × RetargetRow)) :
    Retargeted :=
  order.foldl (fun result entry => result.add entry.1 entry.2.name (verdict entry)) result

theorem list_reportAfter (verdict : JsString × RetargetRow → Verdict) {τ : Type} {list : Retargeted → List τ} {adds : JsString → JsString → Verdict → Option τ}
    (list_add : ∀ result id name verdict, list (result.add id name verdict) = list result ++ (adds id name verdict).toList)
    (order : List (JsString × RetargetRow)) (result : Retargeted) :
    list (reportAfter verdict result order) =
      list result ++ order.filterMap fun entry => adds entry.1 entry.2.name (verdict entry) := by
  induction order generalizing result with
  | nil => exact (List.append_nil _).symm
  | cons entry rest ih =>
    show list (reportAfter verdict (result.add entry.1 entry.2.name (verdict entry)) rest) = _
    rw [ih, list_add, List.append_assoc, List.filterMap_cons]
    cases adds entry.1 entry.2.name (verdict entry) <;> rfl

theorem reportAfter_once {order : List (JsString × RetargetRow)} {result : Retargeted} (unique : (Assoc.keys order).Nodup)
    (once : result.sessionIds.Nodup) (apart : ∀ id ∈ Assoc.keys order, id ∉ result.sessionIds) :
    (reportAfter verdict result order).sessionIds.Nodup := by
  induction order generalizing result with
  | nil => exact once
  | cons entry rest ih =>
    obtain ⟨notRest, unique⟩ := List.nodup_cons.mp unique
    have here := apart entry.1 (List.mem_cons_self ..)
    have later : ∀ id ∈ Assoc.keys rest, id ∉ result.sessionIds := fun id member => apart id (List.mem_cons_of_mem _ member)
    rcases add_sessionIds result entry.1 entry.2.name (verdict entry) with same | more
    · exact ih unique (same.nodup_iff.mpr once) fun id member listed => later id member (same.mem_iff.mp listed)
    · refine ih unique (more.nodup_iff.mpr (List.nodup_cons.mpr ⟨here, once⟩)) fun id member listed => ?_
      rcases List.mem_cons.mp (more.mem_iff.mp listed) with rfl | before
      · exact notRest member
      · exact later id member before

theorem mem_report {s : Store} {order : List (JsString × RetargetRow)} (params : Retarget)
    (arranged : order.Perm (retargetRows s)) {τ : Type} {list : Retargeted → List τ}
    (adds : JsString → JsString → Verdict → Option τ) (none_yet : list ⟨[], [], [], []⟩ = [])
    (list_add : ∀ result id name verdict, list (result.add id name verdict) = list result ++ (adds id name verdict).toList)
    {x : τ} {id name : JsString} {kind : Verdict}
    (adds_iff : ∀ {other named verdict}, adds other named verdict = some x ↔ other = id ∧ named = name ∧ verdict = kind) :
    x ∈ list (params.report (retargetRows s) order) ↔ ∃ row, (id, row) ∈ retargetRows s ∧ row.name = name ∧
      params.verdict (retargetRows s) id row = kind := by
  have listed : list (params.report (retargetRows s) order) = list ⟨[], [], [], []⟩ ++ _ :=
    list_reportAfter (fun entry => params.verdict (retargetRows s) entry.1 entry.2) list_add order _
  rw [listed, none_yet, List.nil_append, List.mem_filterMap]
  simp only [Prod.exists, arranged.mem_iff, adds_iff]
  constructor
  · rintro ⟨_, row, member, rfl, named, judged⟩
    exact ⟨row, member, named, judged⟩
  · rintro ⟨row, member, named, judged⟩
    exact ⟨id, row, member, rfl, named, judged⟩

theorem report_partition {s : Store} {order : List (JsString × RetargetRow)} (params : Retarget)
    (arranged : order.Perm (retargetRows s)) : Partition params s (params.report (retargetRows s) order) := by
  have unique : (Assoc.keys order).Nodup := (arranged.map Prod.fst).nodup_iff.mpr (retargetRows_nodup s)
  refine ⟨reportAfter_once unique List.nodup_nil fun _ _ => List.not_mem_nil, fun id name live => ?_, fun id name => ?_,
    fun id name => ?_, fun id name model => ?_⟩
  · refine mem_report params arranged Verdict.movedEntry rfl (fun result id name verdict => ?_) Verdict.movedEntry_eq_some
    cases verdict <;> simp [Retargeted.add, Verdict.movedEntry]
  · refine mem_report params arranged (Verdict.entry .pinned) rfl (fun result id name verdict => ?_) Verdict.entry_eq_some
    cases verdict <;> simp [Retargeted.add, Verdict.entry]
  · refine mem_report params arranged (Verdict.entry .pending) rfl (fun result id name verdict => ?_) Verdict.entry_eq_some
    cases verdict <;> simp [Retargeted.add, Verdict.entry]
  · refine mem_report params arranged Verdict.otherEntry rfl (fun result id name verdict => ?_) Verdict.otherEntry_eq_some
    cases verdict <;> simp [Retargeted.add, Verdict.otherEntry]

end Reports

/-! ## What is read back of a moved launch -/

/-- Launches are JSON objects, as every writer of the column leaves them. -/
def LaunchObjects (s : Store) : Prop :=
  ∀ id row launch, s.sessions.get? id = some row → row.launch = some launch → Json.IsData launch ∧ launch.isObject = true

theorem LaunchObjects.data {s : Store} (stored : LaunchObjects s) {id : JsString} {row : Session}
    (found : s.sessions.get? id = some row) : Json.IsData (launchOf row) := by
  unfold launchOf
  cases held : row.launch with
  | none => exact ⟨List.nodup_nil, trivial⟩
  | some launch => exact (stored id row launch found held).1

/-- A member of JSON data has distinct member names, too. -/
theorem plain_get_of_isData {v : Value} (data : Json.IsData v) (key : JsString) : Plain (v.get key) := by
  unfold Value.get
  cases found : Assoc.lookup v.fields key with
  | none => exact List.nodup_nil
  | some w =>
    cases v with
    | obj fields => exact plain_of_isData (Json.haveData_iff.mp data.2 _ (Assoc.mem_of_lookup found))
    | _ => contradiction

theorem get_readBackMember {v : Value} (plain : Plain v) (key : JsString) :
    (Json.readBackMember v).get key = Json.readBackMember (v.get key) := by
  by_cases defined : v = .undefined
  · rw [defined]
    rfl
  · rw [Json.readBackMember_ne_undefined defined, Json.get_readBack plain]

theorem plain_get_written (v : Value) (key : JsString) : Plain ((written v).get key) := by
  by_cases defined : v = .undefined
  · rw [defined]
    exact List.nodup_nil
  · rw [written_eq defined]
    exact plain_get_of_isData (Json.isData_readBack v) key

theorem launchField_written {launch : Value} {key field : String} (plain : Plain launch)
    (inner : Plain (launch.get (js key))) :
    launchField (written launch) key field = Json.readBackMember (launchField launch key field) := by
  rw [launchField, get_written plain, get_readBackMember inner, launchField]

section Moved

variable {env : Env} {params : Retarget} {live : Bool} {draw : ℕ} {launch : Value}

theorem retargetedLaunch_model_plain (data : Json.IsData launch) :
    Plain ((retargetedLaunch env params live draw launch).get (js "model")) := by
  rw [retargetedLaunch_model]
  split
  · exact plain_get_of_isData data _
  · exact (plain_get_of_isData data _).set _ _

theorem written_source {source : JsString} (data : Json.IsData launch)
    (named : launchField launch "model" "source" = .str source) :
    launchField (written (retargetedLaunch env params live draw launch)) "model" "source" = .str source := by
  rw [launchField_written (retargetedLaunch_plain (plain_of_isData data) ..) (retargetedLaunch_model_plain data), retargetedLaunch_source, named]
  rfl

/-- The model of a moved session that is not live is the target. -/
theorem written_target (data : Json.IsData launch) :
    launchField (written (retargetedLaunch env params false draw launch)) "model" "resolved" = params.target := by
  rw [launchField_written (retargetedLaunch_plain (plain_of_isData data) ..) (retargetedLaunch_model_plain data), launchField,
    retargetedLaunch_model]
  have apart : js "provider" ≠ js "id" := by decide
  simp [Json.readBackMember, Retarget.target, Value.record, Json.readBack, Json.readBackFields, Assoc.set, apart]

theorem request_plain (requestId : JsString) (thinkingLevel : Value) : Plain (params.request requestId thinkingLevel) := by
  have names : (["requestId", "provider", "model", "thinkingLevel", "followDefault"].map js).Nodup := by decide
  simpa only [Plain, Retarget.request, Value.record, Value.fields, Assoc.keys, List.map_cons, List.map_nil] using names

theorem request_followDefault (requestId : JsString) (thinkingLevel : Value) :
    (params.request requestId thinkingLevel).get (js "followDefault") = .bool true := by
  have apart : js "requestId" ≠ js "followDefault" ∧ js "provider" ≠ js "followDefault" ∧
      js "model" ≠ js "followDefault" ∧ js "thinkingLevel" ≠ js "followDefault" := by decide
  simp [Retarget.request, Value.record, Value.get, Value.fields, Assoc.lookup, apart]

/-- A live session that was moved has its move pending. -/
theorem written_pending (data : Json.IsData launch) :
    (written (retargetedLaunch env params true draw launch)).get (js "pendingInference") =
      Json.readBack (params.request (env.uuid draw) (params.thinkingFor (launchField launch "thinking" "resolved"))) := by
  rw [get_written (retargetedLaunch_plain (plain_of_isData data) ..), retargetedLaunch_pending]
  exact Json.readBackMember_ne_undefined (by simp [Retarget.request, Value.record])

end Moved

/-! ## Afterwards -/

/-- The session is live and follows the default. -/
def Follows (s : Store) (id : JsString) : Prop :=
  ∃ row, (id, row) ∈ retargetRows s ∧ followsDefault (retargetRows s) maxAncestorDepth row = true

/-- The same live sessions with the same parents, and sources that are text where they were. -/
theorem follows_of_origins {s t : Store} (same : SameOrigins (retargetRows t) (retargetRows s)) {id : JsString}
    (follows : Follows s id) : Follows t id := by
  obtain ⟨row, member, holds⟩ := follows
  have found := Assoc.lookup_of_mem (retargetRows_nodup s) member
  have there := same id
  rw [found, Option.map_some, Option.map_eq_some_iff] at there
  obtain ⟨next, found', alike⟩ := there
  refine ⟨next, Assoc.mem_of_lookup found', ?_⟩
  rw [followsDefault_congr same maxAncestorDepth alike]
  exact holds

/-- Only a launch and the time of its update differ, and the source of the model is the same. -/
structure Resourced (row next : Session) : Prop where
  rest : next = { row with launch := next.launch, updatedAt := next.updatedAt }
  source : launchField (launchOf next) "model" "source" = launchField (launchOf row) "model" "source"

theorem Resourced.refl (row : Session) : Resourced row row := ⟨rfl, rfl⟩

theorem origins_of_resourced {s t : Store} (same : ∀ id, Option.Rel Resourced (s.sessions.get? id) (t.sessions.get? id)) :
    SameOrigins (retargetRows t) (retargetRows s) := by
  intro id
  rw [lookup_retargetRows, lookup_retargetRows]
  have related := same id
  revert related
  cases s.sessions.get? id with
  | none =>
    cases t.sessions.get? id with
    | none => exact fun _ => rfl
    | some next =>
      intro related
      cases related
  | some row =>
    cases t.sessions.get? id with
    | none =>
      intro related
      cases related
    | some next =>
      intro related
      cases related with
      | some changed =>
        have kept := changed.rest
        have deletedAt : next.deletedAt = row.deletedAt := by rw [kept]
        have deleted : next.deleted = row.deleted := by
          rw [kept]
          rfl
        have parent : next.parentSessionId = row.parentSessionId := by rw [kept]
        by_cases live : row.deletedAt = none ∧ row.deleted = false
        · simp only [Option.filter_some, deletedAt, deleted, live, and_self, decide_true, ↓reduceIte, Option.map_some,
            Option.some.injEq]
          exact Prod.ext parent changed.source
        · simp only [Option.filter_some, deletedAt, deleted, live, decide_false, Bool.false_eq_true, ↓reduceIte, Option.map_none]

theorem verdict_moved {params : Retarget} {rows : List (JsString × RetargetRow)} {id : JsString} {row : RetargetRow}
    {live : Bool} (moved : params.verdict rows id row = .moved live) :
    followsDefault rows maxAncestorDepth row = true ∧ params.current row.launch = true ∧
      (row.launch.get (js "pendingInference")).truthy = false := by
  unfold Retarget.verdict at moved
  split at moved
  · split at moved <;> contradiction
  · next follows =>
    split at moved
    · split at moved <;> contradiction
    · next current =>
      split at moved
      · contradiction
      · next free =>
        exact ⟨by simpa using follows, by simpa using current, by simpa using free⟩

theorem source_of_follows {rows : List (JsString × RetargetRow)} {depth : ℕ} {row : RetargetRow}
    (follows : followsDefault rows depth row = true) : ∃ source, launchField row.launch "model" "source" = .str source := by
  cases depth with
  | zero => exact ⟨_, of_decide_eq_true follows⟩
  | succ depth =>
    rw [followsDefault, Bool.or_eq_true] at follows
    rcases follows with settings | inherited
    · exact ⟨_, of_decide_eq_true settings⟩
    · exact ⟨_, of_decide_eq_true (Bool.and_eq_true_iff.mp inherited).1⟩

section Afterwards

variable {env : Env} {params : Retarget} {now : ℤ} {s : Store} {order : List (JsString × RetargetRow)}

structure MovedRow (env : Env) (params : Retarget) (now : ℤ) (s t : Store) (id : JsString) (live : Bool) (row : Session)
    (draw : ℕ) : Prop where
  before : s.sessions.get? id = some row
  after : t.sessions.get? id =
    some { row with launch := some (written (retargetedLaunch env params live draw (launchOf row))), updatedAt := now }
  listed : (id, RetargetRow.of row) ∈ retargetRows s
  verdict : params.verdict (retargetRows s) id (.of row) = .moved live

theorem MovedRow.launch {t : Store} {id : JsString} {live : Bool} {row next : Session} {draw : ℕ}
    (here : MovedRow env params now s t id live row draw) (found : t.sessions.get? id = some next) :
    launchOf next = written (retargetedLaunch env params live draw (launchOf row)) := by
  cases found.symm.trans here.after
  rfl

theorem exists_movedRow (arranged : order.Perm (retargetRows s)) (apply : params.apply = true)
    {entry : JsString × JsString × Bool} (member : entry ∈ (retargetInOrder env s params now order).2.moved) :
    ∃ row draw, MovedRow env params now s (retargetInOrder env s params now order).1 entry.1 entry.2.2 row draw := by
  obtain ⟨row, draw, before, after⟩ := (retargetInOrder_applied env now arranged apply).moved entry member
  rw [retargetInOrder_report env params now arranged] at member
  obtain ⟨other, listed, -, verdict⟩ := ((report_partition params arranged).moved _ _ _).mp member
  obtain ⟨session, found, -, -, rfl⟩ := mem_retargetRows.mp listed
  cases before.symm.trans found
  exact ⟨row, draw, before, after, listed, verdict⟩

/-- After applied moves every session has its place and its source as before. -/
theorem retargetInOrder_resourced (stored : LaunchObjects s) (arranged : order.Perm (retargetRows s))
    (apply : params.apply = true) (id : JsString) : Option.Rel Resourced (s.sessions.get? id)
      ((retargetInOrder env s params now order).1.sessions.get? id) := by
  by_cases moved : id ∈ (retargetInOrder env s params now order).2.moved.map Prod.fst
  · obtain ⟨entry, member, rfl⟩ := List.mem_map.mp moved
    obtain ⟨row, draw, here⟩ := exists_movedRow arranged apply member
    obtain ⟨source, named⟩ := source_of_follows (verdict_moved here.verdict).1
    rw [here.before, here.after]
    exact .some ⟨rfl, (written_source (stored.data here.before) named).trans named.symm⟩
  · rw [(retargetInOrder_applied env now arranged apply).still id moved]
    cases s.sessions.get? id with
    | none => exact .none
    | some row => exact .some (.refl row)

theorem follows_of_moved (stored : LaunchObjects s) (arranged : order.Perm (retargetRows s)) (apply : params.apply = true)
    {entry : JsString × JsString × Bool} (member : entry ∈ (retargetInOrder env s params now order).2.moved) :
    Follows (retargetInOrder env s params now order).1 entry.1 := by
  obtain ⟨row, draw, here⟩ := exists_movedRow arranged apply member
  exact follows_of_origins (origins_of_resourced (retargetInOrder_resourced stored arranged apply))
    ⟨_, here.listed, (verdict_moved here.verdict).1⟩

/-- A second call moves nothing: a live session has its move pending, another one has left the old model. -/
theorem moved_again (stored : LaunchObjects s) (arranged : order.Perm (retargetRows s)) (apply : params.apply = true)
    (elsewhere : ¬(params.toProvider = params.fromProvider ∧ params.toModel = params.fromModel))
    {id : JsString} {row : RetargetRow} (listed : (id, row) ∈ retargetRows (retargetInOrder env s params now order).1)
    (live : Bool) : params.verdict (retargetRows (retargetInOrder env s params now order).1) id row ≠ .moved live := by
  intro again
  obtain ⟨follows, current, free⟩ := verdict_moved again
  obtain ⟨next, found, kept, alive, rfl⟩ := mem_retargetRows.mp listed
  by_cases moved : id ∈ (retargetInOrder env s params now order).2.moved.map Prod.fst
  · obtain ⟨entry, member, rfl⟩ := List.mem_map.mp moved
    obtain ⟨row, draw, here⟩ := exists_movedRow arranged apply member
    have data := stored.data here.before
    have launch := here.launch found
    cases going : entry.2.2 with
    | true =>
      rw [going] at launch
      have free' : ((launchOf next).get (js "pendingInference")).truthy = false := free
      rw [launch, written_pending data] at free'
      simp [Retarget.request, Value.record, Json.readBack, Value.truthy] at free'
    | false =>
      rw [going] at launch
      have sameModel : params.current (launchOf next) = true := current
      rw [Retarget.current, launch, written_target data, decide_eq_true_iff] at sameModel
      apply elsewhere
      simpa [Retarget.target, Value.record, Value.get, Value.fields, Assoc.lookup,
        show js "provider" ≠ js "id" by decide] using sameModel
  · -- its launch and all sources are as they were, so it would have been moved before
    rw [(retargetInOrder_applied env now arranged apply).still id moved] at found
    have listed' : (id, RetargetRow.of next) ∈ retargetRows s := mem_retargetRows.mpr ⟨next, found, kept, alive, rfl⟩
    rw [params.verdict_congr (origins_of_resourced (retargetInOrder_resourced stored arranged apply))] at again
    have reported := ((report_partition params arranged).moved id next.displayName live).mpr ⟨_, listed', rfl, again⟩
    rw [← retargetInOrder_report env params now arranged] at reported
    exact moved (List.mem_map_of_mem reported)

theorem setLaunch_resourced {t : Store} {id : JsString} {row : Session} {launch : Value} (found : t.sessions.get? id = some row)
    (same : launchField (written launch) "model" "source" = launchField (launchOf row) "model" "source") (other : JsString) :
    Option.Rel Resourced (t.sessions.get? other) ((t.setLaunch id launch now).sessions.get? other) := by
  rw [Store.setLaunch, Store.updateSession, Table.get?_update_of found]
  split
  · next here =>
    rw [here, found]
    exact .some ⟨rfl, same⟩
  · cases t.sessions.get? other with
    | none => exact .none
    | some row => exact .some (.refl row)

/-- Once its actor has applied the queued move, the session still follows the default. -/
theorem follows_of_update (stored : LaunchObjects s) (arranged : order.Perm (retargetRows s)) (apply : params.apply = true)
    {id name : JsString} (member : (id, name, true) ∈ (retargetInOrder env s params now order).2.moved)
    {requestId : JsString} (given : requestId ≠ [])
    (asked : (pendingOf (retargetInOrder env s params now order).1 id).get (js "requestId") = .str requestId)
    {selection : Selection} {expected : Option Value} {later : ℤ} {t : Store} {launch : Value}
    (done : updateSessionInference (retargetInOrder env s params now order).1 id selection expected later (some requestId) =
      .ok (t, launch)) : Follows t id := by
  obtain ⟨row, draw, here⟩ := exists_movedRow arranged apply member
  have follows := follows_of_moved stored arranged apply member
  have data := stored.data here.before
  obtain ⟨source, named⟩ := source_of_follows (verdict_moved here.verdict).1
  unfold updateSessionInference at done
  obtain ⟨next, lives, done⟩ := Checked.bind_eq_ok.mp done
  obtain ⟨_, -, done⟩ := Checked.bind_eq_ok.mp done
  have found := (liveSession_found _ _ _ lives).1
  have launched := here.launch found
  have pending : (launchOf next).get (js "pendingInference") = _ := launched ▸ written_pending data
  have applies : ((some requestId).filter (· ≠ [])).any (fun id =>
      ((launchOf next).get (js "pendingInference")).get (js "requestId") = .str id) = true := by
    rw [pendingOf_of_get found] at asked
    simp [given, asked]
  have following : ((((launchOf next).get (js "pendingInference")).get (js "followDefault")).truthy) = true := by
    rw [pending, Json.get_readBack (request_plain _ _), request_followDefault]
    rfl
  have source_kept : launchField (launchOf next) "model" "source" = .str source := by
    rw [launched]
    exact written_source data named
  have others : js "thinking" ≠ js "model" ∧ js "fastModeSupported" ≠ js "model" ∧ js "pendingInference" ≠ js "model" ∧
      js "resolved" ≠ js "source" := by decide
  simp only [applies, following, and_self, ↓reduceIte, Checked.pure_eq_ok, Prod.mk.injEq] at done
  obtain ⟨rfl, -⟩ := done
  refine follows_of_origins (origins_of_resourced (setLaunch_resourced found ?_)) follows
  have model : ∀ resolved thinking supported, ((((setResolved (setResolved (launchOf next) "model" resolved) "thinking"
      thinking).set (js "fastModeSupported") supported).delete (js "pendingInference")).get (js "model")) =
      ((launchOf next).get (js "model")).set (js "resolved") resolved := by
    intro resolved thinking supported
    rw [Value.get_delete_of_ne _ others.2.2.1, Value.get_set_of_ne _ _ others.2.1, setResolved,
      Value.get_set_of_ne _ _ others.1, setResolved, Value.get_set_self]
  have inner : Plain ((launchOf next).get (js "model")) := launched ▸ plain_get_written _ _
  have plain : Plain (launchOf next) := launched ▸ written_plain _
  have around : Plain (((setResolved (setResolved (launchOf next) "model" selection.resolved) "thinking"
      selection.thinkingLevel).set (js "fastModeSupported") (.bool selection.fastModeSupported)).delete
        (js "pendingInference")) := .delete (.set (.set (.set plain _ _) _ _) _ _) _
  rw [launchField_written around (by rw [model]; exact inner.set _ _), launchField, model,
    Value.get_set_of_ne _ _ others.2.2.2]
  rw [launchField] at source_kept
  rw [launchField, source_kept]
  rfl

end Afterwards

/-! ## The result -/

def Retarget.preview (params : Retarget) : Retarget := { params with apply := false }

def Retarget.applied (params : Retarget) : Retarget := { params with apply := true }

theorem report_preview (params : Retarget) : params.preview.report = params.report := rfl

theorem report_applied (params : Retarget) : params.applied.report = params.report := rfl

/-- Rows in any order are reported as one partition by their verdicts, in a preview as when moves are applied. Applied
moves change the launches of the moved sessions alone. A moved session follows the default afterwards, also once its
actor has applied a move that was queued. Unless the target is the model that is replaced, a second call, with its rows
in any order, moves nothing. -/
theorem retargetDefaultInference_moves (env : Env) (s : Store) (params : Retarget) (now : ℤ) (stored : LaunchObjects s)
    (order : List (JsString × RetargetRow)) (arranged : order.Perm (retargetRows s)) :
    Partition params s (retargetInOrder env s params.applied now order).2 ∧
    retargetInOrder env s params.preview now order = (s, (retargetInOrder env s params.applied now order).2) ∧
    Applied env params.applied now s (retargetInOrder env s params.applied now order).1
      (retargetInOrder env s params.applied now order).2.moved ∧
    (∀ entry ∈ (retargetInOrder env s params.applied now order).2.moved,
      Follows (retargetInOrder env s params.applied now order).1 entry.1) ∧
    (∀ id name, (id, name, true) ∈ (retargetInOrder env s params.applied now order).2.moved →
      ∀ requestId, requestId ≠ [] →
        (pendingOf (retargetInOrder env s params.applied now order).1 id).get (js "requestId") = .str requestId →
      ∀ selection expected later t launch, updateSessionInference (retargetInOrder env s params.applied now order).1 id
        selection expected later (some requestId) = .ok (t, launch) → Follows t id) ∧
    (¬(params.toProvider = params.fromProvider ∧ params.toModel = params.fromModel) →
      ∀ again env' later, again.Perm (retargetRows (retargetInOrder env s params.applied now order).1) →
        (retargetInOrder env' (retargetInOrder env s params.applied now order).1 params.applied later again).2.moved = []) := by
  have partition : Partition params s (retargetInOrder env s params.applied now order).2 := by
    rw [retargetInOrder_report env params.applied now arranged, report_applied]
    exact report_partition params arranged
  refine ⟨partition, ?_, retargetInOrder_applied env now arranged rfl, fun entry member => follows_of_moved stored arranged rfl member,
    fun id name member requestId given asked selection expected later t launch done =>
      follows_of_update stored arranged rfl member given asked done, fun elsewhere again env' later rearranged => ?_⟩
  · refine Prod.ext (retargetInOrder_preview env now arranged rfl) ?_
    rw [retargetInOrder_report env params.preview now arranged, retargetInOrder_report env params.applied now arranged,
      report_preview, report_applied]
  · rw [retargetInOrder_report env' params.applied later rearranged, List.eq_nil_iff_forall_not_mem]
    rintro ⟨id, name, live⟩ listed
    obtain ⟨row, member, -, verdict⟩ := ((report_partition params.applied rearranged).moved id name live).mp listed
    exact @moved_again env params.applied now s order stored arranged rfl elsewhere id row member live verdict

def followingLaunch : Value :=
  .record [("model", .record [("source", .text "settings"),
    ("resolved", .record [("provider", .text "codex"), ("id", .text "sol")])])]

/-- A stopped root that follows the default. -/
def followingStore : Store :=
  { Store.empty with
    sessions := Table.empty.insertOrIgnore (js "root")
      { shortId := js "root", sessionFile := none, cwd := js "/", repositoryRoot := none, displayName := js "Home", kind := .root
        familyId := js "roots", parentSessionId := none, depth := 0, activity := .inactive, streaming := false
        lifecycle := .stopped, actorToken := js "token", actorGeneration := 1, actorPid := none, actorIdentity := none
        launch := some followingLaunch, scratch := none, quietSince := none, lastError := none, createdAt := 0, updatedAt := 0
        lastActivityAt := none, startedAt := none, stoppedAt := none, deletedAt := none } }

/-- From one model to another, with thinking levels as they are. -/
def sampleRetarget : Retarget := ⟨js "codex", js "sol", js "codex", js "terra", true, [], id, true⟩

theorem followingStore_launches : LaunchObjects followingStore := by
  intro id row launch found held
  have stored : (Table.empty.insertOrIgnore (js "root") _ : Sessions).get? id = some row := found
  rw [Table.get?_insertOrIgnore] at stored
  split at stored
  · cases stored
    cases held
    have data : Json.IsData followingLaunch :=
      ⟨by decide, ⟨⟨by decide, trivial, ⟨by decide, trivial, trivial, trivial⟩, trivial⟩, trivial⟩⟩
    exact ⟨data, rfl⟩
  · contradiction

def retargetEnv : Env := ⟨id, fun draw => [UInt16.ofNat draw]⟩

/-- The root is moved, follows the default, and is not moved again. -/
theorem retargetDefaultInference_moves_sample :
    ∃ moved, retargetInOrder retargetEnv followingStore sampleRetarget.applied 5 (retargetRows followingStore) = moved ∧
      moved.2.moved = [(js "root", js "Home", false)] ∧ Follows moved.1 (js "root") ∧
      (retargetInOrder retargetEnv moved.1 sampleRetarget.applied 6 (retargetRows moved.1)).2.moved = [] := by
  have root : (retargetInOrder retargetEnv followingStore sampleRetarget.applied 5 (retargetRows followingStore)).2.moved =
      [(js "root", js "Home", false)] := by decide +kernel
  have elsewhere : js "terra" ≠ js "sol" := by decide
  have sound := retargetDefaultInference_moves retargetEnv followingStore sampleRetarget 5 followingStore_launches
    (retargetRows followingStore) (.refl _)
  generalize retargetInOrder retargetEnv followingStore sampleRetarget.applied 5 (retargetRows followingStore) = moved at root sound
  obtain ⟨-, -, -, follow, -, again⟩ := sound
  refine ⟨moved, rfl, root, follow (js "root", js "Home", false) ?_,
    again (fun same => elsewhere same.2) _ retargetEnv 6 (List.Perm.refl _)⟩
  rw [root]
  exact List.mem_singleton_self _

end PersistentHarness.SessionStore
