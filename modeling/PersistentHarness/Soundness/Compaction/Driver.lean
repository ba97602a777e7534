import PersistentHarness.Lib.Checked
import PersistentHarness.Lib.Trace
import PersistentHarness.Model.Compaction.Driver

/-! # What a compaction does to its session

The driver appends in the same step in which it compares the session with its snapshot for the last time. After an abort no
queued stream starts any more, so the handler has only to wait for those that run; a stock compaction that resolved has none
queued.
-/

namespace PersistentHarness.Compaction

section Statements

def Note.isAppend : Note → Bool
  | .appended _ _ _ _ _ => true
  | _ => false

def Note.endsWithResult : Note → Bool
  | .compactionEnd (some _) _ _ => true
  | _ => false

/-- The call succeeded, or its error is marked committed. -/
def Outcome.isCommitted : Outcome → Bool
  | .returned _ | .committed _ _ => true
  | .thrown _ => false

/-- The session after some notes: the changes of others, and the appended compactions. -/
def sessionAfter (first : Session) : List Note → Session
  | [] => first
  | .changed session :: _ => session
  | .appended id result fromExtension revision generation :: past =>
    (sessionAfter first past).append id result fromExtension revision generation
  | _ :: past => sessionAfter first past

/-- The session is idle and what it was at the snapshot. -/
def Unchanged (first now : Session) : Prop :=
  now.sessionId = first.sessionId ∧ now.leafId = first.leafId ∧ now.entries = first.entries ∧ now.isIdle = true

/-- No call is outstanding, and the kept range, which begins at an active entry, has every pending call. -/
def Keeps (d : Driver) (first : Session) (anchor : JsString) : Prop :=
  d.outstandingOf first.entries first.leafId = [] ∧ anchor ∈ d.activeEntryIds first.entries first.leafId ∧
    ∀ call ∈ d.outstandingOf first.entries first.leafId,
      call.messageEntryId ∈ (d.activeEntryIds first.entries first.leafId).drop
        ((d.activeEntryIds first.entries first.leafId).idxOf anchor)

/-- When a compaction may be appended. -/
def Permitted (d : Driver) (first : Session) (past : List Note) : Note → Prop
  | .appended _ result _ _ _ => Unchanged first (sessionAfter first past) ∧ Keeps d first result.firstKeptEntryId
  | _ => True

def Stamped (d : Driver) (entriesAt : ℕ → ℕ → List Record) (session : Session) : Prop :=
  d.managed = true → session.entries = entriesAt session.revision session.generation

/-- What the SDK promises: stamps determine the entries, and a stock compaction resolves when all the streams that it asked
for have been dispatched, and asks for none after that. -/
def Promised (d : Driver) (entriesAt : ℕ → ℕ → List Record) (s : State) : Event → Prop
  | .change session => Stamped d entriesAt session
  | .request => s.stock ≠ .resolved
  | .reply (.compacted _) _ => ∀ stream ∈ s.streams, stream.phase ≠ .queued
  | _ => True

end Statements

section Streams

variable {s t : State} {i j : ℕ} {stream : Stream}

def Running (s : State) (i : ℕ) : Prop := ∃ stream, s.streams[i]? = some stream ∧ stream.phase = .running

/-- No stream starts any more. -/
def Still (s : State) : Prop := s.localAborted = true ∨ s.stock ≠ .pending

/-- No stream runs, and none starts any more. -/
def Quiet (s : State) : Prop := Still s ∧ ∀ i, ¬Running s i

theorem Running.lt (running : Running s i) : i < s.streams.length := by
  obtain ⟨_, found, _⟩ := running
  exact (List.getElem?_eq_some_iff.mp found).1

theorem Running.mem_completions (running : Running s i) : i ∈ s.completions := by
  have inside := running.lt
  obtain ⟨stream, found, runs⟩ := running
  apply List.mem_filter.mpr
  refine ⟨List.mem_range.mpr inside, ?_⟩
  rw [found, Option.any_some, runs]
  rfl

theorem Running.not_hasEnded (running : Running s i) : s.hasEnded i = false := by
  obtain ⟨stream, found, runs⟩ := running
  rw [State.hasEnded, found, Option.any_some, runs]
  rfl

/-- Of the streams that were awaited, none runs. -/
theorem quiet_of_awaited {awaited : List ℕ} (still : Still s) (covers : ∀ i, Running s i → i ∈ awaited)
    (ended : awaited.all s.hasEnded = true) : Quiet s := by
  refine ⟨still, fun i running => ?_⟩
  have over_ := List.all_eq_true.mp ended i (covers i running)
  rw [running.not_hasEnded] at over_
  cases over_

/-- The driver's own part of the state is as before, and a stream starts only where it may. -/
structure Aside (s t : State) : Prop where
  stage : t.stage = s.stage
  committed : t.committed = s.committed
  terminal : t.terminalAttempted = s.terminalAttempted
  stock : t.stock = s.stock
  aborted : s.localAborted = true → t.localAborted = true
  running : Still s → ∀ i, Running t i → Running s i

theorem Aside.still (aside : Aside s t) (still : Still s) : Still t := by
  rcases still with aborted | stock
  · exact .inl (aside.aborted aborted)
  · exact .inr (aside.stock ▸ stock)

theorem Aside.quiet (aside : Aside s t) (quiet : Quiet s) : Quiet t :=
  ⟨aside.still quiet.1, fun i running => quiet.2 i (aside.running quiet.1 i running)⟩

theorem running_set (other : stream.phase ≠ .running)
    (same : t.streams = s.streams.set j stream) (running : Running t i) : Running s i := by
  obtain ⟨found, at_, runs⟩ := running
  rw [same, List.getElem?_set] at at_
  split at at_
  · split at at_
    · cases at_
      exact absurd runs other
    · cases at_
  · exact ⟨found, at_, runs⟩

end Streams

section Invariant

variable {d : Driver} {o : Options} {entriesAt : ℕ → ℕ → List Record} {first : Session} {s t : State} {plan : Plan}

structure Base (d : Driver) (entriesAt : ℕ → ℕ → List Record) (first : Session) (s : State) : Prop where
  snapshot : s.snapshot = first
  origin : Stamped d entriesAt first
  session : s.session = sessionAfter first s.log
  stamped : s.committed = false → Stamped d entriesAt s.session
  ordered : InOrder (Permitted d first) s.log
  appends : s.log.countP Note.isAppend = if s.committed then 1 else 0
  results : s.log.countP Note.endsWithResult = if s.terminalAttempted then 1 else 0
  given : s.committed = true → s.finalResult.isSome
  terminal : s.terminalAttempted = true → s.committed = true
  unasked : s.stock = .unasked → s.streams = []
  resolved : s.stock = .resolved → ∀ stream ∈ s.streams, stream.phase ≠ .queued

/-- The plan is made for the snapshot, and no call is outstanding. -/
def Plan.Fits (d : Driver) (first : Session) (plan : Plan) : Prop :=
  plan.outstanding = d.outstandingOf first.entries first.leafId ∧ plan.outstanding = []

/-- What the driver relies on at an await. -/
def At (d : Driver) (first : Session) (s : State) : Stage → Prop
  | .announcing => s.committed = false ∧ s.stock = .unasked
  | .preparing outstanding =>
    s.committed = false ∧ s.stock = .unasked ∧ outstanding = d.outstandingOf first.entries first.leafId
  | .diagnosing plan | .asking plan => s.committed = false ∧ s.stock = .unasked ∧ plan.Fits d first
  | .compacting plan => s.committed = false ∧ plan.Fits d first
  | .collecting plan awaited _ =>
    s.committed = false ∧ plan.Fits d first ∧ Still s ∧ ∀ i, Running s i → i ∈ awaited
  | .recording | .emitting | .concluding => s.committed = true ∧ s.terminalAttempted = false ∧ Quiet s
  | .publishing | .publishingCommitted _ => s.committed = true ∧ Quiet s
  | .drainingDispatches _ _ _ => s.localAborted = true
  | .drainingCompletions awaited _ _ => s.localAborted = true ∧ ∀ i, Running s i → i ∈ awaited
  | .publishingFailure _ _ | .emittingFailure _ => s.committed = false ∧ Quiet s
  | .ended outcome => outcome.isCommitted = s.committed ∧ Quiet s

structure Sound (d : Driver) (entriesAt : ℕ → ℕ → List Record) (first : Session) (s : State) : Prop where
  base : Base d entriesAt first s
  stage : At d first s s.stage

/-- The streams and aborts leave alone what the driver relies on. -/
theorem At.aside {stage : Stage} (held : At d first s stage) (aside : Aside s t) : At d first t stage := by
  cases stage with
  | announcing => exact ⟨aside.committed ▸ held.1, aside.stock ▸ held.2⟩
  | preparing outstanding => exact ⟨aside.committed ▸ held.1, aside.stock ▸ held.2.1, held.2.2⟩
  | diagnosing plan | asking plan => exact ⟨aside.committed ▸ held.1, aside.stock ▸ held.2.1, held.2.2⟩
  | compacting plan => exact ⟨aside.committed ▸ held.1, held.2⟩
  | collecting plan awaited result =>
    obtain ⟨pending, fits, still, covers⟩ := held
    exact ⟨aside.committed ▸ pending, fits, aside.still still, fun i running => covers i (aside.running still i running)⟩
  | recording | emitting | concluding =>
    exact ⟨aside.committed ▸ held.1, aside.terminal ▸ held.2.1, aside.quiet held.2.2⟩
  | publishing | publishingCommitted error => exact ⟨aside.committed ▸ held.1, aside.quiet held.2⟩
  | drainingDispatches awaited error aborted => exact aside.aborted held
  | drainingCompletions awaited error aborted =>
    exact ⟨aside.aborted held.1, fun i running => held.2 i (aside.running (.inl held.1) i running)⟩
  | publishingFailure error aborted | emittingFailure error => exact ⟨aside.committed ▸ held.1, aside.quiet held.2⟩
  | ended outcome => exact ⟨aside.committed ▸ held.1, aside.quiet held.2⟩

/-- At an await a request to the provider was noted, or nothing. -/
theorem Base.aside (base : Base d entriesAt first s) (aside : Aside s t) (snapshot : t.snapshot = s.snapshot)
    (session : t.session = s.session) (result : t.finalResult = s.finalResult)
    (log : t.log = s.log ∨ ∃ instructions, t.log = .streamed instructions :: s.log)
    (unasked : t.stock = .unasked → t.streams = [])
    (resolved : t.stock = .resolved → ∀ stream ∈ t.streams, stream.phase ≠ .queued) : Base d entriesAt first t := by
  have after : sessionAfter first t.log = sessionAfter first s.log := by
    rcases log with same | ⟨instructions, same⟩
    · rw [same]
    · rw [same]
      rfl
  constructor
  case snapshot => exact snapshot.trans base.snapshot
  case origin => exact base.origin
  case session => rw [session, after, base.session]
  case stamped =>
    intro pending
    rw [session]
    exact base.stamped (aside.committed ▸ pending)
  case ordered =>
    rcases log with same | ⟨instructions, same⟩
    · rw [same]
      exact base.ordered
    · rw [same]
      exact ⟨trivial, base.ordered⟩
  case appends =>
    rw [aside.committed, ← base.appends]
    rcases log with same | ⟨instructions, same⟩ <;> rw [same]
    rfl
  case results =>
    rw [aside.terminal, ← base.results]
    rcases log with same | ⟨instructions, same⟩ <;> rw [same]
    rfl
  case given =>
    rw [aside.committed, result]
    exact base.given
  case terminal =>
    rw [aside.terminal, aside.committed]
    exact base.terminal
  case unasked => exact unasked
  case resolved => exact resolved

theorem Sound.aside (sound : Sound d entriesAt first s) (aside : Aside s t) (base : Base d entriesAt first t) :
    Sound d entriesAt first t := by
  refine ⟨base, ?_⟩
  rw [aside.stage]
  exact sound.stage.aside aside

end Invariant

section Beside

variable {d : Driver} {o : Options} {entriesAt : ℕ → ℕ → List Record} {first : Session} {s : State} {i : ℕ}

theorem Sound.setStream (sound : Sound d entriesAt first s) (stream : Stream) (queued : stream.phase ≠ .queued)
    (running : stream.phase ≠ .running) : Sound d entriesAt first { s with streams := s.streams.set i stream } := by
  have aside : Aside s { s with streams := s.streams.set i stream } :=
    ⟨rfl, rfl, rfl, rfl, fun aborted => aborted, fun _ _ => running_set running rfl⟩
  apply sound.aside aside
  apply sound.base.aside aside rfl rfl rfl (.inl rfl)
  · intro unasked
    dsimp only
    rw [sound.base.unasked unasked]
    rfl
  · intro resolved other member
    rcases List.mem_or_eq_of_mem_set member with member | rfl
    · exact sound.base.resolved resolved other member
    · exact queued

theorem Sound.failStreams (sound : Sound d entriesAt first s) (failure : Failure) :
    Sound d entriesAt first (s.failStreams failure) := by
  have aside : Aside s (s.failStreams failure) := ⟨rfl, rfl, rfl, rfl, fun _ => rfl, fun _ _ running => running⟩
  exact sound.aside aside (sound.base.aside aside rfl rfl rfl (.inl rfl) sound.base.unasked sound.base.resolved)

/-- A queued request is refused, or starts its stream. -/
theorem Sound.dispatch (sound : Sound d entriesAt first s) (queued : s.streams[i]?.any (·.phase = .queued) = true)
    (thrown : Option Failure) : Sound d entriesAt first (s.dispatch i thrown) := by
  obtain ⟨stream, found, isQueued⟩ := Option.any_eq_true _ _ |>.mp queued
  have member := List.mem_of_getElem? found
  have pending : s.stock = .pending := by
    cases state : s.stock with
    | unasked =>
      rw [sound.base.unasked state] at member
      cases member
    | pending => rfl
    | resolved => exact absurd (of_decide_eq_true isQueued) (sound.base.resolved state stream member)
  unfold State.dispatch
  split
  · next failure _ => exact (sound.setStream ⟨.refused, true⟩ nofun nofun).failStreams failure
  · next starts =>
    have alive : s.localAborted = false := by
      cases aborted : s.localAborted with
      | false => rfl
      | true =>
        rw [State.aborted, aborted, Bool.or_true, if_pos rfl] at starts
        cases starts
    have aside : Aside s ({ s with streams := s.streams.set i ⟨.running, false⟩ }.note
        (.streamed (s.instructions.filter (· ≠ [])))) := by
      refine ⟨rfl, rfl, rfl, rfl, fun aborted => aborted, fun still => ?_⟩
      rcases still with aborted | stock
      · rw [alive] at aborted
        cases aborted
      · exact absurd pending stock
    apply sound.aside aside
    apply sound.base.aside aside rfl rfl rfl (.inr ⟨_, rfl⟩)
    · intro unasked
      cases pending.symm.trans unasked
    · intro resolved
      cases pending.symm.trans resolved

theorem Sound.finish (sound : Sound d entriesAt first s) (ending : Ending) : Sound d entriesAt first (s.finish i ending) := by
  have set := sound.setStream (i := i) ⟨.ended ending, false⟩ nofun nofun
  unfold State.finish
  dsimp only
  split
  · next failure _ => exact set.failStreams failure
  · exact set

theorem Sound.request (sound : Sound d entriesAt first s) (asked : s.stock ≠ .unasked) (open_ : s.stock ≠ .resolved) :
    Sound d entriesAt first { s with streams := s.streams ++ [⟨.queued, false⟩] } := by
  have aside : Aside s { s with streams := s.streams ++ [⟨.queued, false⟩] } := by
    refine ⟨rfl, rfl, rfl, rfl, fun aborted => aborted, fun _ i => ?_⟩
    rintro ⟨stream, found, runs⟩
    rcases Nat.lt_or_ge i s.streams.length with inside | outside
    · rw [List.getElem?_append_left inside] at found
      exact ⟨stream, found, runs⟩
    · rw [List.getElem?_append_right outside, List.getElem?_singleton] at found
      split at found
      · cases found
        cases runs
      · cases found
  apply sound.aside aside
  exact sound.base.aside aside rfl rfl rfl (.inl rfl) (fun unasked => absurd unasked asked)
    (fun resolved => absurd resolved open_)

theorem Sound.abort (sound : Sound d entriesAt first s) : Sound d entriesAt first { s with callerAborted := true } := by
  have aside : Aside s { s with callerAborted := true } :=
    ⟨rfl, rfl, rfl, rfl, fun aborted => aborted, fun _ _ running => running⟩
  exact sound.aside aside (sound.base.aside aside rfl rfl rfl (.inl rfl) sound.base.unasked sound.base.resolved)

theorem Sound.change (sound : Sound d entriesAt first s) {session : Session} (stamped : Stamped d entriesAt session) :
    Sound d entriesAt first ({ s with session }.note (.changed session)) := by
  have aside : Aside s ({ s with session }.note (.changed session)) :=
    ⟨rfl, rfl, rfl, rfl, fun aborted => aborted, fun _ _ running => running⟩
  have base := sound.base
  apply sound.aside aside
  exact { base with
    session := rfl
    stamped := fun _ => stamped
    ordered := ⟨trivial, base.ordered⟩
    appends := base.appends
    results := base.results }

end Beside

section Replies

variable {d : Driver} {o : Options} {entriesAt : ℕ → ℕ → List Record} {first : Session} {s : State} {plan : Plan}

theorem Base.at_ (base : Base d entriesAt first s) (stage : Stage) : Base d entriesAt first (s.at_ stage) := { base with }

theorem Base.note (base : Base d entriesAt first s) {item : Note} (silent : item.isAppend = false)
    (open_ : item.endsWithResult = false) (same : sessionAfter first (item :: s.log) = sessionAfter first s.log)
    (permitted : Permitted d first s.log item) : Base d entriesAt first (s.note item) :=
  { base with
    session := base.session.trans same.symm
    ordered := ⟨permitted, base.ordered⟩
    appends := by
      rw [State.note, List.countP_cons, silent]
      exact base.appends
    results := by
      rw [State.note, List.countP_cons, open_]
      exact base.results }

theorem Base.quiet (base : Base d entriesAt first s) (unasked : s.stock = .unasked) : Quiet s := by
  have still : Still s := by
    right
    rw [unasked]
    nofun
  refine ⟨still, ?_⟩
  rintro i ⟨stream, found, _⟩
  rw [base.unasked unasked] at found
  cases found

theorem Base.caught (base : Base d entriesAt first s) (failure : Failure) : Sound d entriesAt first (s.caught failure) :=
  ⟨{ base with }, rfl⟩

theorem Base.attempt (base : Base d entriesAt first s) {α : Type} {x : Except Failure α} {next : α → State}
    (goes : ∀ a, x = .ok a → Sound d entriesAt first (next a)) : Sound d entriesAt first (s.attempt x next) := by
  unfold State.attempt
  split
  · next a => exact goes a rfl
  · next failure => exact base.caught failure

theorem check_eq_ok {condition : Prop} [Decidable condition] {code : String} {u : Unit} :
    check condition code = .ok u ↔ condition := by
  unfold check
  split <;> simp_all

theorem Base.unchanged (base : Base d entriesAt first s) (pending : s.committed = false) {u : Unit}
    (same : sameSnapshot d s = .ok u) : Unchanged first s.session := by
  unfold sameSnapshot at same
  split at same
  · cases same
  obtain ⟨idle, current⟩ := check_eq_ok.mp same
  rw [isCurrent, base.snapshot, Bool.and_eq_true, Bool.and_eq_true, decide_eq_true_eq, decide_eq_true_eq] at current
  obtain ⟨⟨sessionId, leafId⟩, content⟩ := current
  refine ⟨sessionId, leafId, ?_, idle⟩
  split at content
  · next managed =>
    rw [Bool.and_eq_true, Bool.and_eq_true, decide_eq_true_eq, decide_eq_true_eq] at content
    rw [base.stamped pending managed, base.origin managed, content.1.1, content.1.2]
  · exact of_decide_eq_true content

theorem Base.prepare (base : Base d entriesAt first s) (pending : s.committed = false) (unasked : s.stock = .unasked) :
    Sound d entriesAt first (s.prepare d) := by
  apply base.attempt
  intro u held
  obtain ⟨v, same, _⟩ := Checked.bind_eq_ok.mp held
  have unchanged := base.unchanged pending same
  refine ⟨base.at_ _, pending, unasked, ?_⟩
  split
  · rw [unchanged.2.1, unchanged.2.2.1]
  · rw [base.snapshot]

theorem prepareActorCompaction_outstanding {sdk : Sdk} {manual : Bool} {view : View} {prepared : Prepared}
    (success : prepareActorCompaction sdk manual view = .ok prepared) : prepared.outstanding = view.outstanding := by
  unfold prepareActorCompaction at success
  split at success
  · cases success
  split at success
  · cases success
  split at success
  · cases success
    rfl
  unfold selectCut at success
  dsimp only at success
  repeat' split at success
  all_goals cases success
  all_goals rfl

theorem planned_fits {outstanding : List Outstanding} {stock : Option Preparation} {projected : List Entry}
    (success : s.planned d o outstanding stock projected = .ok plan) :
    plan.outstanding = outstanding ∧ plan.outstanding = [] := by
  obtain ⟨prepared, converted, rest⟩ := Checked.bind_eq_ok.mp success
  obtain ⟨_, _, rest⟩ := Checked.bind_eq_ok.mp rest
  obtain ⟨_, none_, rest⟩ := Checked.bind_eq_ok.mp rest
  have passed : prepared.outstanding = outstanding := by
    cases outcome : prepareActorCompaction d.sdk (o.reason = .manual)
        ⟨outstanding, stock, projected, s.session.isIdle && isCurrent d.managed s.snapshot s.session⟩ with
    | ok other =>
      rw [outcome] at converted
      cases converted
      exact prepareActorCompaction_outstanding outcome
    | error code =>
      rw [outcome] at converted
      cases converted
  split at rest
  · cases rest
    exact ⟨passed, check_eq_ok.mp none_⟩
  · cases rest

theorem Sound.planned (sound : Sound d entriesAt first s) {outstanding : List Outstanding}
    (stage : s.stage = .preparing outstanding) (stock : Option Preparation) (projected : List Entry) :
    Sound d entriesAt first (s.attempt (s.planned d o outstanding stock projected) fun plan => s.at_ (.diagnosing plan)) := by
  have held := sound.stage
  rw [stage] at held
  apply sound.base.attempt
  intro plan success
  obtain ⟨passed, none_⟩ := planned_fits success
  exact ⟨sound.base.at_ _, held.1, held.2.1, passed.trans held.2.2, none_⟩

/-- A result that passes begins its kept range at an active entry. -/
theorem validateResult_keeps {value : Value} {result : Result} (fits : plan.Fits d first)
    (valid : validateResult value plan (d.activeEntryIds first.entries first.leafId) = .ok result) :
    Keeps d first result.firstKeptEntryId := by
  obtain ⟨_, _, rest⟩ := Checked.bind_eq_ok.mp valid
  obtain ⟨_, _, rest⟩ := Checked.bind_eq_ok.mp rest
  obtain ⟨_, anchored, rest⟩ := Checked.bind_eq_ok.mp rest
  obtain ⟨_, retained, rest⟩ := Checked.bind_eq_ok.mp rest
  cases rest
  have kept := check_eq_ok.mp retained
  rw [fits.1] at kept
  exact ⟨fits.1.symm.trans fits.2, (check_eq_ok.mp anchored).2, kept⟩

/-- The append follows the last comparison at once. -/
theorem Base.commit (base : Base d entriesAt first s) (pending : s.committed = false) (fits : plan.Fits d first)
    (quiet : Quiet s) (result : Except Failure Value) (writes : Writes) :
    Sound d entriesAt first (s.commit d plan result writes) := by
  apply base.attempt
  rintro ⟨final, id⟩ held
  obtain ⟨_, _, held⟩ := Checked.bind_eq_ok.mp held
  obtain ⟨value, _, held⟩ := Checked.bind_eq_ok.mp held
  obtain ⟨valid, validated, held⟩ := Checked.bind_eq_ok.mp held
  obtain ⟨_, same, held⟩ := Checked.bind_eq_ok.mp held
  obtain ⟨_, _, held⟩ := Checked.bind_eq_ok.mp held
  cases held
  rw [base.snapshot] at validated
  have unchanged := base.unchanged pending same
  rw [base.session] at unchanged
  have silent : s.terminalAttempted = false := by
    cases state : s.terminalAttempted with
    | false => rfl
    | true => cases pending.symm.trans (base.terminal state)
  have after : Base d entriesAt first ({ s with
      session := s.session.append id final s.fromExtension writes.revision writes.generation
      committed := true
      finalResult := some final }.note (.appended id final s.fromExtension writes.revision writes.generation)) := {
    base with
    session := by rw [base.session]; rfl
    stamped := nofun
    ordered := ⟨⟨unchanged, validateResult_keeps fits validated⟩, base.ordered⟩
    appends := by
      rw [State.note, List.countP_cons, base.appends, pending]
      rfl
    results := by
      rw [State.note, List.countP_cons, base.results]
      rfl
    given := fun _ => rfl
    terminal := fun _ => rfl }
  dsimp only
  split
  · next failure _ => exact after.caught failure
  · have recorded : Base d entriesAt first (State.note _ (.entryAppended (some id))) := after.note rfl rfl rfl trivial
    exact ⟨recorded.at_ _, rfl, silent, quiet⟩

theorem Sound.answered (sound : Sound d entriesAt first s) (stage : s.stage = .asking plan) (cancel : Bool)
    (compaction : Option (Except Failure Value)) (writes : Writes) :
    Sound d entriesAt first (s.answered d plan cancel compaction writes) := by
  have held := sound.stage
  rw [stage] at held
  obtain ⟨pending, unasked, fits⟩ := held
  apply sound.base.attempt
  intro _ _
  split
  · next result =>
    have base : Base d entriesAt first { s with fromExtension := true } := { sound.base with }
    exact base.commit pending fits (base.quiet unasked) result writes
  · refine ⟨{ sound.base with unasked := nofun, resolved := nofun }, pending, fits⟩

theorem Sound.compacted (sound : Sound d entriesAt first s) (stage : s.stage = .compacting plan)
    (dispatched : ∀ stream ∈ s.streams, stream.phase ≠ .queued) (result : Except Failure Value) :
    Sound d entriesAt first ({ s with stock := .resolved }.at_ (.collecting plan s.completions result)) := by
  have held := sound.stage
  rw [stage] at held
  refine ⟨{ sound.base with unasked := nofun, resolved := fun _ => dispatched }, held.1, held.2, .inr nofun, ?_⟩
  intro i running
  exact Running.mem_completions (s := s) running

theorem Sound.collected (sound : Sound d entriesAt first s) {awaited : List ℕ} {result : Except Failure Value}
    (stage : s.stage = .collecting plan awaited result) (ended : awaited.all s.hasEnded = true) (writes : Writes) :
    Sound d entriesAt first (s.collected d plan awaited result writes) := by
  have held := sound.stage
  rw [stage] at held
  obtain ⟨pending, fits, still, covers⟩ := held
  unfold State.collected
  dsimp only
  split
  · exact sound.base.caught _
  split
  · exact sound.base.caught _
  · exact sound.base.commit pending fits (quiet_of_awaited still covers ended) result writes

/-- The one `compaction_end` with a result. -/
theorem Base.publishEnd (base : Base d entriesAt first s) (committed : s.committed = true)
    (first_ : s.terminalAttempted = false) (stage : Stage) : Base d entriesAt first (s.publishEnd stage) := by
  obtain ⟨result, given⟩ := Option.isSome_iff_exists.mp (base.given committed)
  exact {
    base with
    session := base.session
    ordered := ⟨trivial, base.ordered⟩
    appends := base.appends
    results := by
      rw [State.publishEnd, State.at_, State.note, given, List.countP_cons, base.results, first_]
      rfl
    terminal := fun _ => committed }

theorem Sound.drained (sound : Sound d entriesAt first s) {awaited : List ℕ} {error : Failure} {aborted : Bool}
    (stage : s.stage = .drainingCompletions awaited error aborted) (ended : awaited.all s.hasEnded = true) :
    Sound d entriesAt first (s.drained error aborted) := by
  have held := sound.stage
  rw [stage] at held
  have quiet := quiet_of_awaited (.inl held.1) held.2 ended
  unfold State.drained
  split
  · next committed =>
    split
    · exact ⟨sound.base.at_ _, committed.symm, quiet⟩
    · next open_ => exact ⟨sound.base.publishEnd committed (Bool.eq_false_iff.mpr open_) _, committed, quiet⟩
  · next pending =>
    have noted : Base d entriesAt first (s.note (.compactionEnd none aborted (State.errorMessage error aborted))) :=
      sound.base.note rfl rfl rfl trivial
    exact ⟨noted.at_ _, Bool.eq_false_iff.mpr pending, quiet⟩

theorem Sound.rejected (sound : Sound d entriesAt first s) (failure : Failure) :
    Sound d entriesAt first (s.rejected failure) := by
  have held := sound.stage
  unfold State.rejected
  split
  · next stage =>
    rw [stage] at held
    exact ⟨sound.base.at_ _, held.1.symm, sound.base.quiet held.2⟩
  · next stage =>
    rw [stage] at held
    exact ⟨sound.base.at_ _, held.1.symm, held.2⟩
  · next stage =>
    rw [stage] at held
    exact ⟨sound.base.at_ _, held.1.symm, held.2⟩
  · next stage =>
    rw [stage] at held
    exact ⟨sound.base.at_ _, held.1.symm, held.2⟩
  · exact sound
  · exact sound
  · exact sound
  · exact sound
  · exact sound.base.caught failure

/-- An awaited promise settles without a value. -/
theorem Sound.done (sound : Sound d entriesAt first s) (writes : Writes) :
    Sound d entriesAt first (s.resume d o writes .done) := by
  have held := sound.stage
  unfold State.resume
  dsimp only
  split
  · next stage =>
    rw [stage] at held
    exact sound.base.prepare held.1 held.2
  · next stage =>
    split
    · next ended => exact sound.collected stage ended writes
    · exact sound
  · next stage =>
    rw [stage] at held
    have noted : Base d entriesAt first (s.note (.sessionCompact s.fromExtension)) := sound.base.note rfl rfl rfl trivial
    exact ⟨noted.at_ _, held⟩
  · next stage =>
    rw [stage] at held
    exact ⟨sound.base.at_ _, held⟩
  · next stage =>
    rw [stage] at held
    exact ⟨sound.base.publishEnd held.1 held.2.1 _, held.1, held.2.2⟩
  · next stage =>
    rw [stage] at held
    split
    · exact ⟨sound.base.at_ _, held.1.symm, held.2⟩
    · exact sound
  · next stage =>
    rw [stage] at held
    split
    · exact ⟨sound.base.at_ _, held, fun i running => Running.mem_completions (s := s) running⟩
    · exact sound
  · next stage =>
    split
    · next ended => exact sound.drained stage ended
    · exact sound
  · next stage =>
    rw [stage] at held
    exact ⟨sound.base.at_ _, held.1.symm, held.2⟩
  · next error aborted stage =>
    rw [stage] at held
    have noted : Base d entriesAt first
        (s.note (.sessionCompactFailed aborted s.fromExtension (State.errorMessage error aborted))) :=
      sound.base.note rfl rfl rfl trivial
    exact ⟨noted.at_ _, held⟩
  · next stage =>
    rw [stage] at held
    exact ⟨sound.base.at_ _, held.1.symm, held.2⟩
  · exact sound

theorem Sound.resume (sound : Sound d entriesAt first s) {reply : Reply} (writes : Writes)
    (promised : Promised d entriesAt s (.reply reply writes)) : Sound d entriesAt first (s.resume d o writes reply) := by
  cases reply with
  | done => exact sound.done writes
  | throws failure => exact sound.rejected failure
  | prepared stock projected =>
    unfold State.resume
    dsimp only
    split
    · next stage => exact sound.planned stage stock projected
    · exact sound
  | diagnosed customInstructions =>
    unfold State.resume
    dsimp only
    split
    · next stage =>
      have held := sound.stage
      rw [stage] at held
      exact sound.base.attempt fun instructions _ => ⟨{ sound.base with }, held⟩
    · exact sound
  | answered cancel compaction =>
    unfold State.resume
    dsimp only
    split
    · next stage => exact sound.answered stage cancel compaction writes
    · exact sound
  | compacted result =>
    unfold State.resume
    dsimp only
    split
    · next stage => exact sound.compacted stage promised result
    · exact sound

end Replies

section Runs

variable {d : Driver} {o : Options} {entriesAt : ℕ → ℕ → List Record} {first : Session} {s : State}

theorem Sound.step (sound : Sound d entriesAt first s) (event : Event) (promised : Promised d entriesAt s event) :
    Sound d entriesAt first (s.step d o event) := by
  cases event with
  | reply reply writes => exact sound.resume writes promised
  | change session => exact sound.change promised
  | abort => exact sound.abort
  | request =>
    unfold State.step
    dsimp only
    split
    · exact sound
    · next asked => exact sound.request asked promised
  | dispatch i thrown =>
    unfold State.step
    dsimp only
    split
    · next ready =>
      rw [Bool.and_eq_true] at ready
      exact sound.dispatch ready.1 thrown
    · exact sound
  | finish i ending =>
    unfold State.step
    dsimp only
    split
    · exact sound.finish ending
    · exact sound
  | release i =>
    unfold State.step
    dsimp only
    split
    · next stream found =>
      split
      · next ended =>
        refine sound.setStream _ ?_ ?_
        · intro queued
          rw [show stream.phase = .queued from queued] at ended
          cases ended
        · intro running
          rw [show stream.phase = .running from running] at ended
          cases ended
      · exact sound
    · exact sound

theorem sound_call (origin : Stamped d entriesAt first) (o : Options) (callerAborted : Bool) :
    Sound d entriesAt first (.call o first callerAborted) := by
  have base : Base d entriesAt first (.call o first callerAborted) := by
    constructor
    case session =>
      unfold State.call
      dsimp only
      split <;> rfl
    case ordered =>
      unfold State.call
      dsimp only
      split
      · exact ⟨trivial, trivial⟩
      · trivial
    case appends | results =>
      unfold State.call
      dsimp only
      split <;> rfl
    case stamped => exact fun _ => origin
    case origin => exact origin
    case snapshot => rfl
    case unasked => exact fun _ => rfl
    case given | terminal | resolved => nofun
  refine ⟨base, ?_⟩
  unfold State.call
  dsimp only
  split
  · exact ⟨rfl, rfl⟩
  · exact ⟨rfl, base.quiet rfl⟩

/-- The run of a call appends one compaction at most, to the unchanged idle session and with its pending calls kept; the call
ends as committed exactly if it appended, one `compaction_end` at most has a result, and no stream runs after the call. -/
theorem run_appends (d : Driver) (o : Options) (entriesAt : ℕ → ℕ → List Record) (session : Session) (callerAborted : Bool)
    (events : List Event) (origin : Stamped d entriesAt session)
    (course : Course (State.step d o) (Promised d entriesAt) (.call o session callerAborted) events) :
    let s := (State.call o session callerAborted).run d o events
    s.session = sessionAfter session s.log ∧ InOrder (Permitted d session) s.log
      ∧ s.log.countP Note.isAppend ≤ 1 ∧ s.log.countP Note.endsWithResult ≤ 1
      ∧ ∀ outcome, s.stage = .ended outcome →
        (outcome.isCommitted = true ↔ s.log.countP Note.isAppend = 1) ∧ ∀ stream ∈ s.streams, stream.phase ≠ .running := by
  have sound := course.preserves (P := Sound d entriesAt session) (fun s event held promised => held.step event promised)
    (sound_call origin o callerAborted)
  obtain ⟨base, held⟩ := sound
  refine ⟨base.session, base.ordered, ?_, ?_, ?_⟩
  · refine base.appends.trans_le ?_
    split <;> omega
  · refine base.results.trans_le ?_
    split <;> omega
  · intro outcome ended
    change State.stage (events.foldl _ _) = _ at ended
    rw [ended] at held
    constructor
    · refine Iff.trans ?_ (Iff.of_eq (congrArg (· = 1) base.appends.symm))
      rw [held.1]
      split <;> simp_all
    · intro stream member runs
      obtain ⟨i, found⟩ := List.getElem?_of_mem member
      exact held.2.2 i ⟨stream, found, runs⟩

/-! ## A stock compaction -/

def sampleDriver : Driver := ⟨⟨fun messages => messages, fun _ => 1⟩, true, fun _ _ => [], fun _ _ => [js "m1"]⟩

def sampleSession : Session := ⟨js "s", some (js "m1"), [.stored .null], 1, 0, true, true⟩

def sampleWrites : Writes := ⟨.ok (js "c1"), 2, 0, none⟩

def samplePreparation : Preparation := ⟨js "m1", none, [], [], false, 5⟩

def sampleResult : Value :=
  .record [("summary", .text "done"), ("tokensBefore", .num (.ofNat 7)), ("firstKeptEntryId", .text "m1")]

/-- One summary stream, and then the append with its notifications. -/
def sampleEvents : List Event :=
  [.reply .done sampleWrites,
    .reply (.prepared (some samplePreparation) [⟨some (js "m1"), false, [], none⟩]) sampleWrites,
    .reply (.diagnosed none) sampleWrites, .reply (.answered false none) sampleWrites, .request, .dispatch 0 none,
    .finish 0 (.message (js "stop")), .release 0, .reply (.compacted (.ok sampleResult)) sampleWrites,
    .reply .done sampleWrites, .reply .done sampleWrites, .reply .done sampleWrites, .reply .done sampleWrites,
    .reply .done sampleWrites]

def sampleOptions : Options := ⟨.manual, false, none⟩

def sampleEnd : State := (State.call sampleOptions sampleSession false).run sampleDriver sampleOptions sampleEvents

theorem run_appends_sample :
    sampleEnd.stage = .ended (.returned ⟨js "done", js "m1", 5, .undefined, .undefined⟩)
      ∧ sampleEnd.log.countP Note.isAppend = 1 := by
  have ended : sampleEnd.stage = .ended (.returned ⟨js "done", js "m1", 5, .undefined, .undefined⟩) := by rfl
  have origin : Stamped sampleDriver (fun _ _ => [.stored .null]) sampleSession := fun _ => rfl
  have asks : (Stock.pending : Stock) ≠ .resolved := by decide
  have dispatched : ∀ stream ∈ [(⟨.ended (.message (js "stop")), true⟩ : Stream)], stream.phase ≠ .queued := by decide
  have held := run_appends sampleDriver sampleOptions (fun _ _ => [.stored .null]) sampleSession false sampleEvents origin
    ⟨trivial, trivial, trivial, trivial, asks, trivial, trivial, trivial, dispatched, trivial, trivial, trivial, trivial,
      trivial, trivial⟩
  exact ⟨ended, (held.2.2.2.2 _ ended).1.mp rfl⟩

end Runs

end PersistentHarness.Compaction
