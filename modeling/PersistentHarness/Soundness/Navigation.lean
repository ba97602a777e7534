import PersistentHarness.Lib.Trace
import PersistentHarness.Model.Navigation

/-! # What a navigation does to its session

The driver changes the session in the step in which it compares it with its snapshot for the last time: it moves the leaf, and may
add a label. Whatever fails before that leaves the session alone, and whatever fails after it is reported as committed.
-/

namespace PersistentHarness.Navigation

section Statements

variable {σ : Type}

/-- The changes that the driver makes. -/
def Note.call? : Note σ → Option (Call × σ)
  | .called call session => some (call, session)
  | _ => none

/-- The session changed. -/
def Outcome.isCommitted : Outcome → Bool
  | .navigated _ _ | .committed _ _ => true
  | .unmoved | .cancelled _ | .thrown _ => false

def sessionAfter (first : σ) : List (Note σ) → σ
  | [] => first
  | .changed session :: _ => session
  | .called _ session :: _ => session
  | _ :: past => sessionAfter first past

/-- A leaf, as a parent is written. -/
def leafValue : Option JsString → Value
  | some id => .str id
  | none => .null

variable (m : Manager σ)

/-- What the session manager promises. -/
structure Manager.Documented : Prop where
  resetLeaf : ∀ before after, m.resetLeaf before = .ok after → m.leafId after = none ∧ m.entries after = m.entries before
  branch : ∀ before id after, m.branch before id = .ok after →
    leafValue (m.leafId after) = id ∧ m.entries after = m.entries before
  branchWithSummary : ∀ before id summary fromExtension new after,
    m.branchWithSummary before id summary fromExtension = .ok (new, after) → m.leafId after = some new
      ∧ ∃ entry : Value, m.entries after = m.entries before ++ [entry] ∧ entry.get (js "id") = .str new
        ∧ entry.get (js "parentId") = id
  appendLabelChange : ∀ before target label new after, m.appendLabelChange before target label = .ok (new, after) →
    ∃ entry : Value, m.entries after = m.entries before ++ [entry] ∧ entry.get (js "id") = .str new

/-- The session is idle and what it was at the snapshot. -/
def Unchanged (first now : σ) : Prop :=
  m.isIdle now = true ∧ m.leafId now = m.leafId first ∧ Value.equal (.arr (m.entries now)) (.arr (m.entries first))

/-- One call moves the leaf: to the prepared position, or to one summary that it adds below that. -/
def Moved (prepared : Prepared) (before : σ) (call : Call) (after : σ) : Prop :=
  (call = .resetLeaf ∨ call = .branch prepared.newLeafId) ∧ leafValue (m.leafId after) = prepared.newLeafId
      ∧ m.entries after = m.entries before
    ∨ ∃ summary fromExtension id entry, call = .branchWithSummary prepared.newLeafId summary fromExtension
      ∧ m.leafId after = some id ∧ m.entries after = m.entries before ++ [entry] ∧ entry.get (js "id") = .str id
      ∧ entry.get (js "parentId") = prepared.newLeafId

/-- What the driver does to the session: the move, and after it one label or nothing. -/
inductive Change (prepared : Prepared) (before : σ) : List (Note σ) → Prop
  | moved {call : Call} {after : σ} (move : Moved m prepared before call after) : Change prepared before [.called call after]
  | labelled {call : Call} {moved after : σ} {target label : JsString} (move : Moved m prepared before call moved)
      (append : ∃ entry, m.entries after = m.entries moved ++ [entry]) :
      Change prepared before [.called (.appendLabelChange target label) after, .called call moved]

/-- The driver changed the unchanged session once, in a row. -/
def Navigates (first : σ) (prepared : Prepared) (log : List (Note σ)) : Prop :=
  ∃ later change past, log = later ++ change ++ past ∧ later.filterMap Note.call? = [] ∧ past.filterMap Note.call? = []
    ∧ Unchanged m first (sessionAfter first past) ∧ Change m prepared (sessionAfter first past) change

/-- A stock summary that has settled asks for no stream any more. -/
def Promised (s : State σ) : Event σ → Prop
  | .request _ => s.stock ≠ .settled
  | _ => True

end Statements

section Invariant

variable {σ : Type} {m : Manager σ} {first : σ} {target : Value} {s t : State σ} {prepared : Prepared} {plan : Plan}

structure Base (m : Manager σ) (first : σ) (target : Value) (s : State σ) : Prop where
  snapshot : s.snapshot = first
  session : s.session = sessionAfter first s.log
  untouched : s.committed = false → s.log.filterMap Note.call? = []
  navigated : s.committed = true → ∃ prepared, prepareActorNavigation m first target s.options = .ok (some prepared)
    ∧ Navigates m first prepared s.log

/-- What the driver relies on at an await. -/
def At (m : Manager σ) (first : σ) (target : Value) (s : State σ) : Stage → Prop
  | .asking prepared => s.committed = false ∧ s.stock ≠ .pending
    ∧ prepareActorNavigation m first target s.options = .ok (some prepared)
  | .summarizing prepared _ => s.committed = false ∧ prepareActorNavigation m first target s.options = .ok (some prepared)
  | .collecting plan awaited => s.committed = false ∧ s.stock ≠ .pending ∧ awaited = s.streams.length
    ∧ prepareActorNavigation m first target s.options = .ok (some plan.prepared)
  | .recording _ _ | .emitting _ | .concluding _ => s.committed = true ∧ s.stock ≠ .pending
  | .releasing outcome awaited => outcome.isCommitted = s.committed ∧ s.stock ≠ .pending ∧ awaited = s.streams.length
  | .ended outcome => outcome.isCommitted = s.committed ∧ s.stock ≠ .pending ∧ ∀ stream ∈ s.streams, stream ≠ .running

structure Sound (m : Manager σ) (first : σ) (target : Value) (s : State σ) : Prop where
  base : Base m first target s
  stage : At m first target s s.stage

/-- The driver's own part of the state is as before, and no stream starts. -/
structure Aside (s t : State σ) : Prop where
  stage : t.stage = s.stage
  options : t.options = s.options
  committed : t.committed = s.committed
  stock : t.stock = s.stock
  streams : t.streams.length = s.streams.length
  running : (∀ stream ∈ s.streams, stream ≠ .running) → ∀ stream ∈ t.streams, stream ≠ .running

theorem At.aside {stage : Stage} (held : At m first target s stage) (aside : Aside s t) : At m first target t stage := by
  cases stage with
  | asking prepared => exact ⟨aside.committed ▸ held.1, aside.stock ▸ held.2.1, aside.options ▸ held.2.2⟩
  | summarizing prepared effective => exact ⟨aside.committed ▸ held.1, aside.options ▸ held.2⟩
  | collecting plan awaited =>
    exact ⟨aside.committed ▸ held.1, aside.stock ▸ held.2.1, held.2.2.1.trans aside.streams.symm, aside.options ▸ held.2.2.2⟩
  | recording done rest => exact ⟨aside.committed ▸ held.1, aside.stock ▸ held.2⟩
  | emitting done => exact ⟨aside.committed ▸ held.1, aside.stock ▸ held.2⟩
  | concluding done => exact ⟨aside.committed ▸ held.1, aside.stock ▸ held.2⟩
  | releasing outcome awaited =>
    exact ⟨aside.committed ▸ held.1, aside.stock ▸ held.2.1, held.2.2.trans aside.streams.symm⟩
  | ended outcome => exact ⟨aside.committed ▸ held.1, aside.stock ▸ held.2.1, aside.running held.2.2⟩

theorem Sound.aside (sound : Sound m first target s) (aside : Aside s t) (base : Base m first target t) :
    Sound m first target t := by
  refine ⟨base, ?_⟩
  rw [aside.stage]
  exact sound.stage.aside aside

/-- The driver notes something that is no change. -/
theorem Base.note (base : Base m first target s) {item : Note σ} (silent : item.call? = none)
    (same : sessionAfter first (item :: s.log) = sessionAfter first s.log) : Base m first target (s.note item) where
  snapshot := base.snapshot
  session := base.session.trans same.symm
  untouched pending := by
    change List.filterMap Note.call? (item :: s.log) = []
    rw [List.filterMap_cons_none silent]
    exact base.untouched pending
  navigated committed := by
    obtain ⟨prepared, given, later, change, past, log, quiet, rest⟩ := base.navigated committed
    refine ⟨prepared, given, item :: later, change, past, congrArg (item :: ·) log, ?_, rest⟩
    rw [List.filterMap_cons_none silent]
    exact quiet

theorem Sound.change (sound : Sound m first target s) (session : σ) :
    Sound m first target ({ s with session }.note (.changed session)) := by
  have base := sound.base
  refine sound.aside ⟨rfl, rfl, rfl, rfl, rfl, id⟩ ?_
  refine ⟨base.snapshot, rfl, fun pending => ?_, fun committed => ?_⟩
  · change List.filterMap Note.call? (.changed session :: s.log) = []
    rw [List.filterMap_cons_none rfl]
    exact base.untouched pending
  · obtain ⟨prepared, given, later, change, past, log, quiet, rest⟩ := base.navigated committed
    refine ⟨prepared, given, .changed session :: later, change, past, congrArg (Note.changed session :: ·) log, ?_, rest⟩
    rw [List.filterMap_cons_none rfl]
    exact quiet

theorem Sound.abort (sound : Sound m first target s) : Sound m first target { s with aborted := true } :=
  sound.aside ⟨rfl, rfl, rfl, rfl, rfl, id⟩ { sound.base with }

theorem Sound.finish (sound : Sound m first target s) (i : ℕ) (failed : Bool) :
    Sound m first target { s with streams := s.streams.set i (.ended failed) } := by
  refine sound.aside ⟨rfl, rfl, rfl, rfl, List.length_set, fun over_ stream member => ?_⟩ { sound.base with }
  rcases List.mem_or_eq_of_mem_set member with before | rfl
  · exact over_ stream before
  · exact Stream.noConfusion

/-- A stream starts while the stock summary is at work. -/
theorem Sound.request (sound : Sound m first target s) (pending : s.stock = .pending) (thrown : Option Failure) :
    Sound m first target (s.request m thrown) := by
  unfold State.request
  split
  · refine ⟨{ sound.base with }, ?_⟩
    have held := sound.stage
    cases stage : s.stage with
    | summarizing prepared effective =>
      rw [stage] at held
      exact held
    | asking prepared =>
      rw [stage] at held
      exact absurd pending held.2.1
    | collecting plan awaited =>
      rw [stage] at held
      exact absurd pending held.2.1
    | recording done rest =>
      rw [stage] at held
      exact absurd pending held.2
    | emitting done =>
      rw [stage] at held
      exact absurd pending held.2
    | concluding done =>
      rw [stage] at held
      exact absurd pending held.2
    | releasing outcome awaited =>
      rw [stage] at held
      exact absurd pending held.2.1
    | ended outcome =>
      rw [stage] at held
      exact absurd pending held.2.1
  · exact sound

end Invariant

section Steps

variable {σ : Type} {m : Manager σ} {first : σ} {target : Value} {s : State σ} {prepared : Prepared} {plan : Plan}

theorem Base.at_ (base : Base m first target s) (stage : Stage) : Base m first target (s.at_ stage) := { base with }

/-- The `finally` block waits for all streams. -/
theorem Base.release (base : Base m first target s) (quiet : s.stock ≠ .pending) {outcome : Outcome}
    (reported : outcome.isCommitted = s.committed) : Sound m first target (s.release outcome) :=
  ⟨base.at_ _, reported, quiet, rfl⟩

/-- A failure is reported on the right side. -/
theorem Base.caught (base : Base m first target s) (quiet : s.stock ≠ .pending) (failure : Failure) :
    Sound m first target (s.caught failure) := by
  unfold State.caught
  split
  · next committed => exact base.release quiet committed.symm
  · next pending =>
    have untouched : false = s.committed := (Bool.eq_false_of_not_eq_true pending).symm
    split
    · exact base.release quiet untouched
    · exact base.release quiet untouched

theorem Base.attempt (base : Base m first target s) (quiet : s.stock ≠ .pending) {α : Type} {x : Except Failure α}
    {next : α → State σ} (goes : ∀ a, x = .ok a → Sound m first target (next a)) : Sound m first target (s.attempt x next) := by
  unfold State.attempt
  split
  · next a => exact goes a rfl
  · next failure => exact base.caught quiet failure

theorem check_eq_ok {condition : Prop} [Decidable condition] {code : String} {u : Unit} :
    check condition code = .ok u ↔ condition := by
  unfold check
  split
  · next holds => exact ⟨fun _ => holds, fun _ => rfl⟩
  · next fails =>
    constructor
    · intro done
      cases done
    · intro holds
      exact absurd holds fails

theorem Base.unchanged (base : Base m first target s) {u : Unit} (same : s.sameSnapshot m = .ok u) :
    Unchanged m first s.session := by
  unfold State.sameSnapshot at same
  split at same
  · cases same
  obtain ⟨idle, _, _, leaf, entries⟩ := check_eq_ok.mp same
  rw [base.snapshot] at leaf entries
  exact ⟨idle, leaf, entries⟩

theorem move_spec (documented : m.Documented) {id : Option JsString} {moved : State σ} (done : s.move m plan = .ok (id, moved)) :
    ∃ call after, moved = s.called call after ∧ Moved m plan.prepared s.session call after := by
  unfold State.move at done
  split at done
  · next summary _ =>
    obtain ⟨⟨new, after⟩, made, rest⟩ := Checked.bind_eq_ok.mp done
    obtain ⟨_, rfl⟩ := Prod.mk.inj (Except.ok.inj rest)
    obtain ⟨leaf, entry, entries, named, parent⟩ := documented.branchWithSummary _ _ _ _ _ _ made
    exact ⟨_, after, rfl, .inr ⟨summary, plan.fromExtension, new, entry, rfl, leaf, entries, named, parent⟩⟩
  · split at done
    · next root =>
      obtain ⟨after, made, rest⟩ := Checked.bind_eq_ok.mp done
      obtain ⟨_, rfl⟩ := Prod.mk.inj (Except.ok.inj rest)
      obtain ⟨leaf, entries⟩ := documented.resetLeaf _ _ made
      refine ⟨_, after, rfl, .inl ⟨.inl rfl, ?_, entries⟩⟩
      rw [leaf, root]
      rfl
    · obtain ⟨after, made, rest⟩ := Checked.bind_eq_ok.mp done
      obtain ⟨_, rfl⟩ := Prod.mk.inj (Except.ok.inj rest)
      obtain ⟨leaf, entries⟩ := documented.branch _ _ _ made
      exact ⟨_, after, rfl, .inl ⟨.inr rfl, leaf, entries⟩⟩

theorem Sound.record (base : Base m first target s) (committed : s.committed = true) (quiet : s.stock ≠ .pending)
    (done : Transition) (rest : List (Option Value)) : Sound m first target (s.record m done rest) := by
  cases rest with
  | nil => exact ⟨(base.note rfl rfl).at_ _, committed, quiet⟩
  | cons entry rest => exact ⟨(base.note rfl rfl).at_ _, committed, quiet⟩

theorem Base.conclude (base : Base m first target s) (committed : s.committed = true) (quiet : s.stock ≠ .pending)
    (plan : Plan) (summaryEntry : Option Value) (appended : List (Option Value)) :
    Sound m first target (s.conclude m plan summaryEntry appended) := by
  apply base.attempt quiet
  intro _ _
  have kept : Base m first target { s with outcome := some (plan.prepared.editorText, summaryEntry) } := { base with }
  exact Sound.record kept committed quiet _ appended

theorem label_sound (documented : m.Documented) {past : List (Note σ)} {call : Call} {before : σ}
    (origin : s.snapshot = first) (log : s.log = .called call s.session :: past) (started : before = sessionAfter first past)
    (untouched : past.filterMap Note.call? = []) (unchanged : Unchanged m first before)
    (moved : Moved m plan.prepared before call s.session)
    (given : prepareActorNavigation m first target s.options = .ok (some plan.prepared))
    (committed : s.committed = true) (quiet : s.stock ≠ .pending) (summaryEntry : Option Value)
    (appended : List (Option Value)) : Sound m first target (s.label m plan summaryEntry appended) := by
  subst started
  have base : Base m first target s := by
    refine ⟨origin, ?_, ?_, ?_⟩
    · rw [log]
      rfl
    · intro pending
      rw [committed] at pending
      cases pending
    · exact fun _ => ⟨plan.prepared, given, [], _, past, log, rfl, untouched, unchanged, .moved moved⟩
  unfold State.label
  split
  · apply base.attempt quiet
    rintro ⟨id, after⟩ added
    obtain ⟨entry, entries, _⟩ := documented.appendLabelChange _ _ _ _ _ added
    refine Base.conclude (s := s.called _ after) ?_ committed quiet plan summaryEntry _
    refine ⟨origin, rfl, ?_, ?_⟩
    · intro pending
      change s.committed = false at pending
      rw [committed] at pending
      cases pending
    · intro _
      have change : Change m plan.prepared (sessionAfter first past)
          [.called (.appendLabelChange (State.labelTarget plan summaryEntry) plan.effective.label.units) after,
            .called call s.session] := .labelled moved ⟨entry, entries⟩
      refine ⟨plan.prepared, given, [], _, past, ?_, rfl, untouched, unchanged, change⟩
      unfold State.called State.note
      dsimp only
      rw [log]
      rfl
  · exact base.conclude committed quiet plan summaryEntry appended

/-- The change follows the last comparison at once. -/
theorem Base.commit (base : Base m first target s) (documented : m.Documented) (pending : s.committed = false)
    (quiet : s.stock ≠ .pending) (given : prepareActorNavigation m first target s.options = .ok (some plan.prepared)) :
    Sound m first target (s.commit m plan) := by
  apply base.attempt quiet
  rintro ⟨id, moved⟩ held
  obtain ⟨_, same, made⟩ := Checked.bind_eq_ok.mp held
  have unchanged := base.unchanged same
  obtain ⟨call, after, rfl, move⟩ := move_spec documented made
  have labelled (summaryEntry : Option Value) (appended : List (Option Value)) : Sound m first target
      (State.label m { s.called call after with committed := true } plan summaryEntry appended) :=
    label_sound (s := { s.called call after with committed := true }) documented base.snapshot rfl base.session
      (base.untouched pending) unchanged move given rfl quiet _ _
  dsimp only
  split
  · exact labelled _ _
  · exact labelled _ _

/-- The driver waits for the streams that there are. -/
theorem Base.collect (base : Base m first target s) (pending : s.committed = false) (quiet : s.stock ≠ .pending)
    (given : prepareActorNavigation m first target s.options = .ok (some plan.prepared)) :
    Sound m first target (s.collect plan) := ⟨base.at_ _, pending, quiet, rfl, given⟩

theorem Sound.answered (sound : Sound m first target s) (stage : s.stage = .asking prepared) (result : Value) :
    Sound m first target (s.answered m prepared result) := by
  have held := sound.stage
  rw [stage] at held
  obtain ⟨pending, quiet, given⟩ := held
  have base := sound.base
  apply base.attempt quiet
  intro _ _
  split
  · exact base.release quiet pending.symm
  apply base.attempt quiet
  intro effective _
  split
  · apply base.attempt quiet
    exact fun summary _ => base.collect pending quiet given
  split
  · have asked : Base m first target { s with stock := .pending } := { base with }
    exact ⟨(asked.note rfl rfl).at_ _, pending, given⟩
  · exact base.collect pending quiet given

theorem Sound.generated (sound : Sound m first target s) {effective : Options}
    (stage : s.stage = .summarizing prepared effective) (result : Value) :
    Sound m first target ({ s with stock := .settled }.generated prepared effective result) := by
  have held := sound.stage
  rw [stage] at held
  obtain ⟨pending, given⟩ := held
  have base : Base m first target { s with stock := .settled } := { sound.base with }
  have quiet : Stock.settled ≠ .pending := Stock.noConfusion
  unfold State.generated
  split
  · exact base.release quiet pending.symm
  split
  · exact base.caught quiet _
  · apply base.attempt quiet
    exact fun summary _ => base.collect pending quiet given

theorem Sound.rejected (sound : Sound m first target s) (failure : Failure) :
    Sound m first target (s.rejected failure) := by
  have held := sound.stage
  have base := sound.base
  unfold State.rejected
  split
  · exact sound
  · exact sound
  · exact sound
  · exact Base.caught (s := { s with stock := .settled }) { base with } Stock.noConfusion failure
  · next collecting releasing ended summarizing =>
    refine base.caught ?_ failure
    cases stage : s.stage with
    | asking prepared =>
      rw [stage] at held
      exact held.2.1
    | summarizing prepared effective => exact absurd stage (summarizing prepared effective)
    | collecting plan awaited => exact absurd stage (collecting plan awaited)
    | recording done rest =>
      rw [stage] at held
      exact held.2
    | emitting done =>
      rw [stage] at held
      exact held.2
    | concluding done =>
      rw [stage] at held
      exact held.2
    | releasing outcome awaited => exact absurd stage (releasing outcome awaited)
    | ended outcome => exact absurd stage (ended outcome)

/-- An await settles without a value. -/
theorem Sound.done (sound : Sound m first target s) (documented : m.Documented) :
    Sound m first target (s.resume m .done) := by
  have held := sound.stage
  have base := sound.base
  unfold State.resume
  dsimp only
  split
  · next plan awaited stage =>
    rw [stage] at held
    obtain ⟨pending, quiet, _, given⟩ := held
    split
    · unfold State.collected
      split
      · exact base.caught quiet _
      · exact base.commit documented pending quiet given
    · exact sound
  · next done rest stage =>
    rw [stage] at held
    exact Sound.record base held.1 held.2 done rest
  · next done stage =>
    rw [stage] at held
    exact ⟨base.at_ _, held⟩
  · next done stage =>
    rw [stage] at held
    exact base.release held.2 held.1.symm
  · next outcome awaited stage =>
    rw [stage] at held
    obtain ⟨reported, quiet, rfl⟩ := held
    split
    · next ended =>
      refine ⟨base.at_ _, reported, quiet, fun stream member => ?_⟩
      unfold State.haveEnded at ended
      rw [List.take_length, List.all_eq_true] at ended
      exact of_decide_eq_true (ended stream member)
    · exact sound
  · exact sound

theorem Sound.step (sound : Sound m first target s) (documented : m.Documented) (event : Event σ)
    (promised : Promised s event) : Sound m first target (s.step m event) := by
  cases event with
  | reply reply =>
    cases reply with
    | done => exact sound.done documented
    | throws failure => exact sound.rejected failure
    | answered result =>
      unfold State.step State.resume
      dsimp only
      split
      · next stage => exact sound.answered stage result
      · exact sound
    | generated result =>
      unfold State.step State.resume
      dsimp only
      split
      · next stage => exact sound.generated stage result
      · exact sound
  | change session => exact sound.change session
  | abort => exact sound.abort
  | request thrown =>
    unfold State.step
    dsimp only
    split
    · exact sound
    · next asked =>
      refine sound.request ?_ thrown
      cases stock : s.stock with
      | unasked => exact absurd stock asked
      | pending => rfl
      | settled => exact absurd stock promised
  | finish i failed =>
    unfold State.step
    dsimp only
    split
    · exact sound.finish i failed
    · exact sound

/-- A call comes to its first await. -/
theorem sound_call (m : Manager σ) (session : σ) (owned aborted : Bool) (target options : Value) :
    Sound m session target (.call m session owned aborted target options) := by
  unfold State.call
  dsimp only
  split
  · refine ⟨⟨rfl, rfl, fun _ => rfl, Bool.noConfusion⟩, rfl, Stock.noConfusion, List.forall_mem_nil _⟩
  · next checked _ =>
    have base : Base m session target
        { session, snapshot := session, options := checked, aborted, streams := [], stock := .unasked, committed := false,
          outcome := none, stage := .releasing .unmoved 0, log := [] } := ⟨rfl, rfl, fun _ => rfl, Bool.noConfusion⟩
    have quiet : Stock.unasked ≠ .pending := Stock.noConfusion
    apply base.attempt quiet
    intro found held
    obtain ⟨_, _, given⟩ := Checked.bind_eq_ok.mp held
    cases found with
    | none => exact base.release quiet rfl
    | some prepared =>
      apply base.attempt quiet
      exact fun _ _ => ⟨(base.note rfl rfl).at_ _, rfl, quiet, given⟩

end Steps

section Runs

variable {σ : Type}

structure Sample where
  leaf : Option JsString
  entries : List Value

def sampleEntry (type : String) (id : JsString) (parent : Value) : Value :=
  .record [("type", .text type), ("id", .str id), ("parentId", parent)]

theorem sampleEntry_id (type : String) (id : JsString) (parent : Value) : (sampleEntry type id parent).get (js "id") = .str id := by
  have apart : js "type" ≠ js "id" := by decide
  simp [sampleEntry, Value.record, Value.get, Value.fields, Assoc.lookup_cons, apart]

theorem sampleEntry_parentId (type : String) (id : JsString) (parent : Value) :
    (sampleEntry type id parent).get (js "parentId") = parent := by
  have first : js "type" ≠ js "parentId" := by decide
  have second : js "id" ≠ js "parentId" := by decide
  simp [sampleEntry, Value.record, Value.get, Value.fields, Assoc.lookup_cons, first, second]

/-- The session with a new entry, which becomes the leaf. -/
def Sample.append (session : Sample) (parent : Value) (type : String) : JsString × Sample :=
  let id := Json.decimal session.entries.length
  (id, { leaf := some id, entries := session.entries ++ [sampleEntry type id parent] })

def sampleManager : Manager Sample where
  sessionId _ := js "s"
  leafId := Sample.leaf
  entries := Sample.entries
  getEntry session id := session.entries.find? (·.get (js "id") = .str id)
  isIdle _ := true
  serviceMutation _ := true
  hasModel _ := true
  resetLeaf session := .ok { session with leaf := none }
  branch session id := if id.isString then .ok { session with leaf := some id.units } else .error typeError
  branchWithSummary session id _ _ := .ok (session.append id "branch_summary")
  appendLabelChange session _ _ := .ok (session.append (leafValue session.leaf) "label")
  collectEntriesForBranchSummary session _ _ := .ok (session.entries, none)
  refreshCanonicalSessionContext _ := .ok ()

theorem sampleManager_documented : sampleManager.Documented where
  resetLeaf before after done := by
    cases done
    exact ⟨rfl, rfl⟩
  branch before id after done := by
    change (if id.isString = true then _ else _) = _ at done
    split at done
    · next text =>
      cases done
      refine ⟨?_, rfl⟩
      cases id with
      | str text => rfl
      | undefined | null | bool _ | num _ | arr _ | obj _ => cases text
    · cases done
  branchWithSummary before id summary fromExtension new after done := by
    cases done
    exact ⟨rfl, _, rfl, sampleEntry_id _ _ _, sampleEntry_parentId _ _ _⟩
  appendLabelChange before target label new after done := by
    cases done
    exact ⟨_, rfl, sampleEntry_id _ _ _⟩

def sampleSession : Sample where
  leaf := some (js "1")
  entries := [
    .record [("type", .text "message"), ("id", .text "0"), ("parentId", .null),
      ("message", .record [("role", .text "user"), ("content", .text "hi")])],
    .record [("type", .text "message"), ("id", .text "1"), ("parentId", .text "0"),
      ("message", .record [("role", .text "assistant"), ("content", .arr [])])]]

/-- One summary stream, then the summary and a label. -/
def sampleEvents : List (Event Sample) :=
  [.reply (.answered .undefined), .request none, .finish 0 false, .reply (.generated (.record [("summary", .text "done")])),
    .reply .done, .reply .done, .reply .done, .reply .done, .reply .done, .reply .done]

def sampleCall : State Sample :=
  .call sampleManager sampleSession true false (.text "0") (.record [("summarize", .bool true), ("label", .text "mark")])

def Stage.isNavigated : Stage → Bool
  | .ended outcome => outcome.isCommitted
  | _ => false

end Runs

end PersistentHarness.Navigation
