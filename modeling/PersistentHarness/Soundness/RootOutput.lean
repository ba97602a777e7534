import Mathlib.Data.List.Induction
import PersistentHarness.Model.RootOutput

/-! # No event is lost silently

The ring is the window of a numbered history, so the frames after a cursor are all in it, or the cursor lies
before its oldest frame and the subscriber is told of a gap.
-/

namespace PersistentHarness.RootOutput

variable {config : Config} {projector : Projector} {frames : List Frame}

/-- A frame as the ring keeps it. -/
def itemOf (frame : Frame) : Item := ⟨frame.seq, eventBytes frame.value, frame⟩

/-- The ring is the newest part of what was published, within both limits and with its exact size. -/
structure Holds (config : Config) (frames : List Frame) (projector : Projector) : Prop where
  options : projector.config = config
  sequence : projector.sequence = frames.length
  numbered : Window.Numbered Frame.seq 1 frames
  keeps : Window.Keeps Item.bytes config.maxEvents config.maxBytes (frames.map itemOf) projector.ring projector.ringBytes

theorem holds_new (config : Config) : Holds config [] (Projector.new config) := ⟨rfl, rfl, rfl, Window.keeps_nil⟩

theorem Holds.publish (holds : Holds config frames projector) (event : Value) :
    ∃ next frame, projector.publish event = some (next, frame) ∧ Holds config (frames ++ [frame]) next
      ∧ frame = ⟨config.generation, frames.length + 1, event⟩ := by
  obtain ⟨rfl, sequence, numbered, keeps⟩ := holds
  have next : Frame.seq ⟨projector.config.generation, projector.sequence + 1, event⟩ = 1 + frames.length := by
    dsimp only
    omega
  obtain ⟨ring, ringBytes, evicted, kept⟩ := keeps.push (itemOf ⟨projector.config.generation, projector.sequence + 1, event⟩)
  refine ⟨{ projector with sequence := projector.sequence + 1, ring, ringBytes }, _, ?_,
    ⟨rfl, ?_, numbered.concat next, ?_⟩, by rw [sequence]⟩
  · rw [Projector.publish]
    dsimp only [itemOf] at evicted ⊢
    rw [evicted, Option.map_some]
  · rw [List.length_append, List.length_singleton, ← sequence]
  · rwa [List.map_append, List.map_singleton]

theorem Holds.step (holds : Holds config frames projector) (s : Step) :
    ∃ next emitted, RootOutput.step projector s = some (next, emitted) ∧ Holds config (frames ++ emitted) next := by
  cases s with
  | publish event =>
    rw [RootOutput.step]
    split
    · obtain ⟨next, frame, published, holds, _⟩ := holds.publish event
      exact ⟨next, [frame], by rw [published, Option.map_some], holds⟩
    · exact ⟨projector, [], rfl, by rwa [List.append_nil]⟩
  | subscribe cursor =>
    refine ⟨_, [], rfl, ?_⟩
    rw [List.append_nil]
    exact ⟨holds.options, holds.sequence, holds.numbered, holds.keeps⟩

/-- Publishing never fails, and the ring holds in every state. -/
theorem run_holds (config : Config) (steps : List Step) :
    ∃ projector frames, run config steps = some (projector, frames) ∧ Holds config frames projector := by
  induction steps using List.reverseRecOn with
  | nil => exact ⟨_, _, rfl, holds_new config⟩
  | append_singleton steps s ih =>
    obtain ⟨projector, frames, ran, holds⟩ := ih
    obtain ⟨next, emitted, stepped, holds⟩ := holds.step s
    refine ⟨next, frames ++ emitted, ?_, holds⟩
    rw [run, List.foldlM_append]
    rw [run] at ran
    rw [ran]
    simp [stepped]

section Subscription

theorem Holds.items (holds : Holds config frames projector) : Window.Numbered Item.seq 1 (frames.map itemOf) := by
  have numbered := holds.numbered
  rw [Window.Numbered] at numbered ⊢
  rw [List.map_map, List.length_map]
  exact numbered

/-- The ring starts at the number after what it dropped. -/
theorem Holds.oldest (holds : Holds config frames projector) :
    projector.oldestSeq = if projector.ring = [] then none else some (frames.length - projector.ring.length + 1) := by
  obtain ⟨before, same⟩ := holds.keeps.suffix
  have lengths := congrArg List.length same
  rw [List.length_append, List.length_map] at lengths
  have items := holds.items
  rw [← same] at items
  have later := items.drop before.length
  rw [List.drop_left] at later
  unfold Projector.oldestSeq
  split
  · next empty =>
    rw [empty]
    rfl
  · next nonempty =>
    obtain ⟨item, head⟩ := Option.ne_none_iff_exists'.mp (fun none => nonempty (List.head?_eq_none_iff.mp none))
    rw [head, Option.map_some, later.head head]
    congr 1
    omega

theorem Holds.replayed (holds : Holds config frames projector) {afterSeq : ℕ}
    (reaches : frames.length ≤ afterSeq + projector.ring.length) :
    (projector.ring.filter fun item => decide (afterSeq < item.seq)).map Item.frame = frames.drop afterSeq := by
  have kept := Window.filter_of_suffix (n := afterSeq) holds.items holds.keeps.suffix (by rw [List.length_map]; omega)
  have frameOf : Item.frame ∘ itemOf = id := rfl
  rw [kept, Nat.add_sub_cancel, List.map_drop, List.map_map, frameOf, List.map_id]

/-- A cursor that marks itself invalid. -/
def flagged (cursor : Value) : Bool := (cursor.get (js "invalid")).truthy || (cursor.get (js "invalidCursor")).truthy

theorem Holds.subscribe (holds : Holds config frames projector) {cursor : Value} {afterSeq : ℕ}
    (generation : cursor.get (js "generation") = .str config.generation)
    (after : (cursor.get (js "afterSeq")).safeNat? = some afterSeq) (bound : afterSeq ≤ frames.length) :
    if flagged cursor = false ∧ frames.length ≤ afterSeq + projector.ring.length then
      (projector.subscribe cursor).2.gap = false ∧ (projector.subscribe cursor).2.events = frames.drop afterSeq
    else (projector.subscribe cursor).2.gap = true := by
  have given : ¬(cursor = .undefined ∨ cursor = .null ∨ (cursor.truthy = true ∧ Projector.ownKeys cursor = 0)) := by
    cases cursor with
    | obj fields =>
      cases fields with
      | nil => cases generation
      | cons => simp [Projector.ownKeys]
    | _ => cases generation
  have shorter := holds.keeps.suffix.length_le
  rw [List.length_map] at shorter
  have oldest := holds.oldest
  have valid : isGeneration config.generation = true := config.named
  unfold Projector.subscribe
  dsimp only
  rw [if_neg given, generation, after, holds.options, holds.sequence]
  by_cases flags : flagged cursor = true
  · have marked : (cursor.get (js "invalid")).truthy = true ∨ (cursor.get (js "invalidCursor")).truthy = true := by
      simpa [flagged] using flags
    rw [if_neg fun both => by simp [both.1] at flags, if_pos (marked.elim .inl fun later => .inr (.inl later))]
  · have unmarked : ¬((cursor.get (js "invalid")).truthy = true ∨ (cursor.get (js "invalidCursor")).truthy = true
        ∨ (Value.str config.generation).isString = false ∨ isGeneration (Value.str config.generation).units = false) := by
      have rest : isGeneration (Value.str config.generation).units = true := valid
      simp only [flagged, Bool.or_eq_true, not_or] at flags
      simp [flags, rest, Value.isString]
    have current : ¬(Value.str config.generation ≠ .str config.generation) := fun other => other rfl
    have past : ¬(afterSeq > frames.length) := by omega
    rw [Bool.not_eq_true] at flags
    simp only [if_neg unmarked, if_neg current, if_neg past, oldest]
    by_cases reaches : frames.length ≤ afterSeq + projector.ring.length
    · rw [if_pos ⟨flags, reaches⟩]
      by_cases empty : projector.ring = []
      · have level : ¬afterSeq < frames.length := by
          rw [empty, List.length_nil] at reaches
          omega
        simp [empty, level, ← holds.replayed reaches]
      · have kept : ¬(afterSeq + 1 < frames.length - projector.ring.length + 1) := by omega
        simp [empty, kept, holds.replayed reaches]
    · rw [if_neg fun both => reaches both.2]
      by_cases empty : projector.ring = []
      · have behind : afterSeq < frames.length := by omega
        simp [empty, behind]
      · have lost : afterSeq + 1 < frames.length - projector.ring.length + 1 := by omega
        simp [empty, lost]

end Subscription

section Claims

/-- The ring is a contiguous suffix of the frames, with its limits and its exact size. -/
structure RingSound (config : Config) (frames : List Frame) (projector : Projector) : Prop where
  suffix : projector.ring.map Item.frame <:+ frames
  seqs : ∀ item ∈ projector.ring, item.seq = item.frame.seq
  count : projector.ring.length ≤ config.maxEvents
  within : projector.ringBytes ≤ config.maxBytes
  exact : projector.ringBytes = (projector.ring.map fun item => eventBytes item.frame.value).sum

theorem Holds.ringSound (holds : Holds config frames projector) : RingSound config frames projector := by
  obtain ⟨_, _, _, suffix, exact, count, within⟩ := holds
  have frameOf : Item.frame ∘ itemOf = id := rfl
  have made : ∀ item ∈ projector.ring, ∃ frame, itemOf frame = item := fun item member =>
    (List.mem_map.mp (suffix.subset member)).imp fun _ made => made.2
  refine ⟨?suffix, fun item member => ?seqs, count, within, ?exact⟩
  case suffix =>
    have mapped := suffix.map Item.frame
    rwa [List.map_map, frameOf, List.map_id] at mapped
  case seqs =>
    obtain ⟨frame, rfl⟩ := made item member
    rfl
  case exact =>
    rw [exact]
    congr 1
    refine List.map_congr_left fun item member => ?_
    obtain ⟨frame, rfl⟩ := made item member
    rfl

/-- Over any steps publishing never fails and numbers its frames from one on, the ring is sound, and a cursor of the
current generation is answered with all the frames after it or with a gap; without a mark of its own it sees a gap
only when a frame after it has left the ring. -/
theorem run_replays (config : Config) (steps : List Step) :
    ∃ projector frames, run config steps = some (projector, frames) ∧ projector.sequence = frames.length
      ∧ Window.Numbered Frame.seq 1 frames ∧ RingSound config frames projector
      ∧ ∀ cursor afterSeq, cursor.get (js "generation") = .str config.generation →
        (cursor.get (js "afterSeq")).safeNat? = some afterSeq → afterSeq ≤ projector.sequence →
          ((projector.subscribe cursor).2.gap = true
            ∨ ((projector.subscribe cursor).2.gap = false ∧ (projector.subscribe cursor).2.events = frames.drop afterSeq))
          ∧ (flagged cursor = false →
            ((projector.subscribe cursor).2.gap = true ↔ afterSeq + projector.ring.length < frames.length)) := by
  obtain ⟨projector, frames, ran, holds⟩ := run_holds config steps
  refine ⟨projector, frames, ran, holds.sequence, holds.numbered, holds.ringSound, ?_⟩
  intro cursor afterSeq generation after bound
  have answer := holds.subscribe generation after (holds.sequence ▸ bound)
  split at answer
  · next reaches =>
    refine ⟨.inr answer, fun _ => ?_⟩
    rw [answer.1]
    exact ⟨by rintro ⟨⟩, fun behind => by omega⟩
  · next lost =>
    refine ⟨.inl answer, fun unmarked => ⟨fun _ => ?_, fun _ => answer⟩⟩
    rw [not_and, Nat.not_le] at lost
    exact lost unmarked

end Claims

section Turns

variable {formats : Formats} {turn : Turn} {turns : Turns} {events : List Event}

/-- What a reader of published events knows of an open turn: the index of its last message, and how many deltas of it there
were while it is under way. -/
structure Phase where
  turnId : JsString
  actorGeneration : ℕ
  index : ℕ
  deltas : Option ℕ
deriving DecidableEq

/-- The events that may come next. A turn starts where none is open; a delta follows the one before it or is the first of a
later message, a message ends under way or at a later index, and the end of the turn closes it. -/
def Phase.next : Option Phase → Event → Option (Option Phase)
  | none, event =>
    match event.payload with
    | .turnStart _ => some (some ⟨event.turnId, event.actorGeneration, 0, none⟩)
    | _ => none
  | some phase, event =>
    if event.turnId = phase.turnId ∧ event.actorGeneration = phase.actorGeneration then
      match event.payload with
      | .turnStart _ => none
      | .textDelta index deltaSeq _ _ _ =>
        if phase.index < index ∧ deltaSeq = 1 ∨ phase.index = index ∧ phase.deltas.map (· + 1) = some deltaSeq then
          some (some { phase with index, deltas := some deltaSeq })
        else none
      | .assistantTerminal index _ =>
        if phase.index < index ∨ phase.index = index ∧ phase.deltas.isSome then some (some { phase with index, deltas := none })
        else none
      | .turnTerminal _ _ => some none
    else none

/-- The phase after some events that come in order. -/
def walk (phase : Option Phase) (events : List Event) : Option (Option Phase) := events.foldlM Phase.next phase

/-- The events form complete turns, but for the rest of an open turn in front and for a last one that is still open. -/
def Ordered (phase : Option Phase) (events : List Event) : Prop := ∃ last, walk phase events = some last

theorem walk_cons (phase : Option Phase) (event : Event) (events : List Event) :
    walk phase (event :: events) = (Phase.next phase event).bind fun next => walk next events := rfl

theorem walk_append (phase : Option Phase) (events later : List Event) :
    walk phase (events ++ later) = (walk phase events).bind fun next => walk next later := List.foldlM_append

def Event.isStart (event : Event) : Bool :=
  match event.payload with
  | .turnStart _ => true
  | _ => false

def Event.isTerminal (event : Event) : Bool :=
  match event.payload with
  | .turnTerminal _ _ => true
  | _ => false

/-- The phase belongs to the turn. Messages may have begun of which nothing is published yet. -/
structure Follows (turn : Turn) (phase : Phase) : Prop where
  turnId : turn.turnId = phase.turnId
  generation : turn.actorGeneration = phase.actorGeneration
  idle : turn.message = none → phase.index = turn.messageIndex
  begun : ∀ message, turn.message = some message → message.index = turn.messageIndex
    ∧ (phase.index < message.index ∧ message.deltaSeq = 0 ∨ phase.index = message.index ∧ phase.deltas = some message.deltaSeq)

namespace Follows

variable {phase : Phase}

theorem index_le (follows : Follows turn phase) : phase.index ≤ turn.messageIndex := by
  cases message : turn.message with
  | none => exact (follows.idle message).le
  | some begun =>
    obtain ⟨index, before | under⟩ := follows.begun begun message
    · omega
    · omega

theorem startMessage (follows : Follows turn phase) : Follows (turn.startMessage formats) phase := by
  have bound := follows.index_le
  refine ⟨follows.turnId, follows.generation, ?_, ?_⟩
  · rintro ⟨⟩
  · rintro _ ⟨⟩
    exact ⟨rfl, .inl ⟨Nat.lt_succ_of_le bound, rfl⟩⟩

theorem ensureMessage (follows : Follows turn phase) :
    Follows (turn.ensureMessage formats).1 phase
      ∧ (turn.ensureMessage formats).1.message = some (turn.ensureMessage formats).2
      ∧ (turn.ensureMessage formats).1.sessionId = turn.sessionId := by
  unfold Turn.ensureMessage
  cases message : turn.message with
  | none => exact ⟨follows.startMessage, rfl, rfl⟩
  | some begun => exact ⟨follows, message, rfl⟩

/-- A change of the message that keeps its place and its count. -/
theorem withMessage {message : Message} (follows : Follows turn phase) (held : turn.message = some message)
    (filter : PresentationDirective.Filter) (sawTextDelta failed : Bool) :
    Follows { turn with message := some { message with filter, sawTextDelta }, failed } phase := by
  refine ⟨follows.turnId, follows.generation, ?_, ?_⟩
  · rintro ⟨⟩
  · rintro _ ⟨⟩
    exact follows.begun message held

theorem delta {message : Message} (follows : Follows turn phase) (held : turn.message = some message)
    (filter : PresentationDirective.Filter) (sawTextDelta : Bool) (contentIndex : ℕ) (text : JsString)
    (presentation : Option PresentationDirective.Presentation) :
    ∃ next, walk (some phase) [turn.base (.textDelta message.index (message.deltaSeq + 1) contentIndex text presentation)]
        = some (some next)
      ∧ Follows { turn with message := some { message with filter, sawTextDelta, deltaSeq := message.deltaSeq + 1 } } next := by
  obtain ⟨place, comes⟩ := follows.begun message held
  have fits : phase.index < message.index ∧ message.deltaSeq + 1 = 1
      ∨ phase.index = message.index ∧ phase.deltas.map (· + 1) = some (message.deltaSeq + 1) := by
    rcases comes with ⟨before, fresh⟩ | ⟨under, counted⟩
    · exact .inl ⟨before, by omega⟩
    · exact .inr ⟨under, by rw [counted, Option.map_some]⟩
  refine ⟨{ phase with index := message.index, deltas := some (message.deltaSeq + 1) }, ?_, follows.turnId, follows.generation,
    ?_, ?_⟩
  · rw [walk_cons, Phase.next, if_pos ⟨follows.turnId, follows.generation⟩]
    dsimp only [Turn.base]
    rw [if_pos fits]
    rfl
  · rintro ⟨⟩
  · rintro _ ⟨⟩
    exact ⟨place, .inr ⟨rfl, rfl⟩⟩

theorem ends {message : Message} {metadata : Option Metadata} {failed : Bool} (follows : Follows turn phase)
    (held : turn.message = some message) :
    ∃ next, walk (some phase) [turn.base (.assistantTerminal message.index metadata)] = some (some next)
      ∧ Follows { turn with message := none, failed } next := by
  obtain ⟨place, comes⟩ := follows.begun message held
  have fits : phase.index < message.index ∨ phase.index = message.index ∧ phase.deltas.isSome := by
    rcases comes with ⟨before, _⟩ | ⟨under, counted⟩
    · exact .inl before
    · exact .inr ⟨under, by rw [counted, Option.isSome_some]⟩
  refine ⟨{ phase with index := message.index, deltas := none }, ?_, follows.turnId, follows.generation, fun _ => place, ?_⟩
  · rw [walk_cons, Phase.next, if_pos ⟨follows.turnId, follows.generation⟩]
    dsimp only [Turn.base]
    rw [if_pos fits]
    rfl
  · rintro _ ⟨⟩

theorem terminal (follows : Follows turn phase) (status : TerminalStatus) (reason : Option JsString) :
    walk (some phase) [turn.terminal status reason] = some none := by
  rw [walk_cons, Phase.next, if_pos ⟨follows.turnId, follows.generation⟩]
  rfl

end Follows

/-- Events that lead from a phase to the phase of a turn, if it is still open. -/
def Leads (phase : Option Phase) (events : List Event) (turn : Option Turn) : Prop :=
  ∃ last, walk phase events = some last ∧ Option.Rel Follows turn last

theorem Follows.leads {phase : Phase} (follows : Follows turn phase) : Leads (some phase) [] (some turn) :=
  ⟨some phase, rfl, .some follows⟩

/-- A turn after an event, with what is published: of this session, and the next of its phase. -/
structure Reaches (turn : Turn) (phase : Phase) (next : Option Turn) (events : List Event) : Prop where
  leads : Leads (some phase) events next
  session : ∀ event ∈ events, event.sessionId = turn.sessionId
  same : ∀ later ∈ next, later.sessionId = turn.sessionId

namespace Follows

variable {phase : Phase}

theorem silent {next : Turn} (follows : Follows next phase) (same : next.sessionId = turn.sessionId) :
    Reaches turn phase (some next) [] := by
  refine ⟨follows.leads, ?_, ?_⟩
  · rintro _ ⟨⟩
  · rintro _ ⟨⟩
    exact same

theorem failing (follows : Follows turn phase) : Follows { turn with failed := true } phase :=
  ⟨follows.turnId, follows.generation, follows.idle, follows.begun⟩

theorem truncate (follows : Follows turn phase) :
    Reaches turn phase (some (turn.truncate formats).1) (turn.truncate formats).2 := by
  obtain ⟨ensured, held, session⟩ := follows.ensureMessage
  obtain ⟨next, walked, after⟩ := ensured.ends held
  refine ⟨⟨some next, walked, .some after⟩, ?_, ?_⟩
  · rintro event member
    rw [List.mem_singleton.mp member]
    exact session
  · rintro _ ⟨⟩
    exact session

theorem messageUpdate (follows : Follows turn phase) (event : Value) :
    Reaches turn phase (some (turn.messageUpdate formats event).1) (turn.messageUpdate formats event).2 := by
  unfold Turn.messageUpdate
  dsimp only
  split
  · exact follows.failing.silent rfl
  split
  · exact follows.silent rfl
  split
  · next delta contentIndex _ _ =>
    obtain ⟨ensured, held, session⟩ := follows.ensureMessage
    split
    · exact (ensured.withMessage held _ true _).silent session
    split
    · exact (ensured.withMessage held _ true true).silent session
    · obtain ⟨next, walked, after⟩ := ensured.delta held _ true contentIndex _ _
      refine ⟨⟨some next, walked, .some after⟩, ?_, ?_⟩
      · rintro event member
        rw [List.mem_singleton.mp member]
        exact session
      · rintro _ ⟨⟩
        exact session
  · exact follows.failing.silent rfl

theorem messageEnd (follows : Follows turn phase) (event : Value) :
    Reaches turn phase (some (turn.messageEnd formats event).1) (turn.messageEnd formats event).2 := by
  unfold Turn.messageEnd
  dsimp only
  split
  · exact follows.truncate
  split
  · exact follows.silent rfl
  obtain ⟨ensured, held, session⟩ := follows.ensureMessage
  have finished := ensured.withMessage held ((turn.ensureMessage formats).2.filter.finish formats.directives).1
    (turn.ensureMessage formats).2.sawTextDelta (turn.ensureMessage formats).1.failed
  have truncated := @Follows.truncate formats _ _ finished
  split
  · exact ⟨truncated.leads, fun event member => (truncated.session event member).trans session,
      fun later is => (truncated.same later is).trans session⟩
  split
  · exact ⟨truncated.leads, fun event member => (truncated.session event member).trans session,
      fun later is => (truncated.same later is).trans session⟩
  · obtain ⟨next, walked, after⟩ := ensured.ends held
    refine ⟨⟨some next, walked, .some after⟩, ?_, ?_⟩
    · rintro event member
      rw [List.mem_singleton.mp member]
      exact session
    · rintro _ ⟨⟩
      exact session

theorem hear (follows : Follows turn phase) (event : Value) :
    Reaches turn phase (turn.hear formats event).1 (turn.hear formats event).2 := by
  unfold Turn.hear
  dsimp only
  split
  · exact follows.startMessage.silent rfl
  split
  · exact follows.messageUpdate event
  split
  · exact follows.messageEnd event
  split
  · refine ⟨⟨none, follows.terminal _ _, .none⟩, ?_, ?_⟩
    · rintro event member
      rw [List.mem_singleton.mp member]
      rfl
    · rintro _ ⟨⟩
  · exact follows.silent rfl

end Follows

theorem follows_new (sessionId : JsString) (generation seq : ℕ) :
    Follows (Turn.new sessionId generation seq) ⟨(Turn.new sessionId generation seq).turnId, generation, 0, none⟩ := by
  refine ⟨rfl, rfl, fun _ => rfl, ?_⟩
  rintro _ ⟨⟩

/-- The open turns are those of their sessions, in these phases. -/
structure Tracks (turns : Turns) (phases : JsString → Option Phase) : Prop where
  follows : ∀ sessionId, Option.Rel Follows (Assoc.lookup turns sessionId) (phases sessionId)
  session : ∀ sessionId, ∀ turn ∈ Assoc.lookup turns sessionId, turn.sessionId = sessionId

/-- What was published of one session. -/
def eventsOf (sessionId : JsString) (events : List Event) : List Event := events.filter fun event => event.sessionId = sessionId

/-- The turns after a call: what is published goes on in the phase of its session, and leads to the turns there are now. -/
def Continues (phases : JsString → Option Phase) (events : List Event) (turns : Turns) : Prop :=
  ∃ later, Tracks turns later ∧ ∀ sessionId, walk (phases sessionId) (eventsOf sessionId events) = some (later sessionId)

section Table

variable {phases : JsString → Option Phase} {sessionId : JsString}

theorem Tracks.stays (tracks : Tracks turns phases) : Continues phases [] turns := ⟨phases, tracks, fun _ => rfl⟩

theorem eventsOf_own (own : ∀ event ∈ events, event.sessionId = sessionId) : eventsOf sessionId events = events :=
  List.filter_eq_self.mpr fun event member => decide_eq_true (own event member)

theorem eventsOf_other {other : JsString} (own : ∀ event ∈ events, event.sessionId = sessionId) (ne : other ≠ sessionId) :
    eventsOf other events = [] :=
  List.filter_eq_nil_iff.mpr fun event member same => ne ((of_decide_eq_true same).symm.trans (own event member))

theorem Tracks.change (tracks : Tracks turns phases) {next : Turns} (turn : Option Turn)
    (leads : Leads (phases sessionId) events turn) (own : ∀ event ∈ events, event.sessionId = sessionId)
    (same : ∀ later ∈ turn, later.sessionId = sessionId)
    (lookup : ∀ other, Assoc.lookup next other = if other = sessionId then turn else Assoc.lookup turns other) :
    Continues phases events next := by
  obtain ⟨last, walked, follows⟩ := leads
  refine ⟨fun other => if other = sessionId then last else phases other, ⟨fun other => ?_, fun other later is => ?_⟩, fun other => ?_⟩
  · rw [lookup]
    split
    · exact follows
    · exact tracks.follows other
  · rw [lookup] at is
    split at is
    · next here =>
      subst here
      exact same later is
    · exact tracks.session other later is
  · dsimp only
    split
    · next here =>
      subst here
      rw [eventsOf_own own]
      exact walked
    · next ne =>
      rw [eventsOf_other own ne]
      rfl

theorem lookup_set_if (turns : Turns) (sessionId : JsString) (turn : Turn) (other : JsString) :
    Assoc.lookup (Assoc.set turns sessionId turn) other = if other = sessionId then some turn else Assoc.lookup turns other := by
  rw [Assoc.lookup_set]
  simp only [eq_comm]

theorem lookup_erase_if (turns : Turns) (sessionId other : JsString) :
    Assoc.lookup (Assoc.erase turns sessionId) other = if other = sessionId then none else Assoc.lookup turns other := by
  rw [Assoc.lookup_erase]
  simp only [eq_comm]

theorem Tracks.open_ (tracks : Tracks turns phases) (found : Assoc.lookup turns sessionId = some turn) :
    ∃ phase, phases sessionId = some phase ∧ Follows turn phase ∧ turn.sessionId = sessionId := by
  have related := tracks.follows sessionId
  rw [found] at related
  cases here : phases sessionId with
  | none =>
    rw [here] at related
    cases related
  | some phase =>
    rw [here] at related
    cases related with
    | some follows => exact ⟨_, rfl, follows, tracks.session sessionId turn found⟩

theorem Tracks.closed (tracks : Tracks turns phases) (absent : Assoc.lookup turns sessionId = none) : phases sessionId = none := by
  have related := tracks.follows sessionId
  rw [absent] at related
  cases phase : phases sessionId with
  | none => rfl
  | some phase =>
    rw [phase] at related
    cases related

theorem Tracks.acceptEvent (tracks : Tracks turns phases) (sessionId : JsString) (generation seq : ℕ) (isStart : Bool)
    (event : Value) :
    Continues phases (acceptEvent formats turns sessionId generation seq isStart event).2
      (acceptEvent formats turns sessionId generation seq isStart event).1 := by
  unfold RootOutput.acceptEvent
  split
  · next absent =>
    split
    · refine tracks.change (some (Turn.new sessionId generation seq)) ?_ ?_ ?_ (lookup_set_if turns sessionId _)
      · rw [tracks.closed absent]
        exact ⟨_, rfl, .some (follows_new sessionId generation seq)⟩
      · intro event member
        rw [List.mem_singleton.mp member]
        rfl
      · rintro _ ⟨⟩
        rfl
    · exact tracks.stays
  · next current found =>
    obtain ⟨phase, here, follows, session⟩ := tracks.open_ found
    split
    · split
      · exact tracks.stays
      · refine tracks.change (some (Turn.new sessionId generation seq)) ?_ ?_ ?_ (lookup_set_if turns sessionId _)
        · refine ⟨some ⟨(Turn.new sessionId generation seq).turnId, generation, 0, none⟩, ?_,
            .some (follows_new sessionId generation seq)⟩
          have closed := follows.terminal .superseded (some (js "new_agent_start"))
          rw [here]
          dsimp only
          rw [← List.singleton_append, walk_append, closed]
          rfl
        · intro event member
          rcases List.mem_cons.mp member with rfl | member
          · exact session
          · rw [List.mem_singleton.mp member]
            rfl
        · rintro _ ⟨⟩
          rfl
    split
    · exact tracks.stays
    · have reaches := @Follows.hear formats _ _ follows event
      cases heard : current.hear formats event with
      | mk next events =>
        rw [heard] at reaches
        have leads : Leads (phases sessionId) events next := by
          rw [here]
          exact reaches.leads
        have own : ∀ event ∈ events, event.sessionId = sessionId := fun event member => (reaches.session event member).trans session
        have same : ∀ later ∈ next, later.sessionId = sessionId := fun later is => (reaches.same later is).trans session
        cases next with
        | none => exact tracks.change _ leads own same (lookup_erase_if turns sessionId)
        | some next => exact tracks.change _ leads own same (lookup_set_if turns sessionId next)

theorem Tracks.act (tracks : Tracks turns phases) (call : Call) :
    Continues phases (call.act formats turns).2 (call.act formats turns).1 := by
  cases call with
  | accept input =>
    unfold Call.act RootOutput.accept
    dsimp only
    split
    · exact tracks.acceptEvent _ _ _ _ _
    · exact tracks.stays
  | failSession sessionId actorGeneration reason =>
    unfold Call.act RootOutput.failSession
    dsimp only
    split
    · next sessionId generation _ _ =>
      split
      · exact tracks.stays
      next turn found =>
      split
      · exact tracks.stays
      · obtain ⟨phase, here, follows, session⟩ := tracks.open_ found
        refine tracks.change none ?_ ?_ ?_ (lookup_erase_if turns sessionId)
        · rw [here]
          exact ⟨none, follows.terminal _ _, .none⟩
        · intro event member
          rw [List.mem_singleton.mp member]
          exact session
        · rintro _ ⟨⟩
    · exact tracks.stays
  | subscribe cursor => exact tracks.stays

end Table

section Publishing

variable {s : TurnProjector} {phases : JsString → Option Phase}

theorem publish_active {next : Projector} {frame : Frame} {event : Value} (published : projector.publish event = some (next, frame)) :
    next.active = projector.active := by
  unfold Projector.publish at published
  obtain ⟨⟨ring, ringBytes⟩, _, same⟩ := Option.map_eq_some_iff.mp published
  cases same
  rfl

theorem Holds.publishAll (holds : Holds config frames projector) (events : List Event) :
    ∃ next emitted, TurnProjector.publishAll projector events = some (next, emitted) ∧ Holds config (frames ++ emitted) next
      ∧ next.active = projector.active ∧ emitted.map Frame.event = events.map Event.value := by
  induction events generalizing projector frames with
  | nil => exact ⟨projector, [], rfl, by rwa [List.append_nil], rfl, rfl⟩
  | cons event rest ih =>
    obtain ⟨next, frame, published, after, made⟩ := holds.publish event.value
    obtain ⟨last, emitted, others, final, active, shown⟩ := ih after
    refine ⟨last, frame :: emitted, ?_, ?_, active.trans (publish_active published), ?_⟩
    · unfold TurnProjector.publishAll
      rw [published]
      dsimp only [Option.bind_eq_bind, Option.bind_some]
      rw [others]
      rfl
    · rwa [List.append_assoc, List.singleton_append] at final
    · rw [List.map_cons, List.map_cons, shown, made]

theorem Holds.turnStep (holds : Holds config frames s.projector) (call : Call) :
    ∃ t emitted, TurnProjector.step formats s call = some (t, emitted) ∧ Holds config (frames ++ emitted) t.projector
      ∧ t.turns = (call.act formats s.turns).1
      ∧ (s.projector.active = true → t.projector.active = true
        ∧ emitted.map Frame.event = (call.act formats s.turns).2.map Event.value) := by
  have published : ∃ t emitted,
      (if s.projector.active then
          (TurnProjector.publishAll s.projector (call.act formats s.turns).2).map fun result =>
            ((⟨result.1, (call.act formats s.turns).1⟩ : TurnProjector), result.2)
        else some (⟨s.projector, (call.act formats s.turns).1⟩, [])) = some (t, emitted)
      ∧ Holds config (frames ++ emitted) t.projector ∧ t.turns = (call.act formats s.turns).1
      ∧ (s.projector.active = true → t.projector.active = true
        ∧ emitted.map Frame.event = (call.act formats s.turns).2.map Event.value) := by
    obtain ⟨next, emitted, all, after, active, shown⟩ := holds.publishAll (call.act formats s.turns).2
    cases isActive : s.projector.active with
    | true =>
      rw [all]
      exact ⟨_, emitted, rfl, after, rfl, fun _ => ⟨active.trans isActive, shown⟩⟩
    | false =>
      refine ⟨_, [], rfl, by rwa [List.append_nil], rfl, ?_⟩
      rintro ⟨⟩
  cases call with
  | accept input => exact published
  | failSession sessionId actorGeneration reason => exact published
  | subscribe cursor =>
    refine ⟨_, [], rfl, ?_, rfl, fun _ => ⟨rfl, rfl⟩⟩
    rw [List.append_nil]
    exact ⟨holds.options, holds.sequence, holds.numbered, holds.keeps⟩

/-- A run never fails, its turns are tracked, and while the projector is active what it publishes goes on in the phase of each
session. -/
theorem Holds.turnRun (holds : Holds config frames s.projector) (tracks : Tracks s.turns phases) (calls : List Call) :
    ∃ t emitted later, TurnProjector.run formats s calls = some (t, emitted) ∧ Holds config (frames ++ emitted) t.projector
      ∧ Tracks t.turns later
      ∧ (s.projector.active = true → ∃ events, emitted.map Frame.event = events.map Event.value
        ∧ ∀ sessionId, walk (phases sessionId) (eventsOf sessionId events) = some (later sessionId)) := by
  induction calls generalizing s frames phases with
  | nil => exact ⟨s, [], phases, rfl, by rwa [List.append_nil], tracks, fun _ => ⟨[], rfl, fun _ => rfl⟩⟩
  | cons call rest ih =>
    obtain ⟨t, emitted, stepped, after, turns, shown⟩ := holds.turnStep call
    obtain ⟨phase, tracked, first⟩ := tracks.act call
    rw [← turns] at tracked
    obtain ⟨last, others, later, ran, final, tracksLast, more⟩ := ih after tracked
    refine ⟨last, emitted ++ others, later, ?_, by rwa [List.append_assoc] at final, tracksLast, fun active => ?_⟩
    · unfold TurnProjector.run
      rw [stepped]
      dsimp only [Option.bind_eq_bind, Option.bind_some]
      rw [ran]
      rfl
    · obtain ⟨stays, own⟩ := shown active
      obtain ⟨events, shownLater, walked⟩ := more stays
      refine ⟨(call.act formats s.turns).2 ++ events, ?_, fun sessionId => ?_⟩
      · rw [List.map_append, List.map_append, own, shownLater]
      · have split : eventsOf sessionId ((call.act formats s.turns).2 ++ events)
            = eventsOf sessionId (call.act formats s.turns).2 ++ eventsOf sessionId events := List.filter_append _ _
        rw [split, walk_append, first sessionId]
        exact walked sessionId

end Publishing

section Order

variable {phase : Phase} {event : Event}

theorem next_open {next : Option Phase} (comes : Phase.next (some phase) event = some next) :
    event.isStart = false ∧ event.turnId = phase.turnId
      ∧ (event.isTerminal = true ∧ next = none
        ∨ event.isTerminal = false ∧ ∃ later, next = some later ∧ later.turnId = phase.turnId) := by
  unfold Phase.next at comes
  dsimp only at comes
  split at comes
  · next own =>
    unfold Event.isStart Event.isTerminal
    cases payload : event.payload with
    | turnStart seq =>
      rw [payload] at comes
      cases comes
    | textDelta index deltaSeq contentIndex delta presentation =>
      rw [payload] at comes
      dsimp only at comes
      split at comes
      · cases comes
        exact ⟨rfl, own.1, .inr ⟨rfl, _, rfl, rfl⟩⟩
      · cases comes
    | assistantTerminal index metadata =>
      rw [payload] at comes
      dsimp only at comes
      split at comes
      · cases comes
        exact ⟨rfl, own.1, .inr ⟨rfl, _, rfl, rfl⟩⟩
      · cases comes
    | turnTerminal status reason =>
      rw [payload] at comes
      cases comes
      exact ⟨rfl, own.1, .inl ⟨rfl, rfl⟩⟩
  · cases comes

theorem next_idle {next : Option Phase} (comes : Phase.next none event = some next) :
    event.isStart = true ∧ ∃ later, next = some later ∧ later.turnId = event.turnId := by
  unfold Phase.next at comes
  unfold Event.isStart
  dsimp only at comes
  cases payload : event.payload with
  | turnStart seq =>
    rw [payload] at comes
    cases comes
    exact ⟨rfl, _, rfl, rfl⟩
  | textDelta index deltaSeq contentIndex delta presentation =>
    rw [payload] at comes
    cases comes
  | assistantTerminal index metadata =>
    rw [payload] at comes
    cases comes
  | turnTerminal status reason =>
    rw [payload] at comes
    cases comes

/-- Up to the next start an open turn ends, once and last. -/
theorem closes_before {middle after : List Event} {next : Event} {last : Option Phase}
    (walked : walk (some phase) (middle ++ next :: after) = some last) (starts : next.isStart = true)
    (none_ : ∀ event ∈ middle, event.isStart = false) :
    ∃ body terminal, middle = body ++ [terminal] ∧ terminal.isTerminal = true ∧ terminal.turnId = phase.turnId
      ∧ ∀ event ∈ body, event.isTerminal = false := by
  induction middle generalizing phase with
  | nil =>
    obtain ⟨_, comes, _⟩ := Option.bind_eq_some_iff.mp walked
    rw [(next_open comes).1] at starts
    cases starts
  | cons event rest ih =>
    obtain ⟨there, comes, walked⟩ := Option.bind_eq_some_iff.mp walked
    obtain ⟨_, own, ⟨ends, rfl⟩ | ⟨goes, later, rfl, same⟩⟩ := next_open comes
    · cases rest with
      | nil =>
        refine ⟨[], event, rfl, ends, own, ?_⟩
        rintro _ ⟨⟩
      | cons other rest =>
        obtain ⟨_, comes, _⟩ := Option.bind_eq_some_iff.mp walked
        have idle := (next_idle comes).1
        rw [none_ other (List.mem_cons_of_mem _ List.mem_cons_self)] at idle
        cases idle
    · obtain ⟨body, terminal, rfl, ends, turnId, before⟩ :=
        ih walked fun event member => none_ event (List.mem_cons_of_mem _ member)
      refine ⟨event :: body, terminal, rfl, ends, turnId.trans same, ?_⟩
      intro other member
      rcases List.mem_cons.mp member with rfl | member
      · exact goes
      · exact before other member

theorem Ordered.between {phase : Option Phase} {before middle after : List Event} {start next : Event}
    (ordered : Ordered phase (before ++ start :: (middle ++ next :: after))) (first : start.isStart = true)
    (second : next.isStart = true) (none_ : ∀ event ∈ middle, event.isStart = false) :
    ∃ body terminal, middle = body ++ [terminal] ∧ terminal.isTerminal = true ∧ terminal.turnId = start.turnId
      ∧ ∀ event ∈ body, event.isTerminal = false := by
  obtain ⟨last, walked⟩ := ordered
  rw [walk_append] at walked
  obtain ⟨here, _, walked⟩ := Option.bind_eq_some_iff.mp walked
  obtain ⟨there, comes, walked⟩ := Option.bind_eq_some_iff.mp walked
  cases here with
  | some phase =>
    rw [(next_open comes).1] at first
    cases first
  | none =>
    obtain ⟨_, later, rfl, same⟩ := next_idle comes
    obtain ⟨body, terminal, rfl, ends, turnId, others⟩ := closes_before walked second none_
    exact ⟨body, terminal, rfl, ends, turnId.trans same, others⟩

end Order

/-- The call is of an older generation than the open turn of its session, or starts nothing and is of another generation, or is
for a turn that is not open. -/
def Stale (turns : Turns) : Call → Prop
  | .accept input => ∀ sessionId ∈ input.rootId,
      (Assoc.lookup turns sessionId = none → input.isStart = false)
        ∧ ∀ turn ∈ Assoc.lookup turns sessionId, ∀ generation ∈ safeIndex input.actorGeneration 1,
          generation ≠ turn.actorGeneration ∧ (input.isStart = true → generation < turn.actorGeneration)
  | .failSession sessionId actorGeneration _ => ∀ id ∈ boundedString sessionId, ∀ turn ∈ Assoc.lookup turns id,
      ∀ generation ∈ safeIndex actorGeneration 1, generation ≠ turn.actorGeneration
  | .subscribe _ => False

theorem act_stale {call : Call} (stale : Stale turns call) : call.act formats turns = (turns, []) := by
  cases call with
  | subscribe cursor => exact stale.elim
  | accept input =>
    unfold Call.act RootOutput.accept
    dsimp only
    split
    · next sessionId generation seq root given _ =>
      obtain ⟨idle, other⟩ := stale sessionId root
      unfold acceptEvent
      split
      · next absent => rw [if_neg (Bool.eq_false_iff.mp (idle absent))]
      · next turn found =>
        obtain ⟨different, older⟩ := other turn found generation given
        split
        · next starts => rw [if_pos (older starts)]
        · rw [if_pos (Ne.symm different)]
    · rfl
  | failSession sessionId actorGeneration reason =>
    unfold Call.act RootOutput.failSession
    dsimp only
    split
    · next sessionId generation root given =>
      split
      · rfl
      · next turn found => rw [if_pos (Ne.symm (stale sessionId root turn found generation given))]
    · rfl

theorem step_stale {s : TurnProjector} {call : Call} (stale : Stale s.turns call) :
    TurnProjector.step formats s call = some (s, []) := by
  unfold TurnProjector.step
  rw [act_stale stale]
  cases call with
  | subscribe cursor => exact stale.elim
  | accept input =>
    dsimp only
    split
    · rfl
    · rfl
  | failSession sessionId actorGeneration reason =>
    dsimp only
    split
    · rfl
    · rfl

/-- From any state that calls lead to, calls while the projector is active publish complete turns: the events of each session go on
in the phase of the turn that is open at first, if there is one, and between two starts the first turn ends once. A stale call
publishes nothing and changes nothing. -/
theorem run_publishes_turns (formats : Formats) (config : Config) {before : List Call} {s : TurnProjector} {earlier : List Frame}
    (reached : TurnProjector.run formats (.new config) before = some (s, earlier)) (active : s.projector.active = true)
    (calls : List Call) :
    ∃ t frames events phases, TurnProjector.run formats s calls = some (t, frames)
      ∧ frames.map Frame.event = events.map Event.value ∧ Tracks s.turns phases
      ∧ (∀ sessionId, Ordered (phases sessionId) (eventsOf sessionId events)
        ∧ ∀ first start middle next rest, eventsOf sessionId events = first ++ start :: (middle ++ next :: rest) →
          start.isStart = true → next.isStart = true → (∀ event ∈ middle, event.isStart = false) →
          ∃ body terminal, middle = body ++ [terminal] ∧ terminal.isTerminal = true ∧ terminal.turnId = start.turnId
            ∧ ∀ event ∈ body, event.isTerminal = false)
      ∧ ∀ call, Stale t.turns call → TurnProjector.step formats t call = some (t, []) := by
  have nothing : Tracks (TurnProjector.new config).turns fun _ => none := by
    refine ⟨fun _ => .none, ?_⟩
    rintro _ _ ⟨⟩
  obtain ⟨there, _, phases, ran, holds, tracks, _⟩ := (holds_new config).turnRun nothing before
  rw [reached] at ran
  obtain ⟨rfl, rfl⟩ := Prod.mk.inj (Option.some.inj ran)
  obtain ⟨t, frames, later, ran, _, _, shown⟩ := holds.turnRun tracks calls
  obtain ⟨events, made, walked⟩ := shown active
  refine ⟨t, frames, events, phases, ran, made, tracks, fun sessionId => ?_, fun call stale => step_stale stale⟩
  have ordered : Ordered (phases sessionId) (eventsOf sessionId events) := ⟨later sessionId, walked sessionId⟩
  refine ⟨ordered, fun first start middle next rest split starts startsNext none_ => ?_⟩
  rw [split] at ordered
  exact ordered.between starts startsNext none_

/-- A projector of the defaults, and a filter of the default namespace; no text is a date. -/
def sampleConfig : Config := ⟨js "generation", 1024, 512 * 1024, by decide, by decide, by decide⟩

def sampleFormats : Formats := ⟨PresentationDirective.defaultConfig, fun _ => none⟩

def sampleAccept (generation seq : ℕ) (event : List (String × Value)) : Call :=
  .accept ⟨Value.record [("kind", Value.text "root"), ("depth", .num (.ofNat 0)), ("sessionId", Value.text "root")],
    .num (.ofNat generation), .num (.ofNat seq), .record event⟩

def sampleDelta (delta : String) : List (String × Value) :=
  [("type", Value.text "message_update"), ("assistantMessageEvent",
    Value.record [("type", Value.text "text_delta"), ("delta", Value.text delta), ("contentIndex", .num (.ofNat 0))])]

/-- The types of the frames that calls publish after a first subscription. -/
def publishedTypes (calls : List Call) : Option (List Value) :=
  (TurnProjector.run sampleFormats (.new sampleConfig) (.subscribe .null :: calls)).map fun result =>
    result.2.map fun frame => frame.event.get (js "type")

/-- A start of a newer generation publishes, and so does a start of an older one once the turn has settled. -/
theorem run_publishes_turns_generations :
    publishedTypes [sampleAccept 2 1 [("type", Value.text "agent_start")], sampleAccept 3 1 [("type", Value.text "agent_start")]]
        = some [Value.text "turn_start", Value.text "turn_terminal", Value.text "turn_start"]
      ∧ publishedTypes [sampleAccept 2 1 [("type", Value.text "agent_start")],
          sampleAccept 2 2 [("type", Value.text "agent_settled")], sampleAccept 1 3 [("type", Value.text "agent_start")]]
        = some [Value.text "turn_start", Value.text "turn_terminal", Value.text "turn_start"] := by
  decide +kernel

/-- A turn with a delta, an event of an older generation, and a turn that takes over. -/
def takeover : List Call :=
  [sampleAccept 2 1 [("type", Value.text "agent_start")], sampleAccept 2 2 (sampleDelta "one"),
    sampleAccept 1 3 (sampleDelta "stale"), sampleAccept 3 1 [("type", Value.text "agent_start")]]

theorem run_publishes_turns_takeover : ∃ t frames events, ∃ phases : JsString → Option Phase,
    TurnProjector.run sampleFormats ⟨((Projector.new sampleConfig).subscribe .null).1, []⟩ takeover = some (t, frames)
      ∧ frames.map Frame.event = events.map Event.value
      ∧ Ordered (phases (js "root")) (eventsOf (js "root") events) := by
  have reached : TurnProjector.run sampleFormats (.new sampleConfig) [.subscribe .null]
      = some (⟨((Projector.new sampleConfig).subscribe .null).1, []⟩, []) := rfl
  obtain ⟨t, frames, events, phases, ran, shown, _, ordered, _⟩ :=
    run_publishes_turns sampleFormats sampleConfig reached rfl takeover
  exact ⟨t, frames, events, phases, ran, shown, (ordered (js "root")).1⟩

end Turns

end PersistentHarness.RootOutput
