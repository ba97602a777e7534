import PersistentHarness.Soundness.Supervisor.Slots

/-! # Which actors retire

A timer or the drain asks for a retirement, and it waits behind the other mutations of the session. Whatever happened
in between, the stop begins only in a step that finds the actor idle.
-/

namespace PersistentHarness.Supervisor

open SessionStore (AllAwake Ending)

/-- The worker that the mutation at the head of a session's queue is stopping. -/
def System.retires (s : System) (id : JsString) : Option ℕ :=
  match (s.mutations id).head? with
  | some (_, .closing w) => some w
  | _ => none

/-- A resident actor that does nothing, has nothing to do, and that nothing else holds. -/
structure Retirable (s : System) (id : JsString) (w : ℕ) : Prop where
  mapped : Assoc.lookup s.actors id = some w
  running : (s.records w).process = .running
  resident : ∃ row, s.store.sessions.get? id = some row ∧ row.lifecycle = .resident ∧ row.streaming = false
    ∧ row.actorGeneration = (s.records w).generation
  pending : SessionStore.hasPendingSessionWork s.store id = false
  works : (s.records w).notificationWork = ∅
  launching : id ∉ s.startingActors
  ready : id ∉ s.actorReadyPromises
  wake : id ∉ s.actorInputWakes
  kept : s.store.isSessionDeleting id = false

/-- Only the head of a queue has begun, and a streaming session is not quiet. -/
structure Orderly (s : System) : Prop where
  behind : ∀ id, ∀ entry ∈ (s.mutations id).tail, entry.2 = Phase.waiting
  awake : AllAwake s.store.sessions

section Queues

variable {ctx : Context} {limits : Limits} {turns : Bool} {s t : System}

theorem Appends.behind (appends : Appends s t) {id : JsString} (behind : ∀ entry ∈ (s.mutations id).tail, entry.2 = .waiting) :
    ∀ entry ∈ (t.mutations id).tail, entry.2 = .waiting := by
  obtain ⟨more, waiting, grown⟩ := appends id
  intro entry member
  rw [grown] at member
  cases queue : s.mutations id with
  | nil =>
    rw [queue] at member
    exact waiting entry (List.mem_of_mem_tail member)
  | cons head rest =>
    rw [queue, List.cons_append, List.tail_cons] at member
    rw [queue, List.tail_cons] at behind
    exact (List.mem_append.mp member).elim (behind entry) (waiting entry)

theorem Move.orderly (move : Move limits turns s t) (orderly : Orderly s) : Orderly t := by
  cases move with
  | aside aside => exact ⟨fun id => aside.mutations.behind (orderly.behind id), aside.awake orderly.awake⟩
  | turn allowed draining behind =>
    refine ⟨fun id entry member => ?_, orderly.awake⟩
    dsimp only at member
    rw [Function.update_apply] at member
    split at member
    · next here => exact orderly.behind _ entry (behind.subset member)
    · exact orderly.behind id entry member
  | clear awaited settled gone =>
    have same : s.clear.mutations = s.mutations ∧ s.clear.store = s.store := by
      rw [System.clear, awaited]
      dsimp only
      split <;> exact ⟨rfl, rfl⟩
    exact ⟨fun id => same.1 ▸ orderly.behind id, same.2 ▸ orderly.awake⟩
  | _ => exact ⟨orderly.behind, orderly.awake⟩

theorem Moves.orderly (moves : Moves limits turns s t) (orderly : Orderly s) : Orderly t := by
  induction moves with
  | refl => exact orderly
  | tail _ move ih => exact move.orderly ih

theorem Move.appends (move : Move limits false s t) : Appends s t := by
  cases move with
  | aside aside => exact aside.mutations
  | turn allowed => cases allowed
  | clear awaited settled gone =>
    apply Appends.of_eq
    rw [System.clear, awaited]
    dsimp only
    split <;> rfl
  | _ => exact Appends.of_eq rfl

theorem Moves.appends (moves : Moves limits false s t) : Appends s t := by
  induction moves with
  | refl => exact .refl s
  | tail _ move ih => exact ih.trans move.appends

/-- What is added to a queue stops nothing yet. -/
theorem Appends.retires (appends : Appends s t) {id : JsString} {w : ℕ} (stops : t.retires id = some w) :
    s.retires id = some w := by
  obtain ⟨more, waiting, grown⟩ := appends id
  rw [System.retires] at stops ⊢
  rw [grown] at stops
  cases queue : s.mutations id with
  | cons head rest =>
    rw [queue] at stops
    exact stops
  | nil =>
    rw [queue, List.nil_append] at stops
    cases more with
    | nil => cases stops
    | cons entry more =>
      obtain ⟨mutation, phase⟩ := entry
      obtain rfl := waiting _ (List.mem_cons_self ..)
      cases stops

end Queues

section Turns

variable {ctx : Context} {s : System} {id : JsString} {mutation : Mutation} {w : ℕ}

theorem isActorOwnIdle_retirable (orderly : Orderly s) {mutationOwned : Bool}
    (idle : s.isActorOwnIdle id w mutationOwned = true) : Retirable s id w := by
  unfold System.isActorOwnIdle at idle
  obtain ⟨mapped, running, _, rests, works, launching, ready, wake, _, kept, pending⟩ := of_decide_eq_true idle
  obtain ⟨row, stored, rests⟩ := (Option.any_eq_true _ _).mp rests
  obtain ⟨resident, generation, quiet⟩ := of_decide_eq_true rests
  have still : row.streaming = false := by
    by_contra streams
    rw [Bool.not_eq_false] at streams
    rw [orderly.awake id row stored streams] at quiet
    cases quiet
  exact ⟨mapped, running, ⟨row, stored, resident, still, generation⟩, pending, works, launching, ready, wake, kept⟩

theorem setPhase_mutations (s : System) (id : JsString) (mutation : Mutation) (phase : Phase) (other : JsString) :
    (s.setPhase id mutation phase).mutations other =
      if other = id then (mutation, phase) :: (s.mutations id).tail else s.mutations other := Function.update_apply ..

theorem finishMutation_mutations (s : System) (id : JsString) (mutation : Mutation) (failed : Bool) (other : JsString) :
    (s.finishMutation id mutation failed).mutations other =
      if other = id then (s.mutations id).tail else s.mutations other := by
  unfold System.finishMutation
  dsimp only
  split <;> exact Function.update_apply ..

/-- What comes to the head of a queue has not begun. -/
theorem finishMutation_retires (orderly : Orderly s) {failed : Bool} {other : JsString}
    (stops : (s.finishMutation id mutation failed).retires other = some w) : s.retires other = some w := by
  rw [System.retires, finishMutation_mutations] at stops
  by_cases here : other = id
  · subst here
    rw [if_pos rfl] at stops
    cases queue : (s.mutations other).tail with
    | nil =>
      rw [queue] at stops
      cases stops
    | cons entry rest =>
      obtain ⟨next, phase⟩ := entry
      have waits : phase = .waiting := orderly.behind other (next, phase) (queue ▸ List.mem_cons_self ..)
      rw [queue, waits] at stops
      cases stops
  · rw [if_neg here] at stops
    exact stops

/-- A retirement stops the worker that it was asked for, when that is idle. -/
theorem retire_retires (orderly : Orderly s) {still : Bool} {v : ℕ} {other : JsString}
    (stops : (s.retire ctx id mutation v still).retires other = some w) :
    s.retires other = some w ∨ Retirable s other w := by
  unfold System.retire at stops
  split at stops
  · next idle =>
    rw [Bool.and_eq_true] at idle
    rw [System.retires, setPhase_mutations] at stops
    by_cases here : other = id
    · subst here
      rw [if_pos rfl] at stops
      cases stops
      exact .inr (isActorOwnIdle_retirable orderly idle.2)
    · rw [if_neg here] at stops
      exact .inl ((Aside.stopActor s ctx id .passivated none).mutations.retires stops)
  · exact .inl (finishMutation_retires orderly stops)

theorem proceed_retires (orderly : Orderly s) {other : JsString} (stops : (s.proceed ctx id).retires other = some w) :
    s.retires other = some w ∨ Retirable s other w := by
  unfold System.proceed at stops
  split at stops
  · exact .inl stops
  · split at stops
    · exact .inl (finishMutation_retires orderly stops)
    · split at stops
      · exact retire_retires orderly stops
      · exact retire_retires orderly stops
      · rw [System.retires, setPhase_mutations] at stops
        by_cases here : other = id
        · rw [if_pos here] at stops
          cases stops
        · rw [if_neg here] at stops
          exact .inl stops
  · split at stops
    · exact .inl stops
    · exact .inl (finishMutation_retires orderly stops)
  · exact .inl (finishMutation_retires orderly stops)

theorem act_retires {limits : Limits} (orderly : Orderly s) {action : Action}
    (stops : (act ctx limits s action).retires id = some w) : s.retires id = some w ∨ Retirable s id w := by
  have moves := @act_moves limits ctx s action
  cases proceeds : action.proceeds with
  | false =>
    rw [proceeds] at moves
    exact .inl (moves.appends.retires stops)
  | true =>
    cases action with
    | proceed sessionId => exact proceed_retires orderly stops
    | _ => cases proceeds

end Turns

section Runs

variable {env : SessionStore.Env} {limits : Limits} {s : System}

theorem initial_sound (limits : Limits) : Sound limits .initial where
  single := List.nodup_nil
  started := rfl
  counted := rfl
  capped := Nat.zero_le _
  room := Nat.zero_le _
  queued := List.nodup_nil
  waiting _ member := nomatch member
  unrecorded _ member := nomatch member
  owned _ live := nomatch live
  awaited _ awaits := nomatch awaits

theorem initial_orderly : Orderly .initial where
  behind _ _ member := nomatch member
  awake _ _ stored := nomatch stored

theorem step_moves (event : Event) : Moves limits event.action.proceeds s (step env limits s event) := by
  rw [step]
  split
  · exact .refl
  · exact act_moves _ s event.action

theorem run_induction {P : System → Prop} (start : P .initial)
    (kept : ∀ {turns s t}, Moves limits turns s t → P s → P t) (events : List Event) : P (run env limits events) := by
  suffices all : ∀ s, P s → P (events.foldl (step env limits) s) from all .initial start
  induction events with
  | nil => exact fun _ holds => holds
  | cons event events ih => exact fun s holds => ih _ (kept (step_moves event) holds)

theorem run_sound (events : List Event) : Sound limits (run env limits events) :=
  run_induction (initial_sound limits) (fun moves sound => moves.sound sound) events

theorem orderly_at_end (events : List Event) : Orderly (run env limits events) :=
  run_induction initial_orderly (fun moves orderly => moves.orderly orderly) events

/-- Records and launches stay within the limits, a session has one launch and one live worker, and a stop that makes
room or ends an idle interval begins only at an actor that can retire. -/
theorem run_slots (env : SessionStore.Env) (limits : Limits) (events : List Event) :
    ((Assoc.keys (run env limits events).actors).toFinset ∪ (run env limits events).launching.toFinset).card
        ≤ limits.maxResidentActors
      ∧ (run env limits events).launches.length ≤ limits.maxConcurrentStarts
      ∧ (run env limits events).launching.Nodup
      ∧ (∀ v w, ((run env limits events).records v).process.alive = true →
          ((run env limits events).records w).process.alive = true →
          ((run env limits events).records v).sessionId = ((run env limits events).records w).sessionId → v = w)
      ∧ ∀ event id w, (run env limits events).retires id ≠ some w →
          (step env limits (run env limits events) event).retires id = some w →
          Retirable (run env limits events) id w := by
  have sound : Sound limits (run env limits events) := run_sound events
  refine ⟨?_, sound.capped, sound.single, fun v w left right same => ?_, fun event id w before stops => ?_⟩
  · rw [← sound.started]
    exact sound.room
  · have mapped := sound.owned v left
    rw [same, sound.owned w right] at mapped
    exact (Option.some.inj mapped).symm
  · rw [step] at stops
    split at stops
    · exact absurd stops before
    · exact (act_retires (orderly_at_end events) stops).resolve_left before

/-- A session waits in the queue once and without a slot, a live worker is the one of the record of its session, and a stop
that has listed the workers it waits for has missed none: it has begun, and no other worker lives from then on. -/
theorem run_queue (env : SessionStore.Env) (limits : Limits) (events : List Event) :
    (run env limits events).startQueue.Nodup
      ∧ (∀ id ∈ (run env limits events).startQueue, id ∉ (run env limits events).occupied)
      ∧ (∀ w, ((run env limits events).records w).process.alive = true →
          Assoc.lookup (run env limits events).actors ((run env limits events).records w).sessionId = some w)
      ∧ ∀ workers, (run env limits events).awaited = some workers → (run env limits events).stopping = true ∧
          ∀ w, ((run env limits events).records w).process.alive = true → w ∈ workers := by
  have sound : Sound limits (run env limits events) := run_sound events
  exact ⟨sound.queued, sound.waiting, sound.owned, sound.awaited⟩

end Runs

end PersistentHarness.Supervisor

/-! ## What the reported capacity counts

A launch takes its place among the starting actors before it has a record, and a worker that exits early loses the record
before its launch ends. The difference of the two sizes counts the residents exactly where neither is the case.
-/

namespace PersistentHarness.Supervisor

def System.recorded (s : System) : Finset JsString := (Assoc.keys s.actors).toFinset

/-- Each session is counted once: as resident, starting or queued. -/
structure Reported (limits : Limits) (s : System) : Prop where
  resident : (s.capacity limits).resident = (s.recorded \ s.startingActors).card
  starting : (s.capacity limits).starting = s.launches.length
  queued : (s.capacity limits).queued = (s.startQueue.toFinset \ (s.recorded ∪ s.startingActors)).card
  nonnegative : 0 ≤ (s.capacity limits).resident
  accepted : operationsStatus (s.capacity limits) = .ok (s.capacity limits)

section Counting

variable {limits : Limits} {turns : Bool} {s t : System}

theorem Move.unique (move : Move limits turns s t) (unique : (Assoc.keys s.actors).Nodup) : (Assoc.keys t.actors).Nodup := by
  cases move with
  | aside aside => exact aside.actors ▸ unique
  | create => exact Assoc.keys_nodup_set unique _ _
  | forget => exact Assoc.keys_nodup_erase unique _
  | clear awaited settled gone =>
    rw [System.clear, awaited]
    dsimp only
    split
    · exact List.nodup_nil
    · exact unique
  | _ => exact unique

theorem run_unique {env : SessionStore.Env} (events : List Event) : (Assoc.keys (run env limits events).actors).Nodup := by
  apply run_induction (P := fun s => (Assoc.keys s.actors).Nodup) List.nodup_nil
  intro turns s t moves unique
  induction moves with
  | refl => exact unique
  | tail _ move ih => exact move.unique ih

theorem boundedInteger_eq_ok {value bounded : ℤ} {context : String} {minimum maximum : ℕ} :
    boundedInteger value context minimum maximum = .ok bounded ↔
      value = bounded ∧ (minimum : ℤ) ≤ value ∧ value ≤ maximum := by
  unfold boundedInteger
  split
  · next outside =>
    constructor
    · nofun
    · rintro ⟨-, above, below⟩
      omega
  · next inside =>
    rw [Except.ok.injEq]
    constructor
    · intro same
      exact ⟨same, by omega, by omega⟩
    · exact And.left

/-- The kernel accepts a report whose numbers are within its bounds. -/
theorem operationsStatus_eq_ok {capacity : Capacity} : operationsStatus capacity = .ok capacity ↔
    (0 ≤ capacity.resident ∧ capacity.resident ≤ 10000) ∧ (0 ≤ capacity.starting ∧ capacity.starting ≤ 10000)
      ∧ (0 ≤ capacity.queued ∧ capacity.queued ≤ 10000) ∧ (1 ≤ capacity.maxResident ∧ capacity.maxResident ≤ 128)
      ∧ (1 ≤ capacity.maxConcurrentStarts ∧ capacity.maxConcurrentStarts ≤ 32) := by
  constructor
  · intro accepted
    obtain ⟨_, resident, accepted⟩ := Checked.bind_eq_ok.mp accepted
    obtain ⟨_, starting, accepted⟩ := Checked.bind_eq_ok.mp accepted
    obtain ⟨_, queued, accepted⟩ := Checked.bind_eq_ok.mp accepted
    obtain ⟨_, maxResident, accepted⟩ := Checked.bind_eq_ok.mp accepted
    obtain ⟨_, maxStarts, _⟩ := Checked.bind_eq_ok.mp accepted
    exact ⟨(boundedInteger_eq_ok.mp resident).2, (boundedInteger_eq_ok.mp starting).2, (boundedInteger_eq_ok.mp queued).2,
      (boundedInteger_eq_ok.mp maxResident).2, (boundedInteger_eq_ok.mp maxStarts).2⟩
  · rintro ⟨resident, starting, queued, maxResident, maxStarts⟩
    rw [operationsStatus, boundedInteger_eq_ok.mpr ⟨rfl, resident⟩, Checked.ok_bind,
      boundedInteger_eq_ok.mpr ⟨rfl, starting⟩, Checked.ok_bind, boundedInteger_eq_ok.mpr ⟨rfl, queued⟩, Checked.ok_bind,
      boundedInteger_eq_ok.mpr ⟨rfl, maxResident⟩, Checked.ok_bind, boundedInteger_eq_ok.mpr ⟨rfl, maxStarts⟩]
    rfl

/-- The difference of the sizes counts the difference of the sets where the second is part of the first. -/
theorem card_difference {α : Type*} [DecidableEq α] (a b : Finset α) :
    (a.card : ℤ) - b.card = (a \ b).card ↔ b ⊆ a := by
  have parts := Finset.card_sdiff_add_card_inter a b
  have within : (a ∩ b).card ≤ b.card := Finset.card_le_card Finset.inter_subset_right
  constructor
  · intro same
    have all : a ∩ b = b := Finset.eq_of_subset_of_card_le Finset.inter_subset_right (by omega)
    exact Finset.inter_eq_right.mp all
  · intro subset
    rw [Finset.inter_eq_right.mpr subset] at parts
    omega

end Counting

/-- The report counts each session once exactly if every session that is being launched has its record, and the kernel
accepts it if, besides, no more sessions wait than it can count. -/
theorem run_status (env : SessionStore.Env) (limits : Limits) (valid : limits.isValid = true) (events : List Event) :
    Reported limits (run env limits events) ↔
      (run env limits events).startingActors ⊆ (run env limits events).recorded
        ∧ (run env limits events).startQueue.length ≤ 10000 := by
  have sound : Sound limits (run env limits events) := run_sound events
  have unique : (Assoc.keys (run env limits events).actors).Nodup := run_unique events
  generalize run env limits events = s at sound unique
  have size : s.actors.length = s.recorded.card := by
    rw [System.recorded, List.toFinset_card_of_nodup unique]
    exact (List.length_map ..).symm
  have residents : (s.capacity limits).resident = s.recorded.card - s.startingActors.card := by rw [← size]; rfl
  have launches : s.startingActors.card = s.launches.length := by
    rw [sound.started, List.toFinset_card_of_nodup sound.single]
    exact List.length_map ..
  constructor
  · intro reported
    have same := reported.resident
    rw [residents] at same
    have queue := (operationsStatus_eq_ok.mp reported.accepted).2.2.1.2
    exact ⟨(card_difference _ _).mp same, Int.ofNat_le.mp queue⟩
  · rintro ⟨subset, short⟩
    obtain ⟨leastResident, mostResident, leastStarts, mostStarts⟩ := of_decide_eq_true valid
    have counted := (card_difference _ _).mpr subset
    have room : s.recorded.card ≤ limits.maxResidentActors :=
      (Finset.card_le_card Finset.subset_union_left).trans sound.room
    have capped := sound.capped
    have nonnegative : 0 ≤ (s.capacity limits).resident := by
      rw [residents, counted]
      exact Int.natCast_nonneg _
    constructor
    · rw [residents, counted]
    · rw [← launches]
      rfl
    · have apart : s.startQueue.toFinset \ (s.recorded ∪ s.startingActors) = s.startQueue.toFinset := by
        apply Finset.sdiff_eq_self_of_disjoint
        apply Finset.disjoint_left.mpr
        intro id waits
        exact sound.waiting id (List.mem_toFinset.mp waits)
      rw [apart, List.toFinset_card_of_nodup sound.queued]
      rfl
    · exact nonnegative
    · apply operationsStatus_eq_ok.mpr
      have most : (s.capacity limits).resident ≤ 10000 := by
        rw [residents]
        omega
      refine ⟨⟨nonnegative, most⟩, ?_, ?_, ?_, ?_⟩
      all_goals dsimp only [System.capacity]
      all_goals omega

/-! ## A root session -/

section Root

def rootLimits : Limits := ⟨8, 2⟩

/-- A root is created, its start is requested, and the drain launches it. -/
def launchRoot : List Event :=
  [⟨1, none, .store (.createRoot ⟨js "root", none, some (js "/w"), none, some (js "root"), js "token", .obj []⟩)⟩,
    ⟨2, none, .requestActorStart (js "root") (js "token") false⟩, ⟨3, none, .drain⟩]

/-- Before the launch, the report is right. -/
theorem run_status_queued : Reported rootLimits (run SessionStore.plainEnv rootLimits (launchRoot.take 2)) :=
  (run_status SessionStore.plainEnv rootLimits rfl (launchRoot.take 2)).mpr (by decide +kernel)

/-- During the launch, there is one resident less than none. -/
theorem launchRoot_negative : ¬∀ env limits events, Limits.isValid limits = true → Reported limits (run env limits events) := by
  intro reported
  have resident : ((run SessionStore.plainEnv rootLimits launchRoot).capacity rootLimits).resident = -1 := by decide +kernel
  have nonnegative := (reported SessionStore.plainEnv rootLimits launchRoot rfl).nonnegative
  rw [resident] at nonnegative
  omega

end Root

end PersistentHarness.Supervisor
