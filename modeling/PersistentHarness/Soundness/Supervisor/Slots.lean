import PersistentHarness.Soundness.Supervisor.Moves

/-! # The limits of a supervisor

The two limits are tested before a launch, and the launch takes its place in the same step. What keeps them from then
on is an invariant of the moves: a session is queued, launched or recorded, a live worker is the one of its record,
and each session has at most one launch.
-/

namespace PersistentHarness.Supervisor

open SessionStore (AllAwake)

def System.launching (s : System) : List JsString := s.launches.map Launch.sessionId

/-- Sessions wait, start and have their records apart from each other, within the limits. -/
structure Sound (limits : Limits) (s : System) : Prop where
  single : s.launching.Nodup
  started : s.startingActors = s.launching.toFinset
  counted : s.activeStarts = s.launches.length
  capped : s.launches.length ≤ limits.maxConcurrentStarts
  room : s.occupied.card ≤ limits.maxResidentActors
  queued : s.startQueue.Nodup
  waiting : ∀ id ∈ s.startQueue, id ∉ s.occupied
  unrecorded : ∀ place ∈ s.launches.map Launch.place, place.2.early = true → Assoc.lookup s.actors place.1 = none
  owned : ∀ w, (s.records w).process.alive = true → Assoc.lookup s.actors (s.records w).sessionId = some w
  awaited : ∀ workers, s.awaited = some workers →
    s.stopping = true ∧ ∀ w, (s.records w).process.alive = true → w ∈ workers

section Steps

variable {limits : Limits} {turns : Bool} {s t : System}

theorem launching_eq (s : System) : s.launching = (s.launches.map Launch.place).map Prod.fst := by
  rw [System.launching, List.map_map]
  rfl

theorem mem_launching {n : ℕ} {launch : Launch} (live : (s.launches.map Launch.place)[n]? = some launch.place) :
    launch.sessionId ∈ s.launching := by
  rw [launching_eq]
  exact List.mem_map.mpr ⟨launch.place, List.mem_of_getElem? live, rfl⟩

theorem mem_occupied {id : JsString} : id ∈ s.occupied ↔ id ∈ Assoc.keys s.actors ∨ id ∈ s.startingActors := by
  rw [System.occupied, Finset.mem_union, List.mem_toFinset]

theorem setStage_launching {n : ℕ} {launch : Launch} (live : (s.launches.map Launch.place)[n]? = some launch.place)
    (stage : Stage) : (s.setStage n launch stage).launching = s.launching := by
  have here : s.launching[n]? = some launch.sessionId := by rw [launching_eq, List.getElem?_map, live]; rfl
  have set : (s.setStage n launch stage).launching = s.launching.set n launch.sessionId := by
    rw [System.launching, System.setStage, List.map_set]
    rfl
  rw [set]
  apply List.ext_getElem?
  intro m
  rw [List.getElem?_set]
  split
  · next same =>
    subst same
    rw [here, if_pos (List.getElem?_eq_some_iff.mp here).1]
  · rfl

theorem mem_setStage {n : ℕ} {launch : Launch} {stage : Stage} {place : JsString × Stage}
    (member : place ∈ (s.setStage n launch stage).launches.map Launch.place) :
    place = (launch.sessionId, stage) ∨ place ∈ s.launches.map Launch.place := by
  rw [System.setStage, List.map_set] at member
  rcases List.mem_or_eq_of_mem_set member with kept | rfl
  · exact .inr kept
  · exact .inl rfl

theorem Aside.launching (aside : Aside s t) : t.launching = s.launching := by
  rw [launching_eq, launching_eq, aside.launches]

theorem Aside.occupied (aside : Aside s t) : t.occupied = s.occupied := by
  rw [System.occupied, System.occupied, aside.actors, aside.startingActors]

theorem Sound.aside (sound : Sound limits s) (aside : Aside s t) : Sound limits t where
  single := aside.launching ▸ sound.single
  started := by rw [aside.startingActors, aside.launching, sound.started]
  counted := by
    rw [aside.activeStarts, sound.counted]
    simpa using (congrArg List.length aside.launches).symm
  capped := by
    have same : t.launches.length = s.launches.length := by simpa using congrArg List.length aside.launches
    exact same ▸ sound.capped
  room := aside.occupied ▸ sound.room
  queued := aside.startQueue.nodup sound.queued
  waiting id member := aside.occupied ▸ sound.waiting id (aside.startQueue.subset member)
  unrecorded place member early := by
    rw [aside.launches] at member
    rw [aside.actors]
    exact sound.unrecorded place member early
  owned w live := by
    rw [aside.alive] at live
    rw [aside.actors, aside.owner]
    exact sound.owned w live
  awaited workers awaits := by
    rw [aside.awaited] at awaits
    obtain ⟨stopping, all⟩ := sound.awaited workers awaits
    refine ⟨aside.stopping.trans stopping, fun w live => ?_⟩
    rw [aside.alive] at live
    exact all w live

theorem Sound.enqueue (sound : Sound limits s) {id : JsString} (free : id ∉ s.occupied) (absent : id ∉ s.startQueue) :
    Sound limits { s with startQueue := s.startQueue ++ [id] } where
  single := sound.single
  started := sound.started
  counted := sound.counted
  capped := sound.capped
  room := sound.room
  queued := List.nodup_append.mpr ⟨sound.queued, List.nodup_singleton id, by
    rintro other member _ (_ | _) rfl
    · exact absent member
    · contradiction⟩
  waiting other member := by
    rcases List.mem_append.mp member with before | last
    · exact sound.waiting other before
    · rw [List.mem_singleton.mp last]
      exact free
  unrecorded := sound.unrecorded
  owned := sound.owned
  awaited := sound.awaited

/-- A launch takes one place under each limit, and its session was neither recorded nor launched. -/
theorem Sound.launch (sound : Sound limits s) {id : JsString} {rest : List JsString} (next : s.startQueue = id :: rest)
    (started : s.activeStarts < limits.maxConcurrentStarts) (room : s.occupied.card < limits.maxResidentActors) :
    Sound limits ({ s with startQueue := rest }.beginLaunch id) := by
  have free : id ∉ s.occupied := sound.waiting id (next ▸ List.mem_cons_self ..)
  have idle : id ∉ s.launching := by
    intro member
    apply free
    rw [mem_occupied, sound.started, List.mem_toFinset]
    exact .inr member
  have launching : ({ s with startQueue := rest }.beginLaunch id).launching = s.launching ++ [id] := List.map_append
  have occupied : ({ s with startQueue := rest }.beginLaunch id).occupied = insert id s.occupied := Finset.union_insert ..
  have fresh := List.nodup_cons.mp (next ▸ sound.queued)
  constructor
  · rw [launching]
    exact List.nodup_append.mpr ⟨sound.single, List.nodup_singleton id, by
      rintro other member _ (_ | _) rfl
      · exact idle member
      · contradiction⟩
  · rw [launching, List.toFinset_append, ← sound.started]
    exact (Finset.insert_eq id s.startingActors).trans (Finset.union_comm ..)
  · simpa [System.beginLaunch] using sound.counted
  · have := sound.counted
    simp only [System.beginLaunch, List.length_append, List.length_singleton]
    omega
  · rw [occupied]
    have := Finset.card_insert_le id s.occupied
    omega
  · exact fresh.2
  · intro other member taken
    rw [occupied, Finset.mem_insert] at taken
    rcases taken with rfl | taken
    · exact fresh.1 member
    · exact sound.waiting other (next ▸ List.mem_cons_of_mem id member) taken
  · intro place member early
    have split : place ∈ s.launches.map Launch.place ∨ place = (id, Stage.activating) := by
      simpa [System.beginLaunch, Launch.place] using member
    rcases split with before | rfl
    · exact sound.unrecorded place before early
    · rw [Assoc.lookup_eq_none_iff]
      exact fun key => free (mem_occupied.mpr (.inl key))
  · exact sound.owned
  · exact sound.awaited

theorem Sound.stage (sound : Sound limits s) {n : ℕ} {launch : Launch} {stage : Stage}
    (live : (s.launches.map Launch.place)[n]? = some launch.place)
    (later : stage.early = true → launch.stage.early = true) : Sound limits (s.setStage n launch stage) where
  single := setStage_launching live stage ▸ sound.single
  started := by
    rw [setStage_launching live]
    exact sound.started
  counted := by simpa [System.setStage] using sound.counted
  capped := by simpa [System.setStage] using sound.capped
  room := sound.room
  queued := sound.queued
  waiting := sound.waiting
  unrecorded place member early := by
    rcases mem_setStage member with rfl | kept
    · exact sound.unrecorded launch.place (List.mem_of_getElem? live) (later early)
    · exact sound.unrecorded place kept early
  owned := sound.owned
  awaited := sound.awaited

theorem same_place (single : s.launching.Nodup) {a b : JsString × Stage} (left : a ∈ s.launches.map Launch.place)
    (right : b ∈ s.launches.map Launch.place) (same : a.1 = b.1) : a = b :=
  List.inj_on_of_nodup_map (launching_eq s ▸ single) left right same

theorem mem_setStage_self {n : ℕ} {launch : Launch} (live : (s.launches.map Launch.place)[n]? = some launch.place)
    (stage : Stage) : (launch.sessionId, stage) ∈ (s.setStage n launch stage).launches.map Launch.place := by
  have bound : n < s.launches.length := by simpa using (List.getElem?_eq_some_iff.mp live).1
  rw [System.setStage, List.map_set]
  apply List.mem_set
  simpa using bound

theorem createRecord_records (s : System) (id : JsString) (session : ActorLaunch) (spawned : Bool) (w : ℕ) :
    (s.createRecord id session spawned).records w =
      if w = s.nextRecord then ⟨id, if spawned then .running else .unspawned, session.actorGeneration, none, none, ∅⟩
      else s.records w := Function.update_apply ..

theorem Sound.create (sound : Sound limits s) {n : ℕ} {launch : Launch} {stage : Stage}
    (live : (s.launches.map Launch.place)[n]? = some launch.place) (early : launch.stage.early = true)
    (late : stage.early = false) (runs : s.stopping = false) (session : ActorLaunch) (spawned : Bool) :
    Sound limits ((s.createRecord launch.sessionId session spawned).setStage n launch stage) := by
  have vacant : Assoc.lookup s.actors launch.sessionId = none :=
    sound.unrecorded launch.place (List.mem_of_getElem? live) early
  have starting : launch.sessionId ∈ s.startingActors := by
    rw [sound.started, List.mem_toFinset]
    exact mem_launching live
  have occupied : ((s.createRecord launch.sessionId session spawned).setStage n launch stage).occupied = s.occupied := by
    ext id
    rw [mem_occupied, mem_occupied]
    have keys : id ∈ Assoc.keys (Assoc.set s.actors launch.sessionId s.nextRecord) ↔
        id ∈ Assoc.keys s.actors ∨ id = launch.sessionId := by
      rw [Assoc.mem_keys_set]
      tauto
    refine (or_congr_left keys).trans ⟨?_, fun held => held.imp_left .inl⟩
    rintro ((key | rfl) | starts)
    · exact .inl key
    · exact .inr starting
    · exact .inr starts
  have launching : ((s.createRecord launch.sessionId session spawned).setStage n launch stage).launching = s.launching :=
    setStage_launching (s := s.createRecord launch.sessionId session spawned) live stage
  constructor
  · exact launching ▸ sound.single
  · rw [launching]
    exact sound.started
  · simpa [System.setStage, System.createRecord] using sound.counted
  · simpa [System.setStage, System.createRecord] using sound.capped
  · exact occupied ▸ sound.room
  · exact sound.queued
  · exact fun id member => occupied ▸ sound.waiting id member
  · intro place member first
    -- the launch itself is late now, and no other launch is of its session
    have other : launch.sessionId ≠ place.1 := by
      intro same
      have here := mem_setStage_self (s := s.createRecord launch.sessionId session spawned) live stage
      have equal := same_place (launching ▸ sound.single) here member same
      rw [← equal, late] at first
      cases first
    have before : place ∈ s.launches.map Launch.place :=
      (mem_setStage member).resolve_left fun equal => other (congrArg Prod.fst equal).symm
    change Assoc.lookup (Assoc.set s.actors launch.sessionId s.nextRecord) place.1 = none
    rw [Assoc.lookup_set, if_neg other]
    exact sound.unrecorded place before first
  · intro w alive
    change Assoc.lookup (Assoc.set s.actors launch.sessionId s.nextRecord)
      ((s.createRecord launch.sessionId session spawned).records w).sessionId = some w
    change ((s.createRecord launch.sessionId session spawned).records w).process.alive = true at alive
    rw [createRecord_records] at alive ⊢
    split at alive
    · next here =>
      rw [if_pos here, Assoc.lookup_set_self, here]
    · next other =>
      have owned := sound.owned w alive
      have apart : launch.sessionId ≠ (s.records w).sessionId := by
        intro same
        rw [← same, vacant] at owned
        cases owned
      rw [if_neg other, Assoc.lookup_set, if_neg apart, owned]
  · intro workers awaits
    have stopping := (sound.awaited workers awaits).1
    rw [runs] at stopping
    cases stopping

/-- A worker that is gone owns nothing. -/
theorem Sound.exit (sound : Sound limits s) (w : ℕ) :
    Sound limits (s.updateRecord w fun record => { record with process := .exited }) := by
  have alive {v : ℕ} (live : ((s.updateRecord w fun record => { record with process := .exited }).records v).process.alive
      = true) : v ≠ w ∧ (s.records v).process.alive = true := by
    rw [updateRecord_records] at live
    split at live
    · cases live
    · next other => exact ⟨other, live⟩
  refine { sound with owned := fun v live => ?_, awaited := fun workers awaits => ?_ }
  · obtain ⟨other, before⟩ := alive live
    rw [updateRecord_records, if_neg other]
    exact sound.owned v before
  · obtain ⟨stopping, all⟩ := sound.awaited workers awaits
    exact ⟨stopping, fun v live => all v (alive live).2⟩

theorem occupied_subset (shrinks : ∀ id, Assoc.lookup s.actors id = none → Assoc.lookup t.actors id = none)
    (starting : t.startingActors ⊆ s.startingActors) : t.occupied ⊆ s.occupied := by
  intro id held
  rw [mem_occupied] at held ⊢
  rcases held with key | starts
  · by_contra free
    push Not at free
    exact Assoc.lookup_eq_none_iff.mp (shrinks id (Assoc.lookup_eq_none_iff.mpr free.1)) key
  · exact .inr (starting starts)

theorem Sound.forget (sound : Sound limits s) {id : JsString} {w : ℕ} (mapped : Assoc.lookup s.actors id = some w)
    (gone : (s.records w).process.alive = false) : Sound limits { s with actors := Assoc.erase s.actors id } := by
  have erased (other : JsString) (absent : Assoc.lookup s.actors other = none) :
      Assoc.lookup (Assoc.erase s.actors id) other = none := by
    rw [Assoc.lookup_erase]
    split
    · rfl
    · exact absent
  have smaller : { s with actors := Assoc.erase s.actors id }.occupied ⊆ s.occupied :=
    occupied_subset erased (Finset.Subset.refl _)
  exact { sound with
    room := (Finset.card_le_card smaller).trans sound.room
    waiting := fun other member held => sound.waiting other member (smaller held)
    unrecorded := fun place member early => erased place.1 (sound.unrecorded place member early)
    owned := fun v live => by
      have owned := sound.owned v live
      have apart : id ≠ (s.records v).sessionId := by
        rintro rfl
        obtain rfl := Option.some.inj (mapped.symm.trans owned)
        rw [gone] at live
        cases live
      rw [Assoc.lookup_erase, if_neg apart]
      exact owned }

theorem Sound.settle (sound : Sound limits s) {n : ℕ} {launch : Launch}
    (live : (s.launches.map Launch.place)[n]? = some launch.place) :
    Sound limits { s with
      launches := s.launches.eraseIdx n, startingActors := s.startingActors.erase launch.sessionId
      activeStarts := s.activeStarts - 1 } := by
  have bound : n < s.launches.length := by simpa using (List.getElem?_eq_some_iff.mp live).1
  have here : s.launching[n]? = some launch.sessionId := by rw [launching_eq, List.getElem?_map, live]; rfl
  obtain ⟨inside, at_n⟩ := List.getElem?_eq_some_iff.mp here
  have rest : (s.launches.eraseIdx n).map Launch.sessionId = s.launching.erase launch.sessionId := by
    rw [← List.eraseIdx_map, ← at_n]
    exact (sound.single.erase_getElem n inside).symm
  have smaller : { s with
      launches := s.launches.eraseIdx n, startingActors := s.startingActors.erase launch.sessionId
      activeStarts := s.activeStarts - 1 }.occupied ⊆ s.occupied :=
    occupied_subset (fun _ absent => absent) (Finset.erase_subset ..)
  have counted := sound.counted
  have capped := sound.capped
  constructor
  · rw [System.launching, rest]
    exact sound.single.erase _
  · rw [System.launching, rest, sound.started]
    ext id
    rw [Finset.mem_erase, List.mem_toFinset, List.mem_toFinset, sound.single.mem_erase_iff]
  · rw [List.length_eraseIdx_of_lt bound]
    exact congrArg (· - 1) counted
  · rw [List.length_eraseIdx_of_lt bound]
    omega
  · exact (Finset.card_le_card smaller).trans sound.room
  · exact sound.queued
  · exact fun id member held => sound.waiting id member (smaller held)
  · intro place member early
    obtain ⟨other, kept, rfl⟩ := List.mem_map.mp member
    exact sound.unrecorded _ (List.mem_map_of_mem (List.mem_of_mem_eraseIdx kept)) early
  · exact sound.owned
  · exact sound.awaited

theorem Sound.clear (sound : Sound limits s) {workers : List ℕ} (awaited : s.awaited = some workers)
    (settled : s.launches = []) (gone : ∀ w ∈ workers, (s.records w).process.alive = false) : Sound limits s.clear := by
  have dead (w : ℕ) : (s.records w).process.alive = false := by
    by_contra live
    rw [Bool.not_eq_false] at live
    rw [gone w ((sound.awaited workers awaited).2 w live)] at live
    cases live
  have cleared : s.clear = { s with
      actors := [], actorReadyPromises := ∅, actorInputWakes := ∅, retirements := [], sessionMutationTails := ∅
      stopped := true } := by
    have ended : (s.launches.isEmpty && workers.all fun w => !(s.records w).process.alive) = true := by simp [settled, dead]
    rw [System.clear, awaited]
    exact if_pos ended
  have smaller : s.clear.occupied ⊆ s.occupied := by
    rw [cleared]
    exact occupied_subset (fun _ _ => rfl) (Finset.Subset.refl _)
  rw [cleared] at smaller ⊢
  exact { sound with
    room := (Finset.card_le_card smaller).trans sound.room
    waiting := fun id member held => sound.waiting id member (smaller held)
    unrecorded := fun place member => by simp [settled] at member
    owned := fun w live => by
      rw [dead w] at live
      cases live
    awaited := fun others awaits => sound.awaited others awaits }

theorem Move.sound (move : Move limits turns s t) (sound : Sound limits s) : Sound limits t := by
  cases move with
  | aside aside => exact sound.aside aside
  | turn allowed draining behind => exact { sound with }
  | enqueue free absent => exact sound.enqueue free absent
  | launch next started room => exact sound.launch next started room
  | stage live later => exact sound.stage live later
  | create live early late runs session spawned => exact sound.create live early late runs session spawned
  | exit w => exact sound.exit w
  | forget mapped gone => exact sound.forget mapped gone
  | settle live => exact sound.settle live
  | stop => exact { sound with
      queued := List.nodup_nil
      waiting := fun _ member => nomatch member
      awaited := fun workers awaits => ⟨rfl, (sound.awaited workers awaits).2⟩ }
  | «await» stopping all =>
    subst all
    refine { sound with awaited := fun workers awaits => ⟨stopping, fun w live => ?_⟩ }
    obtain rfl := Option.some.inj awaits
    exact List.mem_map.mpr ⟨_, Assoc.mem_of_lookup (sound.owned w live), rfl⟩
  | clear awaited settled gone => exact sound.clear awaited settled gone

theorem Moves.sound (moves : Moves limits turns s t) (sound : Sound limits s) : Sound limits t := by
  induction moves with
  | refl => exact sound
  | tail _ move ih => exact move.sound ih

end Steps

end PersistentHarness.Supervisor
