import Mathlib.Algebra.Order.BigOperators.Group.List
import Mathlib.Data.List.DropRight
import Mathlib.Data.List.Nodup
import PersistentHarness.Lib.Checked
import PersistentHarness.Soundness.Connection.Output

/-! # Requests of a connection

What a connection counts is what its unfinished operations hold, so the counters balance however the operations
end. The ids of the unfinished and of the last finished requests are all different, which is why a repeated id
closes the connection and every other id is answered once.
-/

namespace PersistentHarness.Connection

section Lists

variable {α : Type*}

theorem filter_set (p : α → Bool) {l : List α} {n : ℕ} {a : α} (found : l[n]? = some a) (counts : p a = true) :
    ∃ before after, l.filter p = before ++ a :: after ∧ ∀ b, p b = false → (l.set n b).filter p = before ++ after := by
  obtain ⟨within, rfl⟩ := List.getElem?_eq_some_iff.mp found
  refine ⟨(l.take n).filter p, (l.drop (n + 1)).filter p, ?_, fun b silent => ?_⟩
  · conv_lhs => rw [← List.take_append_drop n l, List.drop_eq_getElem_cons within]
    rw [List.filter_append, List.filter_cons_of_pos counts]
  · rw [List.set_eq_take_append_cons_drop, if_pos within, List.filter_append,
      List.filter_cons_of_neg (Bool.not_eq_true _ ▸ silent)]

/-- The last items of a history whose last items were kept before. -/
theorem rtake_rtake_concat (l : List α) (n : ℕ) (x : α) : (l.rtake (n + 1) ++ [x]).rtake (n + 1) = (l ++ [x]).rtake (n + 1) := by
  rw [List.rtake_concat_succ, List.rtake_concat_succ]
  congr 1
  rw [List.rtake_eq_reverse_take_reverse, List.rtake_eq_reverse_take_reverse, List.rtake_eq_reverse_take_reverse,
    List.reverse_reverse, List.take_take, Nat.min_eq_left (Nat.le_succ n)]

end Lists

namespace Output

/-- A connection that is shutting down: no response has to reach it. -/
def Shut (o : Output) : Prop := o.closing = true ∨ o.socket.destroyed = true ∨ o.socket.writableEnded = true

/-- Nothing that shuts a connection is taken back. -/
structure Later (o p : Output) : Prop where
  closing : o.closing = true → p.closing = true
  cleaned : o.cleaned = p.cleaned
  destroyed : o.socket.destroyed = true → p.socket.destroyed = true
  writableEnded : o.socket.writableEnded = true → p.socket.writableEnded = true

theorem Later.refl (o : Output) : Later o o := ⟨id, rfl, id, id⟩

theorem Later.after {o p q : Output} (second : Later p q) (first : Later o p) : Later o q where
  closing := second.closing ∘ first.closing
  cleaned := first.cleaned.trans second.cleaned
  destroyed := second.destroyed ∘ first.destroyed
  writableEnded := second.writableEnded ∘ first.writableEnded

theorem Later.shut {o p : Output} (later : Later o p) (shut : o.Shut) : p.Shut := by
  rcases shut with closing | destroyed | ended
  · exact .inl (later.closing closing)
  · exact .inr (.inl (later.destroyed destroyed))
  · exact .inr (.inr (later.writableEnded ended))

theorem write_ended (socket : Socket) (encoded : Bytes) (ended : socket.writableEnded = true) :
    (socket.write encoded).writableEnded = true := by
  unfold Socket.write
  split
  · exact ended
  · exact ended

theorem compact_later (o : Output) : Later o o.compact := by
  unfold Output.compact
  split
  · exact ⟨id, rfl, id, id⟩
  · split <;> exact ⟨id, rfl, id, id⟩

theorem pump_later (o : Output) : Later o o.pump := by
  unfold pump
  split
  · exact o.compact_later
  · split
    · exact o.compact_later
    · exact .refl o
    · exact ⟨id, rfl, write_destroyed _ _, write_ended _ _⟩

theorem flushWrites_later (o : Output) : Later o o.flushWrites := by
  unfold flushWrites
  split
  · exact .refl o
  · exact o.pump_later

variable {maxFrameBytes : ℕ}

theorem write_later (o : Output) (frame : Frame) (callback : Bool) : Later o (o.write maxFrameBytes frame callback).1 := by
  unfold write
  split
  · exact .refl o
  · split
    · exact ⟨id, rfl, fun _ => rfl, id⟩
    · split
      · exact ⟨id, rfl, fun _ => rfl, id⟩
      · exact (flushWrites_later _).after ⟨id, rfl, id, id⟩

/-- A frame that is not queued finds the connection shut, or shuts it. -/
theorem write_refused (o : Output) (frame : Frame) (callback : Bool) (tidy : o.cleaned = true → o.closing = true)
    (refused : (o.write maxFrameBytes frame callback).2 = false) : (o.write maxFrameBytes frame callback).1.Shut := by
  unfold write at refused ⊢
  split
  · next shut =>
    rcases shut with closing | cleaned | destroyed | ended
    · exact .inl closing
    · exact .inl (tidy cleaned)
    · exact .inr (.inl destroyed)
    · exact .inr (.inr ended)
  next open' =>
    rw [if_neg open'] at refused
    split
    · exact .inr (.inl rfl)
    next encodes =>
      rw [encodes] at refused
      split
      · exact .inr (.inl rfl)
      next fits =>
        simp only [if_neg fits, Bool.true_eq_false] at refused

theorem returned_later (o : Output) (answer : Answer) : Later o (o.returned answer) := by
  unfold returned
  split
  · exact .refl o
  · exact ⟨id, rfl, fun _ => rfl, id⟩
  · exact (pump_later _).after ⟨id, rfl, id, id⟩
  · exact (pump_later _).after ⟨id, rfl, id, id⟩

end Output

section Balances

def System.unfinished (s : System) : List Operation := s.operations.filter fun operation => !operation.finished

/-- The bytes of the operations that were admitted as new work. -/
def bytesOf (operations : List Operation) : ℤ :=
  ((operations.filter (·.admittedWork)).map fun operation => (operation.requestBytes : ℤ)).sum

theorem bytesOf_append (first second : List Operation) : bytesOf (first ++ second) = bytesOf first + bytesOf second := by
  rw [bytesOf, List.filter_append, List.map_append, List.sum_append, bytesOf, bytesOf]

theorem bytesOf_single (operation : Operation) :
    bytesOf [operation] = if operation.admittedWork then (operation.requestBytes : ℤ) else 0 := by
  rw [bytesOf]
  cases admitted : operation.admittedWork
  · rw [List.filter_cons_of_neg (by simp [admitted])]
    rfl
  · rw [List.filter_cons_of_pos admitted]
    simp

def workOf (operations : List Operation) : ℤ := operations.countP (·.admittedWork)

theorem workOf_append (first second : List Operation) : workOf (first ++ second) = workOf first + workOf second := by
  rw [workOf, List.countP_append, Nat.cast_add, workOf, workOf]

theorem workOf_single (operation : Operation) : workOf [operation] = if operation.admittedWork then 1 else 0 := by
  rw [workOf, List.countP_singleton]
  split <;> rfl

/-- What a connection has registered is what these operations hold. -/
structure Holds (s : System) (operations : List Operation) : Prop where
  ids : s.inFlightRequestIds = operations.map Operation.id
  work : s.inFlightWorkCount = workOf operations
  bytes : s.inFlightRequestBytes = bytesOf operations
  owners : s.continuationOwners = operations.filterMap Operation.continuationOwner

/-- No request and no continuation is registered twice. -/
structure Distinct (operations : List Operation) : Prop where
  ids : (operations.map Operation.id).Nodup
  owners : (operations.filterMap Operation.continuationOwner).Nodup

variable {s t : System} {before after operations : List Operation} {operation : Operation}

theorem Holds.congr (holds : Holds s operations) (ids : t.inFlightRequestIds = s.inFlightRequestIds)
    (work : t.inFlightWorkCount = s.inFlightWorkCount) (bytes : t.inFlightRequestBytes = s.inFlightRequestBytes)
    (owners : t.continuationOwners = s.continuationOwners) : Holds t operations :=
  ⟨ids.trans holds.ids, work.trans holds.work, bytes.trans holds.bytes, owners.trans holds.owners⟩

theorem Holds.enter (holds : Holds s operations) (ids : t.inFlightRequestIds = s.inFlightRequestIds ++ [operation.id])
    (work : t.inFlightWorkCount = s.inFlightWorkCount + workOf [operation])
    (bytes : t.inFlightRequestBytes = s.inFlightRequestBytes + bytesOf [operation])
    (owners : t.continuationOwners = s.continuationOwners ++ operation.continuationOwner.toList) :
    Holds t (operations ++ [operation]) where
  ids := by rw [ids, holds.ids, List.map_append, List.map_singleton]
  work := by rw [work, holds.work, workOf_append]
  bytes := by rw [bytes, holds.bytes, bytesOf_append]
  owners := by
    rw [owners, holds.owners, List.filterMap_append]
    cases held : operation.continuationOwner <;> simp [held]

theorem Distinct.removed (distinct : Distinct (before ++ operation :: after)) : Distinct (before ++ after) := by
  have less : (before ++ after).Sublist (before ++ operation :: after) :=
    List.Sublist.append (List.Sublist.refl before) (List.sublist_cons_self operation after)
  exact ⟨distinct.ids.sublist (less.map _), distinct.owners.sublist (less.filterMap _)⟩

/-- What an operation gives back leaves what the others hold. -/
theorem Holds.release (holds : Holds s (before ++ operation :: after)) (distinct : Distinct (before ++ operation :: after)) :
    Holds (s.release operation) (before ++ after) := by
  obtain ⟨ids, work, bytes, owners⟩ := holds
  have registered : operation.id ∈ s.inFlightRequestIds := by rw [ids]; simp
  rw [← List.singleton_append, workOf_append, workOf_append, workOf_single] at work
  rw [← List.singleton_append, bytesOf_append, bytesOf_append, bytesOf_single] at bytes
  rw [System.release, if_pos registered]
  refine ⟨?_, ?_, ?_, ?_⟩
  · have fresh : operation.id ∉ before.map Operation.id := by
      have apart := distinct.ids
      rw [List.map_append, List.map_cons, List.nodup_middle, List.nodup_cons, List.mem_append] at apart
      exact fun within => apart.1 (.inl within)
    dsimp only
    rw [ids, List.map_append, List.map_cons, List.erase_append_right _ fresh, List.erase_cons_head, List.map_append]
  · dsimp only
    rw [work, workOf_append]
    split <;> omega
  · dsimp only
    rw [bytes, bytesOf_append]
    split <;> omega
  · dsimp only
    cases held : operation.continuationOwner with
    | none =>
      dsimp only
      rw [owners, List.filterMap_append, List.filterMap_cons_none held, List.filterMap_append]
    | some owner =>
      have apart := distinct.owners
      rw [List.filterMap_append, List.filterMap_cons_some held, List.nodup_middle, List.nodup_cons, List.mem_append] at apart
      have fresh : owner ∉ before.filterMap Operation.continuationOwner := fun within => apart.1 (.inl within)
      dsimp only
      rw [owners, List.filterMap_append, List.filterMap_cons_some held, List.erase_append_right _ fresh,
        List.erase_cons_head, List.filterMap_append]

/-- The limits of what may be registered. -/
def Fits (config : Config) (operations : List Operation) : Prop :=
  workOf operations ≤ maxInFlightRequests ∧ bytesOf operations ≤ 2 * (config.maxFrameBytes : ℤ)

theorem bytesOf_nonneg (operations : List Operation) : 0 ≤ bytesOf operations := by
  apply List.sum_nonneg
  rintro _ member
  obtain ⟨operation, _, rfl⟩ := List.mem_map.mp member
  exact Int.natCast_nonneg _

theorem Fits.removed {config : Config} (fits : Fits config (before ++ operation :: after)) : Fits config (before ++ after) := by
  obtain ⟨work, bytes⟩ := fits
  rw [← List.singleton_append, workOf_append, workOf_append, workOf_single] at work
  rw [← List.singleton_append, bytesOf_append, bytesOf_append] at bytes
  have some := bytesOf_nonneg [operation]
  refine ⟨?_, ?_⟩
  · rw [workOf_append]
    split at work <;> omega
  · rw [bytesOf_append]
    omega

end Balances

namespace System

variable {config : Config} {s t : System} {operation : Operation}

/-- A finished request has had one response, unless the connection was shut; an unfinished one has had none. -/
def Answered (o : Output) (operation : Operation) : Prop :=
  if operation.finished then
    (∃ outcome, operation.responses = [responseTo operation outcome]) ∨ (operation.responses = [] ∧ o.Shut)
  else operation.responses = []

theorem Answered.later {o p : Output} (answered : Answered o operation) (later : o.Shut → p.Shut) : Answered p operation := by
  unfold Answered at answered ⊢
  split
  · next finished =>
    rw [if_pos finished] at answered
    exact answered.imp id (And.imp id later)
  · next waiting => rwa [if_neg waiting] at answered

structure Sound (config : Config) (s : System) : Prop where
  holds : s.output.cleaned = false → Holds s s.unfinished
  cleared : s.output.cleaned = true → Holds s []
  distinct : Distinct s.unfinished
  fits : Fits config s.unfinished
  tidy : s.output.cleaned = true → s.output.closing = true
  recent : s.output.closing = false → s.recentCompletedRequestIds = s.completed.rtake completedRequestIdCacheSize
  apart : s.output.closing = false → ∀ operation ∈ s.unfinished, operation.id ∉ s.recentCompletedRequestIds
  answered : ∀ operation ∈ s.operations, Answered s.output operation

theorem new_sound (config : Config) : Sound config new where
  holds _ := ⟨rfl, rfl, rfl, rfl⟩
  cleared := nofun
  distinct := ⟨List.nodup_nil, List.nodup_nil⟩
  fits := by
    refine ⟨by decide, ?_⟩
    change (0 : ℤ) ≤ _
    omega
  tidy := nofun
  recent _ := rfl
  apart _ := nofun
  answered := nofun

theorem Sound.uncleaned (sound : Sound config s) (lasts : s.output.closing = false) : s.output.cleaned = false := by
  by_contra gone
  exact absurd ((sound.tidy (Bool.not_eq_false _ ▸ gone)).symm.trans lasts) (by decide)

/-- Only the output changes, and it does not open again. -/
theorem Sound.outputs (sound : Sound config s) {o : Output} (later : s.output.Later o) : Sound config { s with output := o } := by
  have cleaned := later.cleaned
  have closing : o.closing = false → s.output.closing = false := by
    intro lasts
    by_contra shut
    exact absurd ((later.closing (Bool.not_eq_false _ ▸ shut)).symm.trans lasts) (by decide)
  constructor
  · exact fun open' => (sound.holds (cleaned.trans open')).congr rfl rfl rfl rfl
  · exact fun gone => (sound.cleared (cleaned.trans gone)).congr rfl rfl rfl rfl
  · exact sound.distinct
  · exact sound.fits
  · exact fun gone => later.closing (sound.tidy (cleaned.trans gone))
  · exact fun open' => sound.recent (closing open')
  · exact fun open' => sound.apart (closing open')
  · exact fun operation member => (sound.answered operation member).later later.shut

section Finishes

theorem respond_eq (config : Config) (s : System) (operation : Operation) (outcome : Outcome) :
    (s.respond config operation outcome).1 = { s with output := (s.respond config operation outcome).1.output } := by
  unfold respond
  split <;> rfl

theorem respond_later (config : Config) (s : System) (operation : Operation) (outcome : Outcome) :
    s.output.Later (s.respond config operation outcome).1.output := by
  unfold respond
  split
  · exact .refl _
  · exact Output.write_later _ _ _

theorem respond_answers (config : Config) (s : System) (operation : Operation) (outcome : Outcome)
    (tidy : s.output.cleaned = true → s.output.closing = true) :
    (s.respond config operation outcome).2 = [responseTo operation outcome]
      ∨ ((s.respond config operation outcome).2 = [] ∧ (s.respond config operation outcome).1.output.Shut) := by
  unfold respond
  split
  · next closing => exact .inr ⟨rfl, .inl closing⟩
  · cases queued : (s.output.write config.maxFrameBytes (.value (responseTo operation outcome)) false).2 with
    | true => exact .inl (if_pos queued)
    | false =>
      refine .inr ⟨?_, Output.write_refused _ _ _ tidy queued⟩
      exact if_neg (by rw [queued]; decide)

@[simp] theorem release_output (s : System) (operation : Operation) : (s.release operation).output = s.output := by
  unfold release
  split <;> rfl

@[simp] theorem release_operations (s : System) (operation : Operation) :
    (s.release operation).operations = s.operations := by
  unfold release
  split <;> rfl

@[simp] theorem release_completed (s : System) (operation : Operation) : (s.release operation).completed = s.completed := by
  unfold release
  split <;> rfl

@[simp] theorem release_recent (s : System) (operation : Operation) :
    (s.release operation).recentCompletedRequestIds = s.recentCompletedRequestIds := by
  unfold release
  split <;> rfl

/-- Remembering an id touches nothing else. -/
theorem remember_eq (s : System) (id : JsString) :
    s.remember id = { s with recentCompletedRequestIds := (s.remember id).recentCompletedRequestIds } := by
  by_cases shut : s.output.closing = true ∨ s.output.cleaned = true
  · simp only [remember, if_pos shut]
  · simp only [remember, if_neg shut]

theorem remember_recent (s : System) (id : JsString) (open' : s.output.closing = false) (cleaned : s.output.cleaned = false)
    (fresh : id ∉ s.recentCompletedRequestIds) :
    (s.remember id).recentCompletedRequestIds
      = (s.recentCompletedRequestIds ++ [id]).rtake completedRequestIdCacheSize := by
  have lasts : ¬(s.output.closing = true ∨ s.output.cleaned = true) := by simp [open', cleaned]
  simp only [remember, if_neg lasts, if_neg fresh, List.rtake]

/-- After a clean-up there is nothing left to give back. -/
theorem release_cleared (s : System) (operation : Operation) (cleared : Holds s []) : s.release operation = s := by
  have none : operation.id ∉ s.inFlightRequestIds := by
    rw [cleared.ids]
    exact List.not_mem_nil
  rw [release, if_neg none]

theorem mem_rtake {α : Type*} {l : List α} {n : ℕ} {x : α} (member : x ∈ l.rtake n) : x ∈ l :=
  List.mem_of_mem_drop member

theorem Sound.finish (sound : Sound config s) (n : ℕ) (outcome : Outcome) : Sound config (s.finish config n outcome) := by
  unfold System.finish
  split
  · exact sound
  next operation found =>
    split
    · exact sound
    next running =>
      have answers := respond_answers config s operation outcome sound.tidy
      have sound := sound.outputs (respond_later config s operation outcome)
      rw [← respond_eq] at sound
      have operations : (s.respond config operation outcome).1.operations = s.operations := by rw [respond_eq]
      generalize s.respond config operation outcome = responded at *
      obtain ⟨s, responses⟩ := responded
      dsimp only at operations answers sound ⊢
      rw [← operations] at found
      obtain ⟨before, after, split, removed⟩ :=
        filter_set (fun operation => !operation.finished) found (by simpa using running)
      have waiting : s.unfinished = before ++ operation :: after := split
      have distinct := sound.distinct
      have fits := sound.fits
      rw [waiting] at distinct fits
      have sameRecent := remember_recent (s.release operation) operation.id
      rw [release_output, release_recent] at sameRecent
      rw [remember_eq]
      generalize ((s.release operation).remember operation.id).recentCompletedRequestIds = recent at sameRecent ⊢
      have remaining : ∀ t : System,
          t.operations = s.operations.set n { operation with finished := true, responses } → t.unfinished = before ++ after := by
        intro t same
        rw [unfinished, same]
        exact removed _ rfl
      rw [release_operations, release_completed]
      constructor
      · intro open'
        have holds := sound.holds (by simpa using open')
        rw [waiting] at holds
        rw [remaining _ rfl]
        exact (holds.release distinct).congr rfl rfl rfl rfl
      · intro gone
        have cleared := sound.cleared (by simpa using gone)
        rw [release_cleared s operation cleared]
        exact cleared.congr rfl rfl rfl rfl
      · rw [remaining _ rfl]
        exact distinct.removed
      · rw [remaining _ rfl]
        exact fits.removed
      · simpa using sound.tidy
      · intro open'
        have lasts : s.output.closing = false := by simpa using open'
        have cleaned := sound.uncleaned lasts
        have fresh : operation.id ∉ s.recentCompletedRequestIds :=
          sound.apart lasts operation (by rw [waiting]; simp)
        dsimp only
        rw [sameRecent lasts cleaned fresh, sound.recent lasts]
        exact rtake_rtake_concat s.completed 4095 operation.id
      · intro open' other member
        have lasts : s.output.closing = false := by simpa using open'
        have cleaned := sound.uncleaned lasts
        have fresh : operation.id ∉ s.recentCompletedRequestIds :=
          sound.apart lasts operation (by rw [waiting]; simp)
        rw [remaining _ rfl] at member
        have held : other ∈ s.unfinished := by
          rw [waiting]
          rcases List.mem_append.mp member with early | late
          · exact List.mem_append_left _ early
          · exact List.mem_append_right _ (List.mem_cons_of_mem _ late)
        have apart : other.id ≠ operation.id := by
          have ids := distinct.ids
          rw [List.map_append, List.map_cons, List.nodup_middle, List.nodup_cons, ← List.map_append] at ids
          exact fun same => ids.1 (same ▸ List.mem_map_of_mem member)
        dsimp only
        rw [sameRecent lasts cleaned fresh]
        intro kept
        rcases List.mem_append.mp (mem_rtake kept) with earlier | now
        · exact sound.apart lasts other held earlier
        · exact apart (List.mem_singleton.mp now)
      · intro other member
        rcases List.mem_or_eq_of_mem_set member with earlier | rfl
        · simpa using sound.answered other earlier
        · rw [Answered, if_pos rfl]
          rcases answers with given | ⟨silent, shut⟩
          · exact .inl ⟨outcome, given⟩
          · exact .inr ⟨silent, by simpa using shut⟩

end Finishes

section Frames

variable {request : Request} {rawFrame : Value} {owner : Option Owner}

theorem Sound.enters (sound : Sound config s) (lasts : s.output.closing = false)
    (fresh : ¬(operation.id ∈ s.inFlightRequestIds ∨ operation.id ∈ s.recentCompletedRequestIds))
    (running : operation.finished = false) (silent : operation.responses = [])
    (output : t.output = s.output) (operations : t.operations = s.operations ++ [operation])
    (completed : t.completed = s.completed) (recent : t.recentCompletedRequestIds = s.recentCompletedRequestIds)
    (ids : t.inFlightRequestIds = s.inFlightRequestIds ++ [operation.id])
    (work : t.inFlightWorkCount = s.inFlightWorkCount + workOf [operation])
    (bytes : t.inFlightRequestBytes = s.inFlightRequestBytes + bytesOf [operation])
    (owners : t.continuationOwners = s.continuationOwners ++ operation.continuationOwner.toList)
    (room : t.inFlightWorkCount ≤ maxInFlightRequests ∧ t.inFlightRequestBytes ≤ 2 * (config.maxFrameBytes : ℤ))
    (free : ∀ owner, operation.continuationOwner = some owner → owner ∉ s.continuationOwners) : Sound config t := by
  obtain ⟨unused, forgotten⟩ := not_or.mp fresh
  have cleaned := sound.uncleaned lasts
  have held := sound.holds cleaned
  have holds := held.enter ids work bytes owners
  have waiting : t.unfinished = s.unfinished ++ [operation] := by
    rw [unfinished, operations, List.filter_append, List.filter_cons_of_pos (by simp [running])]
    rfl
  constructor
  · exact fun _ => waiting ▸ holds
  · exact fun gone => absurd ((output ▸ gone : s.output.cleaned = true).symm.trans cleaned) (by decide)
  · rw [waiting]
    constructor
    · rw [List.map_append, List.map_singleton, List.nodup_append]
      refine ⟨sound.distinct.ids, List.nodup_singleton _, fun id early other now same => unused ?_⟩
      rw [List.mem_singleton.mp now] at same
      rw [held.ids]
      exact same ▸ early
    · rw [List.filterMap_append, List.nodup_append]
      refine ⟨sound.distinct.owners, ?_, fun owner early other now same => ?_⟩
      · cases held : operation.continuationOwner with
        | none => simp [held]
        | some owner => simp [held]
      · obtain ⟨_, single, owns⟩ := List.mem_filterMap.mp now
        obtain rfl := List.mem_singleton.mp single
        rw [← same] at owns
        apply free owner owns
        rw [held.owners]
        exact early
  · rw [waiting, Fits, ← holds.work, ← holds.bytes]
    exact room
  · rw [output]
    exact sound.tidy
  · rw [output, recent, completed]
    exact sound.recent
  · rw [output, recent, waiting]
    intro _ other member
    rcases List.mem_append.mp member with early | now
    · exact sound.apart lasts other early
    · rw [List.mem_singleton.mp now]
      exact forgotten
  · rw [output, operations]
    intro other member
    rcases List.mem_append.mp member with early | now
    · exact sound.answered other early
    · rw [List.mem_singleton.mp now, Answered, if_neg (by simp [running])]
      exact silent

/-- What a request takes when it is registered: the place of its owner, or a slot and its bytes. -/
theorem register_cases (done : s.register config request rawFrame owner = .ok (t, operation)) :
    (∃ held, held ∉ s.continuationOwners ∧ t = { s with continuationOwners := s.continuationOwners ++ [held] }
        ∧ operation = ⟨request.id, request.type, false, 0, some held, true, false, []⟩)
      ∨ ∃ bytes : ℕ, s.inFlightWorkCount < maxInFlightRequests
        ∧ s.inFlightRequestBytes + bytes ≤ 2 * (config.maxFrameBytes : ℤ)
        ∧ t = { s with
            inFlightWorkCount := s.inFlightWorkCount + 1, inFlightRequestBytes := s.inFlightRequestBytes + bytes }
        ∧ operation = ⟨request.id, request.type, true, bytes, none, true, false, []⟩ := by
  unfold register at done
  split at done
  next held =>
    split at done
    · cases done
    next free =>
      cases done
      exact .inl ⟨held, free, rfl, rfl⟩
  · dsimp only at done
    split at done
    · cases done
    next room =>
      cases done
      rw [not_or, not_le, not_lt] at room
      exact .inr ⟨_, room.1, room.2, rfl, rfl⟩

theorem Sound.closeForProtocolError (sound : Sound config s) (error : Failure) :
    Sound config (s.closeForProtocolError config error) := by
  unfold System.closeForProtocolError
  split
  · exact sound
  next open' =>
    have later : s.output.Later (s.output.write config.maxFrameBytes (.value (protocolErrorFrame error)) true).1 :=
      Output.write_later _ _ _
    generalize s.output.write config.maxFrameBytes (.value (protocolErrorFrame error)) true = written at later ⊢
    obtain ⟨output, queued⟩ := written
    refine sound.outputs ⟨fun _ => rfl, later.cleaned, fun gone => ?_, fun ended => ?_⟩
    · cases queued with
      | true => exact later.destroyed gone
      | false => rfl
    · cases queued with
      | true => exact later.writableEnded ended
      | false => exact later.writableEnded ended

/-- A request that is registered, or refused, is one more operation, which may be over at once. -/
theorem Sound.handleFrame (sound : Sound config s) (rawFrame : Value) (view : View) (outcome : Option Outcome) :
    Sound config (s.handleFrame config rawFrame view outcome) := by
  unfold System.handleFrame
  split
  · exact sound
  next open' =>
    have lasts : s.output.closing = false := by simpa using (not_or.mp open').1
    split
    · exact sound.closeForProtocolError _
    next request valid =>
      split
      · exact sound.closeForProtocolError _
      next fresh =>
        have cleaned := sound.uncleaned lasts
        have held := sound.holds cleaned
        have fits := sound.fits
        rw [Fits, ← held.work, ← held.bytes] at fits
        dsimp only
        split
        next failure refused =>
          apply Sound.finish
          refine sound.enters lasts fresh rfl rfl rfl rfl rfl rfl rfl ?_ ?_ ?_ fits nofun
          · simp [workOf]
          · simp [bytesOf]
          · simp
        next t operation registered =>
          have entered : Sound config { t with operations := t.operations ++ [operation] } := by
            obtain ⟨owner, _, registered⟩ := Checked.bind_eq_ok.mp registered
            rcases register_cases registered with ⟨owner, free, rfl, rfl⟩ | ⟨bytes, few, small, rfl, rfl⟩
            · refine sound.enters lasts fresh rfl rfl rfl rfl rfl rfl rfl ?_ ?_ rfl fits fun _ same => ?_
              · simp [workOf]
              · simp [bytesOf]
              · exact Option.some.inj same ▸ free
            · refine sound.enters lasts fresh rfl rfl rfl rfl rfl rfl rfl ?_ ?_ ?_ ⟨?_, small⟩ nofun
              · simp [workOf]
              · simp [bytesOf]
              · simp
              · exact few
          split
          · exact entered.finish _ _
          · exact entered

end Frames

section Runs

theorem Sound.cleanup (sound : Sound config s) : Sound config s.cleanup := by
  unfold System.cleanup
  split
  · exact sound
  · exact ⟨nofun, fun _ => ⟨rfl, rfl, rfl, rfl⟩, sound.distinct, sound.fits, fun _ => rfl, nofun, nofun,
      fun operation member => (sound.answered operation member).later fun _ => .inl rfl⟩

theorem step_sound (sound : Sound config s) (event : Event) : Sound config (step config s event) := by
  cases event with
  | frame rawFrame view outcome => exact sound.handleFrame rawFrame view outcome
  | malformed error => exact sound.closeForProtocolError _
  | finish n outcome => exact sound.finish n outcome
  | register role sessionId generation =>
    exact ⟨fun open' => (sound.holds open').congr rfl rfl rfl rfl, fun gone => (sound.cleared gone).congr rfl rfl rfl rfl,
      sound.distinct, sound.fits, sound.tidy, sound.recent, sound.apart, sound.answered⟩
  | subscribe subscriptions =>
    exact ⟨fun open' => (sound.holds open').congr rfl rfl rfl rfl, fun gone => (sound.cleared gone).congr rfl rfl rfl rfl,
      sound.distinct, sound.fits, sound.tidy, sound.recent, sound.apart, sound.answered⟩
  | write frame => exact sound.outputs (Output.write_later _ _ _)
  | returned answer => exact sound.outputs (Output.returned_later _ _)
  | drain => exact sound.outputs ((Output.flushWrites_later _).after ⟨id, rfl, id, id⟩)
  | sent bytes => exact sound.outputs ⟨id, rfl, id, id⟩
  | endSocket => exact sound.outputs ⟨id, rfl, id, fun _ => rfl⟩
  | destroySocket => exact sound.outputs ⟨id, rfl, fun _ => rfl, id⟩
  | closed =>
    simp only [step]
    split
    · exact sound.cleanup
    · exact sound

theorem run_sound (config : Config) (events : List Event) : Sound config (run config events) := by
  induction events using List.reverseRecOn with
  | nil => exact new_sound config
  | append_singleton events event ih =>
    rw [run, List.foldl_append]
    exact step_sound ih event

/-- A connection that still reads frames. -/
def Reads (s : System) : Prop := ¬(s.output.closing = true ∨ s.output.cleaned = true ∨ s.output.socket.destroyed = true)

/-- An id that is in flight, or among the last that completed. -/
def Used (s : System) (id : JsString) : Prop :=
  id ∈ s.unfinished.map Operation.id ∨ id ∈ s.completed.rtake completedRequestIdCacheSize

theorem Sound.used_iff (sound : Sound config s) (reads : Reads s) (id : JsString) :
    Used s id ↔ id ∈ s.inFlightRequestIds ∨ id ∈ s.recentCompletedRequestIds := by
  have lasts : s.output.closing = false := by simpa using (not_or.mp reads).1
  rw [Used, (sound.holds (sound.uncleaned lasts)).ids, sound.recent lasts]

theorem closeForProtocolError_closes (s : System) (error : Failure) (reads : Reads s) :
    (s.closeForProtocolError config error).operations = s.operations
      ∧ (s.closeForProtocolError config error).output.closing = true := by
  have lasts : ¬(s.output.closing = true ∨ s.output.cleaned = true) := fun shut => reads (shut.imp id .inl)
  rw [closeForProtocolError, if_neg lasts]
  exact ⟨rfl, rfl⟩

/-- A repeated id closes the connection; no operation is run for it. -/
theorem Sound.duplicate (sound : Sound config s) (reads : Reads s) {rawFrame : Value} {request : Request}
    (valid : validateRequest config rawFrame = .ok request) (used : Used s request.id) (view : View)
    (outcome : Option Outcome) :
    (s.handleFrame config rawFrame view outcome).operations = s.operations
      ∧ (s.handleFrame config rawFrame view outcome).output.closing = true := by
  rw [System.handleFrame, if_neg reads, valid]
  dsimp only
  rw [if_pos ((sound.used_iff reads _).mp used)]
  exact closeForProtocolError_closes s _ reads

theorem finish_operations (config : Config) (s : System) (before : List Operation) {operation : Operation} (outcome : Outcome)
    (last : s.operations = before ++ [operation]) :
    ∃ finished, (s.finish config before.length outcome).operations = before ++ [finished] ∧ finished.id = operation.id := by
  have here : s.operations[before.length]? = some operation := by rw [last, List.getElem?_concat_length]
  rw [finish, here]
  dsimp only
  split
  · exact ⟨operation, last, rfl⟩
  · refine ⟨{ operation with finished := true, responses := (s.respond config operation outcome).2 }, ?_, rfl⟩
    dsimp only
    rw [remember_eq, release_operations, respond_eq]
    dsimp only
    rw [last, List.set_append_right _ _ (le_refl _), Nat.sub_self, List.set_cons_zero]

theorem Sound.fresh (sound : Sound config s) (reads : Reads s) {rawFrame : Value} {request : Request}
    (valid : validateRequest config rawFrame = .ok request) (fresh : ¬Used s request.id) (view : View)
    (outcome : Option Outcome) :
    ∃ operation, (s.handleFrame config rawFrame view outcome).operations = s.operations ++ [operation]
      ∧ operation.id = request.id := by
  rw [System.handleFrame, if_neg reads, valid]
  dsimp only
  rw [if_neg fun used => fresh ((sound.used_iff reads _).mpr used)]
  split
  next failure refused =>
    obtain ⟨finished, operations, id⟩ := finish_operations config
      { s with
        inFlightRequestIds := s.inFlightRequestIds ++ [request.id]
        operations := s.operations ++ [⟨request.id, request.type, false, 0, none, false, false, []⟩] }
      s.operations (.threw failure) rfl
    exact ⟨finished, operations, id⟩
  next t operation registered =>
    obtain ⟨owner, _, registered⟩ := Checked.bind_eq_ok.mp registered
    have entered : t.operations = s.operations ∧ operation.id = request.id := by
      rcases register_cases registered with ⟨_, _, rfl, rfl⟩ | ⟨_, _, _, rfl, rfl⟩
      · exact ⟨rfl, rfl⟩
      · exact ⟨rfl, rfl⟩
    obtain ⟨same, named⟩ := entered
    rw [same, List.length_append, List.length_singleton, Nat.add_sub_cancel]
    split
    next outcome =>
      obtain ⟨finished, operations, id⟩ := finish_operations config
        { t with operations := s.operations ++ [operation] } s.operations outcome rfl
      exact ⟨finished, operations, id.trans named⟩
    · exact ⟨operation, rfl, named⟩

/-- What holds of a connection between two steps: until it is cleaned up, its counters are those of the work that was
admitted and has not finished, and then they are zero; they stay within the limits; no owner has two unfinished
continuations; every finished request has had its one response, unless the connection was shut; a frame with a
fresh id becomes one operation, and one with a used id closes the connection and becomes none. -/
structure Balanced (config : Config) (s : System) : Prop where
  counted : s.output.cleaned = false →
    s.inFlightWorkCount = workOf s.unfinished ∧ s.inFlightRequestBytes = bytesOf s.unfinished
  cleared : s.output.cleaned = true → s.inFlightWorkCount = 0 ∧ s.inFlightRequestBytes = 0
  within : s.inFlightWorkCount ≤ maxInFlightRequests ∧ s.inFlightRequestBytes ≤ 2 * (config.maxFrameBytes : ℤ)
  owners : (s.unfinished.filterMap Operation.continuationOwner).Nodup
  answered : ∀ operation ∈ s.operations, Answered s.output operation
  fresh : ∀ rawFrame request view outcome, Reads s → validateRequest config rawFrame = .ok request → ¬Used s request.id →
    ∃ operation, (step config s (.frame rawFrame view outcome)).operations = s.operations ++ [operation]
      ∧ operation.id = request.id
  duplicate : ∀ rawFrame request view outcome, Reads s → validateRequest config rawFrame = .ok request → Used s request.id →
    (step config s (.frame rawFrame view outcome)).operations = s.operations
      ∧ (step config s (.frame rawFrame view outcome)).output.closing = true

/-- Whatever frames arrive and in whatever order their operations finish, the books of a connection balance. -/
theorem run_balanced (config : Config) (events : List Event) : Balanced config (run config events) := by
  have sound := run_sound config events
  constructor
  · intro open'
    have holds := sound.holds open'
    exact ⟨holds.work, holds.bytes⟩
  · intro gone
    have cleared := sound.cleared gone
    exact ⟨cleared.work, cleared.bytes⟩
  · cases cleaned : (run config events).output.cleaned with
    | false =>
      have holds := sound.holds cleaned
      rw [holds.work, holds.bytes]
      exact sound.fits
    | true =>
      have cleared := sound.cleared cleaned
      rw [cleared.work, cleared.bytes]
      exact (new_sound config).fits
  · exact sound.distinct.owners
  · exact sound.answered
  · exact fun _ _ view outcome reads valid fresh => sound.fresh reads valid fresh view outcome
  · exact fun _ _ view outcome reads valid used => sound.duplicate reads valid used view outcome

end Runs

end System

end PersistentHarness.Connection
