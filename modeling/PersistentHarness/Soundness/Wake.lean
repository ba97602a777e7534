import Mathlib.Data.List.Induction
import PersistentHarness.Lib.Pointwise
import PersistentHarness.Model.Wake

/-! # Wakes of pending inputs

An unfinished loop is the one that its session's owner names, so there is one at most. An explicit call that waits has
asked its loop for another round and has taken the loop's record away, so the loop does not cancel itself. It can still
be lost in two ways: it joins a loop that has cancelled itself already, or the stop that follows a failed round fails.
-/

namespace PersistentHarness.Wake

/-- A loop that still runs. -/
def Loop.live (loop : Loop) : Prop := loop.stage ≠ .ended

/-- At most one loop runs for a session. -/
def Single (s : System) : Prop :=
  ∀ (i j : ℕ) (loop other : Loop), s.loops[i]? = some loop → s.loops[j]? = some other → loop.live → other.live →
    loop.sessionId = other.sessionId → i = j

/-- The loop of a waiting call has been asked for another round, and only a retirement has cancelled it. -/
def Awaited (s : System) (n : ℕ) : Prop :=
  ∃ loop : Loop, s.loops[n]? = some loop ∧ loop.live ∧ loop.requested = true ∧ (loop.cancelled = true → loop.retired = true)

/-- A round has begun after the call, or its loop was cancelled by a retirement, a deletion or the stop of the
supervisor, or the call waits. -/
def Kept (s : System) (call : Call) : Prop := call.attempted = true ∨ call.withdrawn = true ∨ Awaited s call.loop

/-- An explicit call does not join a loop that has cancelled itself, and the stop after a failed round does not fail
while an explicit call waits for the next one. -/
def Keeps (s : System) : Event → Prop
  | .wake sessionId none _ => ∀ n loop, s.wakes sessionId = some n → s.loops[n]? = some loop →
      loop.cancelled = true → loop.retired = true
  | .stopped n false => ∀ loop, s.loops[n]? = some loop → loop.stage = .stopping →
      (∀ call ∈ s.calls, call.loop = n → call.attempted = true)
        ∨ loop.retired = true ∨ s.stopping = true ∨ s.store.isSessionDeleting loop.sessionId = true
  | _ => True

/-! ## The invariant -/

/-- The map of wakes names the live loop of each session. -/
structure Owned (s : System) : Prop where
  owner : ∀ (n : ℕ) (loop : Loop), s.loops[n]? = some loop → loop.live → s.wakes loop.sessionId = some n
  known : ∀ sessionId n, s.wakes sessionId = some n → ∃ loop, s.loops[n]? = some loop ∧ loop.sessionId = sessionId ∧ loop.live

/-- What holds of a call that no round has begun for. -/
structure Loop.Waits (loop : Loop) : Prop where
  requested : loop.requested = true
  explicit : loop.automaticRecord = none
  cancelled : loop.cancelled = true → loop.retired = true

/-- `careful` tells that every event so far has met `Keeps`. -/
structure Sound (careful : Prop) (s : System) : Prop where
  owned : Owned s
  waits : careful → ∀ call ∈ s.calls, call.attempted = false → call.withdrawn = false →
    ∃ loop : Loop, s.loops[call.loop]? = some loop ∧ loop.live ∧ loop.Waits

theorem Owned.single {s : System} (owned : Owned s) : Single s := by
  intro i j loop other found found' live live' same
  have first := owned.owner i loop found live
  have second := owned.owner j other found' live'
  rw [same] at first
  exact Option.some.inj (first.symm.trans second)

section Steps

variable {s : System} {n : ℕ} {loop : Loop} {careful : Prop}

theorem setLoop_loops (found : s.loops[n]? = some loop) (next : Loop) (k : ℕ) :
    (s.loops.set n next)[k]? = if n = k then some next else s.loops[k]? := by
  have within := (List.getElem?_eq_some_iff.mp found).1
  rw [List.getElem?_set]
  split
  · rfl
  · rfl

theorem Owned.setLoop (owned : Owned s) (next : Loop) (found : s.loops[n]? = some loop) (live : loop.live)
    (same : next.sessionId = loop.sessionId) (goes : next.live) : Owned (s.setLoop n next) where
  owner k other found' live' := by
    change (s.loops.set n next)[k]? = some other at found'
    rw [setLoop_loops found] at found'
    split at found'
    next here =>
      cases found'
      rw [same, ← here]
      exact owned.owner n loop found live
    next => exact owned.owner k other found' live'
  known sessionId k named := by
    obtain ⟨other, found', belongs, live'⟩ := owned.known sessionId k named
    change ∃ other, (s.loops.set n next)[k]? = some other ∧ _
    rw [setLoop_loops found]
    split
    next here =>
      subst here
      cases found.symm.trans found'
      exact ⟨next, rfl, same.trans belongs, goes⟩
    next => exact ⟨other, found', belongs, live'⟩

theorem Owned.begin (owned : Owned s) (found : s.loops[n]? = some loop) (live : loop.live) : Owned (s.begin n loop) :=
  have next := owned.setLoop { loop with requested := false, stage := .readying } found live rfl nofun
  ⟨next.owner, next.known⟩

theorem Owned.finish (owned : Owned s) (found : s.loops[n]? = some loop) (live : loop.live) : Owned (s.finish n loop) where
  owner k other found' live' := by
    change (s.loops.set n _)[k]? = some other at found'
    rw [setLoop_loops found] at found'
    split at found'
    · cases found'
      exact absurd rfl live'
    next elsewhere =>
      have named := owned.owner k other found' live'
      have own := owned.owner n loop found live
      have different : other.sessionId ≠ loop.sessionId := by
        intro same
        rw [same] at named
        exact elsewhere (Option.some.inj (own.symm.trans named))
      unfold System.finish
      dsimp only
      rw [if_pos own, Function.update_of_ne different]
      exact named
  known sessionId k named := by
    have own := owned.owner n loop found live
    unfold System.finish at named
    dsimp only at named
    rw [if_pos own] at named
    by_cases same : sessionId = loop.sessionId
    · subst same
      rw [Function.update_self] at named
      cases named
    · rw [Function.update_of_ne same] at named
      obtain ⟨other, found', belongs, live'⟩ := owned.known sessionId k named
      refine ⟨other, ?_, belongs, live'⟩
      change (s.loops.set n _)[k]? = some other
      rw [setLoop_loops found, if_neg]
      · exact found'
      · rintro rfl
        cases found.symm.trans found'
        exact same belongs.symm

theorem check_sessionId (s : System) (loop : Loop) : (s.check loop).sessionId = loop.sessionId := by
  unfold System.check
  split
  · split
    · split <;> rfl
    · rfl
  · rfl

theorem check_stage (s : System) (loop : Loop) : (s.check loop).stage = loop.stage := by
  unfold System.check
  split
  · split
    · split <;> rfl
    · rfl
  · rfl

/-- A wake that has no record does not cancel itself. -/
theorem check_explicit (explicit : loop.automaticRecord = none) : s.check loop = loop := by
  unfold System.check
  rw [explicit]

theorem Sound.setLoop (sound : Sound careful s) (next : Loop) (found : s.loops[n]? = some loop) (live : loop.live)
    (same : next.sessionId = loop.sessionId) (goes : next.live) (waits : loop.Waits → next.Waits) :
    Sound careful (s.setLoop n next) where
  owned := sound.owned.setLoop next found live same goes
  waits met call called unserved kept := by
    obtain ⟨other, found', live', waits'⟩ := sound.waits met call called unserved kept
    change ∃ other : Loop, (s.loops.set n next)[call.loop]? = some other ∧ _
    rw [setLoop_loops found]
    split
    next here =>
      rw [← here] at found'
      cases found.symm.trans found'
      exact ⟨next, rfl, goes, waits waits'⟩
    next => exact ⟨other, found', live', waits'⟩

theorem Sound.begin (sound : Sound careful s) (found : s.loops[n]? = some loop) (live : loop.live) : Sound careful (s.begin n loop) where
  owned := sound.owned.begin found live
  waits met call called unserved kept := by
    obtain ⟨before, called', rfl⟩ := List.mem_map.mp called
    by_cases here : before.loop = n
    · rw [if_pos here] at unserved
      cases unserved
    · rw [if_neg here] at unserved kept ⊢
      obtain ⟨other, found', live', waits'⟩ := sound.waits met before called' unserved kept
      refine ⟨other, ?_, live', waits'⟩
      change (s.loops.set n _)[before.loop]? = some other
      rw [setLoop_loops found, if_neg (Ne.symm here)]
      exact found'

/-- A loop may end when the calls that wait for it are withdrawn. -/
theorem Sound.finish (sound : Sound careful s) (found : s.loops[n]? = some loop) (live : loop.live)
    (served : careful → ∀ call ∈ s.calls, call.loop = n → call.attempted = false → call.withdrawn = false →
      (loop.retired || s.stopping || s.store.isSessionDeleting loop.sessionId) = true) : Sound careful (s.finish n loop) where
  owned := sound.owned.finish found live
  waits met call called unserved kept := by
    obtain ⟨before, called', rfl⟩ := List.mem_map.mp called
    by_cases here : before.loop = n
    · rw [if_pos here] at unserved kept
      obtain ⟨kept, withdraws⟩ := Bool.or_eq_false_iff.mp kept
      rw [served met before called' here unserved kept] at withdraws
      cases withdraws
    · rw [if_neg here] at unserved kept ⊢
      obtain ⟨other, found', live', waits'⟩ := sound.waits met before called' unserved kept
      refine ⟨other, ?_, live', waits'⟩
      change (s.loops.set n _)[before.loop]? = some other
      rw [setLoop_loops found, if_neg (Ne.symm here)]
      exact found'

theorem Loop.Waits.withdraws (waits : loop.Waits) (fenced : s.fenced loop = true) :
    (loop.retired || s.stopping || s.store.isSessionDeleting loop.sessionId) = true := by
  simp only [System.fenced, Bool.or_eq_true] at fenced ⊢
  rcases fenced with (cancelled | stopping) | deleting
  · exact Or.inl (Or.inl (waits.cancelled cancelled))
  · exact Or.inl (Or.inr stopping)
  · exact Or.inr deleting

theorem Sound.waiting (sound : Sound careful s) (met : careful) (found : s.loops[n]? = some loop) {call : Call} (called : call ∈ s.calls)
    (here : call.loop = n) (unserved : call.attempted = false) (kept : call.withdrawn = false) : loop.Waits := by
  obtain ⟨other, found', -, waits⟩ := sound.waits met call called unserved kept
  rw [here] at found'
  cases found.symm.trans found'
  exact waits

theorem Sound.again (sound : Sound careful s) (found : s.loops[n]? = some loop) (live : loop.live) : Sound careful (s.again n loop) := by
  unfold System.again
  split
  next => exact sound.begin found live
  next ends =>
    apply sound.finish found live
    intro met call called here unserved kept
    have waits := sound.waiting met found called here unserved kept
    rw [waits.requested, Bool.true_and, Bool.not_eq_true, Bool.not_eq_false'] at ends
    exact waits.withdraws ends

theorem Sound.caught (sound : Sound careful s) (found : s.loops[n]? = some loop) (live : loop.live) : Sound careful (s.caught n loop) := by
  unfold System.caught
  split
  next fenced =>
    apply sound.finish found live
    intro met call called here unserved kept
    exact (sound.waiting met found called here unserved kept).withdraws fenced
  next => exact sound.setLoop _ found live rfl nofun fun waits => ⟨waits.requested, waits.explicit, waits.cancelled⟩

theorem Owned.named (owned : Owned s) (sessionId : JsString) :
    ((s.wakes sessionId).bind fun n => (s.loops[n]?).map fun loop => (n, loop)) = none ∧ s.wakes sessionId = none
      ∨ ∃ (n : ℕ) (loop : Loop), ((s.wakes sessionId).bind fun n => (s.loops[n]?).map fun loop => (n, loop)) = some (n, loop)
        ∧ s.wakes sessionId = some n ∧ s.loops[n]? = some loop ∧ loop.sessionId = sessionId ∧ loop.live := by
  cases named : s.wakes sessionId with
  | none => exact Or.inl ⟨rfl, rfl⟩
  | some n =>
    obtain ⟨loop, found, belongs, live⟩ := owned.known sessionId n named
    refine Or.inr ⟨n, loop, ?_, rfl, found, belongs, live⟩
    rw [Option.bind_some, found]
    rfl

theorem Sound.retire (sound : Sound careful s) (sessionId : JsString) : Sound careful (s.retire sessionId) := by
  unfold System.retire
  dsimp only
  obtain ⟨unnamed, -⟩ | ⟨n, loop, named, -, found, -, live⟩ := sound.owned.named sessionId
  · rw [unnamed]
    exact ⟨⟨sound.owned.owner, sound.owned.known⟩, sound.waits⟩
  · rw [named]
    have next := sound.setLoop { loop with cancelled := true, retired := true } found live rfl live fun waits =>
      ⟨waits.requested, waits.explicit, fun _ => rfl⟩
    exact ⟨⟨next.owned.owner, next.owned.known⟩, next.waits⟩

theorem Sound.loopBegun (sound : Sound careful s) {sessionId : JsString} (free : s.wakes sessionId = none) (fresh : Loop)
    (belongs : fresh.sessionId = sessionId) (live : fresh.live) :
    Sound careful { s with wakes := Function.update s.wakes sessionId (some s.loops.length), loops := s.loops ++ [fresh] } where
  owned := {
    owner := by
      intro k other found live'
      change (s.loops ++ [fresh])[k]? = some other at found
      rcases Pointwise.of_concat found with found | ⟨rfl, rfl⟩
      · have named := sound.owned.owner k other found live'
        have different : other.sessionId ≠ sessionId := by
          intro same
          rw [same, free] at named
          cases named
        change Function.update s.wakes sessionId (some s.loops.length) other.sessionId = some k
        rw [Function.update_of_ne different]
        exact named
      · change Function.update s.wakes sessionId (some s.loops.length) other.sessionId = some s.loops.length
        rw [belongs, Function.update_self]
    known := by
      intro other k named
      change Function.update s.wakes sessionId (some s.loops.length) other = some k at named
      by_cases same : other = sessionId
      · subst same
        rw [Function.update_self] at named
        cases named
        exact ⟨fresh, by simp, belongs, live⟩
      · rw [Function.update_of_ne same] at named
        obtain ⟨loop, found, belongs', live'⟩ := sound.owned.known other k named
        exact ⟨loop, Pointwise.concat_of fresh found, belongs', live'⟩ }
  waits met call called unserved kept := by
    obtain ⟨loop, found, live', waits⟩ := sound.waits met call called unserved kept
    exact ⟨loop, Pointwise.concat_of fresh found, live', waits⟩

theorem Sound.called (sound : Sound careful s) (found : s.loops[n]? = some loop) (live : loop.live) (waits : careful → loop.Waits) :
    Sound careful { s with calls := s.calls ++ [⟨n, false, false⟩] } where
  owned := ⟨sound.owned.owner, sound.owned.known⟩
  waits met call called unserved kept := by
    rcases List.mem_append.mp called with before | last
    · exact sound.waits met call before unserved kept
    · rw [List.mem_singleton.mp last]
      exact ⟨loop, found, live, waits met⟩

theorem Sound.stored (sound : Sound careful s) (store : SessionStore.Store) : Sound careful { s with store } :=
  ⟨⟨sound.owned.owner, sound.owned.known⟩, sound.waits⟩

theorem Sound.queue (sound : Sound careful s) (sessionId : JsString) (automaticRecord : Option ℕ)
    (keeps : careful → automaticRecord = none → ∀ (n : ℕ) (loop : Loop), s.wakes sessionId = some n →
      s.loops[n]? = some loop → loop.cancelled = true → loop.retired = true) :
    Sound careful (s.queue sessionId automaticRecord) := by
  have stored := sound.stored (SessionStore.setActorInputWakeError s.store sessionId none).1
  unfold System.queue
  dsimp only
  obtain ⟨unnamed, free⟩ | ⟨n, loop, named, owner, found, belongs, live⟩ := sound.owned.named sessionId
  · rw [unnamed]
    have begun := stored.loopBegun free ⟨sessionId, true, false, false, automaticRecord, .starting⟩ rfl nofun
    dsimp only
    by_cases explicit : automaticRecord = none
    · rw [if_pos explicit]
      exact begun.called List.getElem?_concat_length nofun fun met => ⟨rfl, explicit, nofun⟩
    · rw [if_neg explicit]
      exact begun
  · rw [named]
    dsimp only
    by_cases explicit : automaticRecord = none
    · rw [if_pos explicit, if_pos explicit]
      have joined := stored.setLoop { loop with requested := true, automaticRecord := none } found live rfl live
        fun waits => ⟨rfl, rfl, waits.cancelled⟩
      apply joined.called ((setLoop_loops found _ n).trans (if_pos rfl)) live
      intro met
      exact ⟨rfl, rfl, keeps met explicit n loop owner found⟩
    · rw [if_neg explicit, if_neg explicit]
      exact stored.setLoop { loop with requested := true } found live rfl live
        fun waits => ⟨rfl, waits.explicit, waits.cancelled⟩

/-- A step of a loop that waits at `stage`. -/
theorem Sound.atStage (sound : Sound careful s) (n : ℕ) (stage : Stage) (live : stage ≠ .ended) {f : Loop → System}
    (next : ∀ loop : Loop, s.loops[n]? = some loop → loop.stage = stage → loop.live → Sound careful (f loop)) :
    Sound careful (match s.loops[n]? with
      | some loop => if loop.stage = stage then f loop else s
      | none => s) := by
  split
  next loop found =>
    split
    next here =>
      apply next loop found here
      rw [Loop.live, here]
      exact live
    next => exact sound
  next => exact sound

theorem Sound.checked (sound : Sound careful s) (found : s.loops[n]? = some loop) (live : loop.live) :
    Sound careful (s.setLoop n (s.check loop)) ∧ (s.check loop).live := by
  have live' : (s.check loop).live := by
    rw [Loop.live, check_stage]
    exact live
  refine ⟨sound.setLoop _ found live (check_sessionId s loop) live' ?_, live'⟩
  intro waits
  rw [check_explicit waits.explicit]
  exact waits

/-- A wake that no retirement, deletion or stop has fenced goes on to its next stage. -/
theorem Sound.moved (sound : Sound careful s) (found : s.loops[n]? = some loop) (live : loop.live) (stage : Stage)
    (goes : stage ≠ .ended) : Sound careful (s.setLoop n { loop with stage }) :=
  sound.setLoop _ found live rfl goes fun waits => ⟨waits.requested, waits.explicit, waits.cancelled⟩

theorem Sound.step (sound : Sound careful s) (event : Event) (keeps : careful → Keeps s event) :
    Sound careful (step s event) := by
  cases event with
  | store env now observer op => exact sound.stored _
  | actor | expect | stop => exact ⟨⟨sound.owned.owner, sound.owned.known⟩, sound.waits⟩
  | retire sessionId => exact sound.retire sessionId
  | release sessionId =>
    simp only [Wake.step]
    split
    · exact sound
    · exact ⟨⟨sound.owned.owner, sound.owned.known⟩, sound.waits⟩
  | wake sessionId automaticRecord starts =>
    simp only [Wake.step]
    split
    · split
      · apply sound.queue
        rintro met rfl
        exact keeps met
      · exact sound
    · exact sound
  | turn n => exact sound.atStage n .starting nofun fun loop found _ live => sound.begin found live
  | check n =>
    apply sound.atStage n .readying nofun
    intro loop found here live
    obtain ⟨checked, live'⟩ := sound.checked found live
    have found' := (setLoop_loops found (s.check loop) n).trans (if_pos rfl)
    dsimp only
    split
    · have moved := checked.moved found' live' .failing nofun
      rw [System.setLoop, System.setLoop, List.set_set] at moved
      exact moved
    · exact checked
  | ready n succeeds =>
    apply sound.atStage n .readying nofun
    intro loop found here live
    obtain ⟨checked, live'⟩ := sound.checked found live
    have found' := (setLoop_loops found (s.check loop) n).trans (if_pos rfl)
    cases succeeds with
    | true =>
      rw [if_pos rfl]
      dsimp only
      split
      · exact checked.caught found' live'
      · have moved := checked.moved found' live' .delivering nofun
        rw [System.setLoop, System.setLoop, List.set_set] at moved
        exact moved
    | false => exact sound.moved found live .failing nofun
  | rejected n => exact sound.atStage n .failing nofun fun loop found _ live => sound.caught found live
  | delivered n succeeds =>
    apply sound.atStage n .delivering nofun
    intro loop found here live
    cases succeeds with
    | true => exact sound.again found live
    | false => exact sound.caught found live
  | stopped n succeeds =>
    apply sound.atStage n .stopping nofun
    intro loop found here live
    cases succeeds with
    | true => exact sound.again found live
    | false =>
      apply sound.finish found live
      intro met call called same unserved kept
      simp only [Bool.or_eq_true]
      rcases keeps met loop found here with served | retired | stops | deleting
      · rw [served call called same] at unserved
        cases unserved
      · exact Or.inl (Or.inl retired)
      · exact Or.inl (Or.inr stops)
      · exact Or.inr deleting

end Steps

/-! ## Whole runs -/

theorem Sound.initial (careful : Prop) : Sound careful System.initial where
  owned := {
    owner := by
      intro n loop found
      cases found
    known := by
      intro sessionId n named
      cases named }
  waits := by
    rintro met call ⟨⟩

theorem run_concat (before : List Event) (event : Event) : run (before ++ [event]) = step (run before) event :=
  List.foldl_concat _ _ _ _

theorem run_sound {careful : Prop} (events : List Event)
    (keeps : careful → ∀ before event, before ++ [event] <+: events → Keeps (run before) event) :
    Sound careful (run events) := by
  induction events using List.reverseRecOn with
  | nil => exact .initial careful
  | append_singleton before event hypothesis =>
    rw [run_concat]
    apply Sound.step
    · apply hypothesis
      intro met earlier event' within
      exact keeps met earlier event' (within.trans (List.prefix_append before [event]))
    · intro met
      exact keeps met before event List.prefix_rfl

theorem Sound.kept {s : System} (sound : Sound True s) {call : Call} (called : call ∈ s.calls) : Kept s call := by
  cases attempted : call.attempted with
  | true => exact Or.inl attempted
  | false =>
    cases withdrawn : call.withdrawn with
    | true => exact Or.inr (Or.inl withdrawn)
    | false =>
      obtain ⟨loop, found, live, waits⟩ := sound.waits trivial call called attempted withdrawn
      exact Or.inr (Or.inr ⟨loop, found, live, waits.requested, waits.cancelled⟩)

/-- At most one loop runs for a session, and a careful run loses no explicit call. -/
theorem run_wakes (events : List Event) :
    Single (run events)
    ∧ ((∀ before event, before ++ [event] <+: events → Keeps (run before) event) →
      ∀ call ∈ (run events).calls, Kept (run events) call) := by
  constructor
  · have sound : Sound False (run events) := run_sound events False.elim
    exact sound.owned.single
  · intro keeps call called
    have sound : Sound True (run events) := run_sound events fun _ => keeps
    exact sound.kept called

section Samples

def sampleRoot : Event :=
  .store ⟨id, fun _ => []⟩ 1 none
    (.createRoot ⟨js "root", some (js "/w/root.jsonl"), some (js "/w"), none, some (js "root"), js "token", .obj []⟩)

/-- The second call joins the loop while the first round delivers. -/
def joined : List Event :=
  [sampleRoot, .wake (js "root") none true, .turn 0, .ready 0 true, .wake (js "root") none true, .delivered 0 true]

theorem run_wakes_sample : Kept (run joined) ⟨0, true, false⟩ := by
  have keeps : ∀ before event, before ++ [event] <+: joined → Keeps (run before) event := by
    intro before event within
    have event_mem : event ∈ joined := within.subset (List.mem_append_right _ (List.mem_singleton_self event))
    have uncancelled : joined.inits.all (fun before => (run before).loops.all fun loop => !loop.cancelled) = true := by
      decide
    have before_mem : before ∈ joined.inits := (List.mem_inits _ _).mpr ((List.prefix_append before [event]).trans within)
    have here := List.all_eq_true.mp (List.all_eq_true.mp uncancelled before before_mem)
    simp only [joined, List.mem_cons, List.not_mem_nil, or_false] at event_mem
    rcases event_mem with rfl | rfl | rfl | rfl | rfl | rfl
    case inr.inl | inr.inr.inr.inr.inl =>
      intro n loop named found cancelled
      have fresh := here loop (List.mem_of_getElem? found)
      rw [cancelled] at fresh
      cases fresh
    all_goals trivial
  exact (run_wakes joined).2 keeps _ (by decide)

/-- The second call joins the loop while the actor of the failed round stops; the stop fails. -/
def stopFails : List Event :=
  [sampleRoot, .wake (js "root") none true, .turn 0, .ready 0 false, .rejected 0, .wake (js "root") none true,
    .stopped 0 false]

theorem stopFails_loses :
    ⟨0, false, false⟩ ∈ (run stopFails).calls ∧ ¬ Kept (run stopFails) ⟨0, false, false⟩ := by
  have ended : (run stopFails).loops.map Loop.stage = [.ended] := by decide
  refine ⟨by decide, ?_⟩
  rintro (attempted | withdrawn | ⟨loop, found, live, -⟩)
  · cases attempted
  · cases withdrawn
  · apply live
    have stage : loop.stage ∈ (run stopFails).loops.map Loop.stage := List.mem_map_of_mem (List.mem_of_getElem? found)
    rw [ended] at stage
    exact List.mem_singleton.mp stage

end Samples

end PersistentHarness.Wake
