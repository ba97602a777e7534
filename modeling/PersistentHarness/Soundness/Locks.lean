import Mathlib.Data.List.Induction
import PersistentHarness.Model.Locks

/-! # Who holds the lock of a restart job

A lock file is there before its owner is written into it, and a lock that was judged stale is removed by name. As
long as nobody reads a lock whose live creator has still to write its record, and nobody replaces a lock between its
reading and its removal, a live worker owns the file under the lock path from its creation to its release.
-/

namespace PersistentHarness.JobLock

/-- The file that a worker created, until it has given up or released it. -/
def Pc.file? : Pc → Option ℕ
  | .writing file | .holding file | .releasing file => some file
  | _ => none

/-- The file that is about to be removed as stale. -/
def Pc.condemned : Pc → Option ℕ
  | .removing _ file => file
  | _ => none

/-- The file whose owner is looked at, and that owner. -/
def Pc.judged : Pc → Option (ℕ × ℕ)
  | .judging _ file owner => some (file, owner)
  | _ => none

/-- The creator of a lock file is alive and has not given it up. -/
def System.owns (s : System) (lock : LockFile) : Bool :=
  s.alive lock.creator && (s.pc lock.creator).file? = some lock.number

/-- A live worker holds the lock from its creation on. -/
def System.Holds (s : System) (i : ℕ) : Prop := s.alive i = true ∧ (s.pc i).file? ≠ none

/-- The record of a lock that is read is there, unless its creator is gone; and a lock that is removed as stale is the one
that was read. -/
def undisturbed (s : System) : Action → Bool
  | .advance i fails =>
    match s.pc i with
    | .reading _ => s.lock.all fun lock => (lock.owner.isSome && !fails) || !s.owns lock
    | .removing _ file => s.lock.all fun lock => file = some lock.number
    | _ => true
  | _ => true

/-- A step that removes the lock file of another worker that is alive. -/
def steals (s : System) : Action → Bool
  | .advance i fails =>
    match s.pc i with
    | .removing .. | .releasing _ => s.alive i && !fails && s.lock.any fun lock => lock.creator ≠ i && s.owns lock
    | _ => false
  | _ => false

structure Guarded (s : System) : Prop where
  owned : ∀ i file, s.alive i = true → (s.pc i).file? = some file →
    ∃ lock, s.lock = some lock ∧ lock.number = file ∧ lock.creator = i
  recorded : ∀ lock owner, s.lock = some lock → lock.owner = some owner → owner = lock.creator
  numbered : ∀ lock, s.lock = some lock → lock.number < s.next
  condemned : ∀ i file, (s.pc i).condemned = some file →
    file < s.next ∧ ∀ j, s.alive j = true → (s.pc j).file? ≠ some file
  judged : ∀ i file owner, (s.pc i).judged = some (file, owner) →
    file < s.next ∧ ∀ j, s.alive j = true → (s.pc j).file? = some file → j = owner

theorem guarded_initial : Guarded .initial where
  owned := by rintro i file _ ⟨⟩
  recorded := by rintro lock owner ⟨⟩
  numbered := by rintro lock ⟨⟩
  condemned := by rintro i file ⟨⟩
  judged := by rintro i file owner ⟨⟩

section Steps

variable {s : System} {i : ℕ} {pc : Pc}

theorem goto_pc (s : System) (i : ℕ) (pc : Pc) (j : ℕ) : (s.goto i pc).pc j = if j = i then pc else s.pc j :=
  Function.update_apply ..

theorem Guarded.goto {lock : Option LockFile} (guarded : Guarded s)
    (others : ∀ j file, j ≠ i → s.alive j = true → (s.pc j).file? = some file →
      ∃ next, lock = some next ∧ next.number = file ∧ next.creator = j)
    (owned : ∀ file, pc.file? = some file → (s.pc i).file? = some file
      ∧ (s.alive i = true → ∃ next, lock = some next ∧ next.number = file ∧ next.creator = i))
    (recorded : ∀ next owner, lock = some next → next.owner = some owner → owner = next.creator)
    (numbered : ∀ next, lock = some next → next.number < s.next)
    (condemned : ∀ file, pc.condemned = some file → file < s.next ∧ ∀ j, s.alive j = true → (s.pc j).file? ≠ some file)
    (judged : ∀ file owner, pc.judged = some (file, owner) →
      file < s.next ∧ ∀ j, s.alive j = true → (s.pc j).file? = some file → j = owner) :
    Guarded ({ s with lock }.goto i pc) := by
  have before : ∀ j file, (({ s with lock }.goto i pc).pc j).file? = some file → (s.pc j).file? = some file := by
    intro j file has
    rw [goto_pc] at has
    split at has
    · next same =>
      subst same
      exact (owned file has).1
    · exact has
  constructor
  · intro j file alive has
    rw [goto_pc] at has
    split at has
    · next same =>
      subst same
      exact (owned file has).2 alive
    · next other => exact others j file other alive has
  · exact recorded
  · exact numbered
  · intro j file found
    have held : file < s.next ∧ ∀ k, s.alive k = true → (s.pc k).file? ≠ some file := by
      rw [goto_pc] at found
      split at found
      · exact condemned file found
      · exact guarded.condemned j file found
    exact ⟨held.1, fun k alive has => held.2 k alive (before k file has)⟩
  · intro j file owner found
    have held : file < s.next ∧ ∀ k, s.alive k = true → (s.pc k).file? = some file → k = owner := by
      rw [goto_pc] at found
      split at found
      · exact judged file owner found
      · exact guarded.judged j file owner found
    exact ⟨held.1, fun k alive has => held.2 k alive (before k file has)⟩

/-- A worker that leaves the lock alone. -/
theorem Guarded.stay (guarded : Guarded s) (owned : ∀ file, pc.file? = some file → (s.pc i).file? = some file)
    (condemned : ∀ file, pc.condemned = some file → file < s.next ∧ ∀ j, s.alive j = true → (s.pc j).file? ≠ some file)
    (judged : ∀ file owner, pc.judged = some (file, owner) →
      file < s.next ∧ ∀ j, s.alive j = true → (s.pc j).file? = some file → j = owner) :
    Guarded (s.goto i pc) :=
  guarded.goto (fun j file _ => guarded.owned j file)
    (fun file has => ⟨owned file has, fun alive => guarded.owned i file alive (owned file has)⟩)
    guarded.recorded guarded.numbered condemned judged

theorem Guarded.creator (guarded : Guarded s) {lock : LockFile} (here : s.lock = some lock) {j : ℕ} (alive : s.alive j = true)
    (has : (s.pc j).file? = some lock.number) : j = lock.creator := by
  obtain ⟨other, there, -, own⟩ := guarded.owned j lock.number alive has
  cases here.symm.trans there
  exact own.symm

theorem Guarded.clear (guarded : Guarded s) {pc : Pc} (free : ∀ j file, j ≠ i → s.alive j = true → (s.pc j).file? ≠ some file)
    (owned : pc.file? = none) (condemned : pc.condemned = none) (judged : pc.judged = none) :
    Guarded ({ s with lock := none }.goto i pc) := by
  apply guarded.goto
  · exact fun j file other alive has => absurd has (free j file other alive)
  · intro file has
    cases owned.symm.trans has
  · rintro next owner ⟨⟩
  · rintro next ⟨⟩
  · intro file found
    cases condemned.symm.trans found
  · intro file owner found
    cases judged.symm.trans found

theorem Guarded.create (guarded : Guarded s) (free : s.lock = none) :
    Guarded ({ s with lock := some ⟨s.next, i, none⟩, next := s.next + 1 }.goto i (.writing s.next)) := by
  have none_ : ∀ j file, s.alive j = true → (s.pc j).file? ≠ some file := by
    intro j file alive has
    obtain ⟨lock, here, -⟩ := guarded.owned j file alive has
    cases free.symm.trans here
  have new : ∀ j file, s.alive j = true →
      (({ s with lock := some ⟨s.next, i, none⟩, next := s.next + 1 }.goto i (.writing s.next)).pc j).file? = some file →
      j = i ∧ file = s.next := by
    intro j file alive has
    rw [goto_pc] at has
    split at has
    · next same => exact ⟨same, (Option.some.inj has).symm⟩
    · exact absurd has (none_ j file alive)
  constructor
  · intro j file alive has
    obtain ⟨rfl, rfl⟩ := new j file alive has
    exact ⟨_, rfl, rfl, rfl⟩
  · rintro lock owner ⟨⟩ ⟨⟩
  · rintro lock ⟨⟩
    exact Nat.lt_succ_self _
  · intro j file found
    have old : file < s.next := by
      rw [goto_pc] at found
      split at found
      · cases found
      · exact (guarded.condemned j file found).1
    refine ⟨Nat.lt_succ_of_lt old, fun k alive has => ?_⟩
    exact absurd (new k file alive has).2 (Nat.ne_of_lt old)
  · intro j file owner found
    have old : file < s.next := by
      rw [goto_pc] at found
      split at found
      · cases found
      · exact (guarded.judged j file owner found).1
    refine ⟨Nat.lt_succ_of_lt old, fun k alive has => ?_⟩
    exact absurd (new k file alive has).2 (Nat.ne_of_lt old)

/-- The record of a worker reaches the lock file that it created. -/
theorem Guarded.write (guarded : Guarded s) {file : ℕ} (alive : s.alive i = true) (here : s.pc i = .writing file) :
    Guarded ({ s with lock := s.lock.map fun (lock : LockFile) =>
      if lock.number = file then { lock with owner := some i } else lock }.goto i (.holding file)) := by
  have mine : (s.pc i).file? = some file := by rw [here]; rfl
  obtain ⟨lock, found, rfl, own⟩ := guarded.owned i file alive mine
  have written : (s.lock.map fun (other : LockFile) => if other.number = lock.number then { other with owner := some i } else other) =
      some { lock with owner := some i } := by
    rw [found, Option.map_some, if_pos rfl]
  rw [written]
  apply guarded.goto
  · intro j file other alive has
    obtain ⟨next, there, same, own⟩ := guarded.owned j file alive has
    cases found.symm.trans there
    exact ⟨_, rfl, same, own⟩
  · rintro file ⟨⟩
    exact ⟨mine, fun _ => ⟨_, rfl, rfl, own⟩⟩
  · rintro next owner ⟨⟩ ⟨⟩
    exact own.symm
  · rintro next ⟨⟩
    exact guarded.numbered lock found
  · rintro file ⟨⟩
  · rintro file owner ⟨⟩

theorem Guarded.read (guarded : Guarded s) {attempt : ℕ} {lock : LockFile} (here : s.lock = some lock) {fails : Bool}
    (calm : ((lock.owner.isSome && !fails) || !s.owns lock) = true) :
    Guarded (match if fails then none else lock.owner with
      | none => s.goto i (.removing attempt (some lock.number))
      | some owner => s.goto i (.judging attempt lock.number owner)) := by
  have below := guarded.numbered lock here
  split
  · next unread =>
    refine guarded.stay nofun ?_ nofun
    rintro file ⟨⟩
    refine ⟨below, fun j alive has => ?_⟩
    have same := guarded.creator here alive has
    have owns : s.owns lock = true := by
      rw [System.owns, ← same, alive, has, decide_eq_true rfl]
      rfl
    have unreadable : (lock.owner.isSome && !fails) = false := by
      cases fails with
      | true => exact Bool.and_false _
      | false =>
        rw [if_neg Bool.false_ne_true] at unread
        rw [unread]
        rfl
    rw [owns, unreadable] at calm
    cases calm
  · next owner read =>
    refine guarded.stay nofun nofun ?_
    rintro file other ⟨⟩
    refine ⟨below, fun j alive has => ?_⟩
    have recorded : lock.owner = some owner := by
      cases fails with
      | true => cases read
      | false => rwa [if_neg Bool.false_ne_true] at read
    rw [guarded.recorded lock owner here recorded]
    exact guarded.creator here alive has

theorem Guarded.judge (guarded : Guarded s) {attempt file owner : ℕ} (here : s.pc i = .judging attempt file owner) :
    Guarded (if s.alive owner then s.goto i .failed else s.goto i (.removing attempt (some file))) := by
  split
  · exact guarded.stay nofun nofun nofun
  · next dead =>
    refine guarded.stay nofun ?_ nofun
    rintro _ ⟨⟩
    obtain ⟨below, only⟩ := guarded.judged i file owner (by rw [here]; rfl)
    refine ⟨below, fun j alive has => ?_⟩
    rw [only j alive has] at alive
    exact dead alive

theorem Guarded.stale (guarded : Guarded s) {attempt : ℕ} {file : Option ℕ} (here : s.pc i = .removing attempt file)
    (calm : (s.lock.all fun lock => decide (file = some lock.number)) = true) (j n : ℕ) (alive : s.alive j = true) :
    (s.pc j).file? ≠ some n := by
  intro has
  obtain ⟨lock, found, rfl, -⟩ := guarded.owned j n alive has
  rw [found, Option.all_some, decide_eq_true_eq] at calm
  have condemned := guarded.condemned i lock.number (by rw [here]; exact calm)
  exact condemned.2 j alive has

theorem Guarded.release (guarded : Guarded s) {file : ℕ} (alive : s.alive i = true) (here : s.pc i = .releasing file) (j n : ℕ)
    (other : j ≠ i) (lives : s.alive j = true) : (s.pc j).file? ≠ some n := by
  intro has
  obtain ⟨lock, found, rfl, own⟩ := guarded.owned j n lives has
  obtain ⟨mine, there, -, owned⟩ := guarded.owned i file alive (by rw [here]; rfl)
  cases found.symm.trans there
  exact other (own.symm.trans owned)

theorem advance_guarded (guarded : Guarded s) (alive : s.alive i = true) {fails : Bool}
    (calm : undisturbed s (.advance i fails) = true) : Guarded (advance s i fails) := by
  unfold advance
  unfold undisturbed at calm
  dsimp only at calm
  cases here : s.pc i with
  | opening attempt =>
    dsimp only
    split
    · exact guarded.stay nofun nofun nofun
    · split
      · next free => exact guarded.create free
      · exact guarded.stay nofun nofun nofun
  | writing file =>
    dsimp only
    split
    · exact guarded.stay nofun nofun nofun
    · exact guarded.write alive here
  | reading attempt =>
    rw [here] at calm
    dsimp only at calm ⊢
    split
    · exact guarded.stay nofun nofun nofun
    · next lock found =>
      rw [found] at calm
      exact guarded.read found calm
  | judging attempt file owner => exact guarded.judge here
  | removing attempt file =>
    rw [here] at calm
    dsimp only at calm ⊢
    split
    · exact guarded.stay nofun nofun nofun
    · split
      · exact guarded.clear (fun j n _ => guarded.stale here calm j n) rfl rfl rfl
      · exact guarded.clear (fun j n _ => guarded.stale here calm j n) rfl rfl rfl
  | releasing file =>
    dsimp only
    split
    · exact guarded.stay nofun nofun nofun
    · exact guarded.clear (guarded.release alive here) rfl rfl rfl
  | _ => exact guarded

theorem step_guarded (guarded : Guarded s) (action : Action) (calm : undisturbed s action = true) : Guarded (step s action) := by
  cases action with
  | start i =>
    unfold step
    dsimp only
    split
    · exact guarded.stay nofun nofun nofun
    · exact guarded
  | advance i fails =>
    unfold step
    dsimp only
    split
    · next alive => exact advance_guarded guarded alive calm
    · exact guarded
  | release i =>
    unfold step
    dsimp only
    split
    · next file here =>
      split
      · refine guarded.stay ?_ nofun nofun
        rintro _ ⟨⟩
        rw [here]
        rfl
      · exact guarded
    · exact guarded
  | exit i =>
    have before : ∀ j, Function.update s.alive i false j = true → s.alive j = true := by
      intro j alive
      rw [Function.update_apply] at alive
      split at alive
      · cases alive
      · exact alive
    refine ⟨fun j file alive => guarded.owned j file (before j alive), guarded.recorded, guarded.numbered, fun j file found => ?_,
      fun j file owner found => ?_⟩
    · have held := guarded.condemned j file found
      exact ⟨held.1, fun k alive => held.2 k (before k alive)⟩
    · have held := guarded.judged j file owner found
      exact ⟨held.1, fun k alive => held.2 k (before k alive)⟩

end Steps

section Runs

variable {actions : List Action}

theorem run_snoc (actions : List Action) (action : Action) : run (actions ++ [action]) = step (run actions) action := by
  rw [run, run, List.foldl_append, List.foldl_cons, List.foldl_nil]

def Undisturbed (actions : List Action) : Prop :=
  ∀ before action, before ++ [action] <+: actions → undisturbed (run before) action = true

/-- In every state at most one live worker holds the lock, and no step removes the lock file of another live worker. -/
structure Exclusive (actions : List Action) : Prop where
  single : ∀ before, before <+: actions → ∀ i j, (run before).Holds i → (run before).Holds j → i = j
  kept : ∀ before action, before ++ [action] <+: actions → steals (run before) action = false

theorem guarded_run (calm : Undisturbed actions) : Guarded (run actions) := by
  induction actions using List.reverseRecOn with
  | nil => exact guarded_initial
  | append_singleton before action ih =>
    have earlier : Undisturbed before := fun first next within => calm first next (within.trans (List.prefix_append ..))
    rw [run_snoc]
    exact step_guarded (ih earlier) action (calm before action (List.prefix_refl _))

theorem Guarded.single {s : System} (guarded : Guarded s) {i j : ℕ} (first : s.Holds i) (second : s.Holds j) : i = j := by
  obtain ⟨file, mine⟩ := Option.ne_none_iff_exists'.mp first.2
  obtain ⟨other, theirs⟩ := Option.ne_none_iff_exists'.mp second.2
  obtain ⟨lock, here, -, own⟩ := guarded.owned i file first.1 mine
  obtain ⟨again, there, -, owned⟩ := guarded.owned j other second.1 theirs
  cases here.symm.trans there
  exact own.symm.trans owned

theorem Guarded.spares {s : System} (guarded : Guarded s) {action : Action} (calm : undisturbed s action = true) :
    steals s action = false := by
  cases action with
  | advance i fails =>
    rw [← Bool.not_eq_true]
    intro taken
    have removes : s.alive i = true ∧ s.lock.any (fun lock => lock.creator ≠ i && s.owns lock) = true
        ∧ ((∃ attempt file, s.pc i = .removing attempt file) ∨ ∃ file, s.pc i = .releasing file) := by
      unfold steals at taken
      dsimp only at taken
      cases here : s.pc i with
      | removing attempt file =>
        rw [here] at taken
        simp only [Bool.and_eq_true] at taken
        exact ⟨taken.1.1, taken.2, .inl ⟨attempt, file, rfl⟩⟩
      | releasing file =>
        rw [here] at taken
        simp only [Bool.and_eq_true] at taken
        exact ⟨taken.1.1, taken.2, .inr ⟨file, rfl⟩⟩
      | _ =>
        rw [here] at taken
        cases taken
    obtain ⟨alive, found, act⟩ := removes
    obtain ⟨lock, here, held⟩ := Option.any_eq_true _ _ |>.mp found
    obtain ⟨other, owns⟩ := Bool.and_eq_true_iff.mp held
    obtain ⟨lives, has⟩ := Bool.and_eq_true_iff.mp owns
    rcases act with ⟨attempt, file, at_i⟩ | ⟨file, at_i⟩
    · unfold undisturbed at calm
      dsimp only at calm
      rw [at_i] at calm
      exact guarded.stale at_i calm lock.creator lock.number lives (of_decide_eq_true has)
    · exact guarded.release alive at_i lock.creator lock.number (of_decide_eq_true other) lives (of_decide_eq_true has)
  | _ => rfl

/-- While every step is undisturbed, at most one live worker holds the lock and nobody takes it from one. -/
theorem run_single_worker (calm : Undisturbed actions) : Exclusive actions where
  single before within := by
    have guarded := guarded_run fun first next inside => calm first next (inside.trans within)
    exact fun i j => guarded.single
  kept before action within := by
    have earlier : before <+: actions := (List.prefix_append ..).trans within
    have guarded := guarded_run fun first next inside => calm first next (inside.trans earlier)
    exact guarded.spares (calm before action within)

end Runs

section Samples

/-- Worker 1 reads the lock file of worker 0 before its record is in it. -/
def halfWritten : List Action :=
  [.start 0, .advance 0 false, .start 1] ++ List.replicate 4 (.advance 1 false) ++ [.advance 0 false, .advance 1 false]

theorem halfWritten_not_exclusive : (run halfWritten).alive 0 = true ∧ (run halfWritten).pc 0 = .holding 0
    ∧ (run halfWritten).alive 1 = true ∧ (run halfWritten).pc 1 = .holding 1 ∧ ¬Exclusive halfWritten := by
  have first : (run halfWritten).alive 0 = true ∧ (run halfWritten).pc 0 = .holding 0 := by decide
  have second : (run halfWritten).alive 1 = true ∧ (run halfWritten).pc 1 = .holding 1 := by decide
  refine ⟨first.1, first.2, second.1, second.2, fun exclusive => ?_⟩
  have same := exclusive.single halfWritten (List.prefix_refl _) 0 1 ⟨first.1, by rw [first.2]; decide⟩
    ⟨second.1, by rw [second.2]; decide⟩
  cases same

/-- Worker 0 exits while it holds the lock, and worker 1 takes it over. -/
def takeover : List Action :=
  .start 0 :: List.replicate 2 (.advance 0 false) ++ [.exit 0, .start 1] ++ List.replicate 6 (.advance 1 false)

theorem run_single_worker_sample : (run takeover).Holds 1 ∧ Exclusive takeover := by
  refine ⟨⟨by decide, by decide⟩, run_single_worker ?_⟩
  have calm : ∀ n < takeover.length, (takeover[n]?).all (undisturbed (run (takeover.take n))) = true := by decide
  rintro before action ⟨rest, whole⟩
  have here := calm before.length (by rw [← whole]; simp)
  rw [← whole] at here
  simpa using here

end Samples

end PersistentHarness.JobLock

/-! ## Who holds the instance lock

A stale lock is compared and removed in separate steps. As long as no other supervisor replaces the file in
between, a live supervisor that has linked its record owns the file under the lock path, and nobody else removes
it.
-/

namespace PersistentHarness.InstanceLock

/-- From its link to its own removal a supervisor owns the lock. -/
def Pc.owns : Pc → Bool
  | .linked | .identifying | .holding _ => true
  | .comparing .release _ | .rereading .release _ | .removing .release _ => true
  | _ => false

/-- The owner that a stale removal has found dead. -/
def Pc.condemned : Pc → Option ℕ
  | .comparing (.retry _) identity | .rereading (.retry _) identity | .removing (.retry _) identity => some identity.content
  | _ => none

/-- The record that a supervisor compares the lock with when it releases it. -/
def Pc.recorded : Pc → Option ℕ
  | .holding identity => some identity.content
  | .comparing .release identity | .rereading .release identity | .removing .release identity => some identity.content
  | _ => none

/-- A live supervisor holds the lock from its link on. -/
def System.Holds (s : System) (i : ℕ) : Prop := s.alive i = true ∧ (s.pc i).owns = true

/-- An `unlink` of a stale lock finds the file that was compared, if any. -/
def undisturbed (s : System) : Action → Bool
  | .advance i _ =>
    match s.pc i with
    | .removing (.retry _) identity => s.lock.all fun file => file.content = identity.content
    | _ => true
  | _ => true

/-- A step that removes the lock file of another supervisor that is alive. -/
def steals (s : System) : Action → Bool
  | .advance i _ =>
    match s.pc i with
    | .removing _ _ => s.alive i && s.lock.any fun file => file.content ≠ i && s.alive file.content
    | _ => false
  | _ => false

structure Guarded (s : System) : Prop where
  owned : ∀ i, s.Holds i → ∃ file, s.lock = some file ∧ file.content = i
  condemned : ∀ i owner, (s.pc i).condemned = some owner → s.alive owner = false
  recorded : ∀ i owner, (s.pc i).recorded = some owner → owner = i

theorem guarded_initial : Guarded .initial where
  owned := by rintro i ⟨_, ⟨⟩⟩
  condemned := by rintro i owner ⟨⟩
  recorded := by rintro i owner ⟨⟩

section Steps

variable {s : System} {i : ℕ} {pc : Pc}

theorem goto_pc (s : System) (i : ℕ) (pc : Pc) (j : ℕ) : (s.goto i pc).pc j = if j = i then pc else s.pc j :=
  Function.update_apply ..

theorem Guarded.goto {lock : Option LockFile} (guarded : Guarded s)
    (others : ∀ j file, j ≠ i → s.Holds j → s.lock = some file → file.content = j → ∃ file, lock = some file ∧ file.content = j)
    (owned : s.alive i = true → pc.owns = true → ∃ file, lock = some file ∧ file.content = i)
    (condemned : ∀ owner, pc.condemned = some owner → s.alive owner = false)
    (recorded : ∀ owner, pc.recorded = some owner → owner = i) : Guarded ({ s with lock }.goto i pc) where
  owned j holds := by
    obtain ⟨alive, owns⟩ := holds
    rw [goto_pc] at owns
    split at owns
    · next same =>
      subst same
      exact owned alive owns
    · next other =>
      obtain ⟨file, here, own⟩ := guarded.owned j ⟨alive, owns⟩
      exact others j file other ⟨alive, owns⟩ here own
  condemned j owner found := by
    rw [goto_pc] at found
    split at found
    · exact condemned owner found
    · exact guarded.condemned j owner found
  recorded j owner found := by
    rw [goto_pc] at found
    split at found
    · next same => exact (recorded owner found).trans same.symm
    · exact guarded.recorded j owner found

/-- A step that leaves the lock alone and does not begin to own it. -/
theorem Guarded.stay (guarded : Guarded s) (owned : pc.owns = true → (s.pc i).owns = true)
    (condemned : ∀ owner, pc.condemned = some owner → s.alive owner = false)
    (recorded : ∀ owner, pc.recorded = some owner → owner = i) : Guarded (s.goto i pc) :=
  @Guarded.goto _ _ _ s.lock guarded (fun _ file _ _ here own => ⟨file, here, own⟩) (fun alive owns => guarded.owned i ⟨alive, owned owns⟩)
    condemned recorded

/-- After `unlinkIfOwned` a supervisor owns nothing. -/
theorem next_free (caller : Caller) :
    caller.next.owns = false ∧ caller.next.condemned = none ∧ caller.next.recorded = none := by
  cases caller with
  | retry attempt =>
    by_cases more : attempt + 1 < 5
    · have again : (Caller.retry attempt).next = .linking (attempt + 1) := if_pos more
      rw [again]
      exact ⟨rfl, rfl, rfl⟩
    · have last : (Caller.retry attempt).next = .failed := if_neg more
      rw [last]
      exact ⟨rfl, rfl, rfl⟩
  | release => exact ⟨rfl, rfl, rfl⟩

theorem Guarded.leave (guarded : Guarded s) (caller : Caller) : Guarded (s.goto i caller.next) := by
  obtain ⟨owns, condemned, recorded⟩ := next_free caller
  exact guarded.stay (by simp [owns]) (by simp [condemned]) (by simp [recorded])

theorem Guarded.compare (guarded : Guarded s) {next : Caller → Identity → Pc} {caller : Caller} {identity : Identity}
    (same : (next caller identity).owns = (s.pc i).owns ∧ (next caller identity).condemned = (s.pc i).condemned
      ∧ (next caller identity).recorded = (s.pc i).recorded) : Guarded (s.goto i (next caller identity)) :=
  guarded.stay (fun owns => same.1 ▸ owns) (fun owner found => guarded.condemned i owner (same.2.1 ▸ found))
    fun owner found => guarded.recorded i owner (same.2.2 ▸ found)

/-- The owner of the file that an undisturbed removal finds is the supervisor itself, or dead. -/
theorem Guarded.finds (guarded : Guarded s) (alive : s.alive i = true) {caller : Caller} {identity : Identity}
    (here : s.pc i = .removing caller identity) {stat : Stat} (calm : undisturbed s (.advance i stat) = true)
    {file : LockFile} (found : s.lock = some file) (other : file.content ≠ i) : s.alive file.content = false := by
  cases caller with
  | retry attempt =>
    simp only [undisturbed, here, found, Option.all_some, decide_eq_true_eq] at calm
    rw [calm]
    exact guarded.condemned i identity.content (by rw [here]; rfl)
  | release =>
    obtain ⟨mine, there, same⟩ := guarded.owned i ⟨alive, by rw [here]; rfl⟩
    rw [found] at there
    cases there
    exact absurd same other

/-- Such a removal takes the lock from nobody who holds it. -/
theorem Guarded.remove (guarded : Guarded s) (alive : s.alive i = true) {caller : Caller} {identity : Identity}
    (here : s.pc i = .removing caller identity) {stat : Stat} (calm : undisturbed s (.advance i stat) = true) :
    Guarded ({ s with lock := none }.goto i caller.next) := by
  obtain ⟨owns, condemned, recorded⟩ := next_free caller
  refine guarded.goto ?_ (by simp [owns]) (by simp [condemned]) (by simp [recorded])
  intro j file other holds found own
  subst own
  have dead := guarded.finds alive here calm found other
  rw [holds.1] at dead
  cases dead

theorem advance_guarded (guarded : Guarded s) (alive : s.alive i = true) (stat : Stat)
    (calm : undisturbed s (.advance i stat) = true) : Guarded (advance s i stat) := by
  unfold advance
  split
  · next attempt here =>
    split
    · next free =>
      refine guarded.goto (fun j file _ _ found => by rw [free] at found; cases found) (fun _ _ => ⟨_, rfl, rfl⟩) ?_ ?_
      · rintro owner ⟨⟩
      · rintro owner ⟨⟩
    · exact guarded.stay (by simp [Pc.owns]) (by simp [Pc.condemned]) (by simp [Pc.recorded])
  · next here =>
    have kept : ∀ j file, s.lock = some file → file.content = j → ∃ next, s.lock.map (fun file =>
        if file.content = i then { file with stat := { file.stat with ctimeMs := stat.ctimeMs } } else file) = some next
          ∧ next.content = j := by
      intro j file found own
      refine ⟨_, by rw [found, Option.map_some], ?_⟩
      split <;> exact own
    refine guarded.goto (fun j file _ _ found own => kept j file found own) (fun _ _ => ?_) (by simp [Pc.condemned])
      (by simp [Pc.recorded])
    obtain ⟨file, found, own⟩ := guarded.owned i ⟨alive, by rw [here]; rfl⟩
    exact kept i file found own
  · next here =>
    split
    · exact guarded.stay (by simp [Pc.owns]) (by simp [Pc.condemned]) (by simp [Pc.recorded])
    · exact guarded.stay (fun _ => by rw [here]; rfl) (by simp [Pc.condemned]) (by rintro owner ⟨⟩; rfl)
  · next attempt here =>
    split
    · exact guarded.leave _
    · exact guarded.stay (by simp [Pc.owns]) (by simp [Pc.condemned]) (by simp [Pc.recorded])
  · next attempt found here =>
    split
    · exact guarded.leave _
    · exact guarded.stay (by simp [Pc.owns]) (by simp [Pc.condemned]) (by simp [Pc.recorded])
  · next attempt identity here =>
    split
    · exact guarded.stay (by simp [Pc.owns]) (by simp [Pc.condemned]) (by simp [Pc.recorded])
    · next dead =>
      refine guarded.stay (by simp [Pc.owns]) ?_ (by simp [Pc.recorded])
      rintro owner ⟨⟩
      exact Bool.not_eq_true _ ▸ dead
  · next caller identity here =>
    split
    · exact guarded.leave _
    · split
      · exact @Guarded.compare _ _ guarded .rereading _ _ (by rw [here]; cases caller <;> exact ⟨rfl, rfl, rfl⟩)
      · exact guarded.leave _
  · next caller identity here =>
    split
    · exact guarded.leave _
    · split
      · exact @Guarded.compare _ _ guarded .removing _ _ (by rw [here]; cases caller <;> exact ⟨rfl, rfl, rfl⟩)
      · exact guarded.leave _
  · next caller identity here => exact guarded.remove alive here calm
  all_goals exact guarded

/-- A step whose stale removals are undisturbed keeps the lock with its owner. -/
theorem step_guarded (guarded : Guarded s) (action : Action) (calm : undisturbed s action = true) : Guarded (step s action) := by
  cases action with
  | start i =>
    rw [step]
    split
    · exact guarded.stay (by simp [Pc.owns]) (by simp [Pc.condemned]) (by simp [Pc.recorded])
    · exact guarded
  | advance i stat =>
    rw [step]
    split
    · next alive => exact advance_guarded guarded alive stat calm
    · exact guarded
  | stop i =>
    rw [step]
    split
    · next identity here =>
      split
      · exact @Guarded.compare _ _ guarded .comparing _ _ (by rw [here]; exact ⟨rfl, rfl, rfl⟩)
      · exact guarded
    · exact guarded
  | exit i =>
    have fewer : ∀ j, Function.update s.alive i false j = true → s.alive j = true := by
      intro j alive
      rw [Function.update_apply] at alive
      split at alive
      · cases alive
      · exact alive
    refine ⟨fun j holds => guarded.owned j ⟨fewer j holds.1, holds.2⟩, fun j owner found => ?_, guarded.recorded⟩
    have dead := guarded.condemned j owner found
    rw [step, ← Bool.not_eq_true] at *
    exact fun alive => dead (fewer owner alive)

end Steps

section Runs

variable {actions : List Action}

theorem run_snoc (actions : List Action) (action : Action) : run (actions ++ [action]) = step (run actions) action := by
  rw [run, run, List.foldl_append, List.foldl_cons, List.foldl_nil]

/-- No stale removal of the run finds another file than the one it compared. -/
def Undisturbed (actions : List Action) : Prop :=
  ∀ before action, before ++ [action] <+: actions → undisturbed (run before) action = true

/-- In every state of the run at most one live supervisor holds the lock, and no step takes it from one. -/
structure Exclusive (actions : List Action) : Prop where
  single : ∀ before, before <+: actions → ∀ i j, (run before).Holds i → (run before).Holds j → i = j
  kept : ∀ before action, before ++ [action] <+: actions → steals (run before) action = false

theorem guarded_run (calm : Undisturbed actions) : Guarded (run actions) := by
  induction actions using List.reverseRecOn with
  | nil => exact guarded_initial
  | append_singleton before action ih =>
    have earlier : Undisturbed before := fun first next within => calm first next (within.trans (List.prefix_append ..))
    rw [run_snoc]
    exact step_guarded (ih earlier) action (calm before action (List.prefix_refl _))

theorem Guarded.single {s : System} (guarded : Guarded s) {i j : ℕ} (first : s.Holds i) (second : s.Holds j) : i = j := by
  obtain ⟨file, here, own⟩ := guarded.owned i first
  obtain ⟨other, there, owned⟩ := guarded.owned j second
  rw [here] at there
  cases there
  exact own.symm.trans owned

theorem Guarded.spares {s : System} (guarded : Guarded s) {action : Action} (calm : undisturbed s action = true) :
    steals s action = false := by
  cases action with
  | advance i stat =>
    rw [steals]
    split
    · next caller identity here =>
      rw [← Bool.not_eq_true, Bool.and_eq_true, Option.any_eq_true]
      rintro ⟨alive, file, found, taken⟩
      obtain ⟨other, lives⟩ := Bool.and_eq_true_iff.mp taken
      rw [guarded.finds alive here calm found (of_decide_eq_true other)] at lives
      cases lives
    · rfl
  | _ => rfl

end Runs

section Samples

def fresh (ino : ℕ) : Stat := ⟨1, ino, 0, 0⟩

/-- Supervisor 0 claims the lock and exits without releasing it. -/
def crashed : List Action := .start 0 :: List.replicate 3 (.advance 0 (fresh 0)) ++ [.exit 0]

/-- Two starters compare the stale lock; one replaces it before the other removes it. -/
def race : List Action :=
  crashed ++ [.start 1, .start 2] ++ List.replicate 6 (.advance 1 (fresh 1)) ++ List.replicate 10 (.advance 2 (fresh 2))
    ++ List.replicate 4 (.advance 1 (fresh 3))

/-- One starter alone takes the stale lock over. -/
def takeover : List Action := crashed ++ .start 1 :: List.replicate 10 (.advance 1 (fresh 1))

end Samples

end PersistentHarness.InstanceLock
