import PersistentHarness.Model.Kernel.SnapshotStore

/-! # A crash never hides the last snapshot

What the next start reads is decided by the target and by the directory beside it. `Covers` says that the two of them
answer with one complete save that is not older than the last one that returned. Each call of the file system keeps it,
whether it succeeds, fails or is the last one before the process dies.
-/

namespace PersistentHarness.Kernel.SnapshotStore

/-- A directory that one save wrote completely: its blobs in order, then its manifest. -/
def Complete (directory : Directory) (save : ℕ) : Prop :=
  ∃ count, directory.filter (· ≠ .config) = (List.range count).map (Entry.blob save) ++ [Entry.manifest save count]

/-- What a path denotes: nothing to restore, or one complete save. -/
inductive Holds : Option Directory → Option ℕ → Prop where
  | absent : Holds none none
  | config {directory : Directory} (only : configOnly directory) : Holds (some directory) none
  | snapshot {directory : Directory} {save : ℕ} (complete : Complete directory save) : Holds (some directory) (some save)

/-- The save that a start restores from: the target's, and the one beside it where the target has none. -/
def Reads (disk : Disk) (answer : Option ℕ) : Prop :=
  ∃ current earlier, Holds disk.target current ∧ (current = none → Holds disk.previous earlier) ∧
    answer = current.or earlier

/-- The answer is the last save that returned, or a later one. -/
def Covers (disk : Disk) (returned : Option ℕ) : Prop :=
  ∃ answer, Reads disk answer ∧ ∀ last, returned = some last → ∃ save, answer = some save ∧ last ≤ save

def Written (disk : Disk) (save : Save) : Prop :=
  ∃ directory, disk.temporary = some directory ∧ Complete directory save.id

/-- What the disk holds when a save reaches a call. -/
def Reached (disk : Disk) (save : Save) : Prop :=
  match save.pc with
  | .comparing => disk.temporary = some []
  | .writing written =>
    disk.temporary = some ((List.range written).map (Entry.blob save.id)) ∧ written ≤ save.blobs
  | .syncingBlobs | .describing => disk.temporary = some ((List.range save.blobs).map (Entry.blob save.id))
  | .syncingTemporary | .inspecting | .retiring | .syncingParent | .publishing => Written disk save
  | .reserving | .clearing | .holding => Written disk save ∧ Holds disk.target none
  | .removingPrevious => Written disk save ∧ ∃ other, Holds disk.target (some other)
  | .syncingPublished | .checkingPrevious | .cleaningPrevious | .cleaningHold => Holds disk.target (some save.id)
  | .making | .restoring | .discarding | .restoringAgain => True

structure Sound (s : System) : Prop where
  covered : Covers s.disk s.returned
  hold : ∀ directory, s.disk.configurationHold = some directory → configOnly directory
  older : ∀ last, s.returned = some last → last < s.calls
  working : ∀ save, s.save = some save →
    save.id < s.calls ∧ (∀ last, s.returned = some last → last < save.id) ∧ Reached s.disk save

/-! ## Directories -/

theorem Complete.not_configOnly {directory : Directory} {save : ℕ} (complete : Complete directory save) :
    configOnly directory = false := by
  obtain ⟨count, content⟩ := complete
  have member : Entry.manifest save count ∈ directory.filter (· ≠ .config) := by
    rw [content]
    exact List.mem_append_right _ (List.mem_singleton_self _)
  rw [configOnly, List.all_eq_false]
  exact ⟨_, List.mem_of_mem_filter member, by simp⟩

theorem Complete.hasManifest {directory : Directory} {save : ℕ} (complete : Complete directory save) :
    hasManifest directory = true := by
  obtain ⟨count, content⟩ := complete
  have member : Entry.manifest save count ∈ directory.filter (· ≠ .config) := by
    rw [content]
    exact List.mem_append_right _ (List.mem_singleton_self _)
  exact List.any_eq_true.2 ⟨_, List.mem_of_mem_filter member, rfl⟩

theorem not_hasManifest {directory : Directory} (only : configOnly directory = true) :
    hasManifest directory = false := by
  rw [hasManifest, List.any_eq_false]
  intro entry member
  have same : entry = .config := by simpa using List.all_eq_true.1 only entry member
  rw [same]
  decide

theorem complete_described (save count : ℕ) :
    Complete ((List.range count).map (Entry.blob save) ++ [Entry.manifest save count]) save := by
  refine ⟨count, List.filter_eq_self.2 ?_⟩
  intro entry member
  rcases List.mem_append.1 member with blob | manifest
  · obtain ⟨index, _, same⟩ := List.mem_map.1 blob
    rw [← same]
    rfl
  · rw [List.mem_singleton.1 manifest]
    rfl

theorem Complete.unique {directory : Directory} {first second : ℕ} (one : Complete directory first)
    (other : Complete directory second) : first = second := by
  obtain ⟨_, content⟩ := one
  obtain ⟨_, content'⟩ := other
  have last := congrArg List.getLast? (content.symm.trans content')
  simp only [List.getLast?_append, List.getLast?_singleton, Option.some_or, Option.some.injEq,
    Entry.manifest.injEq] at last
  exact last.1

theorem Holds.unique {path : Option Directory} {first second : Option ℕ} (one : Holds path first)
    (other : Holds path second) : first = second := by
  cases one with
  | absent => cases other; rfl
  | config only =>
    cases other with
    | config => rfl
    | snapshot complete => rw [complete.not_configOnly] at only; cases only
  | snapshot complete =>
    cases other with
    | config only => rw [complete.not_configOnly] at only; cases only
    | snapshot complete' => rw [complete.unique complete']

/-- A path that a rename may replace has no snapshot. -/
theorem Holds.of_free {path : Option Directory} (empty : free path = true) : Holds path none := by
  cases path with
  | none => exact .absent
  | some directory =>
    apply Holds.config
    rw [List.isEmpty_iff.1 empty]
    rfl

theorem Holds.absent_or_config {path : Option Directory} (nothing : Holds path none) {directory : Directory}
    (present : path = some directory) : configOnly directory = true := by
  subst present
  cases nothing
  assumption

theorem Holds.complete {path : Option Directory} {save : ℕ} (found : Holds path (some save)) :
    ∃ directory, path = some directory ∧ Complete directory save := by
  cases found with
  | snapshot complete => exact ⟨_, rfl, complete⟩

/-- The start makes a missing directory and may write its configuration. -/
theorem Holds.restarted {path : Option Directory} {answer : Option ℕ} (holds : Holds path answer) (config : Bool) :
    Holds (some (if config && .config ∉ path.getD [] then path.getD [] ++ [.config] else path.getD [])) answer := by
  have grown : Holds (some (path.getD [])) answer := by
    cases holds with
    | absent => exact .config rfl
    | config only => exact .config only
    | snapshot complete => exact .snapshot complete
  split
  · generalize path.getD [] = directory at grown
    cases grown with
    | config only =>
      apply Holds.config
      rw [configOnly, List.all_append, Bool.and_eq_true]
      exact ⟨only, rfl⟩
    | snapshot complete =>
      obtain ⟨count, content⟩ := complete
      refine .snapshot ⟨count, ?_⟩
      rw [List.filter_append, content]
      exact List.append_nil _
  · exact grown

/-! ## What the next start reads -/

theorem Reads.directory {disk : Disk} {answer : Option ℕ} (reads : Reads disk answer) :
    (answer = none → ∀ directory, readDirectory disk = some directory → configOnly directory) ∧
      ∀ save, answer = some save → ∃ directory, readDirectory disk = some directory ∧ Complete directory save := by
  obtain ⟨current, earlier, target, previous, rfl⟩ := reads
  cases current with
  | none =>
    have beside : readDirectory disk = disk.previous := by
      unfold readDirectory
      cases present : disk.target with
      | none => rfl
      | some directory =>
        have only := target.absent_or_config present
        simp only [not_hasManifest only, only, Bool.not_false, Bool.and_self, if_true]
    rw [beside, Option.none_or]
    constructor
    · rintro rfl directory present
      exact (previous rfl).absent_or_config present
    · rintro save rfl
      exact (previous rfl).complete
  | some save =>
    obtain ⟨directory, present, complete⟩ := target.complete
    constructor
    · intro nothing
      cases nothing
    · intro other same
      cases same
      refine ⟨directory, ?_, complete⟩
      simp only [readDirectory, present, complete.hasManifest, Bool.not_true, Bool.false_and, Bool.false_eq_true,
        if_false]

/-- A complete target answers, whatever stands beside it. -/
theorem Covers.of_target {disk : Disk} {returned : Option ℕ} {save : ℕ} (target : Holds disk.target (some save))
    (later : ∀ last, returned = some last → last ≤ save) : Covers disk returned :=
  ⟨some save, ⟨some save, none, target, nofun, rfl⟩, fun last known => ⟨save, rfl, later last known⟩⟩

theorem Covers.later {disk : Disk} {returned : Option ℕ} (covered : Covers disk returned) {save : ℕ}
    (target : Holds disk.target (some save)) : ∀ last, returned = some last → last ≤ save := by
  obtain ⟨_, ⟨current, earlier, holds, _, rfl⟩, later⟩ := covered
  intro last known
  obtain ⟨other, same, le⟩ := later last known
  cases holds.unique target
  cases same
  exact le

/-- `rmtree` of the directory beside a complete target. -/
theorem Covers.clearPrevious {disk : Disk} {returned : Option ℕ} (covered : Covers disk returned) {save : ℕ}
    (target : Holds disk.target (some save)) (left : Option Directory) :
    Covers { disk with previous := left } returned :=
  Covers.of_target target (covered.later target)

/-- `os.replace(target, previous)`. -/
theorem Covers.retire {disk : Disk} {returned : Option ℕ} (covered : Covers disk returned)
    (room : free disk.previous = true) : Covers { disk with target := none, previous := disk.target } returned := by
  obtain ⟨_, ⟨current, earlier, target, previous, rfl⟩, later⟩ := covered
  refine ⟨current.or earlier, ⟨none, current, .absent, fun _ => target, ?_⟩, later⟩
  cases current with
  | none => exact (previous rfl).unique (.of_free room)
  | some save => rfl

/-- A target without a snapshot is moved away. -/
theorem Covers.hold {disk : Disk} {returned : Option ℕ} (covered : Covers disk returned)
    (target : Holds disk.target none) (hold : Option Directory) :
    Covers { disk with target := none, configurationHold := hold } returned := by
  obtain ⟨_, ⟨current, earlier, holds, previous, rfl⟩, later⟩ := covered
  cases holds.unique target
  exact ⟨none.or earlier, ⟨none, earlier, .absent, previous, rfl⟩, later⟩

/-- The moves that bring back the old directories. -/
theorem Covers.rollback {disk : Disk} {returned : Option ℕ} (covered : Covers disk returned)
    (hold : ∀ directory, disk.configurationHold = some directory → configOnly directory) (save : Save) :
    Covers (rollback disk save) returned := by
  unfold SnapshotStore.rollback
  split
  next restored =>
    obtain ⟨_, ⟨current, earlier, holds, previous, rfl⟩, later⟩ := covered
    have absent : disk.target = none := by
      rw [Bool.and_eq_true] at restored
      exact Option.isNone_iff_eq_none.1 restored.2
    obtain ⟨directory, present⟩ : ∃ directory, disk.configurationHold = some directory := by
      rw [Bool.and_eq_true, Bool.and_eq_true] at restored
      exact Option.isSome_iff_exists.1 restored.1.2
    rw [absent] at holds
    cases holds
    refine ⟨none.or earlier, ⟨none, earlier, ?_, previous, rfl⟩, later⟩
    show Holds disk.configurationHold none
    rw [present]
    exact .config (hold directory present)
  next =>
    split
    next restored =>
      obtain ⟨_, ⟨current, earlier, holds, previous, rfl⟩, later⟩ := covered
      have absent : disk.target = none := by
        rw [Bool.and_eq_true] at restored
        exact Option.isNone_iff_eq_none.1 restored.2
      rw [absent] at holds
      cases holds
      refine ⟨none.or earlier, ⟨earlier, none, previous rfl, fun _ => .absent, ?_⟩, later⟩
      rw [Option.none_or, Option.or_none]
    next => exact covered

theorem rollback_hold {disk : Disk} {directory : Directory} (save : Save)
    (present : (rollback disk save).configurationHold = some directory) : disk.configurationHold = some directory := by
  unfold rollback at present
  split at present
  · cases present
  · split at present <;> exact present

/-! ## The calls of one save -/

/-- The publication begins with `fsync` of the parent where the save is durable. -/
theorem reached_publication {disk : Disk} {save : Save} (written : Written disk save) :
    Reached disk { save with pc := if save.durable then .syncingParent else .publishing } := by
  cases save.durable <;> exact written

namespace Sound

variable {s : System} {save : Save}

/-- The save goes to a call whose state the disk already has. -/
theorem goesTo (sound : Sound s) (running : s.save = some save) {pc : Pc} (reached : Reached s.disk { save with pc }) :
    Sound (s.goesTo save pc) where
  covered := sound.covered
  hold := sound.hold
  older := sound.older
  working := by
    rintro _ ⟨⟩
    exact ⟨(sound.working save running).1, (sound.working save running).2.1, reached⟩

theorem moves (sound : Sound s) (running : s.save = some save) {disk : Disk} {next : Save} (same : next.id = save.id)
    (covered : Covers disk s.returned)
    (hold : ∀ directory, disk.configurationHold = some directory → configOnly directory)
    (reached : Reached disk next) : Sound { s with disk, save := some next } where
  covered := covered
  hold := hold
  older := sound.older
  working := by
    rintro _ ⟨⟩
    rw [same]
    exact ⟨(sound.working save running).1, (sound.working save running).2.1, reached⟩

theorem gives_up (sound : Sound s) : Sound { s with save := none } where
  covered := sound.covered
  hold := sound.hold
  older := sound.older
  working := nofun

theorem returns (sound : Sound s) (running : s.save = some save) (published : Holds s.disk.target (some save.id))
    {hold : Option Directory} (held : ∀ directory, hold = some directory → configOnly directory) :
    Sound { s with disk := { s.disk with configurationHold := hold }, save := none, returned := some save.id } where
  covered := by
    apply Covers.of_target published
    rintro last ⟨⟩
    exact le_refl _
  hold := held
  older := by
    rintro last ⟨⟩
    exact (sound.working save running).1
  working := nofun

/-- The save of a process that died is gone. -/
theorem restart (sound : Sound s) (config : Bool) : Sound (s.step (.restart config)) := by
  unfold System.step
  dsimp only
  split
  · exact sound
  · obtain ⟨answer, ⟨current, earlier, target, previous, same⟩, later⟩ := sound.covered
    exact ⟨⟨answer, ⟨current, earlier, target.restarted config, previous, same⟩, later⟩, sound.hold, sound.older, nofun⟩

theorem fails (sound : Sound s) (running : s.save = some save) : Sound (s.fails save) := by
  have reached := (sound.working save running).2.2
  unfold System.fails
  split
  next => exact sound.gives_up
  next => exact sound.gives_up
  next => exact sound.goesTo running trivial
  next => exact sound.goesTo running trivial
  next => exact sound.goesTo running trivial
  next => exact sound.goesTo running trivial
  next => exact sound.gives_up
  next at_pc =>
    rw [Reached, at_pc] at reached
    exact sound.goesTo running reached
  next at_pc =>
    rw [Reached, at_pc] at reached
    exact sound.returns running reached sound.hold
  next => exact sound.goesTo running trivial

/-- The outcome of an `rmtree` that stops early. -/
theorem leaves (sound : Sound s) (running : s.save = some save) (left : Directory) :
    Sound (s.leaves save left) := by
  obtain ⟨issued, later, reached⟩ := sound.working save running
  have cleared {other : ℕ} (target : Holds s.disk.target (some other))
      (reached' : Reached { s.disk with previous := some left } save) :
      Sound { s with disk := { s.disk with previous := some left } } := by
    have kept := sound.moves running rfl (sound.covered.clearPrevious target (some left)) sound.hold reached'
    rw [← running] at kept
    exact kept
  unfold System.leaves
  split
  next previous at_pc _ =>
    split
    · rw [Reached, at_pc] at reached
      obtain ⟨written, other, target⟩ := reached
      refine (cleared target ?_).fails running
      rw [Reached, at_pc]
      exact ⟨written, other, target⟩
    · exact sound
  next previous at_pc _ =>
    split
    · rw [Reached, at_pc] at reached
      refine (cleared reached ?_).fails running
      rw [Reached, at_pc]
      exact reached
    · exact sound
  next => exact sound.fails running

/-- The entries of the target and the directory beside it decide which moves come first. -/
theorem inspects (sound : Sound s) (running : s.save = some save) (written : Written s.disk save) :
    Sound (match s.disk.target with
      | none => s.goesTo save (if save.durable then .syncingParent else .publishing)
      | some target =>
        if s.disk.previous.isSome && configOnly target then s.goesTo save .reserving
        else s.goesTo save (if s.disk.previous.isSome then .removingPrevious else .retiring)) := by
  split
  next => exact sound.goesTo running (reached_publication written)
  next target present =>
    split
    next reserved =>
      rw [Bool.and_eq_true] at reserved
      apply sound.goesTo running
      refine ⟨written, ?_⟩
      rw [present]
      exact .config reserved.2
    next kept =>
      apply sound.goesTo running
      cases beside : s.disk.previous with
      | none => exact written
      | some previous =>
        refine ⟨written, ?_⟩
        rw [beside, Option.isSome_some, Bool.true_and] at kept
        obtain ⟨_, ⟨current, _, holds, _⟩, _⟩ := sound.covered
        cases current with
        | none => exact absurd (holds.absent_or_config present) kept
        | some other => exact ⟨other, holds⟩

theorem succeeds (sound : Sound s) (running : s.save = some save) : Sound (s.succeeds save) := by
  obtain ⟨issued, later, reached⟩ := sound.working save running
  unfold System.succeeds
  dsimp only
  split
  next => exact sound.moves running rfl sound.covered sound.hold rfl
  next at_pc =>
    rw [Reached, at_pc] at reached
    exact sound.goesTo running ⟨reached, Nat.zero_le _⟩
  next written at_pc =>
    rw [Reached, at_pc] at reached
    obtain ⟨content, bounded⟩ := reached
    split
    next more =>
      refine sound.moves running rfl sound.covered sound.hold ⟨?_, more⟩
      rw [content, List.range_succ, List.map_append]
      rfl
    next enough =>
      have all : written = save.blobs := by omega
      rw [all] at content
      apply sound.goesTo running
      by_cases durable : save.durable <;> simp only [durable, Reached] <;> exact content
  next at_pc =>
    rw [Reached, at_pc] at reached
    exact sound.goesTo running reached
  next at_pc =>
    rw [Reached, at_pc] at reached
    have written : Written
        { s.disk with temporary := s.disk.temporary.map (· ++ [Entry.manifest save.id save.blobs]) } save := by
      refine ⟨_, by rw [reached]; rfl, complete_described save.id save.blobs⟩
    refine sound.moves running rfl sound.covered sound.hold ?_
    by_cases durable : save.durable <;> simp only [durable, Reached] <;> exact written
  next at_pc =>
    rw [Reached, at_pc] at reached
    exact sound.goesTo running reached
  next at_pc =>
    rw [Reached, at_pc] at reached
    exact sound.inspects running reached
  next at_pc =>
    rw [Reached, at_pc] at reached
    refine sound.moves running rfl sound.covered ?_ reached
    rintro _ ⟨⟩
    rfl
  next at_pc =>
    rw [Reached, at_pc] at reached
    exact sound.moves running rfl sound.covered nofun reached
  next at_pc =>
    rw [Reached, at_pc] at reached
    refine sound.moves running rfl (sound.covered.hold reached.2 _) ?_ (reached_publication reached.1)
    intro directory present
    exact reached.2.absent_or_config present
  next at_pc =>
    rw [Reached, at_pc] at reached
    obtain ⟨written, other, target⟩ := reached
    exact sound.moves running rfl (sound.covered.clearPrevious target none) sound.hold written
  next at_pc =>
    split
    next room =>
      rw [Reached, at_pc] at reached
      exact sound.moves running rfl (sound.covered.retire room) sound.hold (reached_publication reached)
    next => exact sound.fails running
  next at_pc =>
    rw [Reached, at_pc] at reached
    exact sound.goesTo running reached
  next at_pc =>
    split
    next =>
      rw [Reached, at_pc] at reached
      obtain ⟨directory, filled, complete⟩ := reached
      have published : Holds s.disk.temporary (some save.id) := by
        rw [filled]
        exact .snapshot complete
      refine sound.moves running rfl (.of_target published fun last known => le_of_lt (later last known)) sound.hold ?_
      cases save.durable <;> exact published
    next => exact sound.fails running
  next at_pc =>
    rw [Reached, at_pc] at reached
    exact sound.goesTo running reached
  next =>
    exact sound.moves running rfl (sound.covered.rollback sound.hold save)
      (fun directory present => sound.hold directory (rollback_hold save present)) trivial
  next => exact sound.moves running rfl sound.covered sound.hold trivial
  next =>
    have same : ({ save with pc := .restoringAgain } : Save).id = save.id := rfl
    have restored := sound.moves running same (sound.covered.rollback sound.hold save)
      (fun directory present => sound.hold directory (rollback_hold save present)) trivial
    exact restored.gives_up
  next at_pc =>
    rw [Reached, at_pc] at reached
    exact sound.goesTo running reached
  next at_pc =>
    rw [Reached, at_pc] at reached
    exact sound.moves running rfl (sound.covered.clearPrevious reached none) sound.hold reached
  next at_pc =>
    rw [Reached, at_pc] at reached
    split
    · exact sound.returns running reached nofun
    · exact sound.returns running reached sound.hold

theorem step (sound : Sound s) (event : Event) : Sound (s.step event) := by
  cases event with
  | call durable blobs =>
    unfold System.step
    dsimp only
    split
    · refine ⟨sound.covered, sound.hold, ?_, ?_⟩
      · intro last known
        exact Nat.lt_succ_of_lt (sound.older last known)
      · rintro _ ⟨⟩
        exact ⟨Nat.lt_succ_self _, sound.older, trivial⟩
    · exact sound
  | step outcome =>
    unfold System.step
    dsimp only
    split
    next running =>
      cases outcome with
      | done => exact sound.succeeds running
      | fails => exact sound.fails running
      | leaves left => exact sound.leaves running left
    next => exact sound
  | die => exact ⟨sound.covered, sound.hold, sound.older, nofun⟩
  | restart config => exact sound.restart config

theorem initial : Sound System.initial where
  covered := ⟨none, ⟨none, none, .absent, fun _ => .absent, rfl⟩, nofun⟩
  hold := nofun
  older := nofun
  working := nofun

theorem run (sound : Sound s) (events : List Event) : Sound (s.run events) := by
  induction events generalizing s with
  | nil => exact sound
  | cons event rest ih => exact ih (sound.step event)

end Sound

/-- After any calls of `save_snapshot`, with failures, deaths and restarts between any two calls of the file system, the
directory that the next start reads was written completely by one save, or no save is there at all; and the last save
that returned is that save or an older one. -/
theorem crash_safe (events : List Event) :
    (∀ directory, readDirectory (System.initial.run events).disk = some directory →
      configOnly directory ∨ ∃ save, Complete directory save) ∧
    ∀ last, (System.initial.run events).returned = some last →
      ∃ directory save, readDirectory (System.initial.run events).disk = some directory ∧ Complete directory save ∧
        last ≤ save := by
  obtain ⟨answer, reads, later⟩ := (Sound.initial.run events).covered
  constructor
  · intro directory present
    cases answer with
    | none => exact .inl (reads.directory.1 rfl directory present)
    | some save =>
      obtain ⟨_, present', complete⟩ := reads.directory.2 save rfl
      cases present.symm.trans present'
      exact .inr ⟨save, complete⟩
  · intro last known
    obtain ⟨save, rfl, le⟩ := later last known
    obtain ⟨directory, present, complete⟩ := reads.directory.2 save rfl
    exact ⟨directory, save, present, complete, le⟩

end PersistentHarness.Kernel.SnapshotStore
