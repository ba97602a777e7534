import PersistentHarness.Model.HostFiles

/-! # Publishing a file

Up to the rename or the link every step leaves the destination alone, and from there on every step leaves the new file alone. The
temporary name is given up on every path.
-/

namespace PersistentHarness.HostFiles

open Effect (Relates Spec raise attempt settle rethrow ensuring require get modify Ends)

/-! ## Steps that change nothing -/

/-- No file, and no variable that a handler reads, is changed between two states. -/
structure Rests (s t : World) : Prop where
  process : t.process = s.process
  files : t.files = s.files
  temp : t.temp = s.temp
  committed : t.committed = s.committed
  unremoved : t.unremoved = s.unremoved
  trace : ∀ files ∈ t.trace, files ∈ s.trace ∨ files = s.files

namespace Rests

theorem refl (s : World) : Rests s s := ⟨rfl, rfl, rfl, rfl, rfl, fun _ member => .inl member⟩

theorem trans (s t u : World) (first : Rests s t) (second : Rests t u) : Rests s u where
  process := second.process.trans first.process
  files := second.files.trans first.files
  temp := second.temp.trans first.temp
  committed := second.committed.trans first.committed
  unremoved := second.unremoved.trans first.unremoved
  trace files member := by
    rcases second.trace files member with earlier | same
    · exact first.trace files earlier
    · exact .inr (same.trans first.files)

theorem next (s : World) : Rests s (s.next s.files) where
  process := rfl
  files := rfl
  temp := rfl
  committed := rfl
  unremoved := rfl
  trace files member := by
    rcases List.mem_append.mp member with earlier | last
    · exact .inl earlier
    · exact .inr (List.mem_singleton.mp last)

end Rests

/-- A computation that changes nothing. -/
abbrev Resting {ε α : Type} (x : Effect World ε α) : Prop := Relates Rests x

section Resting

variable {α β : Type} {x : M α}

theorem resting_bind {f : α → M β} (first : Resting x) (rest : ∀ a, Resting (f a)) : Resting (x >>= f) :=
  Relates.bind Rests.trans first rest

theorem resting_pure (a : α) : Resting (pure a : M α) := Relates.pure Rests.refl a

theorem resting_raise (e : Failure) : Resting (raise e : M α) := Relates.raise Rests.refl e

theorem resting_require (condition : Prop) [Decidable condition] (e : Failure) : Resting (require condition e : M PUnit) :=
  Relates.require Rests.refl condition e

theorem resting_attempt (keeps : Resting x) : Resting (attempt x) := keeps

theorem resting_rethrow (keeps : Resting x) (f : Failure → Failure) : Resting (rethrow x f) := keeps

theorem resting_settle (r : Except Failure α) : Resting (settle r : M α) := Relates.settle Rests.refl r

theorem resting_ensuring {last : M PUnit} (keeps : Resting x) (lastKeeps : Resting last) : Resting (ensuring x last) :=
  Relates.ensuring Rests.refl Rests.trans keeps lastKeeps

theorem resting_ite {condition : Prop} [Decidable condition] {y : M α} (first : Resting x) (second : Resting y) :
    Resting (if condition then x else y) := by
  split
  · exact first
  · exact second

theorem resting_look (find : Reply → Files → Except SystemError α) : Resting (look find) := by
  intro w
  unfold look call
  dsimp only
  split
  · exact Rests.next w
  · exact Rests.next w

theorem resting_touch : Resting touch := resting_look _

theorem resting_throwIfAborted : Resting throwIfAborted := fun w => Rests.next w

theorem resting_procFdChild (name : JsString) : Resting (procFdChild name) := resting_require _ _

theorem resting_ignoring (ignored : Failure → Bool) {x : M PUnit} (keeps : Resting x) : Resting (ignoring ignored x) := by
  apply resting_bind (resting_attempt keeps)
  intro ended
  cases ended with
  | ok a => exact resting_pure _
  | error e => exact resting_require _ _

theorem resting_syncDirectory : Resting syncDirectory := resting_ignoring _ resting_touch

theorem resting_makeDirectory : Resting makeDirectory :=
  resting_ignoring _ (resting_bind resting_touch fun _ => resting_syncDirectory)

theorem resting_openChild (create : Bool) (component : JsString) : Resting (openChild create component) := by
  apply resting_bind (resting_attempt resting_touch)
  intro ended
  cases ended with
  | ok a => exact resting_pure _
  | error e =>
    apply resting_ite (resting_raise _)
    exact resting_bind resting_makeDirectory fun _ => resting_rethrow resting_touch _

theorem resting_closingAfter {x : M PUnit} (keeps : Resting x) : Resting (closingAfter x) := by
  apply resting_bind (resting_attempt keeps)
  intro ended
  cases ended with
  | ok a => exact resting_pure _
  | error e => exact resting_bind (resting_attempt resting_touch) fun _ => resting_raise _

theorem resting_openComponents (create : Bool) (components : List JsString) : Resting (openComponents create components) := by
  induction components with
  | nil => exact resting_pure _
  | cons component rest ih =>
    apply resting_bind _ fun _ => ih
    apply resting_bind (resting_procFdChild component)
    intro _
    exact resting_bind (resting_openChild create component) fun _ => resting_closingAfter resting_touch

theorem resting_openAnchoredDirectory (create : Bool) (directoryPath : List JsString) :
    Resting (openAnchoredDirectory create directoryPath) :=
  resting_bind resting_touch fun _ => resting_closingAfter (resting_openComponents create directoryPath)

theorem resting_readFrom (inode : Inode) (length fuel : ℕ) (buffer : Bytes) :
    Resting (readFrom inode length fuel buffer) := by
  induction fuel generalizing buffer with
  | zero => exact resting_pure _
  | succ fuel ih =>
    apply resting_ite _ (resting_pure _)
    exact resting_bind (resting_look _) fun bytes => resting_ite (resting_pure _) (ih _)

theorem resting_readBoundedHandle (inode : Inode) (maximumBytes : ℕ) : Resting (readBoundedHandle inode maximumBytes) :=
  resting_bind (resting_readFrom _ _ _ _) fun _ => resting_bind (resting_require _ _) fun _ => resting_pure _

theorem resting_readOpened (inode : Inode) (leafStat : Stat) : Resting (readOpened inode leafStat) := by
  apply resting_bind (resting_look _)
  intro before
  apply resting_bind (resting_require _ _)
  intro _
  apply resting_bind (resting_require _ _)
  intro _
  apply resting_bind (resting_require _ _)
  intro _
  apply resting_bind (resting_readBoundedHandle _ _)
  intro content
  apply resting_bind (resting_look _)
  intro after
  exact resting_bind (resting_require _ _) fun _ => resting_pure _

theorem resting_readRegularSnapshot : Resting readRegularSnapshot := by
  apply resting_bind (resting_attempt (resting_look _))
  intro ended
  cases ended with
  | error e => exact resting_ite (resting_pure _) (resting_raise _)
  | ok leafStat =>
    apply resting_bind (resting_require _ _)
    intro _
    apply resting_bind (resting_require _ _)
    intro _
    apply resting_bind (resting_rethrow (resting_look _) _)
    intro inode
    exact resting_bind (resting_ensuring (resting_readOpened inode leafStat) resting_touch) fun _ => resting_pure _

variable (operation : JsString)

theorem resting_assertTempPathIdentity (temp : OwnedTemp) : Resting (assertTempPathIdentity operation temp) := by
  apply resting_bind (resting_rethrow (resting_look _) _)
  intro pathStat
  apply resting_bind (resting_look _)
  intro current
  exact resting_bind (resting_require _ _) fun _ => resting_pure _

theorem resting_assertTempUnchanged (temp : OwnedTemp) : Resting (assertTempUnchanged operation temp) := by
  apply resting_bind (resting_assertTempPathIdentity operation temp)
  intro before
  apply resting_bind (resting_readBoundedHandle _ _)
  intro content
  exact resting_bind (resting_look _) fun after => resting_require _ _

theorem resting_assertSameParent : Resting (assertSameParent operation) :=
  resting_bind (resting_look _) fun _ => resting_bind (resting_look _) fun _ => resting_require _ _

theorem resting_withParent (parentPath : List JsString) {check : M PUnit} (keeps : Resting check) :
    Resting (withParent operation parentPath check) := by
  apply resting_bind (resting_attempt (resting_openAnchoredDirectory false parentPath))
  intro ended
  cases ended with
  | error e => exact resting_raise _
  | ok a =>
    apply resting_bind (resting_attempt keeps)
    intro checked
    exact resting_bind (resting_attempt resting_touch) fun _ => resting_rethrow (resting_settle checked) _

theorem resting_assertReplacementSourceUnchanged (parentPath : List JsString) (leafName : JsString) (source : Snapshot) :
    Resting (assertReplacementSourceUnchanged operation parentPath leafName source) := by
  apply resting_withParent
  apply resting_bind (resting_assertSameParent operation)
  intro _
  have found : Resting (do procFdChild leafName; readRegularSnapshot) :=
    resting_bind (resting_procFdChild leafName) fun _ => resting_readRegularSnapshot
  exact resting_bind (resting_rethrow found _) fun current => resting_require _ _

theorem resting_assertPublishedFile (leafName : JsString) (temp : OwnedTemp) :
    Resting (assertPublishedFile operation leafName temp) := by
  apply resting_bind (resting_procFdChild leafName)
  intro _
  apply resting_bind (resting_look _)
  intro published
  apply resting_bind (resting_look _)
  intro before
  apply resting_bind (resting_require _ _)
  intro _
  apply resting_bind (resting_readBoundedHandle _ _)
  intro content
  exact resting_bind (resting_look _) fun after => resting_require _ _

variable (request : Request α) (source : Option Snapshot) (temp : OwnedTemp)

theorem resting_syncParents : Resting (syncParents request source) := by
  apply resting_bind (resting_look _)
  intro expectedParent
  apply resting_bind (resting_look _)
  intro currentParent
  apply resting_bind resting_syncDirectory
  intro _
  apply resting_ite (resting_pure _)
  exact resting_bind resting_syncDirectory fun _ => resting_require _ _

theorem resting_verifyPublished : Resting (verifyPublished request source temp) := by
  apply resting_bind (resting_openAnchoredDirectory false request.parentPath)
  intro _
  apply resting_ensuring _ resting_touch
  exact resting_bind (resting_syncParents request source) fun _ => resting_assertPublishedFile _ _ temp

theorem resting_assertUnpublished : Resting (assertUnpublished request source temp) := by
  apply resting_bind resting_throwIfAborted
  intro _
  apply resting_bind (resting_assertTempUnchanged request.operation temp)
  intro _
  have place : Resting (assertPlaceUnchanged request source) := by
    cases source with
    | none => exact resting_withParent _ _ (resting_assertSameParent request.operation)
    | some source => exact resting_assertReplacementSourceUnchanged _ _ _ source
  apply resting_bind place
  intro _
  exact resting_bind (resting_assertTempPathIdentity request.operation temp) fun _ => resting_throwIfAborted

theorem resting_admitSource : Resting (admitSource request) := by
  apply resting_bind resting_readRegularSnapshot
  intro source
  apply resting_bind (resting_require _ _)
  intro _
  apply resting_bind (resting_require _ _)
  intro _
  exact resting_bind (resting_require _ _) fun _ => resting_pure _

theorem resting_openParent : Resting (openParent request) := by
  apply resting_bind resting_throwIfAborted
  intro _
  apply resting_bind (resting_openAnchoredDirectory request.createParents request.parentPath)
  intro _
  exact resting_procFdChild request.leafName

end Resting

/-! ## What is read -/

/-- A computation that keeps the files, and what its value says about them. -/
abbrev Reading {α : Type} (files : Files) (x : M α) (fact : α → Prop) : Prop :=
  Spec (fun w => w.files = files) x (fun a w => w.files = files ∧ fact a) fun _ w => w.files = files

section Reading

variable {α β : Type} {files : Files} {x : M α} {fact : α → Prop}

theorem reading_bind {f : α → M β} {result : β → Prop} (first : Reading files x fact)
    (rest : ∀ a, fact a → Reading files (f a) result) : Reading files (x >>= f) result := by
  apply Spec.bind first
  intro a w found
  exact rest a found.2 w found.1

theorem reading_of_resting (keeps : Resting x) : Reading files x fun _ => True := by
  have kept := keeps.spec (P := fun w => w.files = files) (Q := fun w => w.files = files)
    fun s t rests same => rests.files.trans same
  exact kept.weaken (fun _ _ same => ⟨same, trivial⟩) fun _ _ same => same

theorem reading_pure {a : α} (holds : fact a) : Reading files (pure a) fact := Spec.pure fun _ same => ⟨same, holds⟩

theorem reading_raise (e : Failure) : Reading files (raise e) fact := Spec.raise fun _ same => same

theorem reading_require (condition : Prop) [Decidable condition] (e : Failure) :
    Reading files (require condition e) fun _ => condition :=
  Spec.require (fun holds _ same => ⟨same, holds⟩) fun _ _ same => same

theorem reading_look (find : Reply → Files → Except SystemError α) :
    Reading files (look find) fun a => ∃ reply, find reply files = .ok a := by
  rintro w rfl
  unfold look call
  dsimp only
  cases (w.replies w.calls).failure with
  | some error => exact rfl
  | none =>
    cases found : find (w.replies w.calls) w.files with
    | error e => exact rfl
    | ok a => exact ⟨rfl, _, found⟩

theorem reading_attempt (reads : Reading files x fact) : Reading files (attempt x) fun r => ∀ a, r = .ok a → fact a := by
  apply Spec.attempt
  apply reads.weaken
  · intro a w found
    refine ⟨found.1, fun b same => ?_⟩
    rw [← Except.ok.inj same]
    exact found.2
  · intro e w same
    refine ⟨same, fun b other => ?_⟩
    cases other

theorem reading_rethrow (reads : Reading files x fact) (f : Failure → Failure) : Reading files (rethrow x f) fact :=
  Spec.rethrow reads

theorem reading_ensuring {last : M PUnit} (reads : Reading files x fact) (lastKeeps : Resting last) :
    Reading files (ensuring x last) fact := by
  apply reading_bind (reading_attempt reads)
  intro ended facts
  apply reading_bind (reading_of_resting lastKeeps)
  intro _ _
  exact Spec.settle (fun a w same kept => ⟨kept, facts a same⟩) fun e w _ kept => kept

theorem reading_readFrom (inode : Inode) (length fuel : ℕ) (buffer : Bytes) (begun : buffer <+: (files.node inode).content) :
    Reading files (readFrom inode length fuel buffer) fun bytes => bytes <+: (files.node inode).content := by
  induction fuel generalizing buffer with
  | zero => exact reading_pure begun
  | succ fuel ih =>
    unfold readFrom
    split
    · apply reading_bind (reading_look _)
      rintro bytes ⟨reply, found⟩
      split
      · exact reading_pure begun
      · apply ih
        rw [← Except.ok.inj found]
        obtain ⟨rest, spelled⟩ := begun
        rw [← spelled, List.drop_left, List.prefix_append_right_inj]
        exact List.take_prefix _ _
    · exact reading_pure begun

theorem reading_readBoundedHandle (inode : Inode) (maximumBytes : ℕ) :
    Reading files (readBoundedHandle inode maximumBytes) fun bytes =>
      bytes <+: (files.node inode).content ∧ bytes.length ≤ maximumBytes := by
  apply reading_bind (reading_readFrom inode _ _ [] List.nil_prefix)
  intro buffer begun
  exact reading_bind (reading_require _ _) fun _ bounded => reading_pure ⟨begun, bounded⟩

theorem reading_readOpened (inode : Inode) (leafStat : Stat) :
    Reading files (readOpened inode leafStat) fun snapshot =>
      snapshot.content = (files.node inode).content ∧ snapshot.content.length ≤ maxWriteBytes := by
  apply reading_bind (reading_of_resting (resting_look _))
  intro before _
  apply reading_bind (reading_of_resting (resting_require _ _))
  intro _ _
  apply reading_bind (reading_of_resting (resting_require _ _))
  intro _ _
  apply reading_bind (reading_of_resting (resting_require _ _))
  intro _ _
  apply reading_bind (reading_readBoundedHandle inode maxWriteBytes)
  rintro content ⟨begun, bounded⟩
  apply reading_bind (reading_look _)
  rintro after ⟨reply, found⟩
  apply reading_bind (reading_require _ _)
  rintro _ ⟨_, length⟩
  apply reading_pure
  rw [← Except.ok.inj found] at length
  exact ⟨begun.eq_of_length length, bounded⟩

/-- The source of a request is the file under its name. -/
def SourceOf (files : Files) (source : Option Snapshot) : Prop :=
  ∀ snapshot ∈ source, ∃ node, files.destination = some node ∧ snapshot.content = node.content
    ∧ snapshot.content.length ≤ maxWriteBytes

theorem reading_readRegularSnapshot : Reading files readRegularSnapshot (SourceOf files) := by
  apply reading_bind (reading_attempt (reading_of_resting (resting_look _)))
  intro ended _
  cases ended with
  | error e =>
    dsimp only
    split
    · apply reading_pure
      intro snapshot found
      cases found
    · exact reading_raise _
  | ok leafStat =>
    apply reading_bind (reading_of_resting (resting_require _ _))
    intro _ _
    apply reading_bind (reading_of_resting (resting_require _ _))
    intro _ _
    apply reading_bind (reading_rethrow (reading_look _) _)
    rintro inode ⟨reply, found⟩
    apply reading_bind (reading_ensuring (reading_readOpened inode leafStat) resting_touch)
    intro snapshot read
    apply reading_pure
    intro other same
    rw [← Option.some.inj same]
    refine ⟨files.node inode, ?_, read⟩
    cases leaf : files.leaf with
    | none =>
      rw [leaf] at found
      cases found
    | some held =>
      rw [leaf] at found
      dsimp only at found
      split at found
      · cases found
      · rw [Files.destination, leaf, Option.map_some, Except.ok.inj found]

theorem reading_admitSource (request : Request β) :
    Reading files (admitSource request) fun source =>
      SourceOf files source ∧ (request.replaceExisting = true → source.isSome = true) := by
  apply reading_bind reading_readRegularSnapshot
  intro source found
  apply reading_bind (reading_require _ _)
  intro _ present
  apply reading_bind (reading_of_resting (resting_require _ _))
  intro _ _
  apply reading_bind (reading_of_resting (resting_require _ _))
  intro _ _
  refine reading_pure ⟨found, fun replacing => ?_⟩
  rcases present with creating | present
  · rw [replacing] at creating
    cases creating
  · exact present

end Reading

/-! ## Up to the publication, and from there on -/

section Publication

variable {α : Type} {origin : Files} {w : World}

/-- The destination is as it was at the beginning, and always has been. -/
structure Before (origin : Files) (w : World) : Prop where
  leaf : w.files.leaf = origin.leaf
  existing : w.files.existing = origin.existing
  uncommitted : w.committed = false
  seen : ∀ files ∈ w.trace, files.destination = origin.destination

/-- The destination holds a content, and never held anything but this or what it held at the beginning. -/
structure After (origin : Files) (content : Bytes) (w : World) : Prop where
  leaf : w.files.leaf = some .created
  holds : w.files.created.content = content
  committed : w.committed = true
  seen : ∀ files ∈ w.trace,
    files.destination = origin.destination ∨ ∃ node, files.destination = some node ∧ node.content = content

/-- The temporary name is given up, or its removal failed. -/
def Gone (w : World) : Prop := w.files.temp = none ∨ w.unremoved = true

/-- The name is given up, or the clean-up removes it. -/
def Cleanable (w : World) : Prop := (∃ temp, w.temp = some temp ∧ temp.hasPath = true) ∨ Gone w

theorem Gone.rests {s t : World} (rests : Rests s t) (gone : Gone s) : Gone t := by
  unfold Gone
  rw [rests.files, rests.unremoved]
  exact gone

theorem Cleanable.rests {s t : World} (rests : Rests s t) (cleanable : Cleanable s) : Cleanable t := by
  rcases cleanable with owned | gone
  · refine .inl ?_
    rw [rests.temp]
    exact owned
  · exact .inr (gone.rests rests)

/-- No name stands for the file that is created. -/
def Apart (origin : Files) : Prop := origin.leaf ≠ some .created

theorem destination_congr {files : Files} (apart : Apart origin) (leaf : files.leaf = origin.leaf)
    (existing : files.existing = origin.existing) : files.destination = origin.destination := by
  unfold Files.destination
  rw [leaf]
  cases held : origin.leaf with
  | none => rfl
  | some inode =>
    cases inode with
    | existing => exact congrArg some existing
    | created => exact absurd held apart

theorem Before.destination (before : Before origin w) (apart : Apart origin) : w.files.destination = origin.destination :=
  destination_congr apart before.leaf before.existing

theorem Before.next (before : Before origin w) (apart : Apart origin) {files : Files} (leaf : files.leaf = w.files.leaf)
    (existing : files.existing = w.files.existing) : Before origin (w.next files) where
  leaf := leaf.trans before.leaf
  existing := existing.trans before.existing
  uncommitted := before.uncommitted
  seen held member := by
    rcases List.mem_append.mp member with earlier | last
    · exact before.seen held earlier
    · rw [List.mem_singleton.mp last]
      exact destination_congr apart (leaf.trans before.leaf) (existing.trans before.existing)

theorem Before.rests {s t : World} (apart : Apart origin) (rests : Rests s t) (before : Before origin s) : Before origin t where
  leaf := (congrArg Files.leaf rests.files).trans before.leaf
  existing := (congrArg Files.existing rests.files).trans before.existing
  uncommitted := rests.committed.trans before.uncommitted
  seen held member := by
    rcases rests.trace held member with earlier | same
    · exact before.seen held earlier
    · rw [same]
      exact before.destination apart

theorem After.destination {content : Bytes} (after : After origin content w) :
    ∃ node, w.files.destination = some node ∧ node.content = content := by
  refine ⟨w.files.created, ?_, after.holds⟩
  rw [Files.destination, after.leaf]
  rfl

theorem After.rests {s t : World} {content : Bytes} (rests : Rests s t) (after : After origin content s) :
    After origin content t where
  leaf := (congrArg Files.leaf rests.files).trans after.leaf
  holds := (congrArg (·.created.content) rests.files).trans after.holds
  committed := rests.committed.trans after.committed
  seen held member := by
    rcases rests.trace held member with earlier | same
    · exact after.seen held earlier
    · rw [same]
      exact .inr after.destination

theorem spec_call {P : World → Prop} {fails : Reply → Files → Files} {acts : Reply → Files → Except SystemError α × Files}
    {Q : α → World → Prop} {E : Failure → World → Prop}
    (failing : ∀ w reply error, P w → E (.system error) (w.next (fails reply w.files)))
    (refused : ∀ w reply error, P w → (acts reply w.files).1 = .error error → E (.system error) (w.next (acts reply w.files).2))
    (acting : ∀ w reply a, P w → (acts reply w.files).1 = .ok a → Q a (w.next (acts reply w.files).2)) :
    Spec P (call fails acts) Q E := by
  intro w holds
  unfold call
  dsimp only
  cases (w.replies w.calls).failure with
  | some error => exact failing w _ error holds
  | none =>
    have no := refused w (w.replies w.calls)
    have yes := acting w (w.replies w.calls)
    dsimp only
    cases ended : (acts (w.replies w.calls) w.files).1 with
    | error error => exact no error holds ended
    | ok a => exact yes a holds ended

/-- The temporary file is made: nothing is published, and no variable holds the file yet. -/
structure Making (origin : Files) (w : World) : Prop where
  before : Before origin w
  unheld : w.temp = none

theorem Making.rests {s t : World} (apart : Apart origin) (rests : Rests s t) (making : Making origin s) : Making origin t :=
  ⟨making.before.rests apart rests, rests.temp.trans making.unheld⟩

def Holding (origin : Files) (content : Bytes) (w : World) : Prop :=
  Making origin w ∧ w.files.temp = some .created ∧ w.files.created.content = content

theorem Holding.rests {s t : World} {content : Bytes} (apart : Apart origin) (rests : Rests s t)
    (holding : Holding origin content s) : Holding origin content t := by
  refine ⟨holding.1.rests apart rests, ?_⟩
  rw [rests.files]
  exact holding.2

/-- A step of the making that changes nothing. -/
theorem spec_holding {β : Type} {x : M β} {content : Bytes} (apart : Apart origin) (keeps : Resting x) :
    Spec (Holding origin content) x (fun _ => Holding origin content) fun _ => Making origin :=
  (keeps.spec fun _ _ rests => Holding.rests apart rests).weaken (fun _ _ same => same) fun _ _ holding => holding.1

theorem spec_changeOwner (apart : Apart origin) (content : Bytes) (opened : Stat) (owner : Option (ℕ × ℕ)) :
    Spec (Holding origin content) (changeOwner opened owner) (fun _ => Holding origin content) fun _ => Making origin := by
  cases owner with
  | none => exact spec_holding apart (resting_pure _)
  | some ids =>
    obtain ⟨uid, gid⟩ := ids
    change Spec _ (if opened.uid ≠ uid ∨ opened.gid ≠ gid then chown uid gid else pure ⟨⟩) _ _
    split
    · apply spec_call
      · intro w reply error holding
        exact ⟨holding.1.before.next apart rfl rfl, holding.1.unheld⟩
      · intro w reply error holding refused
        cases refused
      · intro w reply a holding acted
        exact ⟨⟨holding.1.before.next apart rfl rfl, holding.1.unheld⟩, holding.2⟩
    · exact spec_holding apart (resting_pure _)

theorem spec_chmod (apart : Apart origin) (content : Bytes) (mode : ℕ) :
    Spec (Holding origin content) (chmod mode) (fun _ => Holding origin content) fun _ => Making origin := by
  apply spec_call
  · intro w reply error holding
    exact ⟨holding.1.before.next apart rfl rfl, holding.1.unheld⟩
  · intro w reply error holding refused
    cases refused
  · intro w reply a holding acted
    exact ⟨⟨holding.1.before.next apart rfl rfl, holding.1.unheld⟩, holding.2⟩

/-- Whatever was in the new file, the content is written to it. -/
theorem spec_writeFile (apart : Apart origin) (content : Bytes) :
    Spec (fun w => Making origin w ∧ w.files.temp = some .created) (writeFile content)
      (fun _ => Holding origin content) fun _ => Making origin := by
  apply spec_call
  · rintro w reply error ⟨making, _⟩
    exact ⟨making.before.next apart rfl rfl, making.unheld⟩
  · rintro w reply error _ refused
    cases refused
  · rintro w reply a ⟨making, named⟩ acted
    exact ⟨⟨making.before.next apart rfl rfl, making.unheld⟩, named, rfl⟩

theorem spec_prepareTemp (apart : Apart origin) (content : JsString) (mode : ℕ) (owner : Option (ℕ × ℕ)) :
    Spec (fun w => Making origin w ∧ w.files.temp = some .created) (prepareTemp content mode owner)
      (fun temp w => Holding origin (Utf8.encode content) w ∧ temp.hasPath = true) fun _ => Making origin := by
  have empty {β : Type} {x : M β} (keeps : Resting x) : Spec (fun w => Making origin w ∧ w.files.temp = some .created) x
      (fun _ w => Making origin w ∧ w.files.temp = some .created) fun _ => Making origin := by
    apply (keeps.spec (Q := fun w => Making origin w ∧ w.files.temp = some .created) ?_).weaken (fun _ _ same => same)
    · intro e w made
      exact made.1
    · rintro s t rests ⟨making, named⟩
      refine ⟨making.rests apart rests, ?_⟩
      rw [rests.files]
      exact named
  apply Spec.bind (empty (resting_look _))
  intro opened
  apply Spec.bind (empty (resting_require _ _))
  intro _
  apply Spec.bind (spec_writeFile apart _)
  intro _
  apply Spec.bind (spec_changeOwner apart _ opened owner)
  intro _
  apply Spec.bind (spec_chmod apart _ mode)
  intro _
  apply Spec.bind (spec_holding apart resting_touch)
  intro _
  apply Spec.bind (spec_holding apart (resting_look _))
  intro expected
  exact Spec.pure fun w holding => ⟨holding, rfl⟩

/-- The temporary name is removed, or the removal fails. -/
theorem spec_unlinkTemp {P : World → Prop} {Q : World → Prop}
    (carries : ∀ w files, P w → files.leaf = w.files.leaf → files.existing = w.files.existing →
      files.created = w.files.created → ∀ unremoved, Q { w.next files with unremoved }) :
    Spec P unlinkTemp (fun _ w => Q w ∧ w.files.temp = none) fun _ w => Q w ∧ Gone w := by
  intro w holds
  unfold unlinkTemp call
  dsimp only
  cases (w.replies w.calls).failure with
  | some error =>
    refine ⟨carries w w.files holds rfl rfl rfl _, ?_⟩
    cases named : w.files.temp with
    | none => exact .inl named
    | some inode =>
      refine .inr ?_
      change w.files.temp.isSome = true
      rw [named]
      rfl
  | none =>
    cases named : w.files.temp with
    | none => exact ⟨carries w w.files holds rfl rfl rfl _, .inl named⟩
    | some inode => exact ⟨carries w { w.files with temp := none } holds rfl rfl rfl _, rfl⟩

/-- A step whose failure is a value, and that may be left out. -/
theorem spec_attemptWhen {x : M PUnit} {P Q : World → Prop} {E : Failure → World → Prop} (condition : Bool) (keeps : Resting x)
    (carries : ∀ s t, Rests s t → P s → Q t) : Spec P (attemptWhen condition x) (fun _ => Q) E := by
  unfold attemptWhen
  split
  · exact Spec.attempt (keeps.spec carries)
  · exact Spec.pure fun w holds => carries w w (Rests.refl w) holds

/-- The new file is made whole, or its name is given up. -/
theorem spec_createOwnedTemp (apart : Apart origin) (content : JsString) (mode : ℕ) (owner : Option (ℕ × ℕ)) :
    Spec (fun w => Making origin w ∧ w.files.temp = none) (createOwnedTemp content mode owner)
      (fun temp w => Holding origin (Utf8.encode content) w ∧ temp.hasPath = true)
      fun _ w => Making origin w ∧ Gone w := by
  apply Spec.bind (M := fun _ w => Making origin w ∧ w.files.temp = none) (Spec.get fun w made => made)
  intro start
  have opening : Spec (fun w => Making origin w ∧ w.files.temp = none) (attempt (openTemp start.process))
      (fun handle w => Making origin w ∧ ∀ a, handle = .ok a → w.files.temp = some .created)
      fun _ w => Making origin w ∧ Gone w := by
    apply Spec.attempt
    apply spec_call
    · rintro w reply error ⟨making, _⟩
      refine ⟨⟨making.before.next apart rfl rfl, making.unheld⟩, ?_⟩
      intro a same
      cases same
    · rintro w reply error ⟨making, free⟩ refused
      rw [free] at refused
      cases refused
    · rintro w reply a ⟨making, free⟩ acted
      rw [free]
      exact ⟨⟨making.before.next apart rfl rfl, making.unheld⟩, fun _ _ => rfl⟩
  apply Spec.bind opening
  intro handle
  have preparing : Spec (fun w => Making origin w ∧ ∀ a, handle = .ok a → w.files.temp = some .created)
      (attempt (do settle handle; prepareTemp content mode owner))
      (fun prepared w => (∀ temp, prepared = .ok temp → Holding origin (Utf8.encode content) w ∧ temp.hasPath = true)
        ∧ Making origin w) fun _ w => Making origin w ∧ Gone w := by
    apply Spec.attempt
    have made : Spec (fun w => Making origin w ∧ ∀ a, handle = .ok a → w.files.temp = some .created)
        (do settle handle; prepareTemp content mode owner)
        (fun temp w => Holding origin (Utf8.encode content) w ∧ temp.hasPath = true) fun _ => Making origin := by
      apply Spec.bind (M := fun _ w => Making origin w ∧ w.files.temp = some .created)
      · exact Spec.settle (fun a w same made => ⟨made.1, made.2 a same⟩) fun e w _ made => made.1
      · intro _
        exact spec_prepareTemp apart content mode owner
    apply made.weaken
    · rintro temp w holding
      refine ⟨fun other same => ?_, holding.1.1⟩
      rw [← Except.ok.inj same]
      exact holding
    · intro e w making
      refine ⟨fun other same => ?_, making⟩
      cases same
  apply Spec.bind preparing
  intro prepared
  cases prepared with
  | ok temp => exact Spec.pure fun w held => held.1 temp rfl
  | error e =>
    apply Spec.bind (spec_attemptWhen _ resting_touch fun s t rests made => Making.rests apart rests made.2)
    intro closed
    apply Spec.bind (M := fun _ w => Making origin w ∧ Gone w)
    · apply Spec.attempt
      apply (spec_unlinkTemp (Q := Making origin) ?_).weaken
      · rintro _ w ⟨making, free⟩
        exact ⟨making, .inl free⟩
      · rintro e w gone
        exact gone
      · intro w files making leaf existing _ unremoved
        have before := making.before.next apart leaf existing
        exact ⟨⟨before.leaf, before.existing, before.uncommitted, before.seen⟩, making.unheld⟩
    · intro removed
      exact Spec.raise fun w gone => gone

/-- The file that is to be published is complete, and the variable that the clean-up reads holds it. -/
structure Owning (origin : Files) (content : Bytes) (temp : OwnedTemp) (w : World) : Prop where
  before : Before origin w
  named : w.files.temp = some .created
  holds : w.files.created.content = content
  held : w.temp = some temp

theorem Owning.rests {s t : World} {content : Bytes} {temp : OwnedTemp} (apart : Apart origin) (rests : Rests s t)
    (owning : Owning origin content temp s) : Owning origin content temp t where
  before := owning.before.rests apart rests
  named := (congrArg Files.temp rests.files).trans owning.named
  holds := (congrArg (·.created.content) rests.files).trans owning.holds
  held := rests.temp.trans owning.held

/-- The name of the file comes to stand for the complete file. -/
theorem Owning.published {content : Bytes} {temp : OwnedTemp} (owning : Owning origin content temp w) (files : Files)
    (leaf : files.leaf = some .created) (created : files.created = w.files.created) (held : Option OwnedTemp) :
    After origin content { w.next files with committed := true, temp := held } where
  leaf := leaf
  holds := (congrArg Node.content created).trans owning.holds
  committed := rfl
  seen other member := by
    rcases List.mem_append.mp member with earlier | last
    · exact .inl (owning.before.seen other earlier)
    · rw [List.mem_singleton.mp last]
      refine .inr ⟨files.created, ?_, (congrArg Node.content created).trans owning.holds⟩
      rw [Files.destination, leaf]
      rfl

/-- The new file is published, and what of it was there to be replaced. -/
def Published (origin : Files) (source : Option Snapshot) (content : Bytes) (w : World) : Prop :=
  After origin content w ∧ (source = none → origin.destination = none)

/-- Nothing is published, or the new file is. -/
def Settled (origin : Files) (source : Option Snapshot) (content : Bytes) (w : World) : Prop :=
  Before origin w ∨ Published origin source content w

theorem spec_publish (apart : Apart origin) (request : Request α) (source : Option Snapshot) {temp : OwnedTemp}
    (content : Bytes) (hasPath : temp.hasPath = true) :
    Spec (Owning origin content temp) (publish request source temp)
      (fun _ w => Published origin source content w ∧ Cleanable w)
      fun _ w => Settled origin source content w ∧ Cleanable w := by
  have stays {w : World} (owning : Owning origin content temp w) :
      Settled origin source content (w.next w.files) ∧ Cleanable (w.next w.files) :=
    ⟨.inl (owning.before.next apart rfl rfl), .inl ⟨temp, owning.held, hasPath⟩⟩
  cases source with
  | some source =>
    apply Spec.bind (M := fun _ w => w.files.temp = none ∧
      ∀ held, After origin content { w with committed := true, temp := held })
    · apply spec_call
      · intro w reply error owning
        exact stays owning
      · intro w reply error owning refused
        rw [owning.named] at refused
        cases refused
      · intro w reply a owning acted
        rw [owning.named]
        exact ⟨rfl, owning.published _ rfl rfl⟩
    · intro _
      apply Spec.modify
      rintro w ⟨free, after⟩
      refine ⟨⟨after _, fun none => ?_⟩, .inr (.inl free)⟩
      cases none
  | none =>
    apply Spec.bind (M := fun _ w => w.temp = some temp ∧ origin.destination = none ∧
      ∀ held, After origin content { w with committed := true, temp := held })
    · apply Spec.rethrow
      apply spec_call
      · intro w reply error owning
        exact stays owning
      · intro w reply error owning refused
        rw [owning.named] at refused ⊢
        cases leaf : w.files.leaf with
        | none =>
          rw [leaf] at refused
          cases refused
        | some inode => exact stays owning
      · intro w reply a owning acted
        rw [owning.named] at acted ⊢
        cases leaf : w.files.leaf with
        | some inode =>
          rw [leaf] at acted
          cases acted
        | none =>
          refine ⟨owning.held, ?_, owning.published _ rfl rfl⟩
          rw [← owning.before.destination apart, Files.destination, leaf]
          rfl
    · intro _
      apply Spec.bind (M := fun _ w => w.temp = some temp ∧ Published origin none content w)
      · apply Spec.modify
        rintro w ⟨held, absent, after⟩
        have published := after w.temp
        exact ⟨held, published, fun _ => absent⟩
      · intro _
        apply Spec.bind (M := fun _ w => Published origin none content w ∧ w.files.temp = none)
        · apply (spec_unlinkTemp (Q := fun w => w.temp = some temp ∧ Published origin none content w) ?_).weaken
          · rintro _ w ⟨⟨_, published⟩, free⟩
            exact ⟨published, free⟩
          · rintro e w ⟨⟨held, published⟩, _⟩
            exact ⟨.inr published, .inl ⟨temp, held, hasPath⟩⟩
          · rintro w files ⟨held, after, absent⟩ leaf existing created unremoved
            refine ⟨held, ⟨leaf.trans after.leaf, (congrArg Node.content created).trans after.holds, after.committed, ?_⟩, absent⟩
            intro other member
            rcases List.mem_append.mp member with earlier | last
            · exact after.seen other earlier
            · rw [List.mem_singleton.mp last]
              refine .inr ⟨files.created, ?_, (congrArg Node.content created).trans after.holds⟩
              rw [Files.destination, leaf, after.leaf]
              rfl
        · intro _
          apply Spec.modify
          rintro w ⟨⟨after, absent⟩, free⟩
          exact ⟨⟨⟨after.leaf, after.holds, after.committed, after.seen⟩, absent⟩, .inr (.inl free)⟩

/-- The result of `buildContent`, on a source that is what the file system holds. -/
structure Request.Makes (request : Request α) (origin : Files) (source : Option Snapshot) (built : Built α) : Prop where
  found : SourceOf origin source
  present : request.replaceExisting = true → source.isSome = true
  made : request.buildContent source = .ok built

/-- At the beginning nothing is done. -/
structure Start (origin : Files) (w : World) : Prop where
  making : Making origin w
  files : w.files = origin

theorem Start.rests {s t : World} (apart : Apart origin) (rests : Rests s t) (start : Start origin s) : Start origin t :=
  ⟨start.making.rests apart rests, rests.files.trans start.files⟩

/-- How the `try` block can end: nothing is published, or what `buildContent` made is. -/
def Ended (request : Request α) (origin : Files) (w : World) : Prop :=
  Before origin w ∨ ∃ source built, request.Makes origin source built ∧ Published origin source (Utf8.encode built.content) w

theorem spec_attemptCommit (apart : Apart origin) (free : origin.temp = none) (request : Request α) :
    Spec (Start origin) (attemptCommit request)
      (fun receipt w => (∃ source built, request.Makes origin source built
        ∧ Published origin source (Utf8.encode built.content) w ∧ receipt = ⟨source.isNone, built.metadata⟩) ∧ Cleanable w)
      fun _ w => Ended request origin w ∧ Cleanable w := by
  have early {w : World} (start : Start origin w) : Ended request origin w ∧ Cleanable w :=
    ⟨.inl start.making.before, .inr (.inl ((congrArg Files.temp start.files).trans free))⟩
  have starting {β : Type} {x : M β} (keeps : Resting x) :
      Spec (Start origin) x (fun _ => Start origin) fun _ => Start origin :=
    keeps.spec fun _ _ rests => Start.rests apart rests
  have admitted := ((starting (resting_admitSource request)).and (reading_admitSource request)).strengthen
    fun w (start : Start origin w) => ⟨start, start.files⟩
  apply Spec.bind (admitted.weaken (fun _ _ held => held) fun e w held => early held.1)
  intro source
  apply Spec.bind (M := fun built w => Start origin w ∧ request.Makes origin source built)
  · apply Spec.settle
    · rintro built w made ⟨start, _, found, present⟩
      cases content : request.buildContent source with
      | error message =>
        rw [content] at made
        cases made
      | ok other =>
        rw [content] at made
        rw [← Except.ok.inj made]
        exact ⟨start, found, present, content⟩
    · rintro e w _ ⟨start, _⟩
      exact early start
  · intro built
    have within {β : Type} {x : M β} (keeps : Resting x) :
        Spec (fun w => Start origin w ∧ request.Makes origin source built) x
          (fun _ w => Start origin w ∧ request.Makes origin source built) fun _ w => Ended request origin w ∧ Cleanable w := by
      rintro w ⟨start, made⟩
      exact ((starting keeps).weaken (fun _ _ start => ⟨start, made⟩) fun _ _ => early) w start
    apply Spec.bind (within (resting_require _ _))
    intro _
    apply Spec.bind (M := fun _ w => Start origin w ∧ request.Makes origin source built) (Spec.get fun w held => held)
    intro start
    apply Spec.bind (M := fun temp w => (Holding origin (Utf8.encode built.content) w ∧ temp.hasPath = true)
      ∧ request.Makes origin source built)
    · rintro w ⟨start, made⟩
      refine ((spec_createOwnedTemp apart _ _ _).weaken (fun _ _ held => ⟨held, made⟩) ?_) w
        ⟨start.making, (congrArg Files.temp start.files).trans free⟩
      rintro e w ⟨making, gone⟩
      exact ⟨.inl making.before, .inr gone⟩
    · intro temp
      apply Spec.bind (M := fun _ w => (Owning origin (Utf8.encode built.content) temp w ∧ temp.hasPath = true)
        ∧ request.Makes origin source built)
      · apply Spec.modify
        rintro w ⟨⟨⟨making, named, holds⟩, hasPath⟩, made⟩
        exact ⟨⟨⟨⟨making.before.leaf, making.before.existing, making.before.uncommitted, making.before.seen⟩, named, holds, rfl⟩,
          hasPath⟩, made⟩
      · rintro _ w ⟨⟨owning, hasPath⟩, made⟩
        have checked := (resting_assertUnpublished request source temp).spec fun _ _ rests =>
          @Owning.rests origin _ _ (Utf8.encode built.content) temp apart rests
        have ends {w : World} (settled : Settled origin source (Utf8.encode built.content) w) : Ended request origin w :=
          settled.imp id fun published => ⟨source, built, made, published⟩
        have rest : Spec (Owning origin (Utf8.encode built.content) temp)
            (do
              assertUnpublished request source temp
              publish request source temp
              verifyPublished request source temp
              pure ({ created := source.isNone, metadata := built.metadata } : Receipt α))
            (fun receipt w => (∃ source built, request.Makes origin source built
              ∧ Published origin source (Utf8.encode built.content) w ∧ receipt = ⟨source.isNone, built.metadata⟩)
                ∧ Cleanable w)
            fun _ w => Ended request origin w ∧ Cleanable w := by
          apply Spec.bind (checked.weaken (fun _ _ owning => owning) ?_)
          · intro _
            apply Spec.bind ((spec_publish apart request source _ hasPath).weaken (fun _ _ done => done) ?_)
            · intro _
              have verified := (resting_verifyPublished request source temp).spec
                (P := fun w => Published origin source (Utf8.encode built.content) w ∧ Cleanable w)
                (Q := fun w => Published origin source (Utf8.encode built.content) w ∧ Cleanable w)
                fun s t rests held => ⟨⟨held.1.1.rests rests, held.1.2⟩, held.2.rests rests⟩
              apply Spec.bind (verified.weaken (fun _ _ done => done) ?_)
              · intro _
                apply Spec.pure
                rintro w ⟨published, cleanable⟩
                exact ⟨⟨source, built, made, published, rfl⟩, cleanable⟩
              · rintro e w ⟨published, cleanable⟩
                exact ⟨ends (.inr published), cleanable⟩
            · rintro e w ⟨settled, cleanable⟩
              exact ⟨ends settled, cleanable⟩
          · intro e w owning
            exact ⟨.inl owning.before, .inl ⟨temp, owning.held, hasPath⟩⟩
        exact rest w owning

/-- The clean-up never fails, and gives the temporary name up. -/
theorem spec_cleanUp {P : World → Prop} (rests : ∀ s t, Rests s t → P s → P t)
    (unlinks : ∀ w files, P w → files.leaf = w.files.leaf → files.existing = w.files.existing →
      files.created = w.files.created → ∀ unremoved, P { w.next files with unremoved }) :
    Spec (fun w => P w ∧ Cleanable w) cleanUp (fun _ w => P w ∧ Gone w) fun _ _ => False := by
  apply Spec.bind (M := fun start w => P w ∧ Cleanable w ∧ start.temp = w.temp)
    (Spec.get fun w holds => ⟨holds.1, holds.2, rfl⟩)
  intro start
  apply Spec.bind (M := fun _ w => P w ∧ Cleanable w ∧ start.temp = w.temp)
  · apply spec_attemptWhen _ resting_touch
    rintro s t rest ⟨holds, cleanable, same⟩
    exact ⟨rests s t rest holds, cleanable.rests rest, same.trans rest.temp.symm⟩
  · intro closed
    apply Spec.bind (M := fun _ w => P w ∧ Gone w)
    · unfold attemptWhen
      split
      · apply Spec.attempt
        apply ((spec_unlinkTemp (P := P) (Q := P) unlinks).strengthen fun w held => held.1).weaken
        · rintro _ w ⟨holds, free⟩
          exact ⟨holds, .inl free⟩
        · rintro e w gone
          exact gone
      · next unowned =>
        apply Spec.pure
        rintro w ⟨holds, cleanable, same⟩
        refine ⟨holds, cleanable.resolve_left ?_⟩
        rintro ⟨temp, held, hasPath⟩
        rw [same, held] at unowned
        exact unowned hasPath
    · intro removed
      apply Spec.bind (M := fun _ w => P w ∧ Gone w)
      · apply Spec.attempt
        exact resting_touch.spec fun s t rest held => ⟨rests s t rest held.1, held.2.rests rest⟩
      · intro parentClosed
        exact Spec.pure fun w held => held

theorem Before.unlinked (apart : Apart origin) (before : Before origin w) {files : Files} (leaf : files.leaf = w.files.leaf)
    (existing : files.existing = w.files.existing) (unremoved : Bool) : Before origin { w.next files with unremoved } := by
  have moved := before.next apart leaf existing
  exact ⟨moved.leaf, moved.existing, moved.uncommitted, moved.seen⟩

theorem After.unlinked {content : Bytes} (after : After origin content w) {files : Files} (leaf : files.leaf = w.files.leaf)
    (created : files.created = w.files.created) (unremoved : Bool) :
    After origin content { w.next files with unremoved } where
  leaf := leaf.trans after.leaf
  holds := (congrArg Node.content created).trans after.holds
  committed := after.committed
  seen other member := by
    rcases List.mem_append.mp member with earlier | last
    · exact after.seen other earlier
    · rw [List.mem_singleton.mp last]
      refine .inr ⟨files.created, ?_, (congrArg Node.content created).trans after.holds⟩
      rw [Files.destination, leaf, after.leaf]
      rfl

/-- How a call of `commitAtomicFile` ends: what of the destination, and what of the temporary name. -/
theorem spec_commitAtomicFile (apart : Apart origin) (free : origin.temp = none) (request : Request α) :
    Spec (Start origin) (commitAtomicFile request)
      (fun receipt w => (∃ source built, request.Makes origin source built
        ∧ Published origin source (Utf8.encode built.content) w ∧ receipt = ⟨source.isNone, built.metadata⟩) ∧ Gone w)
      fun e w => ((∃ failure, e = .failure failure ∧ Before origin w) ∨ (e = .committedAtomicFile ∧ ∃ source built,
        request.Makes origin source built ∧ Published origin source (Utf8.encode built.content) w)) ∧ Gone w := by
  have early {w : World} (start : Start origin w) (failure : Failure) :
      ((∃ other, Rejection.failure failure = .failure other ∧ Before origin w) ∨ (Rejection.failure failure = .committedAtomicFile
        ∧ ∃ source built, request.Makes origin source built ∧ Published origin source (Utf8.encode built.content) w)) ∧ Gone w :=
    ⟨.inl ⟨failure, rfl, start.making.before⟩, .inl ((congrArg Files.temp start.files).trans free)⟩
  apply Spec.bind (M := fun _ => Start origin)
  · apply Spec.rethrow
    apply ((resting_openParent request).spec fun s t rests => Start.rests apart rests).weaken
    · intro _ w start
      exact start
    · intro e w start
      exact early start e
  · intro _
    let Result (result : Except Failure (Receipt α)) (w : World) : Prop :=
      Ended request origin w ∧ ∀ receipt, result = .ok receipt → ∃ source built, request.Makes origin source built
        ∧ Published origin source (Utf8.encode built.content) w ∧ receipt = ⟨source.isNone, built.metadata⟩
    apply Spec.bind (M := fun result w => Result result w ∧ Cleanable w)
    · apply Spec.rethrow
      apply Spec.attempt
      apply (spec_attemptCommit apart free request).weaken
      · rintro receipt w ⟨⟨source, built, made, published, same⟩, cleanable⟩
        refine ⟨⟨.inr ⟨source, built, made, published⟩, fun other sameReceipt => ?_⟩, cleanable⟩
        rw [← Except.ok.inj sameReceipt]
        exact ⟨source, built, made, published, same⟩
      · rintro e w ⟨ended, cleanable⟩
        refine ⟨⟨ended, fun other same => ?_⟩, cleanable⟩
        cases same
    · intro result
      apply Spec.bind (M := fun _ w => Result result w ∧ Gone w)
      · apply Spec.rethrow
        apply (spec_cleanUp (P := Result result) ?_ ?_).weaken (fun _ _ held => held)
        · intro e w never
          exact absurd never id
        · rintro s t rests ⟨ended, returned⟩
          refine ⟨?_, fun receipt same => ?_⟩
          · rcases ended with before | ⟨source, built, made, after, absent⟩
            · exact .inl (before.rests apart rests)
            · exact .inr ⟨source, built, made, after.rests rests, absent⟩
          · obtain ⟨source, built, made, ⟨after, absent⟩, shape⟩ := returned receipt same
            exact ⟨source, built, made, ⟨after.rests rests, absent⟩, shape⟩
        · rintro w files ⟨ended, returned⟩ leaf existing created unremoved
          refine ⟨?_, fun receipt same => ?_⟩
          · rcases ended with before | ⟨source, built, made, after, absent⟩
            · exact .inl (before.unlinked apart leaf existing unremoved)
            · exact .inr ⟨source, built, made, after.unlinked leaf created unremoved, absent⟩
          · obtain ⟨source, built, made, ⟨after, absent⟩, shape⟩ := returned receipt same
            exact ⟨source, built, made, ⟨after.unlinked leaf created unremoved, absent⟩, shape⟩
      · intro cleanupError
        apply Spec.bind (M := fun last w => (Result result w ∧ Gone w) ∧ last = w) (Spec.get fun w held => ⟨held, rfl⟩)
        intro last
        have failing {w : World} (ended : Ended request origin w) (failure : Failure) :
            (∃ other, (if w.committed = true then Rejection.committedAtomicFile else .failure failure) = .failure other
              ∧ Before origin w) ∨ ((if w.committed = true then Rejection.committedAtomicFile else .failure failure)
                = .committedAtomicFile ∧ ∃ source built, request.Makes origin source built
                  ∧ Published origin source (Utf8.encode built.content) w) := by
          rcases ended with before | ⟨source, built, made, after, absent⟩
          · rw [before.uncommitted]
            exact .inl ⟨failure, rfl, before⟩
          · rw [after.committed]
            exact .inr ⟨rfl, source, built, made, after, absent⟩
        apply Spec.settle
        · rintro receipt w concluded ⟨⟨⟨ended, returned⟩, gone⟩, rfl⟩
          refine ⟨?_, gone⟩
          cases result with
          | error e => cases concluded
          | ok value =>
            cases cleanupError with
            | some e => cases concluded
            | none => exact returned receipt (congrArg Except.ok (Except.ok.inj concluded))
        · rintro e w concluded ⟨⟨⟨ended, returned⟩, gone⟩, rfl⟩
          refine ⟨?_, gone⟩
          cases result with
          | error failure =>
            rw [← Except.error.inj concluded]
            exact failing ended failure
          | ok value =>
            cases cleanupError with
            | none => cases concluded
            | some failure =>
              rw [← Except.error.inj concluded]
              exact failing ended failure

theorem start_initial (process : Process) (replies : ℕ → Reply) (destination : Option Node) :
    Start (.initial destination) (World.initial process replies destination) ∧ Apart (.initial destination)
      ∧ (Files.initial destination).destination = destination := by
  refine ⟨⟨⟨⟨rfl, rfl, rfl, ?_⟩, rfl⟩, rfl⟩, ?_, ?_⟩
  · intro files member
    rw [List.mem_singleton.mp member]
  · intro same
    cases destination with
    | none => cases same
    | some node => cases same
  · cases destination with
    | none => rfl
    | some node => rfl

/-- The content that a request asks for, when the destination is what the request finds. -/
def Request.Wants (request : Request α) (destination : Option Node) (content : Bytes) : Prop :=
  ∃ source built, (∀ snapshot ∈ source, ∃ node, destination = some node ∧ snapshot.content = node.content
      ∧ snapshot.content.length ≤ maxWriteBytes)
    ∧ (source = none → destination = none) ∧ request.buildContent source = .ok built ∧ content = Utf8.encode built.content

/-- Whatever call fails and whenever the signal is aborted: a rejection that is not said to be committed leaves the destination as
it was, any other end leaves the new content there, and there is nothing else in between. The temporary file is removed, unless its
removal failed. -/
theorem commitAtomicFile_atomic (request : Request α) (process : Process) (replies : ℕ → Reply) (destination : Option Node) :
    let ended := commitAtomicFile request (World.initial process replies destination)
    (∀ e, ended.1 = .error e → e ≠ .committedAtomicFile → ended.2.files.destination = destination)
      ∧ ((∃ receipt, ended.1 = .ok receipt) ∨ ended.1 = .error .committedAtomicFile →
        ∃ node, ended.2.files.destination = some node ∧ request.Wants destination node.content)
      ∧ (∀ files ∈ ended.2.trace, files.destination = destination
        ∨ ∃ node, files.destination = some node ∧ request.Wants destination node.content)
      ∧ (ended.2.files.temp = none ∨ ended.2.unremoved = true) := by
  obtain ⟨start, apart, same⟩ := start_initial process replies destination
  have ends := spec_commitAtomicFile apart rfl request _ start
  have wants {source : Option Snapshot} {built : Built α} {w : World} (made : request.Makes (.initial destination) source built)
      (published : Published (.initial destination) source (Utf8.encode built.content) w) :
      request.Wants destination (Utf8.encode built.content) := by
    have found := made.found
    have absent := published.2
    rw [SourceOf, same] at found
    rw [same] at absent
    exact ⟨source, built, found, absent, made.made, rfl⟩
  have holding {source : Option Snapshot} {built : Built α} {w : World}
      (made : request.Makes (.initial destination) source built)
      (published : Published (.initial destination) source (Utf8.encode built.content) w) :
      (∃ node, w.files.destination = some node ∧ request.Wants destination node.content)
        ∧ ∀ files ∈ w.trace, files.destination = destination
          ∨ ∃ node, files.destination = some node ∧ request.Wants destination node.content := by
    have wanted := wants made published
    obtain ⟨node, held, content⟩ := published.1.destination
    refine ⟨⟨node, held, content.symm ▸ wanted⟩, fun files member => ?_⟩
    rcases published.1.seen files member with before | ⟨other, found, content⟩
    · exact .inl (before.trans same)
    · exact .inr ⟨other, found, content.symm ▸ wanted⟩
  intro ended
  change Ends _ _ ended at ends
  clear_value ended
  obtain ⟨result, w⟩ := ended
  cases result with
  | ok receipt =>
    obtain ⟨⟨source, built, made, published, _⟩, gone⟩ := ends
    obtain ⟨held, seen⟩ := holding made published
    refine ⟨fun e failed => ?_, fun _ => held, seen, gone⟩
    cases failed
  | error e =>
    obtain ⟨⟨failure, rfl, before⟩ | ⟨rfl, source, built, made, published⟩, gone⟩ := ends
    · have unchanged := (before.destination apart).trans same
      refine ⟨fun _ _ _ => unchanged, ?_, fun files member => .inl ((before.seen files member).trans same), gone⟩
      rintro (⟨receipt, returned⟩ | other)
      · cases returned
      · cases other
    · obtain ⟨held, seen⟩ := holding made published
      refine ⟨fun e failed other => ?_, fun _ => held, seen, gone⟩
      exact absurd (Except.error.inj failed).symm other

end Publication

end PersistentHarness.HostFiles
