import PersistentHarness.Lib.Trace
import PersistentHarness.Model.BirthClock

/-! # Birth sequence numbers on a branch

A birth is new on its branch where the counter is not below the numbers of the branch. This holds outside of navigations; once
a navigation has moved the leaf, the counter is that of the branch that was left until the navigation ends.
-/

namespace PersistentHarness.BirthClock

section Clock

variable {publicText : JsString → JsString} {sequence : ℕ} {text now : JsString}

theorem next_cases (sequence : ℕ) (now : JsString) :
    next sequence now = (none, sequence) ∨ next sequence now = (some ⟨now, sequence + 1⟩, sequence + 1) := by
  unfold next
  split
  · exact .inr rfl
  · exact .inl rfl

theorem createTextBirth_cases (publicText : JsString → JsString) (sequence : ℕ) (text now : JsString) :
    createTextBirth publicText sequence text now = (none, sequence)
      ∨ createTextBirth publicText sequence text now = (some ⟨now, sequence + 1⟩, sequence + 1) := by
  unfold createTextBirth
  split
  · exact .inl rfl
  · exact next_cases sequence now

/-- The sequence numbers of a message. -/
def contentSequences (content : List Part) : List ℕ := (content.filterMap Part.birth).map Birth.sequence

/-- Numbers that the counter gave out in turn. -/
structure GivenOut (before after : ℕ) (numbers : List ℕ) : Prop where
  le : before ≤ after
  nodup : numbers.Nodup
  range : ∀ n ∈ numbers, before < n ∧ n ≤ after

theorem GivenOut.nil (sequence : ℕ) : GivenOut sequence sequence [] := ⟨le_rfl, List.nodup_nil, nofun⟩

theorem GivenOut.cons {after : ℕ} {numbers : List ℕ} (given : GivenOut (sequence + 1) after numbers) :
    GivenOut sequence after ((sequence + 1) :: numbers) := by
  have le := given.le
  constructor
  · omega
  · apply List.nodup_cons.mpr
    refine ⟨fun member => ?_, given.nodup⟩
    have above := (given.range _ member).1
    omega
  · intro n member
    rcases List.mem_cons.mp member with rfl | member
    · omega
    · have range := given.range n member
      omega

theorem assignBirths_text (claim : Claim) (rest : List Replaced) :
    assignBirths publicText sequence [] (.text text claim now :: rest) =
      if claim.conflicts none then (none, sequence)
      else
        ((assignBirths publicText (createTextBirth publicText sequence text now).2 [] rest).1.map
            (.text text (createTextBirth publicText sequence text now).1 :: ·),
          (assignBirths publicText (createTextBirth publicText sequence text now).2 [] rest).2) := rfl

/-- A commit without a plan gives its texts new numbers. -/
theorem assignBirths_given (publicText : JsString → JsString) (sequence : ℕ) (parts : List Replaced) :
    sequence ≤ (assignBirths publicText sequence [] parts).2 ∧
      ∀ content, (assignBirths publicText sequence [] parts).1 = some content →
        GivenOut sequence (assignBirths publicText sequence [] parts).2 (contentSequences content) := by
  induction parts generalizing sequence with
  | nil =>
    refine ⟨le_rfl, ?_⟩
    rintro _ ⟨⟩
    exact .nil sequence
  | cons part rest ih =>
    cases part with
    | other =>
      obtain ⟨le, given⟩ := ih sequence
      refine ⟨le, fun content mapped => ?_⟩
      obtain ⟨tail, found, rfl⟩ := Option.map_eq_some_iff.mp mapped
      exact given tail found
    | text text claim now =>
      rw [assignBirths_text]
      split
      · exact ⟨le_rfl, nofun⟩
      rcases createTextBirth_cases publicText sequence text now with same | same
      · rw [same]
        obtain ⟨le, given⟩ := ih sequence
        refine ⟨le, fun content mapped => ?_⟩
        obtain ⟨tail, found, rfl⟩ := Option.map_eq_some_iff.mp mapped
        exact given tail found
      · rw [same]
        obtain ⟨le, given⟩ := ih (sequence + 1)
        refine ⟨(Nat.le_succ sequence).trans le, fun content mapped => ?_⟩
        obtain ⟨tail, found, rfl⟩ := Option.map_eq_some_iff.mp mapped
        exact (given tail found).cons

end Clock

section Branches

variable {entries : List Entry} {leaf : Option ℕ} {entry : Entry} {n : ℕ}

theorem mem_le_foldr_max {numbers : List ℕ} (member : n ∈ numbers) : n ≤ numbers.foldr max 0 := by
  induction numbers with
  | nil => cases member
  | cons first rest ih =>
    rw [List.foldr_cons]
    rcases List.mem_cons.mp member with rfl | member
    · omega
    · have bound := ih member
      omega

theorem foldr_max_le {numbers : List ℕ} (bound : ∀ m ∈ numbers, m ≤ n) : numbers.foldr max 0 ≤ n := by
  induction numbers with
  | nil => exact Nat.zero_le n
  | cons first rest ih =>
    rw [List.foldr_cons]
    exact Nat.max_le.mpr ⟨bound first (List.mem_cons_self ..), ih fun m member => bound m (List.mem_cons_of_mem _ member)⟩

theorem birthSequence_le (bound : ∀ m ∈ sequences entries leaf, m ≤ n) : birthSequence entries leaf ≤ n := by
  apply foldr_max_le
  intro m member
  obtain ⟨entry, on, rfl⟩ := List.mem_map.mp member
  exact foldr_max_le fun k has => bound k (List.mem_flatMap.mpr ⟨entry, on, has⟩)

/-- The counter that starts from a branch is not below its numbers. -/
theorem le_birthSequence (member : n ∈ sequences entries leaf) : n ≤ birthSequence entries leaf := by
  obtain ⟨entry, on, has⟩ := List.mem_flatMap.mp member
  have bound : entry.birthSequence ≤ birthSequence entries leaf := mem_le_foldr_max (List.mem_map_of_mem on)
  exact (mem_le_foldr_max has).trans bound

theorem sequences_new : sequences (entry :: entries) (some entries.length) =
    entry.sequences ++ sequences entries entry.parentId := by
  unfold sequences branch
  rw [Ancestry.branch_new]
  rfl

theorem distinct_cons (old : ∀ leaf, (sequences entries leaf).Nodup) (nodup : entry.sequences.Nodup)
    (new : ∀ n ∈ entry.sequences, n ∉ sequences entries entry.parentId) (leaf : Option ℕ) :
    (sequences (entry :: entries) leaf).Nodup := by
  apply Ancestry.branch_cons_forall (P := fun nodes => (nodes.flatMap Entry.sequences).Nodup) old
  apply List.nodup_append.mpr
  refine ⟨nodup, old entry.parentId, fun n member m other same => ?_⟩
  subst same
  exact new n member other

end Branches

section Attempts

variable {publicText : JsString → JsString} {sequence : ℕ} {active numbers : List ℕ} {attempt : Attempt}

/-- The uncommitted births of an attempt are different, were given out, and are new on the active branch. -/
structure Held (sequence : ℕ) (active : List ℕ) (attempt : Attempt) : Prop where
  fresh : ∀ i birth, attempt.cursor ≤ i → attempt.birthOf i = some birth →
    birth.sequence ≤ sequence ∧ birth.sequence ∉ active
  apart : ∀ i j birth other, attempt.cursor ≤ i → attempt.cursor ≤ j → attempt.birthOf i = some birth →
    attempt.birthOf j = some other → birth.sequence = other.sequence → i = j

/-- Some text of the attempt has a birth and is not committed. -/
def Attempt.holds (attempt : Attempt) : Bool := attempt.births.any (attempt.cursor ≤ ·.1)

theorem Held.of_none (none_ : attempt.holds = false) : Held sequence active attempt := by
  have no_birth : ∀ i birth, attempt.cursor ≤ i → attempt.birthOf i ≠ some birth := by
    intro i birth after found
    obtain ⟨⟨index, _⟩, first, _⟩ := Option.map_eq_some_iff.mp found
    have here := List.find?_some first
    rw [decide_eq_true_eq] at here
    subst here
    have none_ := List.any_eq_false.mp none_ _ (List.mem_of_find?_eq_some first)
    exact none_ (decide_eq_true after)
  exact ⟨fun i birth after found => absurd found (no_birth i birth after),
    fun i j birth other after _ found => absurd found (no_birth i birth after)⟩

theorem Held.append (held : Held sequence active attempt) {last : ℕ} (le : sequence ≤ last)
    (later : ∀ n ∈ numbers, sequence < n) : Held last (numbers ++ active) attempt := by
  refine ⟨fun i birth after found => ?_, held.apart⟩
  obtain ⟨bound, new⟩ := held.fresh i birth after found
  refine ⟨bound.trans le, fun member => ?_⟩
  rcases List.mem_append.mp member with member | member
  · have above := later _ member
    omega
  · exact new member

theorem birthOf_cons (index i : ℕ) (birth : Birth) :
    ({ attempt with births := (index, birth) :: attempt.births } : Attempt).birthOf i =
      if index = i then some birth else attempt.birthOf i := by
  unfold Attempt.birthOf
  rw [List.find?_cons]
  by_cases same : index = i
  · rw [if_pos same, decide_eq_true same]
    rfl
  · rw [if_neg same, decide_eq_false same]

/-- What observing texts leaves of an attempt. -/
structure Observed (sequence : ℕ) (active : List ℕ) (before after : Attempt) (last : ℕ) : Prop where
  le : sequence ≤ last
  cursor : after.cursor = before.cursor
  held : Held last active after

theorem Held.observe (held : Held sequence active attempt) (covers : ∀ n ∈ active, n ≤ sequence)
    (publicText : JsString → JsString) (text : PlannedText) :
    Observed sequence active attempt (Coordinator.observeText publicText sequence attempt text).1
      (Coordinator.observeText publicText sequence attempt text).2 := by
  unfold Coordinator.observeText
  split
  · exact ⟨le_rfl, rfl, held⟩
  rcases createTextBirth_cases publicText sequence text.text text.now with same | same
  · rw [same]
    exact ⟨le_rfl, rfl, held⟩
  rw [same]
  refine ⟨Nat.le_succ sequence, rfl, ?_, ?_⟩
  · intro i birth after found
    rw [birthOf_cons] at found
    split at found
    · cases found
      exact ⟨le_rfl, fun member => absurd (covers _ member) (Nat.not_succ_le_self sequence)⟩
    · obtain ⟨bound, new⟩ := held.fresh i birth after found
      exact ⟨Nat.le_succ_of_le bound, new⟩
  · intro i j birth other afterI afterJ foundI foundJ equal
    rw [birthOf_cons] at foundI foundJ
    split at foundI <;> split at foundJ
    · next left right => exact left.symm.trans right
    · cases foundI
      have bound := (held.fresh j other afterJ foundJ).1
      dsimp only at equal
      omega
    · cases foundJ
      have bound := (held.fresh i birth afterI foundI).1
      dsimp only at equal
      omega
    · exact held.apart i j birth other afterI afterJ foundI foundJ equal

theorem Held.observeAll (held : Held sequence active attempt) (covers : ∀ n ∈ active, n ≤ sequence)
    (publicText : JsString → JsString) (texts : List PlannedText) :
    Observed sequence active attempt (Coordinator.observeAll publicText sequence attempt texts).1
      (Coordinator.observeAll publicText sequence attempt texts).2 := by
  induction texts generalizing sequence attempt with
  | nil => exact ⟨le_rfl, rfl, held⟩
  | cons text rest ih =>
    have first := held.observe covers publicText text
    have later := ih first.held fun n member => (covers n member).trans first.le
    exact ⟨first.le.trans later.le, later.cursor.trans first.cursor, later.held⟩

/-- The parts of a plan, with the births that its texts were given. -/
def planned (attempt : Attempt) (texts : List PlannedText) : List Part :=
  texts.map fun text => .text text.text (attempt.birthOf text.index)

theorem mem_planned {texts : List PlannedText} {n : ℕ} (member : n ∈ contentSequences (planned attempt texts)) :
    ∃ text ∈ texts, ∃ birth, attempt.birthOf text.index = some birth ∧ birth.sequence = n := by
  obtain ⟨birth, born, same⟩ := List.mem_map.mp member
  obtain ⟨part, on, has⟩ := List.mem_filterMap.mp born
  obtain ⟨text, among, rfl⟩ := List.mem_map.mp on
  exact ⟨text, among, birth, has, same⟩

theorem Held.planned_nodup (held : Held sequence active attempt) {texts : List PlannedText}
    (after : ∀ text ∈ texts, attempt.cursor ≤ text.index) (ordered : (texts.map PlannedText.index).Pairwise (· < ·)) :
    (contentSequences (planned attempt texts)).Nodup := by
  induction texts with
  | nil => exact List.nodup_nil
  | cons text rest ih =>
    rw [List.map_cons, List.pairwise_cons] at ordered
    have tail := ih (fun other member => after other (List.mem_cons_of_mem _ member)) ordered.2
    cases found : attempt.birthOf text.index with
    | none =>
      rw [planned, List.map_cons, found]
      exact tail
    | some birth =>
      rw [planned, List.map_cons, found]
      apply List.nodup_cons.mpr
      refine ⟨fun member => ?_, tail⟩
      obtain ⟨other, among, second, has, same⟩ := mem_planned member
      have equal := held.apart text.index other.index birth second (after text (List.mem_cons_self ..))
        (after other (List.mem_cons_of_mem _ among)) found has same.symm
      have less := ordered.1 other.index (List.mem_map_of_mem among)
      omega

/-- After a plan is committed, the births behind it stay held. -/
theorem Held.acknowledge (held : Held sequence active attempt) {stop : ℕ} {texts : List PlannedText}
    (reach : attempt.cursor ≤ stop) (inside : ∀ text ∈ texts, attempt.cursor ≤ text.index ∧ text.index < stop) :
    Held sequence (contentSequences (planned attempt texts) ++ active) { attempt with cursor := stop } := by
  refine ⟨fun i birth after found => ?_, fun i j birth other afterI afterJ foundI foundJ equal => ?_⟩
  · obtain ⟨bound, new⟩ := held.fresh i birth (reach.trans after) found
    refine ⟨bound, fun member => ?_⟩
    rcases List.mem_append.mp member with member | member
    · obtain ⟨text, among, other, has, same⟩ := mem_planned member
      have equal := held.apart text.index i other birth (inside text among).1 (reach.trans after) has found same
      have before := (inside text among).2
      dsimp only at after
      omega
    · exact new member
  · exact held.apart i j birth other (reach.trans afterI) (reach.trans afterJ) foundI foundJ equal

end Attempts

section Coordinators

variable {publicText : JsString → JsString} {c : Coordinator} {body : Body} {sequence : ℕ}

/-- The numbers on the active branch. -/
def active (c : Coordinator) : List ℕ := sequences c.entries c.leaf

/-- The counter is not below the numbers of the active branch. -/
def covered (c : Coordinator) : Bool := birthSequence c.entries c.leaf ≤ c.sequence

/-- A birth can be given where the counter covers the active branch; the leaf moves, and the counter is set after that, where
no streamed text is uncommitted. -/
def careful (c : Coordinator) : Event → Bool
  | .progress _ | .commit _ _ | .observe _ | .commitPlan _ _ _ => covered c
  | .move _ _ | .settle => !c.attempt.any Attempt.holds
  | _ => true

structure Sound (c : Coordinator) : Prop where
  distinct : ∀ leaf, (sequences c.entries leaf).Nodup
  held : ∀ attempt ∈ c.attempt, Held c.sequence (active c) attempt
  covers : c.navigation ≠ some .moved → ∀ n ∈ active c, n ≤ c.sequence

theorem covers_of_covered (covered_ : covered c = true) : ∀ n ∈ active c, n ≤ c.sequence :=
  fun _ member => (le_birthSequence member).trans (of_decide_eq_true covered_)

theorem active_append : active (c.append body) = body.births.map Birth.sequence ++ active c := sequences_new

theorem sound_append (distinct : ∀ leaf, (sequences c.entries leaf).Nodup)
    (covers : c.navigation ≠ some .moved → ∀ n ∈ active c, n ≤ c.sequence)
    (nodup : (body.births.map Birth.sequence).Nodup)
    (new : ∀ n ∈ body.births.map Birth.sequence, n ∉ active c ∧ n ≤ c.sequence)
    (held : ∀ attempt ∈ c.attempt, Held c.sequence (body.births.map Birth.sequence ++ active c) attempt) :
    Sound (c.append body) := by
  constructor
  · exact distinct_cons distinct nodup fun n member => (new n member).1
  · rw [active_append]
    exact held
  · intro settled n member
    rw [active_append] at member
    rcases List.mem_append.mp member with member | member
    · exact (new n member).2
    · exact covers settled n member

/-- The counter goes on while no number is used. -/
theorem Sound.advance (sound : Sound c) (le : c.sequence ≤ sequence) : Sound { c with sequence } := by
  constructor
  · exact sound.distinct
  · intro attempt current
    have none_ : ∀ n ∈ ([] : List ℕ), c.sequence < n := nofun
    exact (sound.held attempt current).append le none_
  · intro settled n member
    exact (sound.covers settled n member).trans le

theorem Sound.append_other (sound : Sound c) : Sound (c.append .other) :=
  sound_append sound.distinct sound.covers List.nodup_nil nofun fun attempt current => sound.held attempt current

theorem Sound.append_others (sound : Sound c) (items : List ℕ) :
    Sound (items.foldl (fun c _ => c.append .other) c) := by
  induction items generalizing c with
  | nil => exact sound
  | cons _ rest ih => exact ih sound.append_other

/-- An entry with numbers that the counter has just given out. -/
theorem Sound.append_given (sound : Sound c) (body : Body) (covers : ∀ n ∈ active c, n ≤ c.sequence)
    (given : GivenOut c.sequence sequence (body.births.map Birth.sequence)) : Sound ({ c with sequence }.append body) := by
  have advanced := sound.advance given.le
  apply sound_append advanced.distinct advanced.covers given.nodup
  · intro n member
    have range := given.range n member
    refine ⟨fun old => ?_, range.2⟩
    have bound := covers n old
    omega
  · intro attempt current
    exact (sound.held attempt current).append given.le fun n member => (given.range n member).1

theorem Sound.progress (sound : Sound c) (covers : ∀ n ∈ active c, n ≤ c.sequence) (now : JsString) :
    Sound (c.appendHistoryEntry now) := by
  unfold Coordinator.appendHistoryEntry
  split
  · exact sound
  rcases next_cases c.sequence now with same | same
  · rw [same]
    exact sound.append_given (.progress none) covers (.nil c.sequence)
  · rw [same]
    exact sound.append_given (.progress (some ⟨now, c.sequence + 1⟩)) covers (GivenOut.nil (c.sequence + 1)).cons

theorem Sound.commit (sound : Sound c) (covers : ∀ n ∈ active c, n ≤ c.sequence) (content : List Replaced) (stored : Bool) :
    Sound (c.commit publicText content stored) := by
  obtain ⟨le, given⟩ := assignBirths_given publicText c.sequence content
  unfold Coordinator.commit
  dsimp only
  split
  · next content found =>
    split
    · exact sound.append_given (.assistant content) covers (given content found)
    · exact sound.advance le
  · exact sound.advance le

theorem Sound.observed (sound : Sound c) {before after : Attempt}
    (observed : Observed c.sequence (active c) before after sequence) :
    Sound { c with attempt := some after, sequence } := by
  constructor
  · exact sound.distinct
  · rintro attempt ⟨⟩
    exact observed.held
  · intro settled n member
    exact (sound.covers settled n member).trans observed.le

theorem Sound.commitPlan (sound : Sound c) (covers : ∀ n ∈ active c, n ≤ c.sequence) {attempt : Attempt}
    (current : c.attempt = some attempt) {stop : ℕ} {texts : List PlannedText}
    (plan : Coordinator.isPlan attempt stop texts = true) (stored : Bool) :
    Sound (c.commitPlan publicText attempt stop texts stored) := by
  obtain ⟨reach, inside, ordered⟩ := of_decide_eq_true plan
  have observed := (sound.held attempt current).observeAll covers publicText texts
  have within : ∀ text ∈ texts, (Coordinator.observeAll publicText c.sequence attempt texts).1.cursor ≤ text.index
      ∧ text.index < stop := by
    rw [observed.cursor]
    exact inside
  unfold Coordinator.commitPlan
  dsimp only
  split
  · have next := sound.observed observed
    apply sound_append
    · exact next.distinct
    · exact next.covers
    · exact observed.held.planned_nodup (fun text member => (within text member).1) ordered
    · intro n member
      obtain ⟨text, among, birth, has, rfl⟩ := mem_planned member
      have fresh := observed.held.fresh text.index birth (within text among).1 has
      exact ⟨fresh.2, fresh.1⟩
    · rintro _ ⟨⟩
      have reached : (Coordinator.observeAll publicText c.sequence attempt texts).1.cursor ≤ stop := by
        rw [observed.cursor]
        exact reach
      exact observed.held.acknowledge reached within
  · exact sound.observed observed

/-- The clock starts again from a branch, with no streamed text uncommitted. -/
theorem sound_reset (distinct : ∀ leaf, (sequences c.entries leaf).Nodup) (free : c.attempt.any Attempt.holds = false) :
    Sound c.resetClock := by
  constructor
  · exact distinct
  · intro attempt current
    have current : c.attempt = some attempt := current
    rw [current] at free
    exact .of_none free
  · exact fun _ n member => le_birthSequence member

/-- The leaf moves, with no streamed text uncommitted. -/
theorem Sound.move (sound : Sound c) (free : c.attempt.any Attempt.holds = false) (leaf : Option ℕ) (appended : ℕ) :
    Sound ((List.range appended).foldl (fun c _ => c.append .other) { c with leaf, navigation := some .moved }) := by
  apply Sound.append_others
  constructor
  · exact sound.distinct
  · intro attempt current
    have current : c.attempt = some attempt := current
    rw [current] at free
    exact .of_none free
  · exact fun settled => absurd rfl settled

theorem Sound.step (sound : Sound c) (event : Event) (kept : careful c event = true) : Sound (c.step publicText event) := by
  cases event with
  | progress now => exact sound.progress (covers_of_covered kept) now
  | append => exact sound.append_other
  | commit content stored => exact sound.commit (covers_of_covered kept) content stored
  | startAttempt =>
    unfold Coordinator.step
    dsimp only
    split
    · refine ⟨sound.distinct, ?_, sound.covers⟩
      rintro _ ⟨⟩
      exact .of_none rfl
    · exact sound
  | observe text =>
    unfold Coordinator.step
    dsimp only
    split
    · next attempt current =>
      split
      · exact sound.observed ((sound.held attempt current).observe (covers_of_covered kept) publicText text)
      · exact sound
    · exact sound
  | commitPlan stop texts stored =>
    unfold Coordinator.step
    dsimp only
    split
    · next attempt current =>
      split
      · next plan => exact sound.commitPlan (covers_of_covered kept) current plan stored
      · exact sound
    · exact sound
  | endAttempt => exact ⟨sound.distinct, nofun, sound.covers⟩
  | compact =>
    unfold Coordinator.step
    dsimp only
    split
    · exact ⟨sound.distinct, sound.held, sound.covers⟩
    · exact sound
  | endCompact => exact ⟨sound.distinct, sound.held, sound.covers⟩
  | navigate =>
    unfold Coordinator.step
    dsimp only
    split
    · exact sound
    · next idle =>
      refine ⟨sound.distinct, sound.held, fun _ => sound.covers ?_⟩
      intro moved
      rw [Coordinator.isBusy, moved] at idle
      exact idle (Bool.or_true _)
  | move leaf appended =>
    have free := Bool.not_eq_true' _ ▸ kept
    unfold Coordinator.step
    dsimp only
    split
    · next preparing =>
      split
      · exact sound.move free leaf appended
      · refine ⟨sound.distinct, sound.held, fun _ => sound.covers ?_⟩
        rw [preparing]
        nofun
    · exact sound
  | settle =>
    have free := Bool.not_eq_true' _ ▸ kept
    unfold Coordinator.step
    dsimp only
    split
    · exact sound_reset sound.distinct free
    · exact sound
  | cancel =>
    unfold Coordinator.step
    dsimp only
    split
    · next preparing =>
      refine ⟨sound.distinct, sound.held, fun _ => sound.covers ?_⟩
      rw [preparing]
      nofun
    · exact sound
  | stay =>
    unfold Coordinator.step
    dsimp only
    split
    · exact sound
    · next idle =>
      rw [Coordinator.isBusy, Bool.or_eq_true, Bool.or_eq_true, not_or, not_or] at idle
      have none_ := Option.not_isSome_iff_eq_none.mp idle.1.1
      exact sound_reset sound.distinct (by rw [none_]; rfl)
  | restart leaf =>
    unfold Coordinator.step
    dsimp only
    split
    · exact sound_reset sound.distinct rfl
    · exact sound

theorem sound_initial : Sound .initial where
  distinct _ := List.nodup_nil
  held _ := nofun
  covers _ _ := nofun

end Coordinators

section Runs

variable {publicText : JsString → JsString} {c : Coordinator}

theorem entries_append (c : Coordinator) (body : Body) : c.entries <:+ (c.append body).entries := List.suffix_cons ..

theorem entries_append_others (c : Coordinator) (items : List ℕ) :
    c.entries <:+ (items.foldl (fun c _ => c.append .other) c).entries := by
  induction items generalizing c with
  | nil => exact List.suffix_rfl
  | cons _ rest ih => exact (entries_append c .other).trans (ih _)

theorem entries_step (c : Coordinator) (event : Event) : c.entries <:+ (c.step publicText event).entries := by
  cases event with
  | progress now =>
    unfold Coordinator.step Coordinator.appendHistoryEntry
    dsimp only
    split
    · exact List.suffix_rfl
    · exact entries_append { c with sequence := _ } _
  | append => exact entries_append c .other
  | commit content stored =>
    unfold Coordinator.step Coordinator.commit
    dsimp only
    split
    · split
      · exact entries_append { c with sequence := _ } _
      · exact List.suffix_rfl
    · exact List.suffix_rfl
  | commitPlan stop texts stored =>
    unfold Coordinator.step
    dsimp only
    split
    · split
      · unfold Coordinator.commitPlan
        dsimp only
        split
        · exact entries_append { c with sequence := _, attempt := _ } _
        · exact List.suffix_rfl
      · exact List.suffix_rfl
    · exact List.suffix_rfl
  | move leaf appended =>
    unfold Coordinator.step
    dsimp only
    split
    · split
      · exact entries_append_others { c with leaf, navigation := some .moved } _
      · exact List.suffix_rfl
    · exact List.suffix_rfl
  | endAttempt | endCompact => exact List.suffix_rfl
  | startAttempt | compact | navigate | settle | cancel | stay | restart _ =>
    unfold Coordinator.step
    dsimp only
    split <;> exact List.suffix_rfl
  | observe text =>
    unfold Coordinator.step
    dsimp only
    split
    · split <;> exact List.suffix_rfl
    · exact List.suffix_rfl

/-- Where births are given on a covered branch and the leaf moves without uncommitted texts, the births on every branch are
different, and only a navigation that moved the leaf leaves the active branch uncovered; committed entries stay as they are in
any case. -/
theorem run_distinct (publicText : JsString → JsString) (events : List Event) :
    (∀ earlier later, events = earlier ++ later →
        (Coordinator.initial.run publicText earlier).entries <:+ (Coordinator.initial.run publicText events).entries) ∧
      (Course (Coordinator.step publicText) (fun c event => careful c event = true) .initial events →
        (∀ leaf, (sequences (Coordinator.initial.run publicText events).entries leaf).Nodup) ∧
          ((Coordinator.initial.run publicText events).navigation ≠ some .moved →
            covered (Coordinator.initial.run publicText events) = true)) := by
  constructor
  · rintro earlier later rfl
    unfold Coordinator.run
    rw [List.foldl_append]
    exact foldl_relates (R := fun c d : Coordinator => c.entries <:+ d.entries) (fun _ => List.suffix_rfl)
      (fun _ _ _ first second => first.trans second) _ entries_step later _
  · intro kept
    have sound := kept.preserves (P := Sound) (fun c event sound kept => sound.step event kept) sound_initial
    exact ⟨sound.distinct, fun settled => decide_eq_true (birthSequence_le (sound.covers settled))⟩

/-- A text is streamed and committed beside a progress entry, and a navigation goes back before another one. -/
def orderlyEvents : List Event :=
  [.append, .startAttempt, .observe ⟨0, js "Done.", js "2026-01-01T00:00:00.000Z"⟩, .progress (js "2026-01-01T00:00:01.000Z"),
    .commitPlan 1 [⟨0, js "Done.", []⟩] true, .endAttempt, .navigate, .move (some 1) 0, .settle,
    .progress (js "2026-01-01T00:00:02.000Z")]

theorem run_distinct_orderly :
    (sequences (Coordinator.initial.run id orderlyEvents).entries (some 2)).Nodup
      ∧ sequences (Coordinator.initial.run id orderlyEvents).entries (some 2) = [1, 2] := by
  have kept : Course (Coordinator.step id) (fun c event => careful c event = true) .initial orderlyEvents :=
    ⟨rfl, rfl, rfl, rfl, rfl, rfl, rfl, rfl, rfl, rfl, trivial⟩
  exact ⟨((run_distinct id orderlyEvents).2 kept).1 (some 2), by decide⟩

end Runs

/-! ## A progress entry during a navigation -/

section Moved

def instant : JsString := js "2026-01-01T00:00:00.000Z"

/-- The first navigation leaves two progress entries, the second goes back to them and a third is written before it ends. -/
def movedEvents : List Event :=
  [.append, .progress instant, .progress instant, .navigate, .move (some 0) 0, .settle, .navigate, .move (some 2) 0,
    .progress instant]

theorem movedEvents_repeats :
    ¬∀ (publicText : JsString → JsString) (events : List Event) (leaf : Option ℕ),
      (sequences (Coordinator.initial.run publicText events).entries leaf).Nodup := by
  intro distinct
  have same : sequences (Coordinator.initial.run id movedEvents).entries (some 3) = [1, 2, 1] := by decide
  have nodup := distinct id movedEvents (some 3)
  rw [same] at nodup
  exact absurd nodup (by decide)

end Moved

end PersistentHarness.BirthClock
