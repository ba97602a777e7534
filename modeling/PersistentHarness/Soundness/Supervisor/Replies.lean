import PersistentHarness.Model.Supervisor.Replies

/-! # Bounded replies end within their limits

Both loops count the JSON bytes of what is left exactly wherever they compare them, so what a client receives is the end
of the list, short enough, and for a replay as long as it may be.
-/

namespace PersistentHarness.Supervisor

open Json (jsonBytes elementBytes jsonBytes_items jsonBytes_items_append)

section Replay

variable {start : List Value} {cut following : Cutting} {ring : List RingItem}

/-- The replay loop at a test: what is left is an end of the list, and every longer end is too long. -/
structure Replaying (start : List Value) (cut : Cutting) : Prop where
  suffix : cut.selected <:+ start
  nonempty : start ≠ [] → cut.selected ≠ []
  counted : 1 < cut.selected.length → cut.bytes = jsonBytes (.arr cut.selected)
  longer : ∀ other : List Value, other <:+ start → cut.selected.length < other.length → 40 * 1024 < jsonBytes (.arr other)

theorem selected_replayStart (ring : List RingItem) :
    (replayStart ring).selected = (ring.drop (ring.length - 128)).map RingItem.replayed := by
  rw [replayStart]

theorem bytes_replayStart (ring : List RingItem) (several : 1 < (replayStart ring).selected.length) :
    (replayStart ring).bytes = jsonBytes (.arr (replayStart ring).selected) := by
  rw [replayStart] at several ⊢
  simp only at several ⊢
  rw [if_pos several]

theorem replaying_start (ring : List RingItem) : Replaying (replayStart ring).selected (replayStart ring) where
  suffix := List.suffix_refl _
  nonempty := id
  counted := bytes_replayStart ring
  longer := by
    intro other suffix longer
    have shorter := suffix.length_le
    omega

/-- What a turn finds and leaves. -/
theorem Cutting.shift_eq_some (shifted : cut.shift = some following) : ∃ oldest next rest,
    cut.selected = oldest :: next :: rest ∧ 40 * 1024 < cut.bytes
      ∧ following = ⟨next :: rest, cut.bytes - (jsonBytes oldest + 1)⟩ := by
  rw [Cutting.shift] at shifted
  split at shifted
  · next oldest next rest selected =>
    split at shifted
    · next large =>
      cases shifted
      exact ⟨oldest, next, rest, selected, large, rfl⟩
    · cases shifted
  · cases shifted

/-- The wrapper that goes takes its bytes and a comma along. -/
theorem jsonBytes_shift {oldest : Value} (next : Value) (rest : List Value) (written : elementBytes oldest = jsonBytes oldest) :
    jsonBytes (.arr (oldest :: next :: rest)) = jsonBytes (.arr (next :: rest)) + (jsonBytes oldest + 1) := by
  rw [jsonBytes_items, jsonBytes_items, List.map_cons, List.sum_cons, written]
  simp only [List.length_cons]
  omega

theorem Replaying.shift (wrapped : ∀ item ∈ start, elementBytes item = jsonBytes item) (replaying : Replaying start cut)
    (shifted : cut.shift = some following) : Replaying start following := by
  obtain ⟨oldest, next, rest, selected, large, rfl⟩ := Cutting.shift_eq_some shifted
  have suffix := replaying.suffix
  have counted := replaying.counted
  have longer := replaying.longer
  rw [selected] at suffix counted longer
  have exact_ : cut.bytes = jsonBytes (.arr (oldest :: next :: rest)) := by
    apply counted
    simp only [List.length_cons]
    omega
  refine ⟨(List.suffix_cons oldest (next :: rest)).trans suffix, fun _ => List.cons_ne_nil _ _, ?_, ?_⟩
  · intro _
    have whole := jsonBytes_shift next rest (wrapped oldest (suffix.mem (List.mem_cons_self ..)))
    simp only
    omega
  · intro other ending more
    simp only [List.length_cons] at more
    by_cases beyond : (oldest :: next :: rest).length < other.length
    · exact longer other ending beyond
    · -- An end of the same length is what the turn has just found too long.
      have same : other = oldest :: next :: rest := by
        apply List.IsSuffix.eq_of_length
        · apply List.suffix_of_suffix_length_le ending suffix
          omega
        · simp only [List.length_cons] at beyond ⊢
          omega
      rw [same]
      omega

theorem Replaying.last (replaying : Replaying start cut) (ended : cut.shift = none) :
    cut.selected.length ≤ 1 ∨ jsonBytes (.arr cut.selected) ≤ 40 * 1024 := by
  rw [Cutting.shift] at ended
  split at ended
  · next oldest next rest selected =>
    split at ended
    · cases ended
    · next small =>
      right
      have counted := replaying.counted (by rw [selected, List.length_cons, List.length_cons]; omega)
      omega
  · next few =>
    left
    rcases listed : cut.selected with _ | ⟨oldest, _ | ⟨next, rest⟩⟩
    · exact Nat.zero_le _
    · exact le_refl _
    · exact absurd listed (few oldest next rest)

/-- The items of a ring are objects, which JSON never leaves out. -/
theorem elementBytes_replayed : ∀ item ∈ (replayStart ring).selected, elementBytes item = jsonBytes item := by
  intro item member
  rw [selected_replayStart] at member
  obtain ⟨of, _, rfl⟩ := List.mem_map.mp member
  rfl

theorem replaying_of_tested (tested : While.Tested Cutting.shift (replayStart ring) cut) :
    Replaying (replayStart ring).selected cut :=
  tested.keeps (replaying_start ring) fun _ _ replaying shifted => replaying.shift elementBytes_replayed shifted

theorem Cutting.length_shift (shifted : cut.shift = some following) : following.selected.length < cut.selected.length := by
  obtain ⟨oldest, next, rest, selected, _, rfl⟩ := Cutting.shift_eq_some shifted
  rw [selected]
  exact Nat.lt_succ_self _

/-- The replay of a ring: the longest end of at most 128 items whose text is short enough, or the last item alone. -/
structure Replayed (ring : List RingItem) (events : List Value) : Prop where
  suffix : events <:+ ring.map RingItem.replayed
  count : events.length ≤ 128
  within : jsonBytes (.arr events) ≤ 40 * 1024 ∨ events.length = 1
  nonempty : ring ≠ [] → events ≠ []
  longest : ∀ other : List Value, other <:+ ring.map RingItem.replayed → other.length ≤ 128 →
    jsonBytes (.arr other) ≤ 40 * 1024 → other <:+ events

theorem replayStart_suffix (ring : List RingItem) : (replayStart ring).selected <:+ ring.map RingItem.replayed := by
  rw [selected_replayStart, List.map_drop]
  exact List.drop_suffix _ _

theorem length_replayStart (ring : List RingItem) : (replayStart ring).selected.length = min ring.length 128 := by
  rw [selected_replayStart, List.length_map, List.length_drop]
  omega

theorem boundedReplay_ends (ring : List RingItem) : ∃ events, boundedReplay ring = some events ∧ Replayed ring events := by
  obtain ⟨last, ended, tested, stopped⟩ := While.loop_ends (fun cut : Cutting => cut.selected.length)
    (fun _ _ shifted => Cutting.length_shift shifted) _ (replayStart ring) (Nat.lt_succ_self _)
  have replaying := replaying_of_tested tested
  have size := length_replayStart ring
  refine ⟨last.selected, by simp only [boundedReplay, ended, Option.map_some], ?_, ?_, ?_, ?_, ?_⟩
  · exact replaying.suffix.trans (replayStart_suffix ring)
  · have shorter := replaying.suffix.length_le
    omega
  · rcases replaying.last stopped with few | short
    · cases left_ : last.selected with
      | nil => exact .inl (by decide)
      | cons item rest =>
        right
        rw [left_, List.length_cons] at few
        rw [List.length_cons]
        omega
    · exact .inl short
  · intro some_
    apply replaying.nonempty
    have positive := List.length_pos_iff.mpr some_
    apply List.length_pos_iff.mp
    omega
  · intro other ending few short
    have length := ending.length_le
    rw [List.length_map] at length
    have inside : other <:+ (replayStart ring).selected := by
      apply List.suffix_of_suffix_length_le ending (replayStart_suffix ring)
      omega
    apply List.suffix_of_suffix_length_le inside replaying.suffix
    by_contra more
    have large := replaying.longer other inside (not_le.mp more)
    omega

end Replay

section Entries

variable {start : List Value} {cut following : Cutting} {data : Value}

/-- The loop over entries at a test. -/
structure Entering (start : List Value) (cut : Cutting) : Prop where
  suffix : cut.selected <:+ start
  counted : cut.selected ≠ [] → cut.bytes = jsonBytes (.arr cut.selected)

theorem selected_entriesStart (data : Value) :
    (entriesStart data).selected = (entriesOf data).drop ((entriesOf data).length - 256) := by
  rw [entriesStart]

theorem bytes_entriesStart (data : Value) (some_ : (entriesStart data).selected ≠ []) :
    (entriesStart data).bytes = jsonBytes (.arr (entriesStart data).selected) := by
  rw [entriesStart] at some_ ⊢
  simp only at some_ ⊢
  rw [if_pos some_]

theorem entering_start (data : Value) : Entering (entriesStart data).selected (entriesStart data) where
  suffix := List.suffix_refl _
  counted := bytes_entriesStart data

/-- The first elements take all their bytes along but those of one bracket pair less a comma. -/
theorem jsonBytes_drop {items : List Value} {drop : ℕ} (some_ : 0 < drop) (left_ : drop < items.length) :
    (jsonBytes (.arr (items.drop drop)) : ℤ) = jsonBytes (.arr items) - ((jsonBytes (.arr (items.take drop)) : ℤ) - 1) := by
  have before : items.take drop ≠ [] := by
    rw [← List.length_pos_iff, List.length_take]
    omega
  have rest : items.drop drop ≠ [] := by
    rw [← List.length_pos_iff, List.length_drop]
    omega
  have parts := jsonBytes_items_append before rest
  rw [List.take_append_drop] at parts
  omega

theorem Cutting.dropQuarter_eq_some (dropped : cut.dropQuarter = some following) :
    cut.selected ≠ [] ∧ 48 * 1024 < cut.bytes ∧ following.selected = cut.selected.drop ((cut.selected.length + 3) / 4)
      ∧ ((cut.selected.length + 3) / 4 < cut.selected.length → following.bytes =
          cut.bytes - ((jsonBytes (.arr (cut.selected.take ((cut.selected.length + 3) / 4))) : ℤ) - 1)) := by
  rw [Cutting.dropQuarter] at dropped
  split at dropped
  · next open_ =>
    cases dropped
    exact ⟨open_.1, open_.2, rfl, fun fewer => if_pos fewer⟩
  · cases dropped

theorem Entering.dropQuarter (entering : Entering start cut) (dropped : cut.dropQuarter = some following) :
    Entering start following := by
  obtain ⟨some_, _, selected, bytes⟩ := Cutting.dropQuarter_eq_some dropped
  have positive := List.length_pos_iff.mpr some_
  refine ⟨?_, ?_⟩
  · rw [selected]
    exact (List.drop_suffix _ _).trans entering.suffix
  · intro left_
    rw [selected, ← List.length_pos_iff, List.length_drop] at left_
    have fewer : (cut.selected.length + 3) / 4 < cut.selected.length := by omega
    rw [bytes fewer, entering.counted some_, selected, jsonBytes_drop (by omega) fewer]

theorem Entering.last (entering : Entering start cut) (ended : cut.dropQuarter = none) :
    cut.selected = [] ∨ jsonBytes (.arr cut.selected) ≤ 48 * 1024 := by
  rw [Cutting.dropQuarter] at ended
  split at ended
  · cases ended
  · next closed =>
    by_cases empty : cut.selected = []
    · exact .inl empty
    · right
      have counted := entering.counted empty
      have small : ¬48 * 1024 < cut.bytes := fun large => closed ⟨empty, large⟩
      omega

theorem entering_of_tested (tested : While.Tested Cutting.dropQuarter (entriesStart data) cut) :
    Entering (entriesStart data).selected cut :=
  tested.keeps (entering_start data) fun _ _ entering dropped => entering.dropQuarter dropped

theorem Cutting.length_dropQuarter (dropped : cut.dropQuarter = some following) :
    following.selected.length < cut.selected.length := by
  obtain ⟨some_, _, selected, _⟩ := Cutting.dropQuarter_eq_some dropped
  have positive := List.length_pos_iff.mpr some_
  rw [selected, List.length_drop]
  omega

/-- The entries of a reply: an end of the list whose text is short enough, marked where something was left out. -/
structure Listed (data : Value) (reply : EntriesReply) : Prop where
  suffix : reply.entries <:+ entriesOf data
  count : reply.entries.length ≤ 256
  within : jsonBytes (.arr reply.entries) ≤ 48 * 1024
  truncated : reply.truncated = true ↔ reply.entries ≠ entriesOf data

theorem boundedEntries_ends (data : Value) : ∃ reply, boundedEntries data = some reply ∧ Listed data reply := by
  obtain ⟨last, ended, tested, stopped⟩ := While.loop_ends (fun cut : Cutting => cut.selected.length)
    (fun _ _ dropped => Cutting.length_dropQuarter dropped) _ (entriesStart data) (Nat.lt_succ_self _)
  have entering := entering_of_tested tested
  have whole : (entriesStart data).selected <:+ entriesOf data := by
    rw [selected_entriesStart]
    exact List.drop_suffix _ _
  have size : (entriesStart data).selected.length ≤ 256 := by
    rw [selected_entriesStart, List.length_drop]
    omega
  have suffix := entering.suffix.trans whole
  obtain ⟨reply, replied, entries, truncated⟩ : ∃ reply, boundedEntries data = some reply ∧ reply.entries = last.selected
      ∧ reply.truncated = decide (last.selected.length < (entriesOf data).length) := by
    rw [boundedEntries, ended]
    exact ⟨_, rfl, rfl, rfl⟩
  rw [← entries] at suffix
  refine ⟨reply, replied, suffix, ?_, ?_, ?_⟩
  · rw [entries]
    exact entering.suffix.length_le.trans size
  · rw [entries]
    rcases entering.last stopped with empty | short
    · rw [empty]
      decide
    · exact short
  · rw [truncated, ← entries, decide_eq_true_eq]
    constructor
    · intro fewer same
      rw [same] at fewer
      exact lt_irrefl _ fewer
    · intro changed
      apply lt_of_le_of_ne suffix.length_le
      intro same
      exact changed (suffix.eq_of_length same)

end Entries

/-- Both lists end within their limits, and wherever a loop compares its counter, the counter is the length of the JSON text. -/
theorem bounded_replies (ring : List RingItem) (data : Value) :
    (∃ events, boundedReplay ring = some events ∧ Replayed ring events)
      ∧ (∃ reply, boundedEntries data = some reply ∧ Listed data reply)
      ∧ (∀ cut, While.Tested Cutting.shift (replayStart ring) cut → 1 < cut.selected.length →
          cut.bytes = jsonBytes (.arr cut.selected))
      ∧ ∀ cut, While.Tested Cutting.dropQuarter (entriesStart data) cut → cut.selected ≠ [] →
          cut.bytes = jsonBytes (.arr cut.selected) := by
  refine ⟨boundedReplay_ends ring, boundedEntries_ends data, ?_, ?_⟩
  · intro cut tested
    exact (replaying_of_tested tested).counted
  · intro cut tested
    exact (entering_of_tested tested).counted

/-- With nothing to replay the counter is not set, so it is not the length of the empty list's text. -/
theorem bounded_replies_empty : ¬∀ cut, While.Tested Cutting.shift (replayStart []) cut →
    cut.bytes = jsonBytes (.arr cut.selected) := by
  intro counted
  have first := counted _ (While.Tested.first _ _)
  revert first
  decide +kernel

end PersistentHarness.Supervisor
