import Mathlib.Order.Bounds.Basic
import Mathlib.Tactic.Common

/-! # Moving a cut back

A sequence is cut at a position. An item before the cut may block it, when it needs something at or behind the cut, and the
cut then moves back to an anchor at or before the item. One pass over the items, from the cut to the start, finds the last
position where nothing is blocked.
-/

namespace PersistentHarness.Retreat

variable {anchor : ℕ → Prop} [DecidablePred anchor] {blocks : ℕ → ℕ → Prop} {start original index cut : ℕ}

/-- The last anchor at or before a position, or the start. -/
def retreat (anchor : ℕ → Prop) [DecidablePred anchor] (start : ℕ) : ℕ → ℕ
  | 0 => 0
  | index + 1 => if start < index + 1 ∧ ¬anchor (index + 1) then retreat anchor start index else index + 1

theorem retreat_le (index : ℕ) : retreat anchor start index ≤ index := by
  induction index with
  | zero => exact le_refl _
  | succ index ih =>
    rw [retreat]
    split
    · omega
    · exact le_refl _

theorem start_le_retreat (within : start ≤ index) : start ≤ retreat anchor start index := by
  induction index with
  | zero => exact within
  | succ index ih =>
    rw [retreat]
    split
    next more => exact ih (Nat.le_of_lt_succ more.1)
    next => exact within

theorem retreat_anchored (within : start ≤ index) :
    retreat anchor start index = start ∨ anchor (retreat anchor start index) := by
  induction index with
  | zero =>
    left
    exact (Nat.le_zero.1 within).symm
  | succ index ih =>
    rw [retreat]
    split
    next more => exact ih (Nat.le_of_lt_succ more.1)
    next stays =>
      by_cases begun : start < index + 1
      · right
        by_contra unanchored
        exact stays ⟨begun, unanchored⟩
      · left
        omega

theorem not_anchor_of_retreat {position : ℕ} (after : retreat anchor start index < position) (before : position ≤ index) :
    ¬anchor position := by
  induction index with
  | zero =>
    rw [retreat] at after
    omega
  | succ index ih =>
    rw [retreat] at after
    split at after
    next more =>
      by_cases same : position = index + 1
      · rw [same]
        exact more.2
      · exact ih after (by omega)
    next => omega

/-- The cuts that may be chosen: the original one, the start or an anchor, with nothing blocked. -/
def Choices (anchor : ℕ → Prop) (blocks : ℕ → ℕ → Prop) (start original : ℕ) : Set ℕ :=
  {cut | start ≤ cut ∧ cut ≤ original ∧ (cut = original ∨ cut = start ∨ anchor cut) ∧
    ∀ item, start ≤ item → item < cut → ¬blocks item cut}

/-- The pass over the items is at an index: the items from there on block the cut no more, and no later choice is left. -/
structure Passing (anchor : ℕ → Prop) (blocks : ℕ → ℕ → Prop) (start original index cut : ℕ) : Prop where
  within : start ≤ cut ∧ cut ≤ original
  anchored : cut = original ∨ cut = start ∨ anchor cut
  clear : ∀ item, index ≤ item → item < cut → ¬blocks item cut
  later : ∀ position, cut < position → position ≤ original → position = original ∨ anchor position →
    ∃ item, start ≤ item ∧ item < position ∧ blocks item position

namespace Passing

omit [DecidablePred anchor] in
theorem initial (within : start ≤ original) : Passing anchor blocks start original original original where
  within := ⟨within, le_refl _⟩
  anchored := .inl rfl
  clear := fun _ after before => absurd before (not_lt.2 after)
  later := fun _ after before => absurd after (not_lt.2 before)

omit [DecidablePred anchor] in
theorem pass (passing : Passing anchor blocks start original (index + 1) cut) (free : ¬blocks index cut) :
    Passing anchor blocks start original index cut where
  within := passing.within
  anchored := passing.anchored
  clear := by
    intro item after before
    rcases Nat.eq_or_lt_of_le after with rfl | after
    · exact free
    · exact passing.clear item after before
  later := passing.later

theorem move (passing : Passing anchor blocks start original (index + 1) cut) (begun : start ≤ index)
    (inside : index < original) (blocked : blocks index cut)
    (mono : ∀ item first second, first ≤ second → blocks item second → blocks item first) :
    Passing anchor blocks start original index (min cut (retreat anchor start index)) := by
  have low : retreat anchor start index ≤ index := retreat_le index
  have high : start ≤ retreat anchor start index := start_le_retreat begun
  by_cases behind : index < cut
  · have moved : min cut (retreat anchor start index) = retreat anchor start index := by omega
    rw [moved]
    refine ⟨⟨high, by omega⟩, .inr (retreat_anchored begun), ?_, ?_⟩
    · intro item after before
      omega
    · intro position after before chosen
      by_cases past : cut < position
      · exact passing.later position past before chosen
      · by_cases between : index < position
        · exact ⟨index, begun, between, mono _ _ _ (not_lt.1 past) blocked⟩
        · rcases chosen with rfl | anchored
          · omega
          · exact absurd anchored (not_anchor_of_retreat after (not_lt.1 between))
  · -- The cut is an anchor already, so no position behind it is found.
    have stays : cut ≤ retreat anchor start index := by
      by_contra before
      rcases passing.anchored with rfl | rfl | anchored
      · omega
      · omega
      · exact not_anchor_of_retreat (not_le.1 before) (not_lt.1 behind) anchored
    rw [min_eq_left stays]
    refine ⟨passing.within, passing.anchored, ?_, passing.later⟩
    intro item after before
    omega

omit [DecidablePred anchor] in
theorem isGreatest (passing : Passing anchor blocks start original start cut) :
    IsGreatest (Choices anchor blocks start original) cut := by
  refine ⟨⟨passing.within.1, passing.within.2, passing.anchored, passing.clear⟩, ?_⟩
  rintro other ⟨first, last, chosen, free⟩
  by_contra behind
  have after : cut < other := not_le.1 behind
  have within := passing.within.1
  have chosen' : other = original ∨ anchor other := by
    rcases chosen with original | start | anchored
    · exact .inl original
    · omega
    · exact .inr anchored
  obtain ⟨item, begun, inside, blocked⟩ := passing.later other after last chosen'
  exact free item begun inside blocked

end Passing

end PersistentHarness.Retreat
