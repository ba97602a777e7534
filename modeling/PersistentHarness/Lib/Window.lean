import Mathlib.Data.List.Basic
import Mathlib.Algebra.Order.Ring.Nat
import Mathlib.Algebra.BigOperators.Group.List.Basic
import Mathlib.Tactic.Common

/-! # Consecutive ranges

A list of items, each with a half-open range of naturals, that leads from one end to another without
a gap or an overlap. Every index between the ends is then in the range of exactly one item.
-/

/-! ## Windows over a numbered history

A log that is only appended to, of which the newest part is kept within a count and a weight. The kept part is a
suffix of the history, so consecutive numbers of the history are consecutive in it, and what follows a number is
either all kept or known to be lost.
-/

namespace PersistentHarness.Window

variable {α : Type*}

section Eviction

variable (weight : α → ℕ) (maxCount maxWeight : ℕ)

/-- Drop items from the front, with their weight, until the rest is within the limits. An empty list over its weight
has nothing to drop. -/
def evict : List α → ℕ → Option (List α × ℕ)
  | [], total => if maxWeight < total then none else some ([], total)
  | item :: rest, total =>
    if maxCount < (item :: rest).length ∨ maxWeight < total then evict rest (total - weight item) else some (item :: rest, total)

/-- The newest items of a history within the limits, and their weight. -/
structure Keeps (history kept : List α) (total : ℕ) : Prop where
  suffix : kept <:+ history
  exact : total = (kept.map weight).sum
  count : kept.length ≤ maxCount
  within : total ≤ maxWeight

variable {weight maxCount maxWeight}

theorem keeps_nil : Keeps weight maxCount maxWeight [] [] 0 := ⟨List.suffix_refl [], rfl, Nat.zero_le _, Nat.zero_le _⟩

/-- Eviction ends within the limits when the weight it starts from is exact. -/
theorem evict_keeps {history items : List α} (suffix : items <:+ history) :
    ∃ kept total, evict weight maxCount maxWeight items (items.map weight).sum = some (kept, total)
      ∧ Keeps weight maxCount maxWeight history kept total := by
  induction items with
  | nil => exact ⟨[], 0, by simp [evict], suffix, rfl, Nat.zero_le _, Nat.zero_le _⟩
  | cons item rest ih =>
    rw [evict]
    by_cases exceeds : maxCount < (item :: rest).length ∨ maxWeight < ((item :: rest).map weight).sum
    · rw [if_pos exceeds]
      have rest := ih ((List.suffix_cons item rest).trans suffix)
      rwa [List.map_cons, List.sum_cons, Nat.add_sub_cancel_left]
    · rw [if_neg exceeds]
      rw [not_or, Nat.not_lt, Nat.not_lt] at exceeds
      exact ⟨_, _, rfl, suffix, rfl, exceeds.1, exceeds.2⟩

/-- A new item is appended and the window closes up behind it. -/
theorem Keeps.push {history kept : List α} {total : ℕ} (keeps : Keeps weight maxCount maxWeight history kept total) (item : α) :
    ∃ kept' total', evict weight maxCount maxWeight (kept ++ [item]) (total + weight item) = some (kept', total')
      ∧ Keeps weight maxCount maxWeight (history ++ [item]) kept' total' := by
  obtain ⟨before, same⟩ := keeps.suffix
  have suffix : kept ++ [item] <:+ history ++ [item] := ⟨before, by rw [← List.append_assoc, same]⟩
  have exact : total + weight item = ((kept ++ [item]).map weight).sum := by
    rw [keeps.exact, List.map_append, List.sum_append, List.map_singleton, List.sum_singleton]
  rw [exact]
  exact evict_keeps suffix

end Eviction

section Numbers

variable {number : α → ℕ}

def Numbered (number : α → ℕ) (first : ℕ) (items : List α) : Prop := items.map number = List.range' first items.length

theorem Numbered.concat {first : ℕ} {items : List α} (numbered : Numbered number first items) {item : α}
    (next : number item = first + items.length) : Numbered number first (items ++ [item]) := by
  rw [Numbered, List.map_append, numbered, List.map_singleton, next, List.length_append, List.length_singleton,
    List.range'_concat, Nat.one_mul]

theorem Numbered.drop {first : ℕ} {items : List α} (numbered : Numbered number first items) (n : ℕ) :
    Numbered number (first + n) (items.drop n) := by
  rw [Numbered, List.map_drop, numbered, List.length_drop, List.drop_range', Nat.mul_one]

theorem Numbered.head {first : ℕ} {items : List α} (numbered : Numbered number first items) {item : α}
    (head : items.head? = some item) : number item = first := by
  cases items with
  | nil => cases head
  | cons other rest =>
    cases head
    rw [Numbered, List.map_cons, List.length_cons, List.range'_succ] at numbered
    exact (List.cons.inj numbered).1

theorem Numbered.filter {first : ℕ} {items : List α} (numbered : Numbered number first items) (n : ℕ) :
    items.filter (fun item => decide (n < number item)) = items.drop (n + 1 - first) := by
  induction items generalizing first with
  | nil => simp
  | cons item rest ih =>
    have here : number item = first := numbered.head rfl
    have later : Numbered number (first + 1) rest := numbered.drop 1
    by_cases after : n < first
    · have none : n + 1 - first = 0 := by omega
      have all : ∀ other ∈ item :: rest, decide (n < number other) = true := by
        intro other member
        have listed := List.mem_map_of_mem (f := number) member
        rw [numbered, List.mem_range'_1] at listed
        exact decide_eq_true (by omega)
      rw [none, List.drop_zero, List.filter_eq_self.mpr all]
    · have one : n + 1 - first = (n + 1 - (first + 1)) + 1 := by omega
      rw [List.filter_cons_of_neg (by simp [here, after]), ih later, one, List.drop_succ_cons]

theorem filter_of_suffix {first n : ℕ} {history kept : List α} (numbered : Numbered number first history) (suffix : kept <:+ history)
    (reaches : first + history.length ≤ n + 1 + kept.length) :
    kept.filter (fun item => decide (n < number item)) = history.drop (n + 1 - first) := by
  obtain ⟨before, rfl⟩ := suffix
  rw [List.length_append] at reaches
  have keptNumbered : Numbered number (first + before.length) kept := by
    have later := numbered.drop before.length
    rwa [List.drop_left] at later
  have split : n + 1 - first = before.length + (n + 1 - (first + before.length)) := by omega
  rw [keptNumbered.filter, split, List.drop_length_add_append]

end Numbers

end PersistentHarness.Window
