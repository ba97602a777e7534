import Mathlib.Algebra.BigOperators.Fin
import Mathlib.Data.Multiset.Powerset
import Mathlib.Data.Multiset.Sort
import Mathlib.Data.List.Sort
import Mathlib.Tactic.Common

/-! # Sums of a number of items

Which totals can be had with exactly so many of the items. One item more either stands aside or is taken; what is not taken
makes up the rest; and in order of size the first items make the least total.
-/

namespace PersistentHarness.Choices

variable {items : Multiset ℕ} {count total : ℕ}

/-- Some choice of `count` items makes the total. -/
def Sums (items : Multiset ℕ) (count total : ℕ) : Prop := ∃ chosen ≤ items, chosen.card = count ∧ chosen.sum = total

namespace Sums

theorem zero_iff (items : Multiset ℕ) (total : ℕ) : Sums items 0 total ↔ total = 0 := by
  constructor
  · rintro ⟨chosen, _, none, rfl⟩
    rw [Multiset.card_eq_zero.mp none, Multiset.sum_zero]
  · rintro rfl
    exact ⟨0, Multiset.zero_le _, Multiset.card_zero, Multiset.sum_zero⟩

theorem card_le (sums : Sums items count total) : count ≤ items.card := by
  obtain ⟨chosen, inside, rfl, _⟩ := sums
  exact Multiset.card_le_card inside

theorem sum_le (sums : Sums items count total) : total ≤ items.sum := by
  obtain ⟨chosen, inside, _, rfl⟩ := sums
  obtain ⟨others, rfl⟩ := Multiset.le_iff_exists_add.mp inside
  rw [Multiset.sum_add]
  exact Nat.le_add_right _ _

theorem mono {more : Multiset ℕ} (sums : Sums items count total) (within : items ≤ more) : Sums more count total := by
  obtain ⟨chosen, inside, counted, summed⟩ := sums
  exact ⟨chosen, inside.trans within, counted, summed⟩

theorem cons_iff (amount : ℕ) (items : Multiset ℕ) (count total : ℕ) :
    Sums (amount ::ₘ items) (count + 1) total ↔
      Sums items (count + 1) total ∨ amount ≤ total ∧ Sums items count (total - amount) := by
  constructor
  · rintro ⟨chosen, inside, counted, rfl⟩
    have listed : chosen ∈ (amount ::ₘ items).powersetCard (count + 1) := Multiset.mem_powersetCard.mpr ⟨inside, counted⟩
    rw [Multiset.powersetCard_cons, Multiset.mem_add] at listed
    rcases listed with aside | taken
    · left
      obtain ⟨within, _⟩ := Multiset.mem_powersetCard.mp aside
      exact ⟨chosen, within, counted, rfl⟩
    · right
      obtain ⟨others, listed, rfl⟩ := Multiset.mem_map.mp taken
      obtain ⟨within, fewer⟩ := Multiset.mem_powersetCard.mp listed
      rw [Multiset.sum_cons]
      exact ⟨Nat.le_add_right _ _, others, within, fewer, (Nat.add_sub_cancel_left ..).symm⟩
  · rintro (⟨chosen, inside, counted, summed⟩ | ⟨room, others, inside, counted, summed⟩)
    · exact ⟨chosen, inside.trans (Multiset.le_cons_self _ _), counted, summed⟩
    · refine ⟨amount ::ₘ others, Multiset.cons_le_cons _ inside, ?_, ?_⟩
      · rw [Multiset.card_cons, counted]
      · rw [Multiset.sum_cons, summed]
        omega

theorem compl (sums : Sums items count total) : Sums items (items.card - count) (items.sum - total) := by
  obtain ⟨chosen, inside, rfl, rfl⟩ := sums
  obtain ⟨others, rfl⟩ := Multiset.le_iff_exists_add.mp inside
  refine ⟨others, Multiset.le_add_left _ _, ?_, ?_⟩
  · rw [Multiset.card_add, Nat.add_sub_cancel_left]
  · rw [Multiset.sum_add, Nat.add_sub_cancel_left]

theorem compl_iff (few : count ≤ items.card) (small : total ≤ items.sum) :
    Sums items (items.card - count) (items.sum - total) ↔ Sums items count total := by
  constructor
  · intro sums
    have back := sums.compl
    rwa [Nat.sub_sub_self few, Nat.sub_sub_self small] at back
  · exact compl

end Sums

section Order

/-- In order of size the first items make no more than any others. -/
theorem sum_take_le_of_sublist {ordered chosen : List ℕ} (sorted : ordered.Pairwise (· ≤ ·)) (inside : chosen.Sublist ordered) :
    (ordered.take chosen.length).sum ≤ chosen.sum := by
  induction inside with
  | slnil => exact le_refl _
  | @cons chosen ordered first inside ih =>
    obtain ⟨least, sorted⟩ := List.pairwise_cons.mp sorted
    refine le_trans ?_ (ih sorted)
    cases size : chosen.length with
    | zero => exact Nat.zero_le _
    | succ rest =>
      have enough : rest < ordered.length := by
        have shorter := inside.length_le
        omega
      rw [List.take_succ_cons, List.sum_cons, List.take_add_one, List.sum_append, List.getElem?_eq_getElem enough,
        Option.toList_some, List.sum_singleton]
      have above := least _ (List.getElem_mem enough)
      omega
  | cons_cons first inside ih =>
    have rest := ih (List.pairwise_cons.mp sorted).2
    rw [List.length_cons, List.take_succ_cons, List.sum_cons, List.sum_cons]
    omega

variable {ordered : List ℕ}

theorem Sums.sum_take_le (sorted : ordered.Pairwise (· ≤ ·)) (sums : Sums ordered count total) :
    (ordered.take count).sum ≤ total := by
  obtain ⟨chosen, inside, rfl, rfl⟩ := sums
  have listed : (chosen.sort (· ≤ ·)).Sublist ordered := by
    apply List.sublist_of_subperm_of_pairwise _ (Multiset.pairwise_sort ..) sorted
    rwa [← Multiset.coe_le, Multiset.sort_eq]
  have least := sum_take_le_of_sublist sorted listed
  have same : (chosen.sort (· ≤ ·)).sum = chosen.sum := by
    rw [← Multiset.sum_coe, Multiset.sort_eq]
  rwa [Multiset.length_sort, same] at least

/-- And the last ones make no less: the others cannot make less than the first. -/
theorem Sums.le_sum_drop (sorted : ordered.Pairwise (· ≤ ·)) (sums : Sums ordered count total) :
    total ≤ (ordered.drop (ordered.length - count)).sum := by
  have others := sums.compl.sum_take_le sorted
  have parts := List.sum_take_add_sum_drop ordered (ordered.length - count)
  have within := sums.sum_le
  rw [Multiset.coe_card, Multiset.sum_coe] at others
  rw [Multiset.sum_coe] at within
  omega

end Order

theorem sums_iff_positions (list : List ℕ) (count total : ℕ) :
    Sums list count total ↔ ∃ chosen : Finset (Fin list.length), chosen.card = count ∧ ∑ i ∈ chosen, list.get i = total := by
  have all : (list : Multiset ℕ) = (Finset.univ : Finset (Fin list.length)).val.map list.get := by
    rw [Fin.univ_val_map, List.ofFn_get]
  constructor
  · rintro ⟨chosen, inside, counted, rfl⟩
    have listed := Multiset.mem_powersetCard.mpr ⟨inside, counted⟩
    rw [all, Multiset.powersetCard_map] at listed
    obtain ⟨positions, member, rfl⟩ := Multiset.mem_map.mp listed
    obtain ⟨within, size⟩ := Multiset.mem_powersetCard.mp member
    exact ⟨⟨positions, Multiset.nodup_of_le within Finset.univ.nodup⟩, size, rfl⟩
  · rintro ⟨chosen, rfl, rfl⟩
    refine ⟨chosen.val.map list.get, ?_, Multiset.card_map _ _, rfl⟩
    rw [all]
    exact Multiset.map_le_map (Finset.val_le_iff.mpr (Finset.subset_univ chosen))

end PersistentHarness.Choices
