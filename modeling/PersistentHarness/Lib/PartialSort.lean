import Mathlib.Data.List.Sort
import Mathlib.Tactic.Common

/-! # Sorting around elements without a key

A comparison that leaves elements without a key alone is no order. An insertion sort by it never moves an element past one
without a key, so it sorts the stretches between them, each by itself.
-/

namespace PersistentHarness.PartialSort

variable {α κ : Type*} [LinearOrder κ] {key : α → Option κ}

/-- Neither has a larger key than the other, or one of them has none. -/
def Precedes (key : α → Option κ) (a b : α) : Prop := ∀ x ∈ key a, ∀ y ∈ key b, x ≤ y

/-- Elements on two sides of one without a key come in the order of their keys. -/
def Walled (key : α → Option κ) (l : List α) : Prop :=
  ∀ a u b, [a, u, b].Sublist l → key u = none → Precedes key a b

theorem precedes_of_none_left {a b : α} (absent : key a = none) : Precedes key a b := by
  intro x here
  rw [absent] at here
  cases here

theorem precedes_of_none_right {a b : α} (absent : key b = none) : Precedes key a b := by
  intro x _ y here
  rw [absent] at here
  cases here

theorem Precedes.trans {a b c : α} (present : key b ≠ none) (first : Precedes key a b) (second : Precedes key b c) :
    Precedes key a c := by
  intro x atA z atC
  obtain ⟨y, atB⟩ := Option.ne_none_iff_exists'.mp present
  exact (first x atA y atB).trans (second y atB z atC)

theorem precedes_total (a b : α) : Precedes key a b ∨ Precedes key b a := by
  cases atA : key a with
  | none => exact .inl (precedes_of_none_left atA)
  | some x =>
    cases atB : key b with
    | none => exact .inl (precedes_of_none_right atB)
    | some y =>
      refine (le_total x y).imp (fun below => ?_) fun below => ?_ <;> intro p here q there
      · cases atA.symm.trans here
        cases atB.symm.trans there
        exact below
      · cases atB.symm.trans here
        cases atA.symm.trans there
        exact below

theorem walled_append_iff {front back : List α} {u : α} (absent : key u = none) :
    Walled key (front ++ u :: back) ↔
      Walled key front ∧ Walled key back ∧ ∀ a ∈ front, ∀ b ∈ back, Precedes key a b := by
  constructor
  · intro walled
    refine ⟨fun a v b inFront => walled a v b (inFront.trans (List.sublist_append_left ..)),
      fun a v b inBack => walled a v b ((inBack.cons u).trans (List.sublist_append_right ..)), fun a atFront b atBack => ?_⟩
    refine walled a u b ?_ absent
    exact (List.singleton_sublist.mpr atFront).append ((List.singleton_sublist.mpr atBack).cons_cons u)
  · rintro ⟨inFront, inBack, across⟩ a v b triple noKey
    obtain ⟨early, late, split, early_sub, late_sub⟩ := List.sublist_append_iff.mp triple
    -- the elements of the triple on either side of the wall, or on it
    have onWall : ∀ {c}, c ∈ u :: back → c ∈ back ∨ key c = none := by
      intro c member
      rcases List.mem_cons.mp member with rfl | later
      · exact .inr absent
      · exact .inl later
    rcases early with _ | ⟨a', _ | ⟨v', _ | ⟨b', early⟩⟩⟩
    · obtain rfl : late = [a, v, b] := split.symm
      rcases late_sub with _ | ⟨_, inside⟩ | ⟨_, _⟩
      · exact inBack a v b inside noKey
      · exact precedes_of_none_left absent
    · obtain ⟨rfl, rfl⟩ : a = a' ∧ late = [v, b] := by simpa [eq_comm] using split
      rcases onWall (late_sub.subset (by simp : b ∈ [v, b])) with atBack | absentB
      · exact across a (early_sub.subset (by simp)) b atBack
      · exact precedes_of_none_right absentB
    · obtain ⟨rfl, rfl, rfl⟩ : a = a' ∧ v = v' ∧ late = [b] := by simpa [eq_comm] using split
      rcases onWall (late_sub.subset (by simp : b ∈ [b])) with atBack | absentB
      · exact across a (early_sub.subset (by simp)) b atBack
      · exact precedes_of_none_right absentB
    · obtain ⟨rfl, rfl, rfl, rfl, rfl⟩ : a = a' ∧ v = v' ∧ b = b' ∧ early = [] ∧ late = [] := by
        simpa [eq_comm, and_assoc] using split
      exact inFront a v b early_sub noKey

section Sorting

variable {r : α → α → Prop} [DecidableRel r] (keyed : ∀ a b, r a b ↔ Precedes key a b)

include keyed

/-- The sort works on the two sides of an element without a key alone. -/
theorem insertionSort_append {u : α} (absent : key u = none) (front back : List α) :
    (front ++ u :: back).insertionSort r = front.insertionSort r ++ u :: back.insertionSort r := by
  induction front with
  | nil =>
    rw [List.nil_append, List.insertionSort_cons]
    generalize back.insertionSort r = sorted
    cases sorted with
    | nil => rfl
    | cons b rest => exact if_pos ((keyed u b).mpr (precedes_of_none_left absent))
  | cons a front ih =>
    rw [List.cons_append, List.insertionSort_cons, ih, List.insertionSort_cons]
    generalize front.insertionSort r = sorted
    induction sorted with
    | nil => exact if_pos ((keyed a u).mpr (precedes_of_none_right absent))
    | cons b rest inner =>
      rw [List.cons_append, List.orderedInsert, List.orderedInsert]
      split
      · rfl
      · rw [inner]; rfl

theorem pairwise_insertionSort_of_keyed {l : List α} (present : ∀ a ∈ l, key a ≠ none) :
    (l.insertionSort r).Pairwise (Precedes key) := by
  induction l with
  | nil => exact .nil
  | cons a l ih =>
    have sorted := ih fun b member => present b (List.mem_cons_of_mem a member)
    have named : ∀ b ∈ l.insertionSort r, key b ≠ none := fun b member =>
      present b (List.mem_cons_of_mem a ((List.mem_insertionSort r).mp member))
    rw [List.insertionSort_cons]
    generalize l.insertionSort r = list at sorted named
    induction list with
    | nil => exact List.pairwise_singleton ..
    | cons b list inner =>
      obtain ⟨first, rest⟩ := List.pairwise_cons.mp sorted
      rw [List.orderedInsert]
      split
      · next before =>
        have ahead := (keyed a b).mp before
        refine List.pairwise_cons.mpr ⟨fun c member => ?_, sorted⟩
        rcases List.mem_cons.mp member with rfl | later
        · exact ahead
        · exact ahead.trans (named b (List.mem_cons_self ..)) (first c later)
      · next behind =>
        have after : Precedes key b a := (precedes_total a b).resolve_left fun before => behind ((keyed a b).mpr before)
        refine List.pairwise_cons.mpr ⟨fun c member => ?_, inner rest fun c member => named c (List.mem_cons_of_mem b member)⟩
        rcases (List.mem_orderedInsert r).mp member with rfl | later
        · exact after
        · exact first c later

/-- The elements that have keys come out in order exactly when no element without a key stands between two that do not. -/
theorem pairwise_insertionSort_iff (l : List α) : (l.insertionSort r).Pairwise (Precedes key) ↔ Walled key l := by
  induction size : l.length using Nat.strong_induction_on generalizing l with
  | _ n ih =>
    by_cases present : ∀ a ∈ l, key a ≠ none
    · refine iff_of_true (pairwise_insertionSort_of_keyed keyed present) fun a u b triple absent => ?_
      exact absurd absent (present u (triple.subset (by simp)))
    · obtain ⟨u, member, absent⟩ : ∃ u ∈ l, key u = none := by simpa using present
      obtain ⟨front, back, rfl⟩ := List.append_of_mem member
      simp only [List.length_append, List.length_cons] at size
      have inFront := ih front.length (by omega) front rfl
      have inBack := ih back.length (by omega) back rfl
      rw [insertionSort_append keyed absent, walled_append_iff absent, List.pairwise_append, List.pairwise_cons, inFront, inBack]
      constructor
      · rintro ⟨ordered, ⟨-, orderedToo⟩, across⟩
        refine ⟨ordered, orderedToo, fun a atFront b atBack => ?_⟩
        exact across a ((List.mem_insertionSort r).mpr atFront) b
          (List.mem_cons_of_mem u ((List.mem_insertionSort r).mpr atBack))
      · rintro ⟨ordered, orderedToo, across⟩
        refine ⟨ordered, ⟨fun b _ => precedes_of_none_left absent, orderedToo⟩, fun a atFront b atBack => ?_⟩
        rcases List.mem_cons.mp atBack with rfl | later
        · exact precedes_of_none_right absent
        · exact across a ((List.mem_insertionSort r).mp atFront) b ((List.mem_insertionSort r).mp later)

theorem filter_insertionSort (k : κ) (l : List α) :
    (l.insertionSort r).filter (fun a => key a = some k) = l.filter fun a => key a = some k := by
  induction l with
  | nil => rfl
  | cons a l ih =>
    rw [List.insertionSort_cons, List.filter_cons, ← ih]
    generalize l.insertionSort r = list
    induction list with
    | nil => exact List.filter_cons ..
    | cons b list inner =>
      rw [List.orderedInsert]
      split
      · exact List.filter_cons ..
      · next behind =>
        rw [List.filter_cons, inner]
        -- an element that is moved past another has a larger key
        have apart : ¬(key a = some k ∧ key b = some k) := by
          rintro ⟨atA, atB⟩
          refine behind ((keyed a b).mpr fun x here y there => ?_)
          cases atA.symm.trans here
          cases atB.symm.trans there
          exact le_refl _
        by_cases atA : key a = some k <;> by_cases atB : key b = some k <;> simp [atA, atB] at apart ⊢

end Sorting

end PersistentHarness.PartialSort
