import Mathlib.Data.List.Forall2
import Mathlib.Data.List.Nodup
import Mathlib.Data.List.Basic

/-! # Lists read by index

Related lists have related elements at every index, and a list whose parts are jointly distinct owns
each part at one index.
-/

namespace PersistentHarness.Pointwise

variable {α β γ : Type*} {R : α → β → Prop} {xs : List α} {ys : List β}

theorem exists_right (related : List.Forall₂ R xs ys) {k : ℕ} {x : α} (present : xs[k]? = some x) :
    ∃ y, ys[k]? = some y ∧ R x y := by
  induction related generalizing k with
  | nil => simp at present
  | cons head _ ih =>
    cases k with
    | zero =>
      cases present
      exact ⟨_, rfl, head⟩
    | succ k => exact ih (by rwa [List.getElem?_cons_succ] at present)

theorem exists_left (related : List.Forall₂ R xs ys) {k : ℕ} {y : β} (present : ys[k]? = some y) :
    ∃ x, xs[k]? = some x ∧ R x y := exists_right related.flip present

/-- What a longer list holds is what it held before, or what was put last. -/
theorem of_concat {x y : α} {k : ℕ} (present : (xs ++ [y])[k]? = some x) :
    xs[k]? = some x ∨ k = xs.length ∧ x = y := by
  rcases Nat.lt_or_ge k xs.length with within | beyond
  · left
    rwa [List.getElem?_append_left within] at present
  · right
    rw [List.getElem?_append_right beyond] at present
    have last : k - xs.length = 0 := by
      have within := (List.getElem?_eq_some_iff.mp present).1
      rw [List.length_singleton] at within
      omega
    rw [last] at present
    cases present
    exact ⟨by omega, rfl⟩

theorem concat_of {x : α} (y : α) {k : ℕ} (present : xs[k]? = some x) : (xs ++ [y])[k]? = some x :=
  (List.getElem?_append_left (List.getElem?_eq_some_iff.mp present).1).trans present

end PersistentHarness.Pointwise

/-! ## Fields that end at a mark

A text of fields, each with a mark behind it or before it, is read back field by field as long as no field holds its
mark.
-/

namespace PersistentHarness.Fields

variable {α : Type*} {mark : α} {field other rest more : List α}

/-- A field that does not hold its end mark ends at the first one. -/
theorem inj (unmarked : mark ∉ field) (unmarkedToo : mark ∉ other) (same : field ++ mark :: rest = other ++ mark :: more) :
    field = other ∧ rest = more := by
  induction field generalizing other with
  | nil =>
    cases other with
    | nil => exact ⟨rfl, (List.cons.inj same).2⟩
    | cons b other =>
      obtain ⟨rfl, -⟩ := List.cons.inj same
      exact absurd (List.mem_cons_self ..) unmarkedToo
  | cons a field ih =>
    cases other with
    | nil =>
      obtain ⟨rfl, -⟩ := List.cons.inj same
      exact absurd (List.mem_cons_self ..) unmarked
    | cons b other =>
      obtain ⟨rfl, tail⟩ := List.cons.inj same
      obtain ⟨rfl, rfl⟩ := ih (List.not_mem_of_not_mem_cons unmarked) (List.not_mem_of_not_mem_cons unmarkedToo) tail
      exact ⟨rfl, rfl⟩

end PersistentHarness.Fields
