import Mathlib.Data.List.ReduceOption

/-! # Queues with a moving head

A queue is kept in a list of slots: a slot is emptied when its item is taken, and the head moves on. The empty
slots before the head may be dropped at any time.
-/

namespace PersistentHarness.SlotQueue

variable {α : Type*} {slots : List (Option α)} {head : ℕ} {item : α} {items : List α}

/-- The slots hold these items from the head on, and nothing before it. -/
def Holds (slots : List (Option α)) (head : ℕ) (items : List α) : Prop :=
  slots = List.replicate head none ++ items.map some

namespace Holds

theorem empty : Holds ([] : List (Option α)) 0 [] := rfl

theorem length (holds : Holds slots head items) : slots.length = head + items.length := by
  rw [holds, List.length_append, List.length_replicate, List.length_map]

theorem drop (holds : Holds slots head items) : slots.drop head = items.map some := by
  rw [holds]
  exact List.drop_left' List.length_replicate

theorem reduce (holds : Holds slots head items) : (slots.drop head).reduceOption = items := by
  rw [holds.drop, List.reduceOption, List.filterMap_map, Function.id_comp, List.filterMap_some]

theorem compact (holds : Holds slots head items) : Holds (slots.drop head) 0 items := holds.drop

theorem push (holds : Holds slots head items) (item : α) : Holds (slots ++ [some item]) head (items ++ [item]) := by
  rw [Holds, holds, List.map_append, List.append_assoc, List.map_singleton]

theorem getElem? (holds : Holds slots head items) : slots[head]? = items.head?.map some := by
  rw [← List.head?_drop, holds.drop, List.head?_map]

theorem take (holds : Holds slots head (item :: items)) : Holds (slots.set head none) (head + 1) items := by
  rw [Holds, holds, List.set_append_right _ _ (by simp), List.length_replicate, Nat.sub_self, List.map_cons,
    List.set_cons_zero, List.replicate_succ', List.append_assoc, List.singleton_append]

theorem drained (holds : Holds slots slots.length items) : items = [] := by
  have length := holds.length
  exact List.length_eq_zero_iff.mp (by omega)

end Holds

end PersistentHarness.SlotQueue
