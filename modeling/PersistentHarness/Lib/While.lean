import Mathlib.Logic.Relation
import Mathlib.Tactic.Common

/-! # Loops

A loop whose turn is a partial step: the test and the body in one function, with no value where the test fails. What
its first test finds and every turn keeps holds at every test, and a measure that falls at each turn makes it end.
-/

namespace PersistentHarness.While

variable {σ : Type*} {turn : σ → Option σ} {start state : σ}

/-- Take turns until there is none; no result when the fuel runs out before. -/
def loop (turn : σ → Option σ) : ℕ → σ → Option σ
  | 0, _ => none
  | fuel + 1, state =>
    match turn state with
    | none => some state
    | some next => loop turn fuel next

/-- The states in which a loop makes its test. -/
def Tested (turn : σ → Option σ) (start : σ) : σ → Prop := Relation.ReflTransGen (fun state next => turn state = some next) start

namespace Tested

theorem first (turn : σ → Option σ) (start : σ) : Tested turn start start := Relation.ReflTransGen.refl

theorem keeps {holds : σ → Prop} (initial : holds start)
    (kept : ∀ state next, holds state → turn state = some next → holds next) (tested : Tested turn start state) :
    holds state := by
  induction tested with
  | refl => exact initial
  | tail _ taken ih => exact kept _ _ ih taken

end Tested

theorem loop_ends (size : σ → ℕ) (falls : ∀ state next, turn state = some next → size next < size state) (fuel : ℕ) :
    ∀ state, size state < fuel → ∃ last, loop turn fuel state = some last ∧ Tested turn state last ∧ turn last = none := by
  induction fuel with
  | zero =>
    intro state enough
    exact absurd enough (Nat.not_lt_zero _)
  | succ fuel ih =>
    intro state enough
    rw [loop]
    cases taken : turn state with
    | none => exact ⟨state, rfl, Tested.first turn state, taken⟩
    | some next =>
      have less := falls state next taken
      obtain ⟨last, ended, tested, over_⟩ := ih next (by omega)
      exact ⟨last, ended, Relation.ReflTransGen.head taken tested, over_⟩

end PersistentHarness.While
