import Mathlib.Algebra.Order.Ring.Nat
import Mathlib.Algebra.Order.Ring.Int
import Mathlib.Tactic.Common

/-! # Searching for the last fit

A binary search over `0, …, n` looks for the largest number that fits, where a number below `n` fits whenever a larger one
below `n` does. The end `n` itself is tried last, once its predecessor has been found to fit.
-/

namespace PersistentHarness

/-- `while (low <= high)`: try the middle, and go on above it when it fits, else below it. -/
def lastFit (fits : ℕ → Bool) : ℕ → ℤ → ℤ → Option ℕ → Option ℕ
  | 0, _, _, fitted => fitted
  | fuel + 1, low, high, fitted =>
    if low ≤ high then
      let middle := (low + high) / 2
      if fits middle.toNat then lastFit fits fuel (middle + 1) high (some middle.toNat)
      else lastFit fits fuel low (middle - 1) fitted
    else fitted

namespace LastFit

variable {fits : ℕ → Bool} {n : ℕ}

/-- Below `n`, what fits is a beginning. -/
def Downward (fits : ℕ → Bool) (n : ℕ) : Prop := ∀ i j, i ≤ j → j < n → fits j = true → fits i = true

/-- What the search may find: nothing below `n` fits, or the last number below `n` that does, or `n`. -/
inductive Found (fits : ℕ → Bool) (n : ℕ) : Option ℕ → Prop
  | nothing (refused : ∀ i < n, fits i = false) : Found fits n none
  | below {m : ℕ} (inside : m < n) (fitting : fits m = true) (refused : ∀ i, m < i → i < n → fits i = false) :
      Found fits n (some m)
  | whole (fitting : fits n = true) : Found fits n (some n)

structure Searching (fits : ℕ → Bool) (n : ℕ) (low high : ℤ) (fitted : Option ℕ) : Prop where
  nonneg : 0 ≤ low
  within : high ≤ n
  meet : low ≤ high + 1
  above : ∀ i : ℕ, high < i → i < n → fits i = false
  best : fitted = if low = 0 then none else some (low - 1).toNat
  fitting : 0 < low → fits (low - 1).toNat = true

theorem Searching.found {low high : ℤ} {fitted : Option ℕ} (state : Searching fits n low high fitted) (over_ : high < low) :
    Found fits n fitted := by
  have nonneg := state.nonneg
  have within := state.within
  have meet := state.meet
  rw [state.best]
  by_cases start : low = 0
  · rw [if_pos start]
    exact .nothing fun i inside => state.above i (by omega) inside
  · rw [if_neg start]
    have fitting := state.fitting (by omega)
    by_cases last : (low - 1).toNat = n
    · rw [last] at fitting ⊢
      exact .whole fitting
    · exact .below (by omega) fitting fun i beyond inside => state.above i (by omega) inside

theorem Searching.up {low high : ℤ} {fitted : Option ℕ} (state : Searching fits n low high fitted)
    (open_ : low ≤ high) (fit : fits ((low + high) / 2).toNat = true) :
    Searching fits n ((low + high) / 2 + 1) high (some ((low + high) / 2).toNat) where
  nonneg := by have := state.nonneg; omega
  within := state.within
  meet := by omega
  above := state.above
  best := by
    have := state.nonneg
    rw [if_neg (by omega), Int.add_sub_cancel]
  fitting := fun _ => by rwa [Int.add_sub_cancel]

theorem Searching.down (downward : Downward fits n) {low high : ℤ} {fitted : Option ℕ}
    (state : Searching fits n low high fitted) (open_ : low ≤ high) (refused : fits ((low + high) / 2).toNat = false) :
    Searching fits n low ((low + high) / 2 - 1) fitted where
  nonneg := state.nonneg
  within := by have := state.within; omega
  meet := by omega
  above := by
    intro i beyond inside
    have nonneg := state.nonneg
    by_contra fit
    rw [Bool.not_eq_false] at fit
    have lower := downward ((low + high) / 2).toNat i (by omega) inside fit
    rw [refused] at lower
    cases lower
  best := state.best
  fitting := state.fitting

theorem found_of_searching (downward : Downward fits n) (fuel : ℕ) {low high : ℤ} {fitted : Option ℕ}
    (state : Searching fits n low high fitted) (enough : (high + 1 - low).toNat ≤ fuel) :
    Found fits n (lastFit fits fuel low high fitted) := by
  induction fuel generalizing low high fitted with
  | zero => exact state.found (by omega)
  | succ fuel ih =>
    rw [lastFit]
    split
    · next open_ =>
      simp only
      split
      · next fit => exact ih (state.up open_ fit) (by omega)
      · next refused => exact ih (state.down downward open_ (Bool.eq_false_iff.mpr refused)) (by omega)
    · next over_ => exact state.found (by omega)

theorem found_lastFit (downward : Downward fits n) : Found fits n (lastFit fits (n + 1) 0 n none) := by
  refine found_of_searching downward _ ⟨le_refl _, le_refl _, by omega, ?_, rfl, ?_⟩ (by omega)
  · intro i beyond inside
    omega
  · intro positive
    omega

end LastFit

end PersistentHarness
