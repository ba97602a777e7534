import Mathlib.Tactic.Common
import Mathlib.Algebra.Order.Ring.Nat
import Mathlib.Data.Nat.Log

/-! # Finite JavaScript numbers

A finite number is named by its shortest decimal, the digits that `JSON.stringify` prints for it:
a sign, a coefficient without trailing zeros and a power of ten. Negative zero is a value of its
own, as it is for `Object.is`. NaN and the infinities are never plain data.
-/

namespace PersistentHarness

/-- A finite number `±digits · 10^exponent` in its unique normal form. -/
structure JsNumber where
  negative : Bool
  digits : ℕ
  exponent : ℤ
  normal : digits = 0 ∧ exponent = 0 ∨ digits % 10 ≠ 0
deriving DecidableEq, Repr

namespace JsNumber

/-- Move trailing zeros of a coefficient into the exponent. -/
def stripZeros : ℕ → ℕ → ℤ → ℕ × ℤ
  | 0, digits, exponent => (digits, exponent)
  | fuel + 1, digits, exponent =>
    if digits % 10 = 0 then stripZeros fuel (digits / 10) (exponent + 1) else (digits, exponent)

private theorem stripZeros_normal {fuel digits : ℕ} (exponent : ℤ) (positive : 0 < digits)
    (bound : digits < 10 ^ fuel) : (stripZeros fuel digits exponent).1 % 10 ≠ 0 := by
  induction fuel generalizing digits exponent with
  | zero => omega
  | succ fuel ih =>
    unfold stripZeros
    split
    · exact ih _ (by omega) (by omega)
    · assumption

/-- The number written with this sign, coefficient and power of ten. -/
def ofDecimal (negative : Bool) (digits : ℕ) (exponent : ℤ) : JsNumber :=
  if zero : digits = 0 then ⟨negative, 0, 0, .inl ⟨rfl, rfl⟩⟩
  else
    { negative
      digits := (stripZeros digits digits exponent).1
      exponent := (stripZeros digits digits exponent).2
      normal := .inr (stripZeros_normal exponent (Nat.pos_of_ne_zero zero)
        (Nat.lt_pow_self (by decide))) }

def ofNat (n : ℕ) : JsNumber := ofDecimal false n 0

/-- Numeric equality `===`: both zeros are one number. -/
def numericEq (a b : JsNumber) : Prop := a = b ∨ a.digits = 0 ∧ b.digits = 0

instance (a b : JsNumber) : Decidable (numericEq a b) := inferInstanceAs (Decidable (_ ∨ _))

/-- The natural number a number denotes, if any; negative zero denotes zero. -/
def toNat? (n : JsNumber) : Option ℕ :=
  if n.digits = 0 then some 0
  else if n.negative = false ∧ 0 ≤ n.exponent then some (n.digits * 10 ^ n.exponent.toNat)
  else none

private theorem stripZeros_value (fuel digits : ℕ) (exponent : ℤ) : exponent ≤ (stripZeros fuel digits exponent).2
    ∧ (stripZeros fuel digits exponent).1 * 10 ^ ((stripZeros fuel digits exponent).2 - exponent).toNat = digits := by
  induction fuel generalizing digits exponent with
  | zero => simp [stripZeros]
  | succ fuel ih =>
    unfold stripZeros
    split
    · next zero =>
      obtain ⟨low, value⟩ := ih (digits / 10) (exponent + 1)
      have shift : ((stripZeros fuel (digits / 10) (exponent + 1)).2 - exponent).toNat =
          ((stripZeros fuel (digits / 10) (exponent + 1)).2 - (exponent + 1)).toNat + 1 := by omega
      refine ⟨by omega, ?_⟩
      rw [shift, Nat.pow_succ, ← Nat.mul_assoc, value]
      omega
    · simp

/-- A natural number denotes itself. -/
theorem toNat?_ofNat (n : ℕ) : (ofNat n).toNat? = some n := by
  unfold ofNat ofDecimal toNat?
  split
  · next zero => simp [zero]
  · next nonzero =>
    obtain ⟨low, value⟩ := stripZeros_value n n 0
    rw [Int.sub_zero] at value
    have positive : (stripZeros n n 0).1 ≠ 0 := by
      intro zero
      rw [zero, Nat.zero_mul] at value
      exact nonzero value.symm
    simp only [positive, low, ↓reduceIte, and_self, value]

/-- `Number.isSafeInteger(value) && value >= 0`, with the integer itself. -/
def toSafeNat? (n : JsNumber) : Option ℕ :=
  n.toNat?.filter fun value => decide (value ≤ 9007199254740991)

/-- `Number.isFinite` of the double that a number rounds to. Between the largest double and the next power of two the
midpoint already rounds to infinity. -/
def isFinite (n : JsNumber) : Bool :=
  if 0 ≤ n.exponent then decide (n.digits * 10 ^ n.exponent.toNat < 2 ^ 1024 - 2 ^ 970)
  else decide (n.digits < (2 ^ 1024 - 2 ^ 970) * 10 ^ (-n.exponent).toNat)

/-- `value >= 0`. -/
def nonnegative (n : JsNumber) : Bool := !n.negative || n.digits == 0

end JsNumber

end PersistentHarness
