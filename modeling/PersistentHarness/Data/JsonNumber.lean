import Mathlib.Data.List.TakeDrop
import Mathlib.Tactic.Ring
import PersistentHarness.Data.Json

/-! # Number tokens read back

Every spelling of `Number::toString` reads back as the number it was printed from: an integer with
zeros behind it, a decimal point inside or before the digits, or a power of ten. Both zeros print
as `0`.
-/

namespace PersistentHarness.Json

/-! ## Digits -/

def digitUnit (d : ℕ) : UInt16 := UInt16.ofNat (0x30 + d)

private theorem digitUnit_all : ∀ d, d < 10 → isDigit (digitUnit d) = true ∧ (digitUnit d).toNat = 0x30 + d
    ∧ digitUnit d ≠ unit '-' := by decide

theorem isDigit_digitUnit {d : ℕ} (small : d < 10) : isDigit (digitUnit d) = true := (digitUnit_all d small).1

theorem toNat_digitUnit {d : ℕ} (small : d < 10) : (digitUnit d).toNat = 0x30 + d := (digitUnit_all d small).2.1

theorem digitsValue_append (a b : JsString) : digitsValue (a ++ b) = digitsValue a * 10 ^ b.length + digitsValue b := by
  have shift : ∀ (ds : JsString) (n : ℕ), ds.foldl (fun n u => n * 10 + (u.toNat - 0x30)) n =
      n * 10 ^ ds.length + digitsValue ds := by
    intro ds
    induction ds with
    | nil => simp [digitsValue]
    | cons d ds ih =>
      intro n
      have first : digitsValue (d :: ds) = (d.toNat - 0x30) * 10 ^ ds.length + digitsValue ds := by
        rw [digitsValue, List.foldl_cons, ih, Nat.zero_mul, Nat.zero_add]
      rw [List.foldl_cons, ih, first, List.length_cons]
      ring
  rw [digitsValue, List.foldl_append, shift]
  rfl

theorem digitsValue_zeros (n : ℕ) : digitsValue (List.replicate n (unit '0')) = 0 := by
  induction n with
  | zero => rfl
  | succ n ih =>
    rw [List.replicate_succ', digitsValue_append, ih]
    rfl

/-- The digits before an accumulated tail, whatever the fuel. -/
theorem decimalFrom_eq {n fuel : ℕ} (enough : n < fuel) (tail : JsString) : decimalFrom fuel n tail = decimal n ++ tail := by
  induction n using Nat.strong_induction_on generalizing fuel tail with
  | _ n ih =>
    obtain ⟨fuel, rfl⟩ : ∃ k, fuel = k + 1 := ⟨fuel - 1, by omega⟩
    unfold decimal decimalFrom
    by_cases small : n < 10
    · simp [small]
    · simp only [small, ↓reduceIte]
      rw [ih (n / 10) (by omega) (by omega), ih (n / 10) (by omega) (by omega)]
      simp

theorem decimal_eq (n : ℕ) :
    decimal n = if n < 10 then [digitUnit n] else decimal (n / 10) ++ [digitUnit (n % 10)] := by
  by_cases small : n < 10
  · rw [if_pos small, decimal, decimalFrom, if_pos small, digitUnit, Nat.mod_eq_of_lt small]
  · rw [if_neg small, decimal, decimalFrom, if_neg small, decimalFrom_eq (by omega)]
    rfl

theorem digitsValue_decimal (n : ℕ) : digitsValue (decimal n) = n := by
  induction n using Nat.strong_induction_on with
  | _ n ih =>
    rw [decimal_eq]
    split
    · next small => simp [digitsValue, toNat_digitUnit small]
    · have last := toNat_digitUnit (Nat.mod_lt n (by decide : 10 > 0))
      rw [digitsValue_append, ih (n / 10) (by omega)]
      simp only [digitsValue, List.foldl_cons, List.foldl_nil, List.length_singleton, last]
      omega

theorem decimal_digits (n : ℕ) : ∀ u ∈ decimal n, isDigit u = true := by
  induction n using Nat.strong_induction_on with
  | _ n ih =>
    rw [decimal_eq]
    split
    · next small =>
      intro u member
      rw [List.mem_singleton.mp member]
      exact isDigit_digitUnit small
    · intro u member
      rcases List.mem_append.mp member with first | last
      · exact ih (n / 10) (by omega) u first
      · rw [List.mem_singleton.mp last]
        exact isDigit_digitUnit (Nat.mod_lt n (by decide))

theorem decimal_ne_nil (n : ℕ) : decimal n ≠ [] := by
  rw [decimal_eq]
  split <;> simp

/-- A positive number is not printed with a leading zero. -/
theorem decimal_head {n : ℕ} (positive : 0 < n) : (decimal n).head? ≠ some (unit '0') := by
  induction n using Nat.strong_induction_on with
  | _ n ih =>
    rw [decimal_eq]
    split
    · next small =>
      intro zero
      have same := congrArg UInt16.toNat (Option.some.inj zero)
      rw [toNat_digitUnit small] at same
      have : (unit '0').toNat = 0x30 := by decide
      omega
    · have front := ih (n / 10) (by omega) (by omega)
      rw [List.head?_append]
      cases given : (decimal (n / 10)).head? with
      | none => exact absurd (List.head?_eq_none_iff.mp given) (decimal_ne_nil _)
      | some u => rwa [given] at front

/-! ## Normal forms -/

namespace Number

/-- Trailing zeros of a coefficient move into the exponent. -/
theorem stripZeros_mul {digits : ℕ} (normal : digits % 10 ≠ 0) (k : ℕ) {fuel : ℕ} (enough : k < fuel) (exponent : ℤ) :
    JsNumber.stripZeros fuel (digits * 10 ^ k) exponent = (digits, exponent + k) := by
  induction k generalizing fuel exponent with
  | zero =>
    obtain ⟨fuel, rfl⟩ : ∃ n, fuel = n + 1 := ⟨fuel - 1, by omega⟩
    simp [JsNumber.stripZeros, normal]
  | succ k ih =>
    obtain ⟨fuel, rfl⟩ : ∃ n, fuel = n + 1 := ⟨fuel - 1, by omega⟩
    have shifted : digits * 10 ^ (k + 1) = digits * 10 ^ k * 10 := by ring
    rw [JsNumber.stripZeros, if_pos (by rw [shifted]; exact Nat.mul_mod_left ..), shifted,
      Nat.mul_div_cancel _ (by decide), ih (by omega)]
    push_cast
    congr 1
    ring

theorem ofDecimal_mul {negative : Bool} {digits : ℕ} (normal : digits % 10 ≠ 0) (k : ℕ) (exponent : ℤ) :
    JsNumber.ofDecimal negative (digits * 10 ^ k) exponent = ⟨negative, digits, exponent + k, .inr normal⟩ := by
  have positive : 0 < digits := by omega
  have enough : k < digits * 10 ^ k := calc
    k < 10 ^ k := Nat.lt_pow_self (by decide)
    _ ≤ digits * 10 ^ k := Nat.le_mul_of_pos_left _ positive
  unfold JsNumber.ofDecimal
  rw [dif_neg (by omega)]
  simp only [stripZeros_mul normal k enough]

theorem ofDecimal_self (n : JsNumber) (nonzero : n.digits ≠ 0) : JsNumber.ofDecimal n.negative n.digits n.exponent = n := by
  obtain ⟨negative, digits, exponent, normal⟩ := n
  have normal' : digits % 10 ≠ 0 := normal.resolve_left fun zero => nonzero zero.1
  have same : JsNumber.ofDecimal negative (digits * 10 ^ 0) exponent = ⟨negative, digits, exponent + (0 : ℕ), .inr normal'⟩ :=
    ofDecimal_mul normal' 0 exponent
  simpa using same

end Number

/-- A number as JSON can carry it: there is one zero. -/
def unsigned (n : JsNumber) : JsNumber := if n.digits = 0 then .ofNat 0 else n

/-! ## Tokens -/

/-- What may follow a number token. -/
def Ends (rest : JsString) : Prop :=
  ∀ u ∈ rest.head?, isDigit u = false ∧ u ≠ unit '.' ∧ u ≠ unit 'e' ∧ u ≠ unit 'E'

theorem span_digits {ds rest : JsString} (digits : ∀ u ∈ ds, isDigit u = true)
    (stops : ∀ u ∈ rest.head?, isDigit u = false) : (ds ++ rest).span isDigit = (ds, rest) := by
  rw [List.span_eq_takeWhile_dropWhile]
  have stop : rest.takeWhile isDigit = [] ∧ rest.dropWhile isDigit = rest := by
    cases rest with
    | nil => exact ⟨rfl, rfl⟩
    | cons u tail =>
      have no := stops u rfl
      exact ⟨List.takeWhile_cons_of_neg (by simp [no]), List.dropWhile_cons_of_neg (by simp [no])⟩
  rw [List.takeWhile_append_of_pos digits, List.dropWhile_append_of_pos digits, stop.1, stop.2, List.append_nil]

private theorem parseFraction_none {rest : JsString} (other : ∀ u ∈ rest.head?, u ≠ unit '.') :
    parseFraction rest = some ([], rest) := by
  cases rest with
  | nil => rfl
  | cons u tail => rw [parseFraction, if_neg (other u rfl)]

private theorem parseFraction_some {ds rest : JsString} (digits : ∀ u ∈ ds, isDigit u = true) (some_ : ds ≠ [])
    (stops : ∀ u ∈ rest.head?, isDigit u = false) : parseFraction (unit '.' :: (ds ++ rest)) = some (ds, rest) := by
  rw [parseFraction, if_pos rfl, span_digits digits stops]
  exact if_neg some_

private theorem parseExponent_none {rest : JsString} (ends : Ends rest) : parseExponent rest = some (0, rest) := by
  cases rest with
  | nil => rfl
  | cons u tail =>
    obtain ⟨_, _, lower, upper⟩ := ends u rfl
    simp [parseExponent, lower, upper]

private theorem parseExponent_some {negative : Bool} {ds rest : JsString} (digits : ∀ u ∈ ds, isDigit u = true)
    (some_ : ds ≠ []) (ends : Ends rest) :
    parseExponent (unit 'e' :: (if negative then unit '-' else unit '+') :: (ds ++ rest)) =
      some (if negative then -(digitsValue ds : ℤ) else digitsValue ds, rest) := by
  have span := span_digits digits fun u member => (ends u member).1
  have plus : unit '+' ≠ unit '-' := by decide
  rw [List.span_eq_takeWhile_dropWhile, Prod.mk.injEq] at span
  cases negative <;> simp [parseExponent, span, some_, plus]

/-- A number token: digits without a leading zero, perhaps a fraction, perhaps an exponent. -/
private theorem parseMagnitude_eq {negative : Bool} {whole fraction fractionText exponentText rest : JsString} {exponent : ℤ}
    (digits : ∀ u ∈ whole, isDigit u = true) (nonempty : whole ≠ [])
    (leading : whole.head? = some (unit '0') → whole.length = 1)
    (stops : ∀ u ∈ (fractionText ++ (exponentText ++ rest)).head?, isDigit u = false)
    (fractions : parseFraction (fractionText ++ (exponentText ++ rest)) = some (fraction, exponentText ++ rest))
    (exponents : parseExponent (exponentText ++ rest) = some (exponent, rest)) :
    parseMagnitude negative (whole ++ (fractionText ++ (exponentText ++ rest))) =
      some (.ofDecimal negative (digitsValue (whole ++ fraction)) (exponent - fraction.length), rest) := by
  have shape : ¬(whole = [] ∨ whole.head? = some (unit '0') ∧ 1 < whole.length) := by
    rintro (empty | ⟨zero, long⟩)
    · exact nonempty empty
    · have := leading zero
      omega
  simp only [parseMagnitude, span_digits digits stops, if_neg shape, fractions, exponents, Option.bind_eq_bind,
    Option.bind_some, pure_bind, Option.pure_def]

private theorem nondigit_of_ends {rest : JsString} (ends : Ends rest) : ∀ u ∈ rest.head?, isDigit u = false :=
  fun u member => (ends u member).1

private theorem digits_zero : ∀ u ∈ [unit '0'], isDigit u = true := by
  intro u member
  rw [List.mem_singleton.mp member]
  decide

private theorem parseMagnitude_integer {negative : Bool} {whole rest : JsString} (digits : ∀ u ∈ whole, isDigit u = true)
    (nonempty : whole ≠ []) (leading : whole.head? = some (unit '0') → whole.length = 1) (ends : Ends rest) :
    parseMagnitude negative (whole ++ rest) = some (.ofDecimal negative (digitsValue whole) 0, rest) := by
  have parsed : parseMagnitude negative (whole ++ ([] ++ ([] ++ rest))) =
      some (.ofDecimal negative (digitsValue (whole ++ [])) (0 - ([] : JsString).length), rest) :=
    parseMagnitude_eq digits nonempty leading (nondigit_of_ends ends)
      (parseFraction_none fun u member => (ends u member).2.1) (parseExponent_none ends)
  simpa using parsed

private theorem parseMagnitude_decimal {negative : Bool} {whole fraction rest : JsString}
    (digits : ∀ u ∈ whole, isDigit u = true) (nonempty : whole ≠ [])
    (leading : whole.head? = some (unit '0') → whole.length = 1) (fractionDigits : ∀ u ∈ fraction, isDigit u = true)
    (some_ : fraction ≠ []) (ends : Ends rest) :
    parseMagnitude negative (whole ++ unit '.' :: (fraction ++ rest)) =
      some (.ofDecimal negative (digitsValue (whole ++ fraction)) (-(fraction.length : ℤ)), rest) := by
  have point : isDigit (unit '.') = false := by decide
  have parsed : parseMagnitude negative (whole ++ ((unit '.' :: fraction) ++ ([] ++ rest))) =
      some (.ofDecimal negative (digitsValue (whole ++ fraction)) (0 - fraction.length), rest) :=
    parseMagnitude_eq digits nonempty leading (by simpa using point)
      (by simpa using parseFraction_some fractionDigits some_ (nondigit_of_ends ends)) (parseExponent_none ends)
  simpa using parsed

/-- One digit, perhaps a point and more digits, and a power of ten. -/
private theorem parseMagnitude_power {negative minus : Bool} {d : UInt16} {fraction power rest : JsString}
    (digit : isDigit d = true) (fractionDigits : ∀ u ∈ fraction, isDigit u = true)
    (powerDigits : ∀ u ∈ power, isDigit u = true) (some_ : power ≠ []) (ends : Ends rest) :
    parseMagnitude negative (d :: ((if fraction = [] then [] else unit '.' :: fraction) ++
        (unit 'e' :: (if minus then unit '-' else unit '+') :: power ++ rest))) =
      some (.ofDecimal negative (digitsValue (d :: fraction))
        ((if minus then -(digitsValue power : ℤ) else digitsValue power) - fraction.length), rest) := by
  have letter : isDigit (unit 'e') = false ∧ unit 'e' ≠ unit '.' := by decide
  have point : isDigit (unit '.') = false := by decide
  have fractions : parseFraction ((if fraction = [] then [] else unit '.' :: fraction) ++
      (unit 'e' :: (if minus then unit '-' else unit '+') :: power ++ rest)) =
        some (fraction, unit 'e' :: (if minus then unit '-' else unit '+') :: power ++ rest) := by
    split
    · next empty =>
      rw [empty, List.nil_append]
      exact parseFraction_none (by simpa using letter.2)
    · next given => exact parseFraction_some fractionDigits given (by simpa using letter.1)
  have stops : ∀ u ∈ ((if fraction = [] then [] else unit '.' :: fraction) ++
      (unit 'e' :: (if minus then unit '-' else unit '+') :: power ++ rest)).head?, isDigit u = false := by
    split <;> simp [letter.1, point]
  have parsed : parseMagnitude negative ([d] ++ ((if fraction = [] then [] else unit '.' :: fraction) ++
      ((unit 'e' :: (if minus then unit '-' else unit '+') :: power) ++ rest))) =
        some (.ofDecimal negative (digitsValue ([d] ++ fraction))
          ((if minus then -(digitsValue power : ℤ) else digitsValue power) - fraction.length), rest) :=
    parseMagnitude_eq (by simpa using digit) (by simp) (by simp) stops fractions
      (by simpa using parseExponent_some powerDigits some_ ends)
  simpa using parsed

private theorem decimal_leading {n : ℕ} (positive : 0 < n) (extra : JsString) :
    (decimal n ++ extra).head? = some (unit '0') → (decimal n ++ extra).length = 1 := by
  intro zero
  rw [List.head?_append] at zero
  cases given : (decimal n).head? with
  | none => exact absurd (List.head?_eq_none_iff.mp given) (decimal_ne_nil n)
  | some u =>
    rw [given, Option.some_or] at zero
    exact absurd (given.trans zero) (decimal_head positive)

/-- Every spelling of a magnitude reads back. -/
theorem parseMagnitude_text {negative : Bool} {digits : ℕ} {exponent : ℤ} (normal : digits % 10 ≠ 0) {rest : JsString}
    (ends : Ends rest) : parseMagnitude negative (magnitudeText digits exponent ++ rest) =
      some (⟨negative, digits, exponent, .inr normal⟩, rest) := by
  have positive : 0 < digits := by omega
  have isSelf : JsNumber.ofDecimal negative digits exponent = ⟨negative, digits, exponent, .inr normal⟩ :=
    Number.ofDecimal_self ⟨negative, digits, exponent, .inr normal⟩ (by simp only; omega)
  have allDigits := decimal_digits digits
  have zeros : ∀ k, ∀ u ∈ List.replicate k (unit '0'), isDigit u = true := by
    intro k u member
    rw [List.eq_of_mem_replicate member]
    decide
  have nonempty : 0 < (decimal digits).length := List.length_pos_iff.mpr (decimal_ne_nil digits)
  unfold magnitudeText
  simp only
  split
  · -- an integer, zeros behind the digits
    next integer =>
    rw [parseMagnitude_integer ?_ (by simp [decimal_ne_nil]) (decimal_leading positive _) ends]
    · rw [digitsValue_append, digitsValue_decimal, digitsValue_zeros, List.length_replicate, Nat.add_zero,
        Number.ofDecimal_mul normal, zero_add, Int.toNat_of_nonneg integer.1]
    · intro u member
      exact (List.mem_append.mp member).elim (allDigits u) (zeros _ u)
  · split
    · -- the point inside the digits
      next inside =>
      have room : ((decimal digits).length + exponent).toNat < (decimal digits).length := by omega
      rw [List.append_assoc, List.cons_append, parseMagnitude_decimal
        (fun u member => allDigits u (List.mem_of_mem_take member)) ?_ ?_
        (fun u member => allDigits u (List.mem_of_mem_drop member)) ?_ ends]
      · rw [List.take_append_drop, digitsValue_decimal, List.length_drop, ← isSelf]
        congr 3
        omega
      · rw [Ne, List.take_eq_nil_iff]
        rintro (zero | empty)
        · omega
        · exact decimal_ne_nil digits empty
      · intro zero
        rw [List.head?_take, if_neg (by omega)] at zero
        exact absurd zero (decimal_head positive)
      · rw [Ne, List.drop_eq_nil_iff]
        omega
    · split
      · -- zeros between the point and the digits
        next before =>
        have shown : unit '0' :: unit '.' :: (List.replicate (-((decimal digits).length + exponent)).toNat (unit '0')
            ++ decimal digits) ++ rest = [unit '0'] ++ unit '.' :: ((List.replicate
              (-((decimal digits).length + exponent)).toNat (unit '0') ++ decimal digits) ++ rest) := by simp
        rw [shown, parseMagnitude_decimal digits_zero (by simp) (by simp) ?_ (by simp [decimal_ne_nil]) ends]
        · rw [digitsValue_append, digitsValue_append, digitsValue_zeros, digitsValue_decimal, ← isSelf]
          have zero : digitsValue [unit '0'] = 0 := rfl
          simp only [zero, Nat.zero_mul, Nat.zero_add, List.length_append, List.length_replicate]
          congr 3
          omega
        · intro u member
          exact (List.mem_append.mp member).elim (zeros _ u) (allDigits u)
      · -- a power of ten
        have powerDigits := decimal_digits ((decimal digits).length + exponent - 1).natAbs
        have powerSome := decimal_ne_nil ((decimal digits).length + exponent - 1).natAbs
        have value := digitsValue_decimal ((decimal digits).length + exponent - 1).natAbs
        have digitsOf := digitsValue_decimal digits
        cases text : decimal digits with
        | nil => exact absurd text (decimal_ne_nil digits)
        | cons d fraction =>
          rw [text] at allDigits powerDigits powerSome value digitsOf
          generalize isNegative : decide (((d :: fraction).length : ℤ) + exponent - 1 < 0) = minus
          have parsed : parseMagnitude negative (d :: ((if fraction = [] then [] else unit '.' :: fraction) ++
              (unit 'e' :: (if minus then unit '-' else unit '+') ::
                decimal (((d :: fraction).length : ℤ) + exponent - 1).natAbs ++ rest))) = _ :=
            parseMagnitude_power (allDigits d (List.mem_cons_self ..))
              (fun u member => allDigits u (List.mem_cons_of_mem _ member)) powerDigits powerSome ends
          have power : (if minus then -((((d :: fraction).length : ℤ) + exponent - 1).natAbs : ℤ)
              else (((d :: fraction).length : ℤ) + exponent - 1).natAbs) - (fraction.length : ℤ) = exponent := by
            rw [← isNegative]
            simp only [decide_eq_true_eq, List.length_cons]
            split <;> omega
          rw [digitsOf, value, power, isSelf, ← isNegative] at parsed
          cases fraction with
          | nil => simpa using parsed
          | cons e fraction => simpa using parsed

/-- Every number text reads back as the number, both zeros as the unsigned one. -/
theorem parseNumber_text (n : JsNumber) {rest : JsString} (ends : Ends rest) :
    parseNumber (numberText n ++ rest) = some (unsigned n, rest) := by
  have sign : ∀ u, isDigit u = true → u ≠ unit '-' := by
    rintro _ digit rfl
    exact absurd digit (by decide)
  unfold numberText unsigned
  split
  · have parsed : parseMagnitude false ([unit '0'] ++ rest) = _ :=
      parseMagnitude_integer digits_zero (by simp) (by simp) ends
    have minus : unit '0' ≠ unit '-' := by decide
    simp only [List.cons_append, List.nil_append] at parsed ⊢
    rw [parseNumber, if_neg minus, parsed]
    rfl
  · next nonzero =>
    obtain ⟨negative, digits, exponent, normal⟩ := n
    have normal' : digits % 10 ≠ 0 := normal.resolve_left fun zero => nonzero zero.1
    split
    · next isNegative =>
      obtain rfl : negative = true := isNegative
      rw [List.cons_append, parseNumber, if_pos rfl]
      exact parseMagnitude_text normal' ends
    · next isPositive =>
      obtain rfl : negative = false := Bool.not_eq_true _ ▸ isPositive
      have parsed : parseMagnitude false (magnitudeText digits exponent ++ rest) = _ := parseMagnitude_text normal' ends
      cases text : magnitudeText digits exponent ++ rest with
      | nil =>
        simp only [text] at parsed
        simp [parseMagnitude] at parsed
      | cons u tail =>
        simp only [text] at parsed ⊢
        have digit : u ≠ unit '-' := by
          rintro rfl
          have minus : isDigit (unit '-') = false := by decide
          simp [parseMagnitude, List.span_eq_takeWhile_dropWhile, minus] at parsed
        rw [parseNumber, if_neg digit]
        exact parsed

end PersistentHarness.Json
