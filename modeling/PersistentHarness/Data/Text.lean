import PersistentHarness.Data.JsonNumber

/-! # Text operations

The string methods and formats that the stores and schedules use: white space, case folding as SQLite
does it, byte lengths, decimal integers and ISO instants.
-/

namespace PersistentHarness

open Json (unit decimal)

/-- JavaScript white space, as `trim` removes it. -/
def isWhiteSpace (u : UInt16) : Bool :=
  (0x09 ≤ u ∧ u ≤ 0x0D) ∨ u = 0x20 ∨ u = 0xA0 ∨ u = 0x1680 ∨ (0x2000 ≤ u ∧ u ≤ 0x200A) ∨ u = 0x2028 ∨ u = 0x2029
    ∨ u = 0x202F ∨ u = 0x205F ∨ u = 0x3000 ∨ u = 0xFEFF

/-- `value ?? other`. -/
def Value.coalesce (value other : Value) : Value :=
  match value with
  | .undefined | .null => other
  | _ => value

namespace JsString

def trimStart (s : JsString) : JsString := s.dropWhile isWhiteSpace

/-- `value.trim()`. -/
def trim (s : JsString) : JsString := (trimStart (trimStart s).reverse).reverse

/-- `value.split(/\s+/).length`: one more than the number of runs of white space. -/
def countFields : JsString → ℕ
  | [] => 1
  | [u] => if isWhiteSpace u then 2 else 1
  | u :: v :: rest => countFields (v :: rest) + if isWhiteSpace u ∧ ¬isWhiteSpace v then 1 else 0

/-- SQLite's `lower`, which folds ASCII letters only. -/
def lower (s : JsString) : JsString := s.map fun u => if 0x41 ≤ u ∧ u ≤ 0x5A then u + 0x20 else u

def unitWidth (u : UInt16) : ℕ := if u < 0x80 then 1 else if u < 0x800 then 2 else 3

/-- `Buffer.byteLength(value, "utf8")`: a lone surrogate takes the three bytes of its replacement. -/
def utf8Length : JsString → ℕ
  | [] => 0
  | [u] => unitWidth u
  | u :: v :: rest =>
    if (0xD800 ≤ u ∧ u ≤ 0xDBFF) ∧ 0xDC00 ≤ v ∧ v ≤ 0xDFFF then utf8Length rest + 4
    else utf8Length (v :: rest) + unitWidth u

theorem unitWidth_le (u : UInt16) : unitWidth u ≤ 3 := by
  unfold unitWidth
  split
  · omega
  · split <;> omega

/-- A text has at least the bytes of each of its beginnings. -/
theorem utf8Length_le_append (text other : JsString) : utf8Length text ≤ utf8Length (text ++ other) := by
  induction text using utf8Length.induct with
  | case1 => exact Nat.zero_le _
  | case2 u =>
    cases other with
    | nil => exact le_refl _
    | cons v rest =>
      have width := unitWidth_le u
      show unitWidth u ≤ utf8Length (u :: v :: rest)
      rw [utf8Length]
      split <;> omega
  | case3 u v rest paired ih =>
    show _ ≤ utf8Length (u :: v :: (rest ++ other))
    rw [utf8Length, utf8Length, if_pos paired, if_pos paired]
    omega
  | case4 u v rest unpaired ih =>
    show _ ≤ utf8Length (u :: v :: (rest ++ other))
    rw [utf8Length, utf8Length, if_neg unpaired, if_neg unpaired]
    have shorter : utf8Length (v :: rest) ≤ utf8Length (v :: (rest ++ other)) := ih
    omega

/-- The bytes of a unit that does not begin a surrogate pair. -/
theorem utf8Length_cons {u : UInt16} (single : ¬(0xD800 ≤ u ∧ u ≤ 0xDBFF)) (rest : JsString) :
    utf8Length (u :: rest) = unitWidth u + utf8Length rest := by
  cases rest with
  | nil => rfl
  | cons v rest =>
    rw [utf8Length, if_neg fun paired => single paired.1]
    exact Nat.add_comm ..

theorem utf8Length_ascii {u : UInt16} (ascii : u < 0x80) (rest : JsString) : utf8Length (u :: rest) = 1 + utf8Length rest := by
  rw [utf8Length_cons, unitWidth, if_pos ascii]
  rintro ⟨high, _⟩
  rw [UInt16.le_iff_toNat_le] at high
  rw [UInt16.lt_iff_toNat_lt] at ascii
  simp only [UInt16.reduceToNat] at high ascii
  omega

/-- The bytes of a text in two parts that no surrogate pair joins. -/
theorem utf8Length_append (text : JsString) {other : JsString}
    (apart : ∀ v ∈ other.head?, ¬(0xDC00 ≤ v ∧ v ≤ 0xDFFF)) : utf8Length (text ++ other) = utf8Length text + utf8Length other := by
  induction text using utf8Length.induct with
  | case1 => exact (Nat.zero_add _).symm
  | case2 u =>
    cases other with
    | nil => rfl
    | cons v rest =>
      show utf8Length (u :: v :: rest) = unitWidth u + utf8Length (v :: rest)
      rw [utf8Length, if_neg fun paired => apart v rfl paired.2]
      exact Nat.add_comm ..
  | case3 u v rest paired ih =>
    show utf8Length (u :: v :: (rest ++ other)) = utf8Length (u :: v :: rest) + utf8Length other
    rw [utf8Length, utf8Length, if_pos paired, if_pos paired, ih]
    omega
  | case4 u v rest unpaired ih =>
    show utf8Length (u :: v :: (rest ++ other)) = utf8Length (u :: v :: rest) + utf8Length other
    rw [utf8Length, utf8Length, if_neg unpaired, if_neg unpaired]
    have tail : utf8Length (v :: (rest ++ other)) = utf8Length (v :: rest) + utf8Length other := ih
    omega

/-- The order in which keys and texts are compared. -/
def le (a b : JsString) : Bool := decide (¬Value.keyLt b a)

end JsString

def integerText (n : ℤ) : JsString := (if n < 0 then js "-" else []) ++ decimal n.natAbs

/-- A decimal padded with zeros to a width. -/
def padded (width n : ℕ) : JsString := List.replicate (width - (decimal n).length) (unit '0') ++ decimal n

/-- The proleptic Gregorian year, month and day of a day number counted from 1970-01-01. -/
def civil (day : ℤ) : ℤ × ℤ × ℤ :=
  -- years are counted from March, in eras of 400 years
  let shifted := day + 719468
  let era := shifted / 146097
  let inEra := shifted % 146097
  let year := (inEra - inEra / 1460 + inEra / 36524 - inEra / 146096) / 365
  let inYear := inEra - (365 * year + year / 4 - year / 100)
  let month := (5 * inYear + 2) / 153
  let dayOfMonth := inYear - (153 * month + 2) / 5 + 1
  let calendarMonth := if month < 10 then month + 3 else month - 9
  (year + era * 400 + (if calendarMonth ≤ 2 then 1 else 0), calendarMonth, dayOfMonth)

/-- `new Date(ms).toISOString()`. -/
def isoString (ms : ℤ) : JsString :=
  let (year, month, day) := civil (ms / 86400000)
  let time := (ms % 86400000).toNat
  let yearText :=
    if 0 ≤ year ∧ year ≤ 9999 then padded 4 year.toNat
    else (if year < 0 then js "-" else js "+") ++ padded 6 year.natAbs
  yearText ++ js "-" ++ padded 2 month.toNat ++ js "-" ++ padded 2 day.toNat ++ js "T" ++ padded 2 (time / 3600000)
    ++ js ":" ++ padded 2 (time / 60000 % 60) ++ js ":" ++ padded 2 (time / 1000 % 60) ++ js "."
    ++ padded 3 (time % 1000) ++ js "Z"

example : isoString 951782400001 = js "2000-02-29T00:00:00.001Z" := by decide +kernel

end PersistentHarness

/-! ## Reading ISO times

The text that `toISOString` writes is read back as the same time: the calendar of a day number is undone, and every field has a
fixed width, except for the year, which stands before the last twenty units.
-/

