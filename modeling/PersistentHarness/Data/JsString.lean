import Mathlib.Algebra.Order.Ring.Nat
import Mathlib.Algebra.Ring.Int.Defs
import Mathlib.Data.List.Infix
import Mathlib.Tactic.Common

/-! # JavaScript strings

A JavaScript string is its sequence of UTF-16 code units, lone surrogates included. Object keys
and string values are both of this type. Lean literals are embedded by `js`, which is injective,
so two constants of the source are equal exactly when their spellings are.
-/

namespace PersistentHarness

/-- A JavaScript string: its UTF-16 code units. -/
abbrev JsString := List UInt16

instance : LawfulBEq JsString := inferInstance

/-- The code units of one scalar value. -/
def utf16 (c : Char) : JsString :=
  if c.toNat < 0x10000 then [UInt16.ofNat c.toNat]
  else [UInt16.ofNat (0xD800 + (c.toNat - 0x10000) / 0x400),
    UInt16.ofNat (0xDC00 + (c.toNat - 0x10000) % 0x400)]

/-- The JavaScript string spelled by a Lean literal. -/
def js (s : String) : JsString := s.toList.flatMap utf16

private theorem char_range (c : Char) : c.toNat < 0xD800 ∨ 0xDFFF < c.toNat ∧ c.toNat < 0x110000 :=
  c.valid

private theorem ofNat_inj {a b : ℕ} (ha : a < 0x10000) (hb : b < 0x10000)
    (same : UInt16.ofNat a = UInt16.ofNat b) : a = b := by
  have values := congrArg UInt16.toNat same
  simpa only [UInt16.toNat_ofNat', Nat.mod_eq_of_lt ha, Nat.mod_eq_of_lt hb] using values

/-- The encoding of a scalar value is recovered from the front of any text. -/
theorem utf16_append_inj {c d : Char} {rest other : JsString}
    (same : utf16 c ++ rest = utf16 d ++ other) : c = d ∧ rest = other := by
  have rangeC := char_range c
  have rangeD := char_range d
  unfold utf16 at same
  split at same <;> split at same <;>
    simp only [List.cons_append, List.nil_append, List.cons.injEq] at same
  · exact ⟨Char.toNat_inj.mp (ofNat_inj (by omega) (by omega) same.1), same.2⟩
  · have unit := ofNat_inj (by omega) (by omega) same.1
    omega
  · have unit := ofNat_inj (by omega) (by omega) same.1
    omega
  · have high := ofNat_inj (by omega) (by omega) same.1
    have low := ofNat_inj (by omega) (by omega) same.2.1
    exact ⟨Char.toNat_inj.mp (by omega), same.2.2⟩

private theorem utf16_ne_nil (c : Char) : utf16 c ≠ [] := by
  unfold utf16
  split <;> simp

private theorem flatMap_utf16_inj {cs ds : List Char} (same : cs.flatMap utf16 = ds.flatMap utf16) :
    cs = ds := by
  induction cs generalizing ds with
  | nil =>
    cases ds with
    | nil => rfl
    | cons d ds => simp [utf16_ne_nil] at same
  | cons c cs ih =>
    cases ds with
    | nil => simp [utf16_ne_nil] at same
    | cons d ds =>
      obtain ⟨rfl, tail⟩ := utf16_append_inj (by simpa only [List.flatMap_cons] using same)
      rw [ih tail]

@[simp] theorem js_inj {s t : String} : js s = js t ↔ s = t :=
  ⟨fun same => String.toList_inj.mp (flatMap_utf16_inj same), congrArg js⟩

namespace JsString

/-- `value.split(separator)` for a separator of one code unit. -/
def split (s : JsString) (separator : UInt16) : List JsString := List.splitOn separator s

/-- `value.includes(unit)` for one code unit. -/
def includes (s : JsString) (unit : UInt16) : Bool := decide (unit ∈ s)

end JsString

end PersistentHarness
