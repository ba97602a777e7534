import PersistentHarness.Data.TextDecoder

/-! # Decoding UTF-8 without replacement

`new TextDecoder("utf-8", { fatal: true })`: a byte that no character has in its place is an error, and so is an end of the
input inside a character. The first character is left out where it is a byte order mark.
-/

namespace PersistentHarness.Utf8

/-- The byte may come next in a valid input. -/
def Decoder.permits : Decoder → UInt8 → Bool
  | .start, b => b < 0x80 || (0xC2 ≤ b && b ≤ 0xF4)
  | .inside _ _ tail, b => tail.accepts b

/-- The decoder after some bytes, and the characters that they complete. -/
def Decoder.strict (d : Decoder) : Bytes → Option (Decoder × List Char)
  | [] => some (d, [])
  | b :: rest =>
    if d.permits b then ((d.step b).1.strict rest).map fun (last, cs) => (last, (d.step b).2 ++ cs) else none

/-- U+FEFF. -/
def byteOrderMark : Char := Char.ofNat 0xFEFF

/-- A text without its byte order mark. -/
def withoutMark : List Char → List Char
  | [] => []
  | c :: rest => if c = byteOrderMark then rest else c :: rest

/-- A fatal decoder between two calls: what is open, and whether a character was seen. -/
structure FatalDecoder where
  decoder : Decoder
  begun : Bool
deriving DecidableEq

namespace FatalDecoder

def initial : FatalDecoder := ⟨.start, false⟩

/-- `decode(bytes, { stream: true })`. -/
def decode (d : FatalDecoder) (bytes : Bytes) : Option (FatalDecoder × List Char) :=
  (d.decoder.strict bytes).map fun (last, cs) => (⟨last, d.begun || !cs.isEmpty⟩, if d.begun then cs else withoutMark cs)

def finish (d : FatalDecoder) : Option (FatalDecoder × List Char) :=
  match d.decoder with
  | .start => some (initial, [])
  | .inside .. => none

end FatalDecoder

/-! ## Valid inputs -/

theorem Decoder.strict_append (d : Decoder) (first second : Bytes) :
    d.strict (first ++ second) =
      (d.strict first).bind fun (next, cs) => (next.strict second).map fun (last, ds) => (last, cs ++ ds) := by
  induction first generalizing d with
  | nil =>
    show d.strict second = (d.strict second).map fun found => (found.1, [] ++ found.2)
    cases d.strict second <;> rfl
  | cons b rest ih =>
    rw [List.cons_append, strict, strict]
    split
    · rw [ih]
      cases (d.step b).1.strict rest with
      | none => rfl
      | some found =>
        obtain ⟨next, cs⟩ := found
        cases tail : next.strict second <;> simp [tail]
    · rfl

theorem Decoder.strict_permitted {d : Decoder} {b : UInt8} (permitted : d.permits b = true) (rest : Bytes) :
    d.strict (b :: rest) = ((d.step b).1.strict rest).map fun (last, cs) => (last, (d.step b).2 ++ cs) := by
  rw [strict, if_pos permitted]

namespace Decoder

theorem strict_last {point n : ℕ} {tail : Tail} (accepted : tail.accepts (.ofNat (0x80 + n % 64)) = true) (rest : Bytes) :
    (inside point 0 tail).strict (.ofNat (0x80 + n % 64) :: rest) =
      (start.strict rest).map fun (last, cs) => (last, Char.ofNat (point * 64 + n % 64) :: cs) := by
  rw [strict_permitted (d := inside point 0 tail) accepted, step.eq_def]
  dsimp only
  rw [if_pos accepted, payload_byte]
  rfl

theorem strict_more {point more n : ℕ} {tail : Tail} (accepted : tail.accepts (.ofNat (0x80 + n % 64)) = true)
    (rest : Bytes) :
    (inside point (more + 1) tail).strict (.ofNat (0x80 + n % 64) :: rest) =
      (inside (point * 64 + n % 64) more .any).strict rest := by
  rw [strict_permitted (d := inside point (more + 1) tail) accepted, step.eq_def]
  dsimp only
  rw [if_pos accepted, payload_byte]
  cases (inside (point * 64 + n % 64) more .any).strict rest <;> rfl

/-- The first byte of a character of several bytes. -/
theorem strict_lead {n : ℕ} (within : 0xC2 ≤ n ∧ n ≤ 0xF4) (rest : Bytes) :
    start.strict (.ofNat n :: rest) =
      ((lead (.ofNat n)).1.strict rest).map fun (last, cs) => (last, (lead (.ofNat n)).2 ++ cs) := by
  apply strict_permitted
  have value := toNat_byte (n := n) (by omega)
  simp only [permits, Bool.or_eq_true, Bool.and_eq_true, decide_eq_true_eq, UInt8.le_iff_toNat_le, value, UInt8.reduceToNat]
  exact .inr within

end Decoder

/-- A text is read back from its bytes. -/
theorem strict_charBytes (c : Char) (rest : Bytes) :
    Decoder.start.strict (charBytes c ++ rest) = (Decoder.start.strict rest).map fun (last, cs) => (last, c :: cs) := by
  have shape := (encoded_charBytes c []).1
  have back : Char.ofNat c.toNat = c := Char.ofNat_toNat c
  generalize charBytes c = bytes at shape ⊢
  generalize c.toNat = n at shape back
  cases shape with
  | one small =>
    have permitted : Decoder.start.permits (.ofNat n) = true := by
      have value := toNat_byte (n := n) (by omega)
      simp only [Decoder.permits, Bool.or_eq_true, decide_eq_true_eq, UInt8.lt_iff_toNat_lt, value, UInt8.reduceToNat]
      exact .inl small
    rw [List.singleton_append, Decoder.strict_permitted permitted]
    change Option.map (fun found : Decoder × List Char => (found.1, (Decoder.lead (.ofNat n)).2 ++ found.2))
      ((Decoder.lead (.ofNat n)).1.strict rest) = _
    rw [Decoder.lead_byte (by omega), if_pos small, back]
    rfl
  | two lower upper =>
    rw [List.cons_append, List.singleton_append, Decoder.strict_lead (by omega), Decoder.lead_byte (by omega),
      if_neg (by omega), if_pos (by omega), Decoder.strict_last (any_accepts n), Option.map_map]
    have value : (0xC0 + n / 64 - 0xC0) * 64 + n % 64 = n := by omega
    rw [value, back]
    rfl
  | three lower upper scalar =>
    rw [List.cons_append, List.cons_append, List.singleton_append, Decoder.strict_lead (by omega), Decoder.lead_byte (by omega),
      if_neg (by omega), if_neg (by omega), if_pos (by omega)]
    dsimp only
    rw [Decoder.strict_more ?second, Decoder.strict_last (any_accepts n), Option.map_map]
    case second =>
      refine accepts_byte (by omega) ?_
      split
      · simp only [Tail.range, UInt8.reduceToNat]
        omega
      · split
        · simp only [Tail.range, UInt8.reduceToNat]
          omega
        · simp only [Tail.range, UInt8.reduceToNat]
          omega
    have value : ((0xE0 + n / 4096 - 0xE0) * 64 + n / 64 % 64) * 64 + n % 64 = n := by omega
    rw [value, back]
    rfl
  | four lower upper =>
    rw [List.cons_append, List.cons_append, List.cons_append, List.singleton_append, Decoder.strict_lead (by omega),
      Decoder.lead_byte (by omega), if_neg (by omega), if_neg (by omega), if_neg (by omega), if_pos (by omega)]
    dsimp only
    rw [Decoder.strict_more ?second, Decoder.strict_more (any_accepts (n / 64)), Decoder.strict_last (any_accepts n),
      Option.map_map]
    case second =>
      refine accepts_byte (by omega) ?_
      split
      · simp only [Tail.range, UInt8.reduceToNat]
        omega
      · split
        · simp only [Tail.range, UInt8.reduceToNat]
          omega
        · simp only [Tail.range, UInt8.reduceToNat]
          omega
    have value : (((0xF0 + n / 0x40000 - 0xF0) * 64 + n / 4096 % 64) * 64 + n / 64 % 64) * 64 + n % 64 = n := by omega
    rw [value, back]
    rfl

theorem strict_valid (cs : List Char) : Decoder.start.strict (cs.flatMap charBytes) = some (.start, cs) := by
  induction cs with
  | nil => rfl
  | cons c cs ih => rw [List.flatMap_cons, strict_charBytes, ih]; rfl

/-! ## The bytes of a decoded text -/

/-- No character begins with the second half of a surrogate pair. -/
theorem utf16_head (c : Char) (rest : JsString) : ∀ v ∈ (utf16 c ++ rest).head?, ¬(0xDC00 ≤ v ∧ v ≤ 0xDFFF) := by
  have range : c.toNat < 0xD800 ∨ 0xDFFF < c.toNat ∧ c.toNat < 0x110000 := c.valid
  unfold utf16
  intro v head
  rw [UInt16.le_iff_toNat_le, UInt16.le_iff_toNat_le]
  split at head
  next short =>
    cases head
    rw [UInt16.toNat_ofNat', Nat.mod_eq_of_lt short]
    simp only [UInt16.reduceToNat]
    omega
  next long =>
    cases head
    rw [UInt16.toNat_ofNat', Nat.mod_eq_of_lt (by omega)]
    simp only [UInt16.reduceToNat]
    omega

theorem utf8Length_utf16 (c : Char) (rest : JsString) :
    JsString.utf8Length (utf16 c ++ rest) = (charBytes c).length + JsString.utf8Length rest := by
  have shape := (encoded_charBytes c []).1
  have range : c.toNat < 0xD800 ∨ 0xDFFF < c.toNat ∧ c.toNat < 0x110000 := c.valid
  unfold utf16
  generalize charBytes c = bytes at shape ⊢
  generalize c.toNat = n at shape range ⊢
  split
  next short =>
    have value : (UInt16.ofNat n).toNat = n := by rw [UInt16.toNat_ofNat', Nat.mod_eq_of_lt short]
    have single : ¬(0xD800 ≤ UInt16.ofNat n ∧ UInt16.ofNat n ≤ 0xDBFF) := by
      simp only [UInt16.le_iff_toNat_le, value, UInt16.reduceToNat]
      omega
    rw [List.singleton_append, JsString.utf8Length_cons single, JsString.unitWidth]
    simp only [UInt16.lt_iff_toNat_lt, value, UInt16.reduceToNat]
    cases shape with
    | one small => rw [if_pos small]; rfl
    | two lower upper => rw [if_neg (by omega), if_pos upper]; rfl
    | three lower upper => rw [if_neg (by omega), if_neg (by omega)]; rfl
    | four lower => omega
  next long =>
    have paired : (0xD800 ≤ UInt16.ofNat (0xD800 + (n - 0x10000) / 0x400) ∧ UInt16.ofNat (0xD800 + (n - 0x10000) / 0x400) ≤ 0xDBFF) ∧
        0xDC00 ≤ UInt16.ofNat (0xDC00 + (n - 0x10000) % 0x400) ∧ UInt16.ofNat (0xDC00 + (n - 0x10000) % 0x400) ≤ 0xDFFF := by
      simp only [UInt16.le_iff_toNat_le, UInt16.toNat_ofNat', UInt16.reduceToNat]
      omega
    rw [List.cons_append, List.singleton_append, JsString.utf8Length, if_pos paired, Nat.add_comm]
    cases shape with
    | four => rfl
    | one => omega
    | two => omega
    | three => omega

theorem text_head (cs : List Char) : ∀ v ∈ (cs.flatMap utf16).head?, ¬(0xDC00 ≤ v ∧ v ≤ 0xDFFF) := by
  cases cs with
  | nil => exact nofun
  | cons c cs =>
    rw [List.flatMap_cons]
    exact utf16_head c _

theorem utf8Length_text (cs : List Char) : JsString.utf8Length (cs.flatMap utf16) = textBytes cs := by
  induction cs with
  | nil => rfl
  | cons c cs ih => rw [List.flatMap_cons, utf8Length_utf16, ih, textBytes_cons]

theorem withoutMark_append (cs ds : List Char) :
    withoutMark (cs ++ ds) = withoutMark cs ++ if cs.isEmpty then withoutMark ds else ds := by
  cases cs with
  | nil => rfl
  | cons c cs =>
    show withoutMark (c :: (cs ++ ds)) = withoutMark (c :: cs) ++ ds
    rw [withoutMark, withoutMark]
    split <;> rfl

theorem textBytes_withoutMark (cs : List Char) : textBytes (withoutMark cs) ≤ textBytes cs := by
  cases cs with
  | nil => exact le_refl _
  | cons c cs =>
    rw [withoutMark, textBytes_cons]
    split
    · omega
    · rw [textBytes_cons]

end PersistentHarness.Utf8
