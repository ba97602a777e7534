import PersistentHarness.Data.Text

/-! # UTF-8

The bytes of a JavaScript string, and the fatal decoder that reads them back. A lone surrogate is encoded as
the replacement character; the decoder accepts well-formed UTF-8 only.
-/

namespace PersistentHarness

abbrev Bytes := List UInt8

def isHighSurrogate (u : UInt16) : Bool := 0xD800 ≤ u ∧ u ≤ 0xDBFF

def isLowSurrogate (u : UInt16) : Bool := 0xDC00 ≤ u ∧ u ≤ 0xDFFF

namespace Utf8

/-- The bytes of a code unit outside surrogate pairs. -/
def encodeUnit (u : UInt16) : Bytes :=
  let n := u.toNat
  if n < 0x80 then [.ofNat n]
  else if n < 0x800 then [.ofNat (0xC0 + n / 64), .ofNat (0x80 + n % 64)]
  else if isHighSurrogate u ∨ isLowSurrogate u then [0xEF, 0xBF, 0xBD]
  else [.ofNat (0xE0 + n / 4096), .ofNat (0x80 + n / 64 % 64), .ofNat (0x80 + n % 64)]

/-- The code point of a surrogate pair. -/
def pairPoint (u v : UInt16) : ℕ := 0x10000 + (u.toNat - 0xD800) * 0x400 + (v.toNat - 0xDC00)

def encodePair (u v : UInt16) : Bytes :=
  let n := pairPoint u v
  [.ofNat (0xF0 + n / 0x40000), .ofNat (0x80 + n / 4096 % 64), .ofNat (0x80 + n / 64 % 64), .ofNat (0x80 + n % 64)]

/-- `Buffer.from(value, "utf8")`. -/
def encode : JsString → Bytes
  | [] => []
  | [u] => encodeUnit u
  | u :: v :: rest =>
    if isHighSurrogate u ∧ isLowSurrogate v then encodePair u v ++ encode rest else encodeUnit u ++ encode (v :: rest)

def isContinuation (b : UInt8) : Bool := 0x80 ≤ b ∧ b ≤ 0xBF

/-- The six low bits of a continuation byte. -/
def payload (b : UInt8) : ℕ := b.toNat - 0x80

/-- The code units of a byte sequence, if it is well-formed. -/
def decodeUnits : Bytes → Option JsString
  | [] => some []
  | a :: rest =>
    if a < 0x80 then (decodeUnits rest).map (UInt16.ofNat a.toNat :: ·)
    else if 0xC2 ≤ a ∧ a ≤ 0xDF then
      match rest with
      | b :: rest =>
        if isContinuation b then (decodeUnits rest).map (UInt16.ofNat ((a.toNat - 0xC0) * 64 + payload b) :: ·) else none
      | _ => none
    else if 0xE0 ≤ a ∧ a ≤ 0xEF then
      match rest with
      | b :: c :: rest =>
        -- overlong forms and surrogates
        let lower : UInt8 := if a = 0xE0 then 0xA0 else 0x80
        let upper : UInt8 := if a = 0xED then 0x9F else 0xBF
        if (lower ≤ b ∧ b ≤ upper) ∧ isContinuation c then
          (decodeUnits rest).map (UInt16.ofNat ((a.toNat - 0xE0) * 4096 + payload b * 64 + payload c) :: ·)
        else none
      | _ => none
    else if 0xF0 ≤ a ∧ a ≤ 0xF4 then
      match rest with
      | b :: c :: d :: rest =>
        -- overlong forms and points above U+10FFFF
        let lower : UInt8 := if a = 0xF0 then 0x90 else 0x80
        let upper : UInt8 := if a = 0xF4 then 0x8F else 0xBF
        if (lower ≤ b ∧ b ≤ upper) ∧ isContinuation c ∧ isContinuation d then
          let point := (a.toNat - 0xF0) * 0x40000 + payload b * 4096 + payload c * 64 + payload d
          (decodeUnits rest).map fun units =>
            UInt16.ofNat (0xD800 + (point - 0x10000) / 0x400) :: UInt16.ofNat (0xDC00 + (point - 0x10000) % 0x400) :: units
        else none
      | _ => none
    else none

/-- `new TextDecoder("utf-8", { fatal: true }).decode(bytes)`, which skips a byte order mark. -/
def decode (bytes : Bytes) : Option JsString :=
  match bytes with
  | 0xEF :: 0xBB :: 0xBF :: rest => decodeUnits rest
  | _ => decodeUnits bytes

/-! ## Printable text -/

/-- Text without control characters and lone surrogates. -/
inductive Printable : JsString → Prop
  | nil : Printable []
  | unit {u : UInt16} {rest : JsString} (ink : 0x20 ≤ u) (scalar : ¬(0xD800 ≤ u ∧ u ≤ 0xDFFF)) (printable : Printable rest) :
      Printable (u :: rest)
  | pair {u v : UInt16} {rest : JsString} (high : isHighSurrogate u = true) (low : isLowSurrogate v = true)
      (printable : Printable rest) : Printable (u :: v :: rest)

theorem Printable.append {s t : JsString} (first : Printable s) (second : Printable t) : Printable (s ++ t) := by
  induction first with
  | nil => exact second
  | unit ink scalar _ ih => exact .unit ink scalar ih
  | pair high low _ ih => exact .pair high low ih

theorem Printable.of_units {s : JsString} (units : ∀ u ∈ s, 0x20 ≤ u ∧ u < 0xD800) : Printable s := by
  induction s with
  | nil => exact .nil
  | cons u rest ih =>
    obtain ⟨ink, low⟩ := units u (List.mem_cons_self ..)
    have scalar : ¬(0xD800 ≤ u ∧ u ≤ 0xDFFF) := fun high => absurd low (by simpa using high.1)
    exact .unit ink scalar (ih fun v member => units v (List.mem_cons_of_mem u member))

private theorem toNat_ofNat {n : ℕ} (small : n < 256) : (UInt8.ofNat n).toNat = n := by
  rw [UInt8.toNat_ofNat', Nat.mod_eq_of_lt small]

/-- The continuation bytes carry six bits each. -/
private theorem continuation_ofNat (n : ℕ) :
    isContinuation (.ofNat (0x80 + n % 64)) = true ∧ payload (.ofNat (0x80 + n % 64)) = n % 64 := by
  have small := toNat_ofNat (n := 0x80 + n % 64) (by omega)
  have lower : (0x80 : UInt8).toNat = 128 := rfl
  have upper : (0xBF : UInt8).toNat = 191 := rfl
  constructor
  · rw [isContinuation, decide_eq_true_eq, UInt8.le_iff_toNat_le, UInt8.le_iff_toNat_le, small, lower, upper]
    omega
  · unfold payload
    omega

theorem decodeUnits_unit {u : UInt16} (scalar : ¬(0xD800 ≤ u ∧ u ≤ 0xDFFF)) (rest : Bytes) :
    decodeUnits (encodeUnit u ++ rest) = (decodeUnits rest).map (u :: ·) := by
  have bound := u.toNat_lt
  simp only [UInt16.le_iff_toNat_le, UInt16.reduceToNat] at scalar
  unfold encodeUnit
  dsimp only
  split
  · next small =>
    have first := toNat_ofNat (n := u.toNat) (by omega)
    rw [List.cons_append, List.nil_append, decodeUnits.eq_def]
    simp only [UInt8.lt_iff_toNat_lt, first, UInt8.reduceToNat, small, ↓reduceIte]
    rw [UInt16.ofNat_toNat]
  · next large =>
    split
    · next small =>
      have first := toNat_ofNat (n := 0xC0 + u.toNat / 64) (by omega)
      obtain ⟨second, low⟩ := continuation_ofNat u.toNat
      have notAscii : ¬(0xC0 + u.toNat / 64 < 128) := by omega
      have lead : 0xC2 ≤ 0xC0 + u.toNat / 64 ∧ 0xC0 + u.toNat / 64 ≤ 0xDF := by omega
      rw [List.cons_append, List.cons_append, List.nil_append, decodeUnits.eq_def]
      simp only [UInt8.lt_iff_toNat_lt, UInt8.le_iff_toNat_le, first, UInt8.reduceToNat, notAscii, lead, second, low, and_self,
        ↓reduceIte]
      have value : (0xC0 + u.toNat / 64 - 0xC0) * 64 + u.toNat % 64 = u.toNat := by omega
      rw [value, UInt16.ofNat_toNat]
    · next larger =>
      have first := toNat_ofNat (n := 0xE0 + u.toNat / 4096) (by omega)
      have middle := toNat_ofNat (n := 0x80 + u.toNat / 64 % 64) (by omega)
      obtain ⟨_, high⟩ := continuation_ofNat (u.toNat / 64)
      obtain ⟨third, low⟩ := continuation_ofNat u.toNat
      have replaced : ¬(isHighSurrogate u = true ∨ isLowSurrogate u = true) := by
        simp only [isHighSurrogate, isLowSurrogate, UInt16.le_iff_toNat_le, UInt16.reduceToNat, decide_eq_true_eq]
        omega
      have notAscii : ¬(0xE0 + u.toNat / 4096 < 128) := by omega
      have notShort : ¬(0xC2 ≤ 0xE0 + u.toNat / 4096 ∧ 0xE0 + u.toNat / 4096 ≤ 0xDF) := by omega
      have lead : 0xE0 ≤ 0xE0 + u.toNat / 4096 ∧ 0xE0 + u.toNat / 4096 ≤ 0xEF := by omega
      rw [if_neg replaced, List.cons_append, List.cons_append, List.cons_append, List.nil_append, decodeUnits.eq_def]
      simp only [UInt8.lt_iff_toNat_lt, UInt8.le_iff_toNat_le, first, UInt8.reduceToNat, notAscii, notShort, lead, and_self,
        ↓reduceIte]
      refine (if_pos ⟨⟨?lower, ?upper⟩, third⟩).trans ?value
      case lower =>
        split
        · next same =>
          have same := congrArg UInt8.toNat same
          simp only [first, middle, UInt8.reduceToNat] at same ⊢
          omega
        · simp only [middle, UInt8.reduceToNat]
          omega
      case upper =>
        split
        · next same =>
          have same := congrArg UInt8.toNat same
          simp only [first, middle, UInt8.reduceToNat] at same ⊢
          omega
        · simp only [middle, UInt8.reduceToNat]
          omega
      case value =>
        have value : (0xE0 + u.toNat / 4096 - 0xE0) * 4096 + u.toNat / 64 % 64 * 64 + u.toNat % 64 = u.toNat := by omega
        simp only [high, low, value, UInt16.ofNat_toNat]

theorem decodeUnits_pair {u v : UInt16} (isHigh : isHighSurrogate u = true) (isLow : isLowSurrogate v = true) (rest : Bytes) :
    decodeUnits (encodePair u v ++ rest) = (decodeUnits rest).map fun units => u :: v :: units := by
  simp only [isHighSurrogate, isLowSurrogate, UInt16.le_iff_toNat_le, UInt16.reduceToNat, decide_eq_true_eq] at isHigh isLow
  unfold encodePair
  dsimp only
  generalize point : pairPoint u v = n
  unfold pairPoint at point
  have first := toNat_ofNat (n := 0xF0 + n / 0x40000) (by omega)
  have middle := toNat_ofNat (n := 0x80 + n / 4096 % 64) (by omega)
  obtain ⟨_, second⟩ := continuation_ofNat (n / 4096)
  obtain ⟨third, high⟩ := continuation_ofNat (n / 64)
  obtain ⟨fourth, low⟩ := continuation_ofNat n
  have notAscii : ¬(0xF0 + n / 0x40000 < 128) := by omega
  have notShort : ¬(0xC2 ≤ 0xF0 + n / 0x40000 ∧ 0xF0 + n / 0x40000 ≤ 0xDF) := by omega
  have notMiddle : ¬(0xE0 ≤ 0xF0 + n / 0x40000 ∧ 0xF0 + n / 0x40000 ≤ 0xEF) := by omega
  have lead : 0xF0 ≤ 0xF0 + n / 0x40000 ∧ 0xF0 + n / 0x40000 ≤ 0xF4 := by omega
  rw [List.cons_append, List.cons_append, List.cons_append, List.cons_append, List.nil_append, decodeUnits.eq_def]
  simp only [UInt8.lt_iff_toNat_lt, UInt8.le_iff_toNat_le, first, UInt8.reduceToNat, notAscii, notShort, notMiddle, lead, and_self,
    ↓reduceIte]
  refine (if_pos ⟨⟨?lower, ?upper⟩, third, fourth⟩).trans ?value
  case lower =>
    split
    · next same =>
      have same := congrArg UInt8.toNat same
      simp only [first, middle, UInt8.reduceToNat] at same ⊢
      omega
    · simp only [middle, UInt8.reduceToNat]
      omega
  case upper =>
    split
    · next same =>
      have same := congrArg UInt8.toNat same
      simp only [first, middle, UInt8.reduceToNat] at same ⊢
      omega
    · simp only [middle, UInt8.reduceToNat]
      omega
  case value =>
    have value : (0xF0 + n / 0x40000 - 0xF0) * 0x40000 + n / 4096 % 64 * 4096 + n / 64 % 64 * 64 + n % 64 = n := by omega
    have left : 0xD800 + (n - 0x10000) / 0x400 = u.toNat := by omega
    have right : 0xDC00 + (n - 0x10000) % 0x400 = v.toNat := by omega
    simp only [second, high, low, value, left, right, UInt16.ofNat_toNat]

theorem encode_unit {u : UInt16} (scalar : ¬(0xD800 ≤ u ∧ u ≤ 0xDFFF)) (rest : JsString) :
    encode (u :: rest) = encodeUnit u ++ encode rest := by
  have notHigh : ¬isHighSurrogate u = true := by
    simp only [isHighSurrogate, UInt16.le_iff_toNat_le, UInt16.reduceToNat, decide_eq_true_eq] at scalar ⊢
    omega
  cases rest with
  | nil => rw [encode, encode, List.append_nil]
  | cons v rest => rw [encode, if_neg fun both => notHigh both.1]

theorem encode_pair {u v : UInt16} (high : isHighSurrogate u = true) (low : isLowSurrogate v = true) (rest : JsString) :
    encode (u :: v :: rest) = encodePair u v ++ encode rest := by rw [encode, if_pos ⟨high, low⟩]

theorem decodeUnits_encode {s : JsString} (printable : Printable s) : decodeUnits (encode s) = some s := by
  induction printable with
  | nil => rfl
  | unit _ scalar _ ih => rw [encode_unit scalar, decodeUnits_unit scalar, ih, Option.map_some]
  | pair high low _ ih => rw [encode_pair high low, decodeUnits_pair high low, ih, Option.map_some]

/-- Printable text that starts with an ASCII character is read back. -/
theorem decode_encode {u : UInt16} {rest : JsString} (printable : Printable (u :: rest)) (ascii : u < 0x80) :
    decode (encode (u :: rest)) = some (u :: rest) := by
  have units := decodeUnits_encode printable
  simp only [UInt16.lt_iff_toNat_lt, UInt16.reduceToNat] at ascii
  have scalar : ¬(0xD800 ≤ u ∧ u ≤ 0xDFFF) := by
    simp only [UInt16.le_iff_toNat_le, UInt16.reduceToNat]
    omega
  have first : encode (u :: rest) = .ofNat u.toNat :: encode rest := by
    rw [encode_unit scalar, encodeUnit, if_pos ascii, List.cons_append, List.nil_append]
  have noMark : UInt8.ofNat u.toNat ≠ 0xEF := by
    intro same
    have same := congrArg UInt8.toNat same
    simp only [toNat_ofNat (show u.toNat < 256 by omega), UInt8.reduceToNat] at same
    omega
  rw [first] at units ⊢
  unfold decode
  split
  · next same => exact absurd (List.cons.inj same).1 noMark
  · exact units

theorem encode_concat {s : JsString} (printable : Printable s) (t : JsString) : encode (s ++ t) = encode s ++ encode t := by
  induction printable with
  | nil => rfl
  | unit _ scalar _ ih => rw [List.cons_append, encode_unit scalar, encode_unit scalar, ih, List.append_assoc]
  | pair high low _ ih =>
    rw [List.cons_append, List.cons_append, encode_pair high low, encode_pair high low, ih, List.append_assoc]

/-- Printable text has no control bytes. -/
theorem ink_of_printable {s : JsString} (printable : Printable s) : ∀ b ∈ encode s, 0x20 ≤ b := by
  have large : ∀ n, 0x20 ≤ n → n < 256 → (0x20 : UInt8) ≤ .ofNat n := by
    intro n lower upper
    rw [UInt8.le_iff_toNat_le, toNat_ofNat upper]
    exact lower
  induction printable with
  | nil => simp [encode]
  | @unit u rest ink scalar _ ih =>
    have bound := u.toNat_lt
    simp only [UInt16.le_iff_toNat_le, UInt16.reduceToNat] at ink
    rw [encode_unit scalar]
    intro b member
    rcases List.mem_append.mp member with own | later
    · unfold encodeUnit at own
      dsimp only at own
      split at own
      · rw [List.mem_singleton.mp own]
        exact large _ ink (by omega)
      · split at own
        · simp only [List.mem_cons, List.not_mem_nil, or_false] at own
          rcases own with rfl | rfl <;> exact large _ (by omega) (by omega)
        · split at own
          · simp only [List.mem_cons, List.not_mem_nil, or_false] at own
            rcases own with rfl | rfl | rfl <;> decide
          · simp only [List.mem_cons, List.not_mem_nil, or_false] at own
            rcases own with rfl | rfl | rfl <;> exact large _ (by omega) (by omega)
    · exact ih b later
  | @pair u v rest high low _ ih =>
    simp only [isHighSurrogate, isLowSurrogate, UInt16.le_iff_toNat_le, UInt16.reduceToNat, decide_eq_true_eq] at high low
    rw [encode_pair (by simpa [isHighSurrogate, UInt16.le_iff_toNat_le] using high)
      (by simpa [isLowSurrogate, UInt16.le_iff_toNat_le] using low)]
    intro b member
    rcases List.mem_append.mp member with own | later
    · have point : pairPoint u v < 0x110000 := by
        unfold pairPoint
        omega
      simp only [encodePair, List.mem_cons, List.not_mem_nil, or_false] at own
      rcases own with rfl | rfl | rfl | rfl <;> exact large _ (by omega) (by omega)
    · exact ih b later

end Utf8

end PersistentHarness

/-! ## Code points

A JavaScript string is a sequence of code points: surrogate pairs, lone surrogates and other units. Each is encoded by itself,
a lone surrogate as the replacement character, and a decoder that accepts well-formed UTF-8 only accepts a beginning of the
bytes exactly when it ends between two code points.
-/

namespace PersistentHarness

namespace JsString

/-- `Array.from(value)`: a surrogate pair is one element, any other unit is one by itself. -/
def codePoints : JsString → List JsString
  | [] => []
  | [u] => [[u]]
  | u :: v :: rest =>
    if isHighSurrogate u ∧ isLowSurrogate v then [u, v] :: codePoints rest else [u] :: codePoints (v :: rest)

theorem flatten_codePoints (value : JsString) : (codePoints value).flatten = value := by
  induction value using codePoints.induct with
  | case1 => rfl
  | case2 u => rfl
  | case3 u v rest paired ih => rw [codePoints, if_pos paired, List.flatten_cons, ih]; rfl
  | case4 u v rest unpaired ih => rw [codePoints, if_neg unpaired, List.flatten_cons, ih]; rfl

/-- One code point, with the replacement character for a lone surrogate. -/
def wellFormedPoint : JsString → JsString
  | [u] => if isHighSurrogate u ∨ isLowSurrogate u then [0xFFFD] else [u]
  | point => point

/-- `value.toWellFormed()`. -/
def toWellFormed (value : JsString) : JsString := (codePoints value).flatMap wellFormedPoint

/-- The text without a byte order mark at its start. -/
def dropMark : JsString → JsString
  | 0xFEFF :: rest => rest
  | text => text

end JsString

namespace Utf8

open JsString

/-- A code point and its bytes: how many they are, what they are read back as, and that no part of them is read. -/
structure PointBytes (point : JsString) : Prop where
  length : (encode point).length = utf8Length point
  pos : 0 < (encode point).length
  decode : ∀ rest, decodeUnits (encode point ++ rest) = (decodeUnits rest).map (wellFormedPoint point ++ ·)
  cut : ∀ n, 0 < n → n < (encode point).length → decodeUnits ((encode point).take n) = none

section Points

/-- A lead byte with too few bytes behind it. -/
theorem decodeUnits_short {a : UInt8} {rest : Bytes} (short : 0xC2 ≤ a ∧ a ≤ 0xDF ∧ rest.length < 1 ∨
    0xE0 ≤ a ∧ a ≤ 0xEF ∧ rest.length < 2 ∨ 0xF0 ≤ a ∧ a ≤ 0xF4 ∧ rest.length < 3) : decodeUnits (a :: rest) = none := by
  simp only [UInt8.le_iff_toNat_le, UInt8.reduceToNat] at short
  rw [decodeUnits.eq_def]
  simp only [UInt8.lt_iff_toNat_lt, UInt8.le_iff_toNat_le, UInt8.reduceToNat]
  rw [if_neg (by omega)]
  rcases rest with _ | ⟨b, _ | ⟨c, _ | ⟨d, rest⟩⟩⟩ <;> simp only [List.length_nil, List.length_cons] at short
  · split_ifs <;> rfl
  · rw [if_neg (by omega)]
    split_ifs <;> rfl
  · rw [if_neg (by omega), if_neg (by omega)]
    split_ifs <;> rfl
  · omega

private theorem toNat_small {n : ℕ} (small : n < 256) : (UInt8.ofNat n).toNat = n := by
  rw [UInt8.toNat_ofNat', Nat.mod_eq_of_lt small]

theorem pointBytes_lone {u : UInt16} (lone : isHighSurrogate u = true ∨ isLowSurrogate u = true) : PointBytes [u] := by
  have range : 0xD800 ≤ u.toNat ∧ u.toNat ≤ 0xDFFF := by
    simp only [isHighSurrogate, isLowSurrogate, UInt16.le_iff_toNat_le, UInt16.reduceToNat, decide_eq_true_eq] at lone
    omega
  have bytes : encode [u] = [0xEF, 0xBF, 0xBD] := by
    rw [encode, encodeUnit]
    rw [if_neg (by omega), if_neg (by omega), if_pos lone]
  have width : utf8Length [u] = 3 := by
    rw [utf8Length, unitWidth]
    simp only [UInt16.lt_iff_toNat_lt, UInt16.reduceToNat]
    rw [if_neg (by omega), if_neg (by omega)]
  refine ⟨by rw [bytes, width]; rfl, by rw [bytes]; decide, fun rest => ?_, fun n positive inside => ?_⟩
  · rw [bytes, wellFormedPoint, if_pos lone]
    exact decodeUnits_unit (by decide : ¬(0xD800 ≤ (0xFFFD : UInt16) ∧ (0xFFFD : UInt16) ≤ 0xDFFF)) rest
  · rw [bytes] at inside ⊢
    obtain rfl | rfl : n = 1 ∨ n = 2 := by simp only [List.length_cons, List.length_nil] at inside; omega
    · decide
    · decide

theorem pointBytes_unit {u : UInt16} (scalar : ¬(isHighSurrogate u = true ∨ isLowSurrogate u = true)) : PointBytes [u] := by
  have outside : ¬(0xD800 ≤ u ∧ u ≤ 0xDFFF) := by
    simp only [isHighSurrogate, isLowSurrogate, UInt16.le_iff_toNat_le, UInt16.reduceToNat, decide_eq_true_eq] at scalar ⊢
    omega
  have bound := u.toNat_lt
  have width : utf8Length [u] = if u.toNat < 0x80 then 1 else if u.toNat < 0x800 then 2 else 3 := by
    rw [utf8Length, unitWidth]
    simp only [UInt16.lt_iff_toNat_lt, UInt16.reduceToNat]
  have read : ∀ rest, decodeUnits (encode [u] ++ rest) = (decodeUnits rest).map (wellFormedPoint [u] ++ ·) := by
    intro rest
    rw [wellFormedPoint, if_neg scalar]
    exact decodeUnits_unit outside rest
  suffices (encode [u]).length = utf8Length [u] ∧ 0 < (encode [u]).length ∧
      ∀ n, 0 < n → n < (encode [u]).length → decodeUnits ((encode [u]).take n) = none from ⟨this.1, this.2.1, read, this.2.2⟩
  rw [width, encode, encodeUnit]
  split_ifs with small middle
  · exact ⟨rfl, Nat.one_pos, fun n positive inside => by simp at inside; omega⟩
  · refine ⟨rfl, Nat.two_pos, fun n positive inside => ?_⟩
    obtain rfl : n = 1 := by simp at inside; omega
    refine decodeUnits_short (.inl ?_)
    simp only [UInt8.le_iff_toNat_le, UInt8.reduceToNat, toNat_small (show 0xC0 + u.toNat / 64 < 256 by omega)]
    simp
    omega
  · refine ⟨rfl, Nat.succ_pos 2, fun n positive inside => ?_⟩
    obtain ⟨k, rfl⟩ : ∃ k, n = k + 1 := ⟨n - 1, by omega⟩
    refine decodeUnits_short (.inr (.inl ?_))
    simp only [UInt8.le_iff_toNat_le, UInt8.reduceToNat, toNat_small (show 0xE0 + u.toNat / 4096 < 256 by omega)]
    simp at inside ⊢
    omega

theorem pointBytes_pair {u v : UInt16} (high : isHighSurrogate u = true) (low : isLowSurrogate v = true) : PointBytes [u, v] := by
  have paired := And.intro high low
  have point : pairPoint u v < 0x110000 := by
    simp only [isHighSurrogate, isLowSurrogate, UInt16.le_iff_toNat_le, UInt16.reduceToNat, decide_eq_true_eq] at high low
    unfold pairPoint
    omega
  have bytes : encode [u, v] = encodePair u v := by rw [encode_pair high low, encode, List.append_nil]
  have width : utf8Length [u, v] = 4 := by
    rw [utf8Length, if_pos]
    · rfl
    · simpa only [isHighSurrogate, isLowSurrogate, decide_eq_true_eq] using paired
  refine ⟨by rw [bytes, width]; rfl, by rw [bytes]; exact Nat.succ_pos 3, fun rest => ?_, fun n positive inside => ?_⟩
  · rw [bytes]
    exact decodeUnits_pair high low rest
  · rw [bytes, encodePair] at inside ⊢
    obtain ⟨k, rfl⟩ : ∃ k, n = k + 1 := ⟨n - 1, by omega⟩
    refine decodeUnits_short (.inr (.inr ?_))
    simp only [UInt8.le_iff_toNat_le, UInt8.reduceToNat, toNat_small (show 0xF0 + pairPoint u v / 0x40000 < 256 by omega)]
    simp at inside ⊢
    omega

theorem pointBytes_single (u : UInt16) : PointBytes [u] := by
  by_cases lone : isHighSurrogate u = true ∨ isLowSurrogate u = true
  · exact pointBytes_lone lone
  · exact pointBytes_unit lone

theorem pointBytes_of_mem {value point : JsString} (member : point ∈ codePoints value) : PointBytes point := by
  induction value using codePoints.induct with
  | case1 => cases member
  | case2 u =>
    rw [List.mem_singleton.mp member]
    exact pointBytes_single u
  | case3 u v rest paired ih =>
    rw [codePoints, if_pos paired] at member
    rcases List.mem_cons.mp member with rfl | later
    · exact pointBytes_pair paired.1 paired.2
    · exact ih later
  | case4 u v rest unpaired ih =>
    rw [codePoints, if_neg unpaired] at member
    rcases List.mem_cons.mp member with rfl | later
    · exact pointBytes_single u
    · exact ih later

end Points

section Prefixes

theorem encode_eq (value : JsString) : encode value = (codePoints value).flatMap encode := by
  induction value using codePoints.induct with
  | case1 => rfl
  | case2 u => rw [codePoints, List.flatMap_singleton]
  | case3 u v rest paired ih =>
    rw [codePoints, if_pos paired, List.flatMap_cons, ← ih, encode_pair paired.1 paired.2, encode_pair paired.1 paired.2, encode,
      List.append_nil]
  | case4 u v rest unpaired ih => rw [codePoints, if_neg unpaired, List.flatMap_cons, ← ih, encode.eq_3, if_neg unpaired, encode.eq_2]

theorem encode_length (value : JsString) : (encode value).length = utf8Length value := by
  induction value using codePoints.induct with
  | case1 => rfl
  | case2 u => exact (pointBytes_single u).length
  | case3 u v rest paired ih =>
    have high : 0xD800 ≤ u ∧ u ≤ 0xDBFF := of_decide_eq_true paired.1
    have low : 0xDC00 ≤ v ∧ v ≤ 0xDFFF := of_decide_eq_true paired.2
    rw [encode_pair paired.1 paired.2, List.length_append, ih, utf8Length, if_pos ⟨high, low⟩, Nat.add_comm]
    rfl
  | case4 u v rest unpaired ih =>
    have apart : ¬((0xD800 ≤ u ∧ u ≤ 0xDBFF) ∧ 0xDC00 ≤ v ∧ v ≤ 0xDFFF) := fun pair =>
      unpaired ⟨decide_eq_true pair.1, decide_eq_true pair.2⟩
    have single := (pointBytes_single u).length
    rw [encode, if_neg unpaired, List.length_append, ih, utf8Length, if_neg apart, Nat.add_comm]
    exact congrArg _ single

/-- The bytes of code points. -/
def pointsLength (points : List JsString) : ℕ := (points.flatMap encode).length

theorem pointsLength_cons (point : JsString) (points : List JsString) :
    pointsLength (point :: points) = (encode point).length + pointsLength points := by
  rw [pointsLength, List.flatMap_cons, List.length_append]
  rfl

/-- What is read back of a beginning of the bytes ends between two code points. -/
theorem exists_points_of_decodeUnits {points : List JsString} (all : ∀ point ∈ points, PointBytes point) {n : ℕ} {text : JsString}
    (inside : n ≤ pointsLength points) (read : decodeUnits ((points.flatMap encode).take n) = some text) :
    ∃ k ≤ points.length, pointsLength (points.take k) = n ∧ text = (points.take k).flatMap wellFormedPoint := by
  induction points generalizing n text with
  | nil =>
    obtain rfl : n = 0 := Nat.le_zero.mp inside
    cases read
    exact ⟨0, le_refl _, rfl, rfl⟩
  | cons point points ih =>
    have bytes := all point (List.mem_cons_self ..)
    rw [pointsLength_cons] at inside
    rw [List.flatMap_cons] at read
    rcases Nat.eq_zero_or_pos n with rfl | positive
    · rw [List.take_zero] at read
      cases read
      exact ⟨0, Nat.zero_le _, rfl, rfl⟩
    · rcases Nat.lt_or_ge n (encode point).length with short | long
      · rw [List.take_append_of_le_length short.le, bytes.cut n positive short] at read
        cases read
      · obtain ⟨m, rfl⟩ := Nat.exists_eq_add_of_le long
        rw [List.take_length_add_append, bytes.decode] at read
        obtain ⟨rest, readRest, rfl⟩ := Option.map_eq_some_iff.mp read
        obtain ⟨k, within, total, shown⟩ := ih (fun p member => all p (List.mem_cons_of_mem _ member)) (by omega) readRest
        refine ⟨k + 1, by rw [List.length_cons]; omega, ?_, ?_⟩
        · rw [List.take_succ_cons, pointsLength_cons, total]
        · rw [List.take_succ_cons, List.flatMap_cons, shown]

theorem decodeUnits_mark (rest : Bytes) : decodeUnits (0xEF :: 0xBB :: 0xBF :: rest) = (decodeUnits rest).map (0xFEFF :: ·) :=
  decodeUnits_unit (by decide : ¬(0xD800 ≤ (0xFEFF : UInt16) ∧ (0xFEFF : UInt16) ≤ 0xDFFF)) rest

theorem payload_lt {b : UInt8} (continues : isContinuation b = true) : payload b < 64 ∧ b.toNat = 0x80 + payload b := by
  simp only [isContinuation, UInt8.le_iff_toNat_le, UInt8.reduceToNat, decide_eq_true_eq] at continues
  unfold payload
  omega

theorem mark_of_decodeUnits {bytes : Bytes} {text : JsString} (read : decodeUnits bytes = some (0xFEFF :: text)) :
    ∃ rest, bytes = 0xEF :: 0xBB :: 0xBF :: rest := by
  have value : ∀ {n : ℕ} {units : Option JsString}, units.map (UInt16.ofNat n :: ·) = some (0xFEFF :: text) → n % 65536 = 0xFEFF := by
    intro n units same
    obtain ⟨more, -, shown⟩ := Option.map_eq_some_iff.mp same
    have head := congrArg UInt16.toNat (List.cons.inj shown).1
    rwa [UInt16.toNat_ofNat'] at head
  cases bytes with
  | nil => cases read
  | cons a rest =>
    have small := a.toNat_lt
    rw [decodeUnits.eq_def] at read
    simp only [UInt8.lt_iff_toNat_lt, UInt8.le_iff_toNat_le, UInt8.reduceToNat] at read
    split at read
    · next ascii =>
      have same := value read
      omega
    split at read
    · next two =>
      split at read
      · next b rest =>
        split at read
        · next continues =>
          have same := value read
          have low := payload_lt continues
          omega
        · cases read
      · cases read
    split at read
    · next three =>
      split at read
      · next b c rest =>
        obtain ⟨continues, read⟩ := Option.ite_none_right_eq_some.mp read
        have same := value read
        have last := payload_lt continues.2
        have middle : b.toNat - 0x80 < 64 ∧ 0x80 ≤ b.toNat := by
          have bounds := continues.1
          split_ifs at bounds <;> simp only [UInt8.reduceToNat] at bounds <;> omega
        unfold payload at same last
        refine ⟨rest, ?_⟩
        rw [show a = 0xEF from UInt8.toNat_inj.mp (by simp only [UInt8.reduceToNat]; omega),
          show b = 0xBB from UInt8.toNat_inj.mp (by simp only [UInt8.reduceToNat]; omega),
          show c = 0xBF from UInt8.toNat_inj.mp (by simp only [UInt8.reduceToNat]; omega)]
      · cases read
    split at read
    · next four =>
      split at read
      · next b c d rest =>
        obtain ⟨continues, read⟩ := Option.ite_none_right_eq_some.mp read
        obtain ⟨more, -, shown⟩ := Option.map_eq_some_iff.mp read
        have head := congrArg UInt16.toNat (List.cons.inj shown).1
        rw [UInt16.toNat_ofNat'] at head
        have third := payload_lt continues.2.1
        have last := payload_lt continues.2.2
        have upper : a.toNat = 0xF4 → b.toNat ≤ 0x8F := by
          intro top
          have bound := continues.1.2
          rwa [if_pos (UInt8.toNat_inj.mp top)] at bound
        have limit : b.toNat ≤ 0xBF := by
          have bound := continues.1.2
          split_ifs at bound <;> simp only [UInt8.reduceToNat] at bound <;> omega
        simp only [UInt16.reduceToNat] at head
        generalize payload c = x at *
        generalize payload d = y at *
        unfold payload at head
        omega
      · cases read
    · cases read

/-- The decoder leaves out a byte order mark at the start. -/
theorem decode_eq (bytes : Bytes) : decode bytes = (decodeUnits bytes).map dropMark := by
  unfold decode
  split
  · next rest =>
    rw [decodeUnits_mark]
    cases decodeUnits rest <;> rfl
  · next unmarked =>
    cases read : decodeUnits bytes with
    | none => rfl
    | some text =>
      have same : dropMark text = text := by
        unfold dropMark
        split
        · obtain ⟨others, same⟩ := mark_of_decodeUnits read
          exact absurd same (unmarked others)
        · rfl
      rw [Option.map_some, same]

end Prefixes

end Utf8

end PersistentHarness
