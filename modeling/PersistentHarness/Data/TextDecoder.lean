import PersistentHarness.Data.Utf8

/-! # Decoding UTF-8 with replacement

The decoder that never fails: every byte that cannot continue a character puts the replacement character in its
place. It reads one byte at a time, so a text can be decoded in parts as long as the decoder is kept between
them. A part that is decoded on its own ends with the replacement of what it leaves open.
-/

namespace PersistentHarness.Utf8

/-- U+FFFD. -/
def replacement : Char := Char.ofNat 0xFFFD

/-- Which bytes may come next inside a character. -/
inductive Tail where
  | any
  | afterE0
  | afterED
  | afterF0
  | afterF4
deriving DecidableEq, Repr

/-- The least and the greatest byte that may come next. -/
def Tail.range : Tail → UInt8 × UInt8
  | .any => (0x80, 0xBF)
  | .afterE0 => (0xA0, 0xBF)
  | .afterED => (0x80, 0x9F)
  | .afterF0 => (0x90, 0xBF)
  | .afterF4 => (0x80, 0x8F)

def Tail.accepts (tail : Tail) (b : UInt8) : Bool := tail.range.1 ≤ b ∧ b ≤ tail.range.2

/-- Between two characters, or inside one: its bits so far, how many bytes follow the next one, and what may come next. -/
inductive Decoder where
  | start
  | inside (point more : ℕ) (tail : Tail)
deriving DecidableEq, Repr

namespace Decoder

/-- The first byte of a character. -/
def lead (b : UInt8) : Decoder × List Char :=
  if b < 0x80 then (start, [Char.ofNat b.toNat])
  else if 0xC2 ≤ b ∧ b ≤ 0xDF then (inside (b.toNat - 0xC0) 0 .any, [])
  else if 0xE0 ≤ b ∧ b ≤ 0xEF then
    (inside (b.toNat - 0xE0) 1 (if b = 0xE0 then .afterE0 else if b = 0xED then .afterED else .any), [])
  else if 0xF0 ≤ b ∧ b ≤ 0xF4 then
    (inside (b.toNat - 0xF0) 2 (if b = 0xF0 then .afterF0 else if b = 0xF4 then .afterF4 else .any), [])
  else (start, [replacement])

/-- A byte continues the character that is open. -/
def accepts : Decoder → UInt8 → Bool
  | start, _ => false
  | inside _ _ tail, b => tail.accepts b

/-- The end of the input. -/
def finish : Decoder → List Char
  | start => []
  | inside .. => [replacement]

def step (d : Decoder) (b : UInt8) : Decoder × List Char :=
  match d with
  | start => lead b
  | inside point more tail =>
    if tail.accepts b then
      match more with
      | 0 => (start, [Char.ofNat (point * 64 + payload b)])
      | more + 1 => (inside (point * 64 + payload b) more .any, [])
    else ((lead b).1, replacement :: (lead b).2)

def after (d : Decoder) (bytes : Bytes) : Decoder := bytes.foldl (fun d b => (d.step b).1) d

def emit : Decoder → Bytes → List Char
  | _, [] => []
  | d, b :: rest => (d.step b).2 ++ emit (d.step b).1 rest

/-- The characters of the rest of an input. -/
def decode (d : Decoder) (bytes : Bytes) : List Char := d.emit bytes ++ (d.after bytes).finish

end Decoder

def decodeChars (bytes : Bytes) : List Char := Decoder.start.decode bytes

/-- `buffer.toString("utf8")`. -/
def toText (bytes : Bytes) : JsString := (decodeChars bytes).flatMap utf16

def charBytes (c : Char) : Bytes := encode (utf16 c)

/-- How many bytes a text has. -/
def textBytes (cs : List Char) : ℕ := (cs.flatMap charBytes).length

/-- The longest beginning of a text that fits a number of bytes. -/
def cut : ℕ → List Char → List Char
  | _, [] => []
  | limit, c :: rest => if (charBytes c).length ≤ limit then c :: cut (limit - (charBytes c).length) rest else []

namespace Decoder

/-- No part begins with a byte that continues what the parts before it leave open. -/
def Clean : Decoder → List Bytes → Prop
  | _, [] => True
  | d, part :: rest => (∀ b ∈ part.head?, d.accepts b = false) ∧ Clean (d.after part) rest

instance decidableClean : (d : Decoder) → (parts : List Bytes) → Decidable (d.Clean parts)
  | _, [] => .isTrue trivial
  | d, part :: rest =>
    have : Decidable (∀ b ∈ part.head?, d.accepts b = false) := Option.decidableForallMem _
    have := decidableClean (d.after part) rest
    inferInstanceAs (Decidable ((∀ b ∈ part.head?, d.accepts b = false) ∧ Clean (d.after part) rest))

section Parts

variable {d : Decoder} {b : UInt8}

theorem after_append (d : Decoder) (first second : Bytes) : d.after (first ++ second) = (d.after first).after second :=
  List.foldl_append

theorem emit_append (d : Decoder) (first second : Bytes) :
    d.emit (first ++ second) = d.emit first ++ (d.after first).emit second := by
  induction first generalizing d with
  | nil => rfl
  | cons b rest ih =>
    rw [List.cons_append, emit, emit, ih, List.append_assoc]
    rfl

theorem decode_append (d : Decoder) (first second : Bytes) :
    d.decode (first ++ second) = d.emit first ++ (d.after first).decode second := by
  rw [decode, emit_append, after_append, List.append_assoc, decode]

theorem decode_cons (d : Decoder) (b : UInt8) (rest : Bytes) : d.decode (b :: rest) = (d.step b).2 ++ (d.step b).1.decode rest := by
  rw [decode, emit, List.append_assoc]
  rfl

theorem continuation_of_accepts (accepted : d.accepts b = true) : 0x80 ≤ b ∧ b ≤ 0xBF := by
  cases d with
  | start => cases accepted
  | inside point more tail =>
    simp only [accepts, Tail.accepts, decide_eq_true_eq, UInt8.le_iff_toNat_le] at accepted ⊢
    cases tail <;> simp only [Tail.range, UInt8.reduceToNat] at accepted ⊢ <;> omega

/-- A byte that does not continue a character ends it, and begins the next one. -/
theorem step_refused (refused : d.accepts b = false) : d.step b = ((lead b).1, d.finish ++ (lead b).2) := by
  cases d with
  | start => rfl
  | inside point more tail => exact if_neg (Bool.eq_false_iff.mp refused)

theorem decode_refused (refused : d.accepts b = false) (rest : Bytes) :
    d.decode (b :: rest) = d.finish ++ start.decode (b :: rest) := by
  rw [decode_cons, decode_cons, step_refused refused, List.append_assoc]
  rfl

theorem after_refused (refused : d.accepts b = false) (rest : Bytes) : d.after (b :: rest) = start.after (b :: rest) := by
  change (d.step b).1.after rest = (lead b).1.after rest
  rw [step_refused refused]

theorem lead_continuation (continues : 0x80 ≤ b ∧ b ≤ 0xBF) : lead b = (start, [replacement]) := by
  simp only [UInt8.le_iff_toNat_le, UInt8.reduceToNat] at continues
  have notAscii : ¬b < 0x80 := by
    simp only [UInt8.lt_iff_toNat_lt, UInt8.reduceToNat]
    omega
  have notTwo : ¬(0xC2 ≤ b ∧ b ≤ 0xDF) := by
    simp only [UInt8.le_iff_toNat_le, UInt8.reduceToNat]
    omega
  have notThree : ¬(0xE0 ≤ b ∧ b ≤ 0xEF) := by
    simp only [UInt8.le_iff_toNat_le, UInt8.reduceToNat]
    omega
  have notFour : ¬(0xF0 ≤ b ∧ b ≤ 0xF4) := by
    simp only [UInt8.le_iff_toNat_le, UInt8.reduceToNat]
    omega
  rw [lead, if_neg notAscii, if_neg notTwo, if_neg notThree, if_neg notFour]

theorem decode_continuation (accepted : d.accepts b = true) (rest : Bytes) :
    start.decode (b :: rest) = replacement :: start.decode rest := by
  rw [decode_cons]
  change (lead b).2 ++ (lead b).1.decode rest = _
  rw [lead_continuation (continuation_of_accepts accepted)]
  rfl

/-- A character that is continued is one character, or the replacement of what is open. -/
theorem step_accepted (accepted : d.accepts b = true) :
    (∃ c, d.step b = (start, [c])) ∨ ∃ point more tail, d.step b = (inside point more tail, []) := by
  cases d with
  | start => cases accepted
  | inside point more tail =>
    change tail.accepts b = true at accepted
    rw [step.eq_def]
    dsimp only
    rw [if_pos accepted]
    cases more with
    | zero => exact .inl ⟨_, rfl⟩
    | succ more => exact .inr ⟨_, more, .any, rfl⟩

theorem decode_of_clean {parts : List Bytes} (clean : d.Clean parts) :
    d.decode parts.flatten = d.finish ++ parts.flatMap decodeChars := by
  induction parts generalizing d with
  | nil => simp [decode, emit, after]
  | cons part rest ih =>
    obtain ⟨here, later⟩ := clean
    cases part with
    | nil => exact ih later
    | cons b part =>
      have refused := here b rfl
      rw [after_refused refused] at later
      rw [List.flatten_cons, List.flatMap_cons, List.cons_append, decode_refused refused, ← List.cons_append, decode_append,
        ih later, decodeChars, decode, List.append_assoc]

end Parts

end Decoder

/-! ## The bytes of a character -/

section Characters

variable (c : Char) (limit : ℕ) (cs ds : List Char)

theorem toNat_byte {n : ℕ} (small : n < 256) : (UInt8.ofNat n).toNat = n := by
  rw [UInt8.toNat_ofNat', Nat.mod_eq_of_lt small]

theorem payload_byte (n : ℕ) : payload (.ofNat (0x80 + n % 64)) = n % 64 := by
  have value := toNat_byte (n := 0x80 + n % 64) (by omega)
  unfold payload
  omega

theorem accepts_byte {tail : Tail} {n : ℕ} (small : n < 256)
    (within : tail.range.1.toNat ≤ n ∧ n ≤ tail.range.2.toNat) : tail.accepts (.ofNat n) = true := by
  rw [Tail.accepts, decide_eq_true_eq, UInt8.le_iff_toNat_le, UInt8.le_iff_toNat_le, toNat_byte small]
  exact within

theorem any_accepts (n : ℕ) : Tail.any.accepts (.ofNat (0x80 + n % 64)) = true := by
  refine accepts_byte (by omega) ?_
  simp only [Tail.range, UInt8.reduceToNat]
  omega

namespace Decoder

theorem lead_byte {n : ℕ} (small : n < 256) :
    lead (.ofNat n)
      = if n < 0x80 then (start, [Char.ofNat n])
        else if 0xC2 ≤ n ∧ n ≤ 0xDF then (inside (n - 0xC0) 0 .any, [])
        else if 0xE0 ≤ n ∧ n ≤ 0xEF then
          (inside (n - 0xE0) 1 (if n = 0xE0 then .afterE0 else if n = 0xED then .afterED else .any), [])
        else if 0xF0 ≤ n ∧ n ≤ 0xF4 then
          (inside (n - 0xF0) 2 (if n = 0xF0 then .afterF0 else if n = 0xF4 then .afterF4 else .any), [])
        else (start, [replacement]) := by
  have value := toNat_byte small
  simp only [lead, UInt8.lt_iff_toNat_lt, UInt8.le_iff_toNat_le, ← UInt8.toNat_inj, value, UInt8.reduceToNat]

theorem step_last {point n : ℕ} {tail : Tail} (accepted : tail.accepts (.ofNat (0x80 + n % 64)) = true) (rest : Bytes) :
    (inside point 0 tail).decode (.ofNat (0x80 + n % 64) :: rest) = Char.ofNat (point * 64 + n % 64) :: start.decode rest := by
  rw [decode_cons, step.eq_def]
  dsimp only
  rw [if_pos accepted, payload_byte, List.cons_append, List.nil_append]

theorem step_more {point more n : ℕ} {tail : Tail} (accepted : tail.accepts (.ofNat (0x80 + n % 64)) = true)
    (rest : Bytes) :
    (inside point (more + 1) tail).decode (.ofNat (0x80 + n % 64) :: rest)
      = (inside (point * 64 + n % 64) more .any).decode rest := by
  rw [decode_cons, step.eq_def]
  dsimp only
  rw [if_pos accepted, payload_byte, List.nil_append]

end Decoder

/-- The bytes of a character, by how many they are. -/
inductive Encoded : ℕ → Bytes → Prop
  | one {n : ℕ} (small : n < 0x80) : Encoded n [.ofNat n]
  | two {n : ℕ} (lower : 0x80 ≤ n) (upper : n < 0x800) : Encoded n [.ofNat (0xC0 + n / 64), .ofNat (0x80 + n % 64)]
  | three {n : ℕ} (lower : 0x800 ≤ n) (upper : n < 0x10000) (scalar : n < 0xD800 ∨ 0xDFFF < n) :
      Encoded n [.ofNat (0xE0 + n / 4096), .ofNat (0x80 + n / 64 % 64), .ofNat (0x80 + n % 64)]
  | four {n : ℕ} (lower : 0x10000 ≤ n) (upper : n < 0x110000) :
      Encoded n [.ofNat (0xF0 + n / 0x40000), .ofNat (0x80 + n / 4096 % 64), .ofNat (0x80 + n / 64 % 64), .ofNat (0x80 + n % 64)]

theorem encoded_charBytes (rest : JsString) :
    Encoded c.toNat (charBytes c) ∧ encode (utf16 c ++ rest) = charBytes c ++ encode rest := by
  have range : c.toNat < 0xD800 ∨ 0xDFFF < c.toNat ∧ c.toNat < 0x110000 := c.valid
  unfold charBytes utf16
  generalize c.toNat = n at range ⊢
  split
  · next short =>
    have value : (UInt16.ofNat n).toNat = n := by rw [UInt16.toNat_ofNat', Nat.mod_eq_of_lt short]
    have scalar : ¬(0xD800 ≤ UInt16.ofNat n ∧ UInt16.ofNat n ≤ 0xDFFF) := by
      simp only [UInt16.le_iff_toNat_le, value, UInt16.reduceToNat]
      omega
    have same := encode_unit scalar []
    rw [encode, List.append_nil] at same
    refine ⟨?_, by rw [List.cons_append, List.nil_append, encode_unit scalar, same]⟩
    have paired : ¬(isHighSurrogate (UInt16.ofNat n) = true ∨ isLowSurrogate (UInt16.ofNat n) = true) := by
      simp only [isHighSurrogate, isLowSurrogate, UInt16.le_iff_toNat_le, value, UInt16.reduceToNat, decide_eq_true_eq]
      omega
    rw [same, encodeUnit, if_neg paired]
    simp only [value]
    split
    · next small => exact .one small
    · next large =>
      split
      · next small => exact .two (by omega) small
      · next larger =>
        exact .three (by omega) short (by omega)
  · next long =>
    have high : (UInt16.ofNat (0xD800 + (n - 0x10000) / 0x400)).toNat = 0xD800 + (n - 0x10000) / 0x400 := by
      rw [UInt16.toNat_ofNat', Nat.mod_eq_of_lt (by omega)]
    have low : (UInt16.ofNat (0xDC00 + (n - 0x10000) % 0x400)).toNat = 0xDC00 + (n - 0x10000) % 0x400 := by
      rw [UInt16.toNat_ofNat', Nat.mod_eq_of_lt (by omega)]
    have isHigh : isHighSurrogate (UInt16.ofNat (0xD800 + (n - 0x10000) / 0x400)) = true := by
      simp only [isHighSurrogate, UInt16.le_iff_toNat_le, high, UInt16.reduceToNat, decide_eq_true_eq]
      omega
    have isLow : isLowSurrogate (UInt16.ofNat (0xDC00 + (n - 0x10000) % 0x400)) = true := by
      simp only [isLowSurrogate, UInt16.le_iff_toNat_le, low, UInt16.reduceToNat, decide_eq_true_eq]
      omega
    have same := encode_pair isHigh isLow []
    rw [encode, List.append_nil] at same
    refine ⟨?_, by rw [List.cons_append, List.cons_append, List.nil_append, encode_pair isHigh isLow, same]⟩
    have point : pairPoint (.ofNat (0xD800 + (n - 0x10000) / 0x400)) (.ofNat (0xDC00 + (n - 0x10000) % 0x400)) = n := by
      unfold pairPoint
      omega
    rw [same, encodePair]
    simp only [point]
    exact .four (by omega) (by omega)

theorem encode_flatMap : encode (cs.flatMap utf16) = cs.flatMap charBytes := by
  induction cs with
  | nil => rfl
  | cons c cs ih => rw [List.flatMap_cons, List.flatMap_cons, (encoded_charBytes c _).2, ih]

/-- A text is read back from its bytes. -/
theorem decode_charBytes (rest : Bytes) : Decoder.start.decode (charBytes c ++ rest) = c :: Decoder.start.decode rest := by
  have shape := (encoded_charBytes c []).1
  have back : Char.ofNat c.toNat = c := Char.ofNat_toNat c
  generalize charBytes c = bytes at shape ⊢
  generalize c.toNat = n at shape back
  cases shape with
  | one small =>
    rw [List.singleton_append, Decoder.decode_cons]
    change (Decoder.lead _).2 ++ (Decoder.lead _).1.decode rest = _
    rw [Decoder.lead_byte (by omega), if_pos small, back, List.singleton_append]
  | two lower upper =>
    rw [List.cons_append, List.singleton_append, Decoder.decode_cons]
    change (Decoder.lead _).2 ++ (Decoder.lead _).1.decode _ = _
    rw [Decoder.lead_byte (by omega), if_neg (by omega), if_pos (by omega), List.nil_append,
      Decoder.step_last (any_accepts n)]
    have value : (0xC0 + n / 64 - 0xC0) * 64 + n % 64 = n := by omega
    rw [value, back]
  | three lower upper scalar =>
    rw [List.cons_append, List.cons_append, List.singleton_append, Decoder.decode_cons]
    change (Decoder.lead _).2 ++ (Decoder.lead _).1.decode _ = _
    rw [Decoder.lead_byte (by omega), if_neg (by omega), if_neg (by omega), if_pos (by omega), List.nil_append]
    dsimp only
    rw [Decoder.step_more ?second, Decoder.step_last (any_accepts n)]
    case second =>
      refine accepts_byte (by omega) ?_
      split
      · simp only [Tail.range, UInt8.reduceToNat]
        omega
      · split
        · simp only [Tail.range, UInt8.reduceToNat]
          omega
        · simp only [Tail.range, UInt8.reduceToNat]
          omega
    have value : ((0xE0 + n / 4096 - 0xE0) * 64 + n / 64 % 64) * 64 + n % 64 = n := by omega
    rw [value, back]
  | four lower upper =>
    rw [List.cons_append, List.cons_append, List.cons_append, List.singleton_append, Decoder.decode_cons]
    change (Decoder.lead _).2 ++ (Decoder.lead _).1.decode _ = _
    rw [Decoder.lead_byte (by omega), if_neg (by omega), if_neg (by omega), if_neg (by omega), if_pos (by omega), List.nil_append]
    dsimp only
    rw [Decoder.step_more ?second, Decoder.step_more (any_accepts (n / 64)), Decoder.step_last (any_accepts n)]
    case second =>
      refine accepts_byte (by omega) ?_
      split
      · simp only [Tail.range, UInt8.reduceToNat]
        omega
      · split
        · simp only [Tail.range, UInt8.reduceToNat]
          omega
        · simp only [Tail.range, UInt8.reduceToNat]
          omega
    have value : (((0xF0 + n / 0x40000 - 0xF0) * 64 + n / 4096 % 64) * 64 + n / 64 % 64) * 64 + n % 64 = n := by omega
    rw [value, back]

theorem decodeChars_charBytes : decodeChars (cs.flatMap charBytes) = cs := by
  induction cs with
  | nil => rfl
  | cons c cs ih => rw [List.flatMap_cons, decodeChars, decode_charBytes, ← decodeChars, ih]

theorem masked_iff (b : UInt8) : b &&& 0xC0 = 0x80 ↔ isContinuation b = true := by
  have table : ∀ n < 256, n &&& 0xC0 = n / 0x40 * 0x40 := by decide +kernel
  have masked := table b.toNat b.toNat_lt
  simp only [isContinuation, decide_eq_true_eq, UInt8.le_iff_toNat_le, ← UInt8.toNat_inj, UInt8.toNat_and, UInt8.reduceToNat,
    masked]
  omega

theorem charBytes_shape :
    ∃ first rest, charBytes c = first :: rest ∧ isContinuation first = false ∧ ∀ b ∈ rest, isContinuation b = true := by
  have shape := (encoded_charBytes c []).1
  have begins {n : ℕ} (small : n < 256) (outside : n < 0x80 ∨ 0xBF < n) : isContinuation (.ofNat n) = false := by
    simp only [isContinuation, decide_eq_false_iff_not, UInt8.le_iff_toNat_le, toNat_byte small, UInt8.reduceToNat]
    omega
  have continues (n : ℕ) : isContinuation (.ofNat (0x80 + n % 64)) = true := by
    simp only [isContinuation, decide_eq_true_eq, UInt8.le_iff_toNat_le, toNat_byte (show 0x80 + n % 64 < 256 by omega),
      UInt8.reduceToNat]
    omega
  generalize charBytes c = bytes at shape ⊢
  generalize c.toNat = n at shape
  cases shape with
  | one small => exact ⟨_, [], rfl, begins (by omega) (by omega), List.forall_mem_nil _⟩
  | two lower upper =>
    refine ⟨_, _, rfl, begins (by omega) (by omega), ?_⟩
    simpa only [List.forall_mem_singleton] using continues n
  | three lower upper scalar =>
    refine ⟨_, _, rfl, begins (by omega) (by omega), ?_⟩
    simpa only [List.forall_mem_cons] using ⟨continues (n / 64), continues n, List.forall_mem_nil _⟩
  | four lower upper =>
    refine ⟨_, _, rfl, begins (by omega) (by omega), ?_⟩
    simpa only [List.forall_mem_cons] using ⟨continues (n / 4096), continues (n / 64), continues n, List.forall_mem_nil _⟩

theorem charBytes_pos : 0 < (charBytes c).length := by
  obtain ⟨first, rest, spelled, _⟩ := charBytes_shape c
  rw [spelled]
  exact Nat.succ_pos _

@[simp] theorem textBytes_nil : textBytes [] = 0 := rfl

@[simp] theorem textBytes_cons : textBytes (c :: cs) = (charBytes c).length + textBytes cs := by
  rw [textBytes, List.flatMap_cons, List.length_append, textBytes]

@[simp] theorem textBytes_append : textBytes (cs ++ ds) = textBytes cs + textBytes ds := by
  rw [textBytes, List.flatMap_append, List.length_append, textBytes, textBytes]

theorem charBytes_length : (charBytes c).length ≤ 4 := by
  have shape := (encoded_charBytes c []).1
  generalize charBytes c = bytes at shape ⊢
  generalize c.toNat = n at shape
  cases shape <;> simp only [List.length_cons, List.length_nil] <;> omega

theorem replacement_length : (charBytes replacement).length = 3 := by decide

/-! ## The beginning that fits -/

theorem cut_of_fits (fits : textBytes cs ≤ limit) : cut limit (cs ++ ds)
    = cs ++ cut (limit - textBytes cs) ds := by
  induction cs generalizing limit with
  | nil => rfl
  | cons c cs ih =>
    rw [textBytes_cons] at fits
    rw [List.cons_append, cut, if_pos (by omega), ih _ (by omega), textBytes_cons, Nat.sub_sub, List.cons_append]

theorem cut_of_exceeds (exceeds : limit < textBytes cs) : cut limit (cs ++ ds) = cut limit cs := by
  induction cs generalizing limit with
  | nil => exact absurd exceeds (Nat.not_lt_zero limit)
  | cons c cs ih =>
    rw [textBytes_cons] at exceeds
    rw [List.cons_append, cut, cut]
    split
    · rw [ih _ (by omega)]
    · rfl

theorem cut_all (fits : textBytes cs ≤ limit) : cut limit cs = cs := by
  have whole := cut_of_fits limit cs [] fits
  rwa [cut, List.append_nil] at whole

end Characters

/-! ## Parts decoded on their own -/

namespace Decoder

variable {d : Decoder} {b : UInt8}

theorem finish_bytes (d : Decoder) : textBytes d.finish ≤ 3 := by
  cases d with
  | start => exact Nat.zero_le _
  | inside point more tail => exact replacement_length.le

theorem finish_of_accepts (accepted : d.accepts b = true) : textBytes d.finish = 3 := by
  cases d with
  | start => cases accepted
  | inside point more tail => exact replacement_length

theorem decode_bytes (d : Decoder) (bytes : Bytes) : textBytes (d.decode bytes) ≤ 4 + textBytes (start.decode bytes) := by
  induction bytes generalizing d with
  | nil =>
    have bound := d.finish_bytes
    simp only [decode, emit, after, List.foldl_nil, List.nil_append]
    omega
  | cons b rest ih =>
    cases accepted : d.accepts b with
    | false =>
      have bound := d.finish_bytes
      rw [decode_refused accepted, textBytes_append]
      omega
    | true =>
      rw [decode_continuation accepted, textBytes_cons, replacement_length, decode_cons]
      rcases step_accepted accepted with ⟨c, stepped⟩ | ⟨point, more, tail, stepped⟩
      · have bound := charBytes_length c
        rw [stepped, List.singleton_append, textBytes_cons]
        dsimp only
        omega
      · have bound := ih (inside point more tail)
        rw [stepped, List.nil_append]
        dsimp only
        omega

theorem decode_accepted_bytes (accepted : d.accepts b = true) (rest : Bytes) :
    textBytes (d.decode (b :: rest)) ≤ 4 + textBytes (start.decode rest) := by
  rw [decode_cons]
  rcases step_accepted accepted with ⟨c, stepped⟩ | ⟨point, more, tail, stepped⟩
  · have bound := charBytes_length c
    rw [stepped, List.singleton_append, textBytes_cons]
    dsimp only
    omega
  · rw [stepped, List.nil_append]
    exact decode_bytes (inside point more tail) rest

theorem decode_parts_bytes (d : Decoder) (parts : List Bytes) :
    textBytes (d.decode parts.flatten) ≤ textBytes d.finish + textBytes (parts.flatMap decodeChars)
      ∧ (¬d.Clean parts → textBytes (d.decode parts.flatten) < textBytes d.finish + textBytes (parts.flatMap decodeChars)) := by
  induction parts generalizing d with
  | nil => exact ⟨by simp [decode, emit, after], fun unclean => absurd trivial unclean⟩
  | cons part rest ih =>
    have own (part : Bytes) :
        textBytes (decodeChars part) = textBytes (start.emit part) + textBytes (start.after part).finish := by
      rw [decodeChars, decode, textBytes_append]
    have whole (part : Bytes) : textBytes (start.decode (part ++ rest.flatten))
        = textBytes (start.emit part) + textBytes ((start.after part).decode rest.flatten) := by
      rw [decode_append, textBytes_append]
    rw [List.flatten_cons, List.flatMap_cons, textBytes_append]
    cases part with
    | nil =>
      have none : textBytes (decodeChars []) = 0 := rfl
      rw [List.nil_append, none, Nat.zero_add]
      exact ⟨(ih d).1, fun unclean => (ih d).2 fun clean => unclean ⟨nofun, clean⟩⟩
    | cons b part =>
      cases accepted : d.accepts b with
      | false =>
        obtain ⟨weak, strict⟩ := ih (start.after (b :: part))
        have length := congrArg textBytes (decode_refused accepted (part ++ rest.flatten))
        rw [textBytes_append, ← List.cons_append, whole (b :: part)] at length
        have kept := own (b :: part)
        refine ⟨by omega, fun unclean => ?_⟩
        have later : ¬(start.after (b :: part)).Clean rest := by
          rw [← after_refused accepted]
          exact fun clean => unclean ⟨fun c member => by rw [← Option.some.inj member]; exact accepted, clean⟩
        have strict := strict later
        omega
      | true =>
        have bound := decode_accepted_bytes accepted (part ++ rest.flatten)
        obtain ⟨weak, _⟩ := ih (start.after part)
        have opened := finish_of_accepts accepted
        have replaced : textBytes (decodeChars (b :: part)) = 3 + textBytes (decodeChars part) := by
          rw [decodeChars, decode_continuation accepted, textBytes_cons, replacement_length, decodeChars]
        have kept := own part
        have later := whole part
        rw [← List.cons_append] at bound
        exact ⟨by omega, fun _ => by omega⟩

end Decoder

/-! ## A text that arrives in chunks -/

/-- How many bytes a character has that begins with a byte; a byte that begins none stands alone. -/
def announced (b : UInt8) : ℕ :=
  if 0xC0 ≤ b ∧ b ≤ 0xDF then 2 else if 0xE0 ≤ b ∧ b ≤ 0xEF then 3 else if 0xF0 ≤ b ∧ b ≤ 0xF7 then 4 else 1

/-- The bytes of the character that is not finished, after one more byte. -/
def hold (held : Bytes) (b : UInt8) : Bytes :=
  if isContinuation b then
    match held with
    | [] => []
    | first :: rest => if rest.length + 2 < announced first then first :: rest ++ [b] else []
  else if 1 < announced b then [b] else []

/-- `StringDecoder("utf8")`: the bytes of a character that the chunks so far do not finish. -/
structure StringDecoder where
  buffered : Bytes
deriving DecidableEq, Repr

namespace StringDecoder

def empty : StringDecoder := ⟨[]⟩

/-- `decoder.write(chunk)`. -/
def write (decoder : StringDecoder) (chunk : Bytes) : StringDecoder × List Char :=
  let held := chunk.foldl hold decoder.buffered
  let available := decoder.buffered ++ chunk
  (⟨held⟩, decodeChars (available.take (available.length - held.length)))

/-- `decoder.end()`. -/
def finish (decoder : StringDecoder) : StringDecoder × List Char := (empty, decodeChars decoder.buffered)

end StringDecoder

section Chunks

variable {d : Decoder} {held : Bytes} {b : UInt8}

theorem lead_announced {point more : ℕ} {tail : Tail} (opened : (Decoder.lead b).1 = .inside point more tail) :
    announced b = more + 2 := by
  unfold Decoder.lead at opened
  simp only [announced, UInt8.lt_iff_toNat_lt, UInt8.le_iff_toNat_le, UInt8.reduceToNat] at opened ⊢
  split at opened
  · cases opened
  · split at opened
    · obtain ⟨_, rfl, _⟩ := Decoder.inside.inj opened
      rw [if_pos (by omega)]
    · split at opened
      · obtain ⟨_, rfl, _⟩ := Decoder.inside.inj opened
        rw [if_neg (by omega), if_pos (by omega)]
      · split at opened
        · obtain ⟨_, rfl, _⟩ := Decoder.inside.inj opened
          rw [if_neg (by omega), if_neg (by omega), if_pos (by omega)]
        · cases opened

/-- What is held begins like a character, and an open character is held whole. -/
structure Holds (d : Decoder) (held : Bytes) : Prop where
  begins : ∀ first ∈ held.head?, isContinuation first = false
  whole : ∀ point more tail, d = .inside point more tail →
    ∃ first rest, held = first :: rest ∧ rest.length + more + 2 = announced first

theorem accepts_of_first (d : Decoder) (first : isContinuation b = false) : d.accepts b = false := by
  refine Bool.eq_false_iff.mpr fun accepted => ?_
  have continues := Decoder.continuation_of_accepts accepted
  simp only [isContinuation, decide_eq_false_iff_not] at first
  exact first continues

theorem Holds.start_of_nil (holds : Holds d []) : d = .start := by
  cases d with
  | start => rfl
  | inside point more tail =>
    obtain ⟨first, rest, spelled, _⟩ := holds.whole point more tail rfl
    cases spelled

theorem Holds.step (holds : Holds d held) (b : UInt8) : Holds (d.step b).1 (hold held b) := by
  cases continues : isContinuation b with
  | false =>
    have alone : hold held b = if 1 < announced b then [b] else [] := by
      rw [hold.eq_def, continues, if_neg Bool.false_ne_true]
    rw [Decoder.step_refused (accepts_of_first d continues), alone]
    constructor
    · intro first found
      split at found
      · rw [← Option.some.inj found]
        exact continues
      · cases found
    · intro point more tail opened
      have length := lead_announced opened
      rw [if_pos (by omega)]
      exact ⟨b, [], rfl, by rw [length, List.length_nil, Nat.zero_add]⟩
  | true =>
    have range : 0x80 ≤ b ∧ b ≤ 0xBF := of_decide_eq_true continues
    rw [hold.eq_def, continues, if_pos rfl]
    constructor
    · intro first found
      cases held with
      | nil => cases found
      | cons head rest =>
        dsimp only at found
        split at found
        · exact holds.begins first found
        · cases found
    · intro point more tail opened
      cases accepted : d.accepts b with
      | false =>
        rw [Decoder.step_refused accepted, Decoder.lead_continuation range] at opened
        cases opened
      | true =>
        cases d with
        | start => cases accepted
        | inside before left beforeTail =>
          obtain ⟨first, rest, rfl, length⟩ := holds.whole before left beforeTail rfl
          change beforeTail.accepts b = true at accepted
          rw [Decoder.step.eq_def] at opened
          dsimp only at opened ⊢
          rw [if_pos accepted] at opened
          cases left with
          | zero => cases opened
          | succ left =>
            obtain ⟨_, rfl, _⟩ := Decoder.inside.inj opened
            rw [if_pos (by omega)]
            refine ⟨first, rest ++ [b], rfl, ?_⟩
            rw [List.length_append, List.length_singleton]
            omega

theorem Holds.after (holds : Holds d held) (chunk : Bytes) : Holds (d.after chunk) (chunk.foldl hold held) := by
  induction chunk generalizing d held with
  | nil => exact holds
  | cons b rest ih => exact ih (holds.step b)

theorem hold_suffix (held : Bytes) (b : UInt8) : hold held b <:+ held ++ [b] := by
  unfold hold
  split
  · cases held with
    | nil => exact List.nil_suffix
    | cons first rest =>
      dsimp only
      split
      · exact List.suffix_rfl
      · exact List.nil_suffix
  · split
    · exact List.suffix_append held [b]
    · exact List.nil_suffix

theorem holds_suffix (held chunk : Bytes) : chunk.foldl hold held <:+ held ++ chunk := by
  induction chunk generalizing held with
  | nil =>
    rw [List.append_nil]
    exact List.suffix_rfl
  | cons b rest ih =>
    obtain ⟨front, kept⟩ := hold_suffix held b
    refine (ih (hold held b)).trans ⟨front, ?_⟩
    rw [← List.append_assoc, kept, List.append_assoc, List.singleton_append]

/-- The text of the chunks so far is that of their bytes, but for those that are held. -/
structure StringDecoder.Reads (received : Bytes) (decoder : StringDecoder) (text : List Char) : Prop where
  split : ∃ decoded, received = decoded ++ decoder.buffered ∧ text = decodeChars decoded
    ∧ ∀ first ∈ decoder.buffered.head?, (Decoder.start.after decoded).accepts first = false
  holds : Holds (Decoder.start.after received) decoder.buffered

theorem decodeChars_append {first second : Bytes}
    (apart : ∀ b ∈ second.head?, (Decoder.start.after first).accepts b = false) :
    decodeChars (first ++ second) = decodeChars first ++ decodeChars second := by
  have clean : Decoder.start.Clean [first, second] := ⟨fun _ _ => rfl, apart, trivial⟩
  have parts := Decoder.decode_of_clean clean
  rw [List.flatten_cons, List.flatten_cons, List.flatten_nil, List.append_nil, List.flatMap_cons, List.flatMap_cons,
    List.flatMap_nil, List.append_nil] at parts
  exact parts

theorem StringDecoder.reads_empty : Reads [] empty [] := by
  refine ⟨⟨[], rfl, rfl, ?_⟩, ?_, ?_⟩
  · intro first found
    cases found
  · intro first found
    cases found
  · intro point more tail opened
    cases opened

variable {received : Bytes} {decoder : StringDecoder} {text : List Char}

theorem StringDecoder.Reads.write (reads : Reads received decoder text) (chunk : Bytes) :
    Reads (received ++ chunk) (decoder.write chunk).1 (text ++ (decoder.write chunk).2) := by
  obtain ⟨decoded, rfl, rfl, apart⟩ := reads.split
  obtain ⟨front, kept⟩ := holds_suffix decoder.buffered chunk
  have holds := reads.holds.after chunk
  rw [← Decoder.after_append] at holds
  have taken : (decoder.buffered ++ chunk).take
      ((decoder.buffered ++ chunk).length - (chunk.foldl hold decoder.buffered).length) = front := by
    rw [← kept, List.length_append, Nat.add_sub_cancel, List.take_left]
  have continued : ∀ b ∈ front.head?, (Decoder.start.after decoded).accepts b = false := by
    intro b found
    cases buffered : decoder.buffered with
    | cons first rest =>
      rw [buffered] at kept apart
      cases front with
      | nil => cases found
      | cons head tail =>
        rw [List.cons_append, List.cons_append] at kept
        obtain ⟨same, _⟩ := List.cons.inj kept
        rw [← Option.some.inj found, same]
        exact apart first rfl
    | nil =>
      have closed := reads.holds
      rw [buffered, List.append_nil] at closed
      rw [closed.start_of_nil]
      rfl
  refine ⟨⟨decoded ++ front, ?_, ?_, ?_⟩, holds⟩
  · rw [List.append_assoc, List.append_assoc, ← kept]
    rfl
  · rw [decodeChars_append continued, ← taken]
    rfl
  · exact fun first found => accepts_of_first _ (holds.begins first found)

theorem StringDecoder.Reads.finish (reads : Reads received decoder text) :
    text ++ decoder.finish.2 = decodeChars received := by
  obtain ⟨decoded, rfl, rfl, apart⟩ := reads.split
  exact (decodeChars_append apart).symm

end Chunks

end PersistentHarness.Utf8
