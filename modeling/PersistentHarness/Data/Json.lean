import PersistentHarness.Data.Value

/-! # JSON text

`parse` and `stringify` follow the ECMAScript `JSON` object over UTF-16 code units. A repeated
member name keeps its first place and its last value, escapes of lone surrogates are kept as code
units, and numbers print by the shortest-decimal rule of `Number::toString`. The one deviation is
that a number token is read exactly, without rounding a coefficient no double can hold.
-/

namespace PersistentHarness.Json

/-- The code unit of an ASCII character. -/
def unit (c : Char) : UInt16 := UInt16.ofNat c.toNat

def isSpace (u : UInt16) : Bool := u == 0x20 || u == 0x09 || u == 0x0A || u == 0x0D

def skipSpace (text : JsString) : JsString := text.dropWhile isSpace

def isDigit (u : UInt16) : Bool := unit '0' ≤ u && u ≤ unit '9'

def hexDigit? (u : UInt16) : Option ℕ :=
  if unit '0' ≤ u ∧ u ≤ unit '9' then some (u.toNat - 0x30)
  else if unit 'a' ≤ u ∧ u ≤ unit 'f' then some (u.toNat - 0x57)
  else if unit 'A' ≤ u ∧ u ≤ unit 'F' then some (u.toNat - 0x37)
  else none

/-- The code unit of the four digits after `\u`. -/
def hex4? (a b c d : UInt16) : Option UInt16 := do
  let a ← hexDigit? a
  let b ← hexDigit? b
  let c ← hexDigit? c
  let d ← hexDigit? d
  pure (UInt16.ofNat (((a * 16 + b) * 16 + c) * 16 + d))

/-- The code unit named by a one-letter escape. -/
def unescape? (e : UInt16) : Option UInt16 :=
  if e = unit '"' ∨ e = unit '\\' ∨ e = unit '/' then some e
  else if e = unit 'b' then some 0x08
  else if e = unit 'f' then some 0x0C
  else if e = unit 'n' then some 0x0A
  else if e = unit 'r' then some 0x0D
  else if e = unit 't' then some 0x09
  else none

/-- The rest of a string token, after its opening quote. -/
def parseString : JsString → Option (JsString × JsString)
  | [] => none
  | u :: rest =>
    if u = unit '"' then some ([], rest)
    else if u = unit '\\' then
      match rest with
      | [] => none
      | e :: rest =>
        if e = unit 'u' then
          match rest with
          | a :: b :: c :: d :: rest => do
            let u ← hex4? a b c d
            let (s, rest) ← parseString rest
            pure (u :: s, rest)
          | _ => none
        else do
          let u ← unescape? e
          let (s, rest) ← parseString rest
          pure (u :: s, rest)
    else if u < 0x20 then none
    else do
      let (s, rest) ← parseString rest
      pure (u :: s, rest)

/-- The value of a run of decimal digits. -/
def digitsValue (digits : JsString) : ℕ := digits.foldl (fun n u => n * 10 + (u.toNat - 0x30)) 0

def parseFraction (text : JsString) : Option (JsString × JsString) :=
  match text with
  | [] => some ([], [])
  | u :: rest =>
    if u = unit '.' then
      let (digits, rest) := rest.span isDigit
      if digits = [] then none else some (digits, rest)
    else some ([], text)

def parseExponent (text : JsString) : Option (ℤ × JsString) :=
  match text with
  | [] => some (0, [])
  | u :: rest =>
    if u = unit 'e' ∨ u = unit 'E' then
      let (negative, rest) := match rest with
        | [] => (false, [])
        | s :: tail => if s = unit '-' then (true, tail) else if s = unit '+' then (false, tail) else (false, rest)
      let (digits, rest) := rest.span isDigit
      if digits = [] then none
      else some (if negative then -(digitsValue digits : ℤ) else digitsValue digits, rest)
    else some (0, text)

/-- A number token without its sign. -/
def parseMagnitude (negative : Bool) (text : JsString) : Option (JsNumber × JsString) := do
  let (whole, rest) := text.span isDigit
  if whole = [] ∨ whole.head? = some (unit '0') ∧ 1 < whole.length then none
  let (fraction, rest) ← parseFraction rest
  let (exponent, rest) ← parseExponent rest
  pure (.ofDecimal negative (digitsValue (whole ++ fraction)) (exponent - fraction.length), rest)

def parseNumber (text : JsString) : Option (JsNumber × JsString) :=
  match text with
  | [] => none
  | u :: rest => if u = unit '-' then parseMagnitude true rest else parseMagnitude false text

/-- The text after a literal word. -/
def stripPrefix? : JsString → JsString → Option JsString
  | [], text => some text
  | _ :: _, [] => none
  | w :: word, u :: text => if w = u then stripPrefix? word text else none

mutual

/-- One value and the text after it; every nested call spends one unit of fuel. -/
def parseValue : ℕ → JsString → Option (Value × JsString)
  | 0, _ => none
  | fuel + 1, text =>
    match skipSpace text with
    | [] => none
    | u :: rest =>
      if u = unit '\x7b' then
        match skipSpace rest with
        | [] => none
        | v :: tail =>
          if v = unit '\x7d' then some (.obj [], tail) else parseMembers fuel (v :: tail) []
      else if u = unit '[' then
        match skipSpace rest with
        | [] => none
        | v :: tail => if v = unit ']' then some (.arr [], tail) else parseItems fuel (v :: tail) []
      else if u = unit '"' then (parseString rest).map fun (s, tail) => (.str s, tail)
      else if u = unit 't' then (stripPrefix? (js "rue") rest).map fun tail => (.bool true, tail)
      else if u = unit 'f' then (stripPrefix? (js "alse") rest).map fun tail => (.bool false, tail)
      else if u = unit 'n' then (stripPrefix? (js "ull") rest).map fun tail => (.null, tail)
      else (parseNumber (u :: rest)).map fun (n, tail) => (.num n, tail)

/-- The members of an object from a member name on. -/
def parseMembers : ℕ → JsString → List (JsString × Value) → Option (Value × JsString)
  | 0, _, _ => none
  | fuel + 1, text, members =>
    match skipSpace text with
    | [] => none
    | u :: rest =>
      if u = unit '"' then do
        let (name, rest) ← parseString rest
        match skipSpace rest with
        | [] => none
        | c :: rest =>
          if c = unit ':' then do
            let (value, rest) ← parseValue fuel rest
            let members := Assoc.set members name value
            match skipSpace rest with
            | [] => none
            | s :: rest =>
              if s = unit ',' then parseMembers fuel rest members
              else if s = unit '\x7d' then some (.obj members, rest)
              else none
          else none
      else none

/-- The elements of an array from an element on. -/
def parseItems : ℕ → JsString → List Value → Option (Value × JsString)
  | 0, _, _ => none
  | fuel + 1, text, items => do
    let (value, rest) ← parseValue fuel text
    match skipSpace rest with
    | [] => none
    | s :: rest =>
      if s = unit ',' then parseItems fuel rest (items ++ [value])
      else if s = unit ']' then some (.arr (items ++ [value]), rest)
      else none

end

/-- `JSON.parse(text)`, with a syntax error as `none`. -/
def parse (text : JsString) : Option Value :=
  match parseValue (text.length + 1) text with
  | some (value, rest) => if skipSpace rest = [] then some value else none
  | none => none

/-- One lower-case hexadecimal digit. -/
def hexUnit (n : ℕ) : UInt16 := UInt16.ofNat (if n < 10 then 0x30 + n else 0x57 + n)

/-- The escape `\uXXXX` of a code unit. -/
def unicodeEscape (u : UInt16) : JsString :=
  [unit '\\', unit 'u', hexUnit (u.toNat / 4096 % 16), hexUnit (u.toNat / 256 % 16),
    hexUnit (u.toNat / 16 % 16), hexUnit (u.toNat % 16)]

/-- The spelling of a code unit outside surrogate pairs. -/
def escapeUnit (u : UInt16) : JsString :=
  if u = unit '"' ∨ u = unit '\\' then [unit '\\', u]
  else if u = 0x08 then [unit '\\', unit 'b']
  else if u = 0x09 then [unit '\\', unit 't']
  else if u = 0x0A then [unit '\\', unit 'n']
  else if u = 0x0C then [unit '\\', unit 'f']
  else if u = 0x0D then [unit '\\', unit 'r']
  else if u < 0x20 ∨ 0xD800 ≤ u ∧ u ≤ 0xDFFF then unicodeEscape u
  else [u]

/-- The body of a string token; only lone surrogates are escaped. -/
def escapeUnits : JsString → JsString
  | [] => []
  | [u] => escapeUnit u
  | u :: v :: rest =>
    if (0xD800 ≤ u ∧ u ≤ 0xDBFF) ∧ 0xDC00 ≤ v ∧ v ≤ 0xDFFF then u :: v :: escapeUnits rest
    else escapeUnit u ++ escapeUnits (v :: rest)

def quote (s : JsString) : JsString := unit '"' :: (escapeUnits s ++ [unit '"'])

/-- The decimal digits of a natural number, before an accumulated tail. -/
def decimalFrom : ℕ → ℕ → JsString → JsString
  | 0, _, tail => tail
  | fuel + 1, n, tail =>
    let tail := UInt16.ofNat (0x30 + n % 10) :: tail
    if n < 10 then tail else decimalFrom fuel (n / 10) tail

def decimal (n : ℕ) : JsString := decimalFrom (n + 1) n []

/-- `Number::toString` of a nonzero magnitude `digits · 10^exponent`. -/
def magnitudeText (digits : ℕ) (exponent : ℤ) : JsString :=
  let text := decimal digits
  let count : ℤ := text.length
  let point : ℤ := count + exponent
  if 0 ≤ exponent ∧ point ≤ 21 then text ++ List.replicate exponent.toNat (unit '0')
  else if 0 < point ∧ point ≤ 21 then
    text.take point.toNat ++ unit '.' :: text.drop point.toNat
  else if -6 < point ∧ point ≤ 0 then
    unit '0' :: unit '.' :: (List.replicate (-point).toNat (unit '0') ++ text)
  else
    let power := (if point - 1 < 0 then unit '-' else unit '+') :: decimal (point - 1).natAbs
    match text with
    | [] => []
    | [d] => d :: unit 'e' :: power
    | d :: rest => d :: unit '.' :: (rest ++ unit 'e' :: power)

/-- `JSON.stringify` of a finite number: both zeros print as `0`. -/
def numberText (n : JsNumber) : JsString :=
  if n.digits = 0 then [unit '0']
  else if n.negative then unit '-' :: magnitudeText n.digits n.exponent
  else magnitudeText n.digits n.exponent

mutual

/-- `JSON.stringify(value)`, which is `undefined` only for `undefined`. -/
def stringify? : Value → Option JsString
  | .undefined => none
  | .null => some (js "null")
  | .bool true => some (js "true")
  | .bool false => some (js "false")
  | .num n => some (numberText n)
  | .str s => some (quote s)
  | .arr items => some (unit '[' :: (List.intercalate [unit ','] (stringifyItems items) ++ [unit ']']))
  | .obj fields =>
    some (unit '\x7b' :: (List.intercalate [unit ','] (stringifyMembers fields) ++ [unit '\x7d']))

def stringifyItems : List Value → List JsString
  | [] => []
  | v :: rest => (stringify? v).getD (js "null") :: stringifyItems rest

def stringifyMembers : List (JsString × Value) → List JsString
  | [] => []
  | (k, v) :: rest =>
    match stringify? v with
    | none => stringifyMembers rest
    | some text => (quote k ++ unit ':' :: text) :: stringifyMembers rest

end

/-- `JSON.stringify(value)` of a value other than `undefined`. -/
def stringify (v : Value) : JsString := (stringify? v).getD []

end PersistentHarness.Json
