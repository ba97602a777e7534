import PersistentHarness.Data.Json

/-! # Value identity by digest

`valueDigest` hashes a stream of tagged tokens, so that objects with the same properties in another
order have one digest. The hash itself is a parameter.
-/

namespace PersistentHarness

open Json (unit)

/-- `Object.keys(item).sort()`, each key with its value's text. -/
def sortMembers : List (JsString × JsString) → List (JsString × JsString)
  | [] => []
  | (k, text) :: rest => Assoc.insertSorted Value.keyLt k text (sortMembers rest)

def streamMembers : List (JsString × JsString) → JsString
  | [] => []
  | (k, text) :: rest => Json.quote k ++ js ":" ++ text ++ streamMembers rest

mutual

/-- The text fed to the hash. An array lists its index keys in string order, as objects do. -/
def valueStream : Value → JsString
  | .undefined => js "undefined:undefined;"
  | .null => js "null;"
  | .bool b => js "boolean:" ++ (if b then js "true" else js "false") ++ js ";"
  | .num n => js "number:" ++ (if n.digits = 0 ∧ n.negative then js "-0" else Json.numberText n) ++ js ";"
  | .str s => js "string:" ++ Json.quote s ++ js ";"
  | .arr items =>
    js "object:array:" ++ Json.decimal items.length ++ js ":"
      ++ streamMembers (sortMembers ((streamItems items).mapIdx fun i text => (Json.decimal i, text))) ++ js ";"
  | .obj fields => js "object:object:" ++ streamMembers (sortMembers (streamFields fields)) ++ js ";"

def streamItems : List Value → List JsString
  | [] => []
  | v :: rest => valueStream v :: streamItems rest

def streamFields : List (JsString × Value) → List (JsString × JsString)
  | [] => []
  | (k, v) :: rest => (k, valueStream v) :: streamFields rest

end

/-- Plain data whose arrays may have holes. -/
inductive PlainData where
  | undefined
  | null
  | bool (b : Bool)
  | num (n : JsNumber)
  | str (s : JsString)
  | arr (items : List (Option PlainData))
  | obj (fields : List (JsString × PlainData))

/-- `valueDigest` and `matchingDigest` tag null, arrays and objects differently. -/
inductive Spelling where
  | value
  | matching
deriving DecidableEq, Repr

namespace Spelling

def nullText : Spelling → JsString
  | value => js "null;"
  | matching => js "object:null;"

def arrayTag : Spelling → JsString
  | value => js "object:array:"
  | matching => js "array:"

def objectTag : Spelling → JsString
  | value => js "object:object:"
  | matching => js "object:"

end Spelling

namespace PlainData

/-- `JSON.stringify` of a number, with the sign of zero. -/
def numText (n : JsNumber) : JsString := if n.digits = 0 ∧ n.negative then js "-0" else Json.numberText n

section Stream

variable (spelling : Spelling)

mutual

/-- The text that a digest feeds to the hash. Every piece is well-formed, so its bytes are those of the pieces. -/
def stream : PlainData → JsString
  | .undefined => js "undefined:undefined;"
  | .null => spelling.nullText
  | .bool b => js "boolean:" ++ (if b then js "true" else js "false") ++ js ";"
  | .num n => js "number:" ++ numText n ++ js ";"
  | .str s => js "string:" ++ Json.quote s ++ js ";"
  | .arr items =>
    spelling.arrayTag ++ Json.decimal items.length ++ js ":" ++ streamMembers (sortMembers (streamItems 0 items)) ++ js ";"
  | .obj fields => spelling.objectTag ++ streamMembers (sortMembers (streamFields fields)) ++ js ";"

/-- `Object.keys` of an array names the places that are no holes. -/
def streamItems : ℕ → List (Option PlainData) → List (JsString × JsString)
  | _, [] => []
  | i, item :: rest =>
    match streamItem item with
    | none => streamItems (i + 1) rest
    | some text => (Json.decimal i, text) :: streamItems (i + 1) rest

def streamItem : Option PlainData → Option JsString
  | none => none
  | some v => some (stream v)

def streamFields : List (JsString × PlainData) → List (JsString × JsString)
  | [] => []
  | (k, v) :: rest => (k, stream v) :: streamFields rest

end

end Stream

mutual

/-- The same data with every object listed by its sorted keys. -/
def canon : PlainData → PlainData
  | .arr items => .arr (canonItems items)
  | .obj fields => .obj (canonFields fields)
  | v => v

def canonItems : List (Option PlainData) → List (Option PlainData)
  | [] => []
  | item :: rest => canonItem item :: canonItems rest

def canonItem : Option PlainData → Option PlainData
  | none => none
  | some v => some (canon v)

def canonFields : List (JsString × PlainData) → List (JsString × PlainData)
  | [] => []
  | (k, v) :: rest => Assoc.insertSorted Value.keyLt k (canon v) (canonFields rest)

end

/-- Deep strict equality, in which the order of an object's keys does not count. -/
def equal (a b : PlainData) : Prop := a.canon = b.canon

end PlainData

/-- The digest of plain data. -/
def valueDigest (sha256 : JsString → JsString) (value : Value) : JsString := sha256 (valueStream value)

end PersistentHarness
