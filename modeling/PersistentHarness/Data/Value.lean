import Mathlib.Data.List.Lex
import Mathlib.Data.List.Forall2
import Mathlib.Order.RelIso.Basic
import PersistentHarness.Lib.Assoc
import PersistentHarness.Data.JsString
import PersistentHarness.Data.JsNumber

/-! # Plain JavaScript data

`Value` is the detached plain data that the canonical copiers produce: primitives, arrays and
objects with string keys. A missing property reads as `undefined`, as in the source. Objects keep
their insertion order; `canon` forgets it, and deep strict equality is equality of the canonical
forms. The structural operations respect that equality.
-/

namespace PersistentHarness

/-- Plain data: no getters, cycles, functions or non-finite numbers. -/
inductive Value where
  | undefined
  | null
  | bool (b : Bool)
  | num (n : JsNumber)
  | str (s : JsString)
  | arr (items : List Value)
  | obj (fields : List (JsString × Value))
deriving Repr, Inhabited

namespace Value

mutual

def decEq : (a b : Value) → Decidable (a = b)
  | .undefined, .undefined => isTrue rfl
  | .null, .null => isTrue rfl
  | .bool a, .bool b => decidable_of_iff (a = b) (by simp)
  | .num a, .num b => decidable_of_iff (a = b) (by simp)
  | .str a, .str b => decidable_of_iff (a = b) (by simp)
  | .arr a, .arr b => @decidable_of_iff _ (a = b) (by simp) (decEqItems a b)
  | .obj a, .obj b => @decidable_of_iff _ (a = b) (by simp) (decEqFields a b)
  | .undefined, .null | .undefined, .bool _ | .undefined, .num _ | .undefined, .str _
  | .undefined, .arr _ | .undefined, .obj _ | .null, .undefined | .null, .bool _ | .null, .num _
  | .null, .str _ | .null, .arr _ | .null, .obj _ | .bool _, .undefined | .bool _, .null
  | .bool _, .num _ | .bool _, .str _ | .bool _, .arr _ | .bool _, .obj _ | .num _, .undefined
  | .num _, .null | .num _, .bool _ | .num _, .str _ | .num _, .arr _ | .num _, .obj _
  | .str _, .undefined | .str _, .null | .str _, .bool _ | .str _, .num _ | .str _, .arr _
  | .str _, .obj _ | .arr _, .undefined | .arr _, .null | .arr _, .bool _ | .arr _, .num _
  | .arr _, .str _ | .arr _, .obj _ | .obj _, .undefined | .obj _, .null | .obj _, .bool _
  | .obj _, .num _ | .obj _, .str _ | .obj _, .arr _ => isFalse (by simp)

def decEqItems : (a b : List Value) → Decidable (a = b)
  | [], [] => isTrue rfl
  | [], _ :: _ | _ :: _, [] => isFalse (by simp)
  | a :: as, b :: bs =>
    match decEq a b, decEqItems as bs with
    | isTrue head, isTrue tail => isTrue (by rw [head, tail])
    | isFalse head, _ => isFalse (by simp [head])
    | _, isFalse tail => isFalse (by simp [tail])

def decEqFields : (a b : List (JsString × Value)) → Decidable (a = b)
  | [], [] => isTrue rfl
  | [], _ :: _ | _ :: _, [] => isFalse (by simp)
  | (k, a) :: as, (l, b) :: bs =>
    match decEq a b, decEqFields as bs with
    | isTrue head, isTrue tail => decidable_of_iff (k = l) (by simp [head, tail])
    | isFalse head, _ => isFalse (by simp [head])
    | _, isFalse tail => isFalse (by simp [tail])

end

instance : DecidableEq Value := decEq

/-- The string spelled by a literal. -/
def text (s : String) : Value := .str (js s)

/-- The object with these properties. -/
def record (fields : List (String × Value)) : Value := .obj (fields.map fun field => (js field.1, field.2))

/-- The own enumerable properties of an object, in insertion order. -/
def fields : Value → List (JsString × Value)
  | .obj fields => fields
  | _ => []

def items : Value → List Value
  | .arr items => items
  | _ => []

/-- `value?.[key]` on an object. -/
def get (v : Value) (key : JsString) : Value := (Assoc.lookup v.fields key).getD .undefined

/-- `Object.hasOwn(value, key)`. -/
def hasOwn (v : Value) (key : JsString) : Bool := Assoc.has v.fields key

/-- `value?.[index]` on an array. -/
def index (v : Value) (i : ℕ) : Value := v.items[i]?.getD .undefined

/-- Assign a property of an object. -/
def set (v : Value) (key : JsString) (value : Value) : Value := .obj (Assoc.set v.fields key value)

/-- `delete value[key]`, and the rest pattern `const { key: _, ...rest } = value`. -/
def delete (v : Value) (key : JsString) : Value := .obj (Assoc.erase v.fields key)

/-- `{ ...value, ...other }`. -/
def spread (v other : Value) : Value :=
  .obj (Assoc.merge v.fields other.fields)

def isObject : Value → Bool
  | .obj _ => true
  | _ => false

def isArray : Value → Bool
  | .arr _ => true
  | _ => false

def isString : Value → Bool
  | .str _ => true
  | _ => false

def isBoolean : Value → Bool
  | .bool _ => true
  | _ => false

def isNumber : Value → Bool
  | .num _ => true
  | _ => false

def units : Value → JsString
  | .str s => s
  | _ => []

def safeNat? : Value → Option ℕ
  | .num n => n.toSafeNat?
  | _ => none

/-- `Number.isFinite(value) && value >= 0`. -/
def isNonnegative : Value → Bool
  | .num n => n.nonnegative
  | _ => false

def truthy : Value → Bool
  | .undefined | .null => false
  | .bool b => b
  | .num n => n.digits != 0
  | .str s => !s.isEmpty
  | .arr _ | .obj _ => true

/-- `value == null`. -/
def isNullish : Value → Bool
  | .undefined | .null => true
  | _ => false

/-- `value ?? other`. -/
def orElse (v other : Value) : Value := if v.isNullish then other else v

def nonempty? : Value → Option JsString
  | .str s => if s = [] then none else some s
  | _ => none

/-- `value === n` for a natural number literal. -/
def isNat (v : Value) (n : ℕ) : Prop :=
  match v with
  | .num m => m.numericEq (.ofNat n)
  | _ => False

instance (v : Value) (n : ℕ) : Decidable (v.isNat n) := by
  unfold isNat
  split <;> infer_instance

/-- The order in which canonical objects list their keys. -/
def keyLt (a b : JsString) : Prop := a.map UInt16.toNat < b.map UInt16.toNat

instance : DecidableRel keyLt := fun _ _ => inferInstanceAs (Decidable (_ < _))

instance : IsStrictTotalOrder JsString keyLt :=
  RelEmbedding.isStrictTotalOrder (s := (· < · : List ℕ → List ℕ → Prop))
    ⟨⟨List.map UInt16.toNat, List.map_injective_iff.mpr fun _ _ => UInt16.toNat_inj.mp⟩, Iff.rfl⟩

mutual

/-- The same data with every object listed by its sorted keys. -/
def canon : Value → Value
  | .arr items => .arr (canonItems items)
  | .obj fields => .obj (canonFields fields)
  | v => v

def canonItems : List Value → List Value
  | [] => []
  | v :: rest => canon v :: canonItems rest

def canonFields : List (JsString × Value) → List (JsString × Value)
  | [] => []
  | (k, v) :: rest => Assoc.insertSorted keyLt k (canon v) (canonFields rest)

end

/-- `isDeepStrictEqual` on plain data. -/
def equal (a b : Value) : Prop := a.canon = b.canon

instance (a b : Value) : Decidable (equal a b) := inferInstanceAs (Decidable (_ = _))

theorem equal.symm {a b : Value} (same : equal a b) : equal b a := Eq.symm same

theorem canonItems_eq_map (items : List Value) : canonItems items = items.map canon := by
  induction items with
  | nil => rfl
  | cons v rest ih => rw [canonItems, ih, List.map_cons]

theorem lookup_canonFields (fields : List (JsString × Value)) (k : JsString) :
    Assoc.lookup (canonFields fields) k = (Assoc.lookup fields k).map canon := by
  induction fields with
  | nil => rfl
  | cons entry rest ih =>
    obtain ⟨l, v⟩ := entry
    rw [canonFields, Assoc.lookup_insertSorted, Assoc.lookup_cons, ih]
    split <;> rfl

theorem canonFields_sorted (fields : List (JsString × Value)) :
    Assoc.Sorted keyLt (canonFields fields) := by
  induction fields with
  | nil => exact List.Pairwise.nil
  | cons entry rest ih =>
    rw [canonFields]
    exact ih.insertSorted _ _

/-- Two objects are equal exactly when their properties are. -/
theorem canonFields_eq_iff {m n : List (JsString × Value)} :
    canonFields m = canonFields n ↔
      ∀ k, (Assoc.lookup m k).map canon = (Assoc.lookup n k).map canon := by
  constructor
  · intro same k
    rw [← lookup_canonFields, same, lookup_canonFields]
  · intro same
    refine Assoc.Sorted.ext (canonFields_sorted m) (canonFields_sorted n) fun k => ?_
    rw [lookup_canonFields, lookup_canonFields, same]

theorem canonFields_fields (v : Value) : canonFields v.fields = v.canon.fields := by
  cases v <;> rfl

theorem equal.lookup {a b : Value} (same : equal a b) (k : JsString) :
    (Assoc.lookup a.fields k).map canon = (Assoc.lookup b.fields k).map canon := by
  refine canonFields_eq_iff.mp ?_ k
  rw [canonFields_fields, canonFields_fields, same]

theorem equal.get {a b : Value} (same : equal a b) (k : JsString) : equal (a.get k) (b.get k) := by
  have found := same.lookup k
  unfold Value.get equal
  cases left : Assoc.lookup a.fields k <;> cases right : Assoc.lookup b.fields k <;>
    rw [left, right] at found <;> simp_all

/-- Equal arrays have equal elements in the same places. -/
theorem equal.items {a b : Value} (same : equal a b) : List.Forall₂ equal a.items b.items := by
  have mapped : a.items.map canon = b.items.map canon := by
    rw [← canonItems_eq_map, ← canonItems_eq_map]
    have shape : ∀ v : Value, canonItems v.items = v.canon.items := by
      intro v
      cases v <;> rfl
    rw [shape, shape, same]
  rw [← List.forall₂_eq_eq_eq, List.forall₂_map_left_iff, List.forall₂_map_right_iff] at mapped
  exact mapped

theorem equal.exists_item {a b v : Value} (same : equal a b) (member : v ∈ a.items) :
    ∃ w ∈ b.items, equal v w := by
  obtain ⟨i, bound, rfl⟩ := List.getElem_of_mem member
  have bound' : i < b.items.length := same.items.length_eq ▸ bound
  exact ⟨_, List.getElem_mem bound', same.items.get bound bound'⟩

theorem equal_str {a : Value} {s : JsString} (same : equal a (.str s)) : a = .str s := by
  cases a <;> simp [equal, canon] at same
  rw [same]

theorem equal.units {a b : Value} (same : equal a b) : a.units = b.units := by
  cases b with
  | str s => rw [equal_str same]
  | _ => cases a <;> simp_all [equal, canon, Value.units]

theorem equal_bool {a : Value} {b : Bool} (same : equal a (.bool b)) : a = .bool b := by
  cases a <;> simp [equal, canon] at same
  rw [same]

/-! ## Reading back what was written -/

@[simp] theorem get_delete_of_ne (v : Value) {k l : JsString} (ne : k ≠ l) : (v.delete k).get l = v.get l := by
  simp only [get, delete, fields, Assoc.lookup_erase, ne, ↓reduceIte]

@[simp] theorem get_set_of_ne (v w : Value) {k l : JsString} (ne : k ≠ l) : (v.set k w).get l = v.get l := by
  simp only [get, set, fields, Assoc.lookup_set, ne, ↓reduceIte]

@[simp] theorem get_set_self (v w : Value) (k : JsString) : (v.set k w).get k = w := by
  simp only [get, set, fields, Assoc.lookup_set_self, Option.getD_some]

@[simp] theorem get_delete_self (v : Value) (k : JsString) : (v.delete k).get k = .undefined := by
  simp [delete, get, fields, Assoc.lookup_erase]

@[simp] theorem set_set (v w u : Value) (k : JsString) : (v.set k w).set k u = v.set k u := by
  rw [set, set, fields, Assoc.set_set, set]

theorem str_units {value : Value} (isString : value.isString = true) : value = .str value.units := by
  cases value with
  | str units => rfl
  | _ => cases isString

theorem lookup_record (fields : List (String × Value)) (k : String) :
    Assoc.lookup (record fields).fields (js k) = Assoc.lookup fields k := by
  induction fields with
  | nil => rfl
  | cons field fields ih =>
    rw [Assoc.lookup_cons, ← ih]
    exact if_congr js_inj rfl rfl

theorem get_record (fields : List (String × Value)) (k : String) :
    (record fields).get (js k) = (Assoc.lookup fields k).getD .undefined := by rw [get, lookup_record]

end Value

end PersistentHarness
