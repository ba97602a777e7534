import Mathlib.Data.List.Basic
import Mathlib.Order.Defs.Unbundled
import Mathlib.Tactic.Common

/-! # Insertion-ordered association lists

The first binding of a key is its value. Writing a bound key keeps its place and writing a new key
appends it, so a list built by `set` iterates in the order in which its keys were first written.
The second half gives the representative that forgets that order: keys sorted, one binding each.
-/

namespace PersistentHarness.Assoc

variable {κ ν μ : Type*} [DecidableEq κ]

/-- The value bound to a key. -/
def lookup : List (κ × ν) → κ → Option ν
  | [], _ => none
  | (l, v) :: rest, k => if l = k then some v else lookup rest k

def has (m : List (κ × ν)) (k : κ) : Bool := (lookup m k).isSome

/-- Rebind a key in its place, or append a new one. -/
def set : List (κ × ν) → κ → ν → List (κ × ν)
  | [], k, v => [(k, v)]
  | (l, w) :: rest, k, v => if l = k then (l, v) :: rest else (l, w) :: set rest k v

/-- Remove every binding of a key. -/
def erase (m : List (κ × ν)) (k : κ) : List (κ × ν) := m.filter fun entry => entry.1 ≠ k

def keys (m : List (κ × ν)) : List κ := m.map Prod.fst

/-- Apply a function to every value. -/
def mapValues (f : κ → ν → μ) (m : List (κ × ν)) : List (κ × μ) :=
  m.map fun entry => (entry.1, f entry.1 entry.2)

/-- The bindings of `n` written over those of `m`: known keys keep their places, new ones follow. -/
def merge (m n : List (κ × ν)) : List (κ × ν) :=
  mapValues (fun k v => (lookup n k).getD v) m ++ n.filter fun entry => !has m entry.1

@[simp] theorem lookup_nil (k : κ) : lookup ([] : List (κ × ν)) k = none := rfl

theorem lookup_cons (l k : κ) (v : ν) (rest : List (κ × ν)) :
    lookup ((l, v) :: rest) k = if l = k then some v else lookup rest k := rfl

theorem lookup_append (first second : List (κ × ν)) (k : κ) :
    lookup (first ++ second) k = (lookup first k).or (lookup second k) := by
  induction first with
  | nil => rfl
  | cons entry rest ih =>
    rw [List.cons_append, lookup_cons, lookup_cons, ih]
    split <;> rfl

theorem lookup_set (m : List (κ × ν)) (k l : κ) (v : ν) :
    lookup (set m k v) l = if k = l then some v else lookup m l := by
  induction m with
  | nil => rfl
  | cons entry rest ih =>
    obtain ⟨n, w⟩ := entry
    by_cases atHead : n = k
    · subst atHead
      simp only [set, ↓reduceIte, lookup_cons]
      split <;> rfl
    · simp only [set, atHead, ↓reduceIte, lookup_cons, ih]
      by_cases other : n = l
      · simp only [other, ↓reduceIte]
        rw [if_neg (fun same => atHead (other.trans same.symm))]
      · simp only [other, ↓reduceIte]

@[simp] theorem lookup_set_self (m : List (κ × ν)) (k : κ) (v : ν) :
    lookup (set m k v) k = some v := by rw [lookup_set, if_pos rfl]

@[simp] theorem set_set (m : List (κ × ν)) (k : κ) (v w : ν) : set (set m k v) k w = set m k w := by
  induction m with
  | nil => simp [set]
  | cons entry rest ih =>
    obtain ⟨l, u⟩ := entry
    by_cases same : l = k
    · simp [set, same]
    · simp [set, same, ih]

theorem lookup_set_of_ne (m : List (κ × ν)) {k l : κ} (v : ν) (ne : k ≠ l) :
    lookup (set m k v) l = lookup m l := by rw [lookup_set, if_neg ne]

theorem lookup_erase (m : List (κ × ν)) (k l : κ) :
    lookup (erase m k) l = if k = l then none else lookup m l := by
  induction m with
  | nil => simp [erase]
  | cons entry rest ih =>
    obtain ⟨n, w⟩ := entry
    simp only [erase, ne_eq, decide_not] at ih ⊢
    by_cases atHead : n = k
    · subst atHead
      simp only [List.filter_cons, decide_true, Bool.not_true, Bool.false_eq_true, ↓reduceIte, ih,
        lookup_cons]
      split <;> rfl
    · simp only [List.filter_cons, atHead, decide_false, Bool.not_false, ↓reduceIte, lookup_cons, ih]
      by_cases other : n = l
      · simp only [other, ↓reduceIte]
        rw [if_neg (fun same => atHead (other.trans same.symm))]
      · simp only [other, ↓reduceIte]

theorem erase_set (m : List (κ × ν)) (k : κ) (v : ν) : erase (set m k v) k = erase m k := by
  induction m with
  | nil => simp [set, erase]
  | cons entry rest ih =>
    obtain ⟨l, w⟩ := entry
    unfold erase at ih ⊢
    by_cases atHead : l = k
    · simp [set, atHead]
    · simp only [set, atHead, ↓reduceIte, List.filter_cons, ih]

theorem has_set (m : List (κ × ν)) (k l : κ) (v : ν) :
    has (set m k v) l = (decide (k = l) || has m l) := by
  unfold has
  rw [lookup_set]
  by_cases same : k = l <;> simp [same]

theorem has_eq_false {m : List (κ × ν)} {k : κ} : has m k = false ↔ lookup m k = none := by
  unfold has
  cases lookup m k <;> simp

theorem lookup_eq_none_iff {m : List (κ × ν)} {k : κ} : lookup m k = none ↔ k ∉ keys m := by
  induction m with
  | nil => simp [keys]
  | cons entry rest ih =>
    obtain ⟨l, v⟩ := entry
    simp only [keys, List.map_cons, List.mem_cons, not_or] at ih ⊢
    rw [lookup_cons]
    by_cases same : l = k
    · simp [same]
    · simp only [same, ↓reduceIte, ih]
      exact ⟨fun h => ⟨fun e => same e.symm, h⟩, fun h => h.2⟩

theorem has_iff_mem_keys {m : List (κ × ν)} {k : κ} : has m k = true ↔ k ∈ keys m := by
  rw [← not_iff_not, ← lookup_eq_none_iff, Bool.not_eq_true, has_eq_false]

theorem mem_of_lookup {m : List (κ × ν)} {k : κ} {v : ν} (found : lookup m k = some v) :
    (k, v) ∈ m := by
  induction m with
  | nil => cases found
  | cons entry rest ih =>
    obtain ⟨l, w⟩ := entry
    rw [lookup_cons] at found
    split at found
    · next same =>
      cases found
      exact same ▸ List.mem_cons_self ..
    · exact List.mem_cons_of_mem _ (ih found)

theorem lookup_of_mem {m : List (κ × ν)} {k : κ} {v : ν} (unique : (keys m).Nodup)
    (member : (k, v) ∈ m) : lookup m k = some v := by
  induction m with
  | nil => cases member
  | cons entry rest ih =>
    obtain ⟨l, w⟩ := entry
    obtain ⟨fresh, unique⟩ := List.nodup_cons.mp unique
    rw [lookup_cons]
    rcases List.mem_cons.mp member with same | member
    · cases same
      exact if_pos rfl
    · rw [if_neg, ih unique member]
      rintro rfl
      exact fresh (List.mem_map.mpr ⟨_, member, rfl⟩)

/-- Writing an unbound key appends its binding. -/
theorem set_of_lookup_none {m : List (κ × ν)} {k : κ} (fresh : lookup m k = none) (v : ν) :
    set m k v = m ++ [(k, v)] := by
  induction m with
  | nil => rfl
  | cons entry rest ih =>
    obtain ⟨l, w⟩ := entry
    rw [lookup_cons] at fresh
    split at fresh
    · cases fresh
    · next other => simp only [set, other, ↓reduceIte, ih fresh, List.cons_append]

theorem mem_keys_set {m : List (κ × ν)} {k l : κ} {v : ν} :
    l ∈ keys (set m k v) ↔ k = l ∨ l ∈ keys m := by
  rw [← has_iff_mem_keys, has_set, Bool.or_eq_true, decide_eq_true_eq, has_iff_mem_keys]

theorem keys_set_of_mem {m : List (κ × ν)} {k : κ} (bound : k ∈ keys m) (v : ν) :
    keys (set m k v) = keys m := by
  induction m with
  | nil => cases bound
  | cons entry rest ih =>
    obtain ⟨l, w⟩ := entry
    by_cases same : l = k
    · simp only [set, same, ↓reduceIte, keys, List.map_cons]
    · have later : k ∈ keys rest := (List.mem_cons.mp bound).resolve_left (fun e => same e.symm)
      have rest_keys := ih later
      simp only [keys] at rest_keys
      simp only [set, same, ↓reduceIte, keys, List.map_cons, rest_keys]

theorem keys_nodup_set {m : List (κ × ν)} (unique : (keys m).Nodup) (k : κ) (v : ν) :
    (keys (set m k v)).Nodup := by
  by_cases bound : k ∈ keys m
  · rwa [keys_set_of_mem bound]
  · rw [set_of_lookup_none (lookup_eq_none_iff.mpr bound)]
    simp only [keys, List.map_append, List.map_cons, List.map_nil]
    refine List.nodup_append.mpr ⟨unique, List.pairwise_singleton .., ?_⟩
    rintro a member b same rfl
    rw [List.mem_singleton] at same
    exact bound (same ▸ member)

theorem keys_nodup_erase {m : List (κ × ν)} (unique : (keys m).Nodup) (k : κ) :
    (keys (erase m k)).Nodup :=
  unique.sublist (List.filter_sublist.map _)

theorem lookup_mapValues (f : κ → ν → μ) (m : List (κ × ν)) (k : κ) :
    lookup (mapValues f m) k = (lookup m k).map (f k) := by
  induction m with
  | nil => rfl
  | cons entry rest ih =>
    obtain ⟨l, w⟩ := entry
    simp only [mapValues, List.map_cons] at ih ⊢
    rw [lookup_cons, lookup_cons, ih]
    split
    · next same => rw [same]; rfl
    · rfl

omit [DecidableEq κ] in
@[simp] theorem keys_mapValues (f : κ → ν → μ) (m : List (κ × ν)) :
    keys (mapValues f m) = keys m := by
  simp only [keys, mapValues, List.map_map]
  rfl

omit [DecidableEq κ] in
@[simp] theorem keys_append (m n : List (κ × ν)) : keys (m ++ n) = keys m ++ keys n := List.map_append

omit [DecidableEq κ] in
theorem keys_nodup_of_append {m n : List (κ × ν)} (unique : (keys (m ++ n)).Nodup) : (keys m).Nodup := by
  rw [keys_append] at unique
  exact (List.nodup_append.mp unique).1

omit [DecidableEq κ] in
theorem keys_nodup_concat {m : List (κ × ν)} {k : κ} {v : ν} :
    (keys (m ++ [(k, v)])).Nodup ↔ (keys m).Nodup ∧ k ∉ keys m := by
  rw [keys_append, List.nodup_append]
  constructor
  · rintro ⟨unique, _, apart⟩
    exact ⟨unique, fun bound => apart k bound k (List.mem_singleton_self k) rfl⟩
  · rintro ⟨unique, fresh⟩
    refine ⟨unique, List.pairwise_singleton .., ?_⟩
    rintro a member b same rfl
    obtain rfl : a = k := List.mem_singleton.mp same
    exact fresh member

section Sorted

variable (r : κ → κ → Prop) [DecidableRel r]

/-- Bind a key in a list sorted by its keys. -/
def insertSorted (k : κ) (v : ν) : List (κ × ν) → List (κ × ν)
  | [] => [(k, v)]
  | (l, w) :: rest =>
    if k = l then (k, v) :: rest
    else if r k l then (k, v) :: (l, w) :: rest
    else (l, w) :: insertSorted k v rest

/-- Sorted by strictly increasing keys. -/
def Sorted (m : List (κ × ν)) : Prop := m.Pairwise fun a b => r a.1 b.1

variable {r}

theorem lookup_insertSorted (m : List (κ × ν)) (k l : κ) (v : ν) :
    lookup (insertSorted r k v m) l = if k = l then some v else lookup m l := by
  induction m with
  | nil => rfl
  | cons entry rest ih =>
    obtain ⟨n, w⟩ := entry
    unfold insertSorted
    split
    · next same =>
      subst same
      simp only [lookup_cons]
      split <;> rfl
    · next other =>
      split
      · rfl
      · simp only [lookup_cons, ih]
        by_cases here : n = l
        · simp only [here, ↓reduceIte]
          rw [if_neg (fun same => other (same.trans here.symm))]
        · simp only [here, ↓reduceIte]

theorem mem_insertSorted {m : List (κ × ν)} {k : κ} {v : ν} {entry : κ × ν}
    (member : entry ∈ insertSorted r k v m) : entry = (k, v) ∨ entry ∈ m := by
  induction m with
  | nil => exact .inl (List.mem_singleton.mp member)
  | cons head rest ih =>
    obtain ⟨n, w⟩ := head
    unfold insertSorted at member
    split at member
    · exact (List.mem_cons.mp member).imp_right (List.mem_cons_of_mem _)
    · split at member
      · exact List.mem_cons.mp member
      · rcases List.mem_cons.mp member with same | later
        · exact .inr (same ▸ List.mem_cons_self ..)
        · exact (ih later).imp_right (List.mem_cons_of_mem _)

variable [IsStrictTotalOrder κ r]

theorem Sorted.insertSorted {m : List (κ × ν)} (sorted : Sorted r m) (k : κ) (v : ν) :
    Sorted r (insertSorted r k v m) := by
  induction m with
  | nil => exact List.pairwise_singleton ..
  | cons head rest ih =>
    obtain ⟨n, w⟩ := head
    obtain ⟨least, tail⟩ := List.pairwise_cons.mp sorted
    unfold Assoc.insertSorted
    split
    · next same =>
      subst same
      exact List.pairwise_cons.mpr ⟨least, tail⟩
    · next other =>
      split
      · next below =>
        refine List.pairwise_cons.mpr ⟨?_, sorted⟩
        intro entry member
        rcases List.mem_cons.mp member with same | later
        · exact same ▸ below
        · exact trans_of r below (least entry later)
      · next above =>
        refine List.pairwise_cons.mpr ⟨?_, ih tail⟩
        intro entry member
        rcases mem_insertSorted member with same | later
        · rw [same]
          exact (trichotomous_of r k n).resolve_left above |>.resolve_left other
        · exact least entry later

omit [DecidableRel r] in
theorem lookup_eq_none_of_lt {m : List (κ × ν)} {k : κ} (below : ∀ entry ∈ m, r k entry.1) :
    lookup m k = none := by
  rw [lookup_eq_none_iff]
  intro member
  obtain ⟨entry, present, same⟩ := List.mem_map.mp member
  exact irrefl_of r k (same ▸ below entry present)

omit [DecidableRel r] in
theorem Sorted.ext {m n : List (κ × ν)} (sortedM : Sorted r m) (sortedN : Sorted r n)
    (same : ∀ k, lookup m k = lookup n k) : m = n := by
  induction m generalizing n with
  | nil =>
    cases n with
    | nil => rfl
    | cons entry rest =>
      have here := same entry.1
      rw [lookup_nil, lookup_cons, if_pos rfl] at here
      cases here
  | cons head rest ih =>
    obtain ⟨k, v⟩ := head
    obtain ⟨leastM, tailM⟩ := List.pairwise_cons.mp sortedM
    cases n with
    | nil =>
      have here := same k
      rw [lookup_nil, lookup_cons, if_pos rfl] at here
      cases here
    | cons other rest' =>
      obtain ⟨l, w⟩ := other
      obtain ⟨leastN, tailN⟩ := List.pairwise_cons.mp sortedN
      have keysEq : k = l := by
        rcases trichotomous_of r k l with below | equal | above
        · have absent := lookup_eq_none_of_lt (m := (l, w) :: rest') (k := k) (by
            intro entry member
            rcases List.mem_cons.mp member with rfl | later
            · exact below
            · exact trans_of r below (leastN entry later))
          rw [← same, lookup_cons, if_pos rfl] at absent
          cases absent
        · exact equal
        · have absent := lookup_eq_none_of_lt (m := (k, v) :: rest) (k := l) (by
            intro entry member
            rcases List.mem_cons.mp member with rfl | later
            · exact above
            · exact trans_of r above (leastM entry later))
          rw [same, lookup_cons, if_pos rfl] at absent
          cases absent
      subst keysEq
      have valuesEq := same k
      rw [lookup_cons, lookup_cons, if_pos rfl, if_pos rfl] at valuesEq
      cases valuesEq
      have tails : rest = rest' := ih tailM tailN (by
        intro key
        by_cases atHead : k = key
        · subst atHead
          rw [lookup_eq_none_of_lt leastM, lookup_eq_none_of_lt leastN]
        · have later := same key
          rwa [lookup_cons, lookup_cons, if_neg atHead, if_neg atHead] at later)
      rw [tails]

end Sorted

end PersistentHarness.Assoc

/-! ## Ordered maps to ordered sets

A `Map` of `Set`s, filled pair by pair: what matters of it is which values a key has and how many
distinct ones. Both are read off the list of pairs that went in.
-/

namespace PersistentHarness.Multimap

variable {κ α : Type*} [DecidableEq κ] [DecidableEq α]

/-- `set.add(value)`. -/
def insertValue (values : List α) (value : α) : List α :=
  if value ∈ values then values else values ++ [value]

/-- `if (!map.has(key)) map.set(key, new Set()); map.get(key).add(value)`. -/
def add (m : List (κ × List α)) (key : κ) (value : α) : List (κ × List α) :=
  Assoc.set m key (insertValue ((Assoc.lookup m key).getD []) value)

def addAll (m : List (κ × List α)) (pairs : List (κ × α)) : List (κ × List α) :=
  pairs.foldl (fun m pair => add m pair.1 pair.2) m

/-- The values of a key, none for an absent one. -/
def values (m : List (κ × List α)) (key : κ) : List α := (Assoc.lookup m key).getD []

theorem mem_insertValue {values : List α} {value other : α} :
    other ∈ insertValue values value ↔ other ∈ values ∨ other = value := by
  unfold insertValue
  split
  · next present =>
    constructor
    · exact .inl
    · rintro (member | rfl)
      · exact member
      · exact present
  · rw [List.mem_append, List.mem_singleton]

theorem mem_foldl_insertValue {values added : List α} {value : α} :
    value ∈ added.foldl insertValue values ↔ value ∈ values ∨ value ∈ added := by
  induction added generalizing values with
  | nil => simp
  | cons head rest ih => rw [List.foldl_cons, ih, mem_insertValue, List.mem_cons, or_assoc]

theorem nodup_insertValue {values : List α} (unique : values.Nodup) (value : α) :
    (insertValue values value).Nodup := by
  unfold insertValue
  split
  · exact unique
  · next absent =>
    refine List.nodup_append.mpr ⟨unique, List.pairwise_singleton .., ?_⟩
    rintro a member b same rfl
    rw [List.mem_singleton] at same
    exact absent (same ▸ member)

theorem values_add (m : List (κ × List α)) (key other : κ) (value : α) :
    values (add m key value) other =
      if key = other then insertValue (values m key) value else values m other := by
  unfold values add
  rw [Assoc.lookup_set]
  split <;> rfl

theorem mem_values_addAll {m : List (κ × List α)} {added : List (κ × α)} {key : κ} {value : α} :
    value ∈ values (addAll m added) key ↔ value ∈ values m key ∨ (key, value) ∈ added := by
  induction added generalizing m with
  | nil => simp [addAll]
  | cons pair rest ih =>
    obtain ⟨k, v⟩ := pair
    have step : addAll m ((k, v) :: rest) = addAll (add m k v) rest := rfl
    rw [step, ih, values_add, List.mem_cons]
    by_cases same : k = key
    · subst same
      rw [if_pos rfl, mem_insertValue, Prod.mk.injEq]
      tauto
    · rw [if_neg same, Prod.mk.injEq]
      have other : ¬key = k := fun e => same e.symm
      tauto

omit [DecidableEq α] in
/-- A key is present exactly when it was, or some pair brought it. -/
theorem has_of_mem_values {m : List (κ × List α)} {key : κ} {value : α} (member : value ∈ values m key) :
    Assoc.has m key = true := by
  unfold values at member
  unfold Assoc.has
  cases found : Assoc.lookup m key with
  | none => rw [found] at member; cases member
  | some _ => rfl

omit [DecidableEq α] in
theorem eq_of_values_length_one {m : List (κ × List α)} {key : κ} {a b : α}
    (single : (values m key).length = 1) (first : a ∈ values m key) (second : b ∈ values m key) : a = b := by
  obtain ⟨only, same⟩ := List.length_eq_one_iff.mp single
  rw [same, List.mem_singleton] at first second
  rw [first, second]

def Distinct (m : List (κ × List α)) : Prop := ∀ key, (values m key).Nodup

theorem Distinct.add {m : List (κ × List α)} (distinct : Distinct m) (key : κ) (value : α) :
    Distinct (add m key value) := by
  intro other
  rw [values_add]
  split
  · exact nodup_insertValue (distinct key) value
  · exact distinct other

omit [DecidableEq α] in
theorem distinct_nil : Distinct ([] : List (κ × List α)) := fun _ => List.nodup_nil

end PersistentHarness.Multimap
