import Mathlib.Algebra.GroupWithZero.Nat
import Mathlib.Data.List.Sort
import PersistentHarness.Lib.Assoc

/-! # Keyed tables

A table holds rows under a primary key in the order of their insertion, and its type says that no
key occurs twice. Inserting a used key fails; updates rewrite rows in place and never touch a key.
Every operation is described by the row it leaves under each key, and by what it does to counts.
-/

namespace PersistentHarness

/-- Rows under a primary key, in insertion order. -/
structure Table (κ α : Type*) where
  rows : List (κ × α)
  unique : (Assoc.keys rows).Nodup

namespace Table

variable {κ α : Type*} [DecidableEq κ]

def empty : Table κ α := ⟨[], List.nodup_nil⟩

instance : Inhabited (Table κ α) := ⟨⟨[], List.nodup_nil⟩⟩

/-- The row stored under a key. -/
def get? (t : Table κ α) (k : κ) : Option α := Assoc.lookup t.rows k

/-- Add a row under a new key; fail when the key is taken. -/
def insert? (t : Table κ α) (k : κ) (a : α) : Option (Table κ α) :=
  if t.get? k = none then
    some ⟨Assoc.set t.rows k a, Assoc.keys_nodup_set t.unique k a⟩
  else none

/-- Add a row unless its key is taken. -/
def insertOrIgnore (t : Table κ α) (k : κ) (a : α) : Table κ α := (t.insert? k a).getD t

def modify (t : Table κ α) (f : κ → α → α) : Table κ α :=
  ⟨Assoc.mapValues f t.rows, (Assoc.keys_mapValues f t.rows).symm ▸ t.unique⟩

/-- Rewrite the row under one key. -/
def update (t : Table κ α) (k : κ) (f : α → α) : Table κ α :=
  t.modify fun l a => if l = k then f a else a

/-- Add a row, or rewrite the one that has its key. -/
def upsert (t : Table κ α) (k : κ) (a : α) (f : α → α) : Table κ α := (t.insert? k a).getD (t.update k f)

/-- Drop every row that satisfies a condition. -/
def delete (t : Table κ α) (p : κ → α → Bool) : Table κ α :=
  ⟨t.rows.filter fun row => !p row.1 row.2, t.unique.sublist (List.filter_sublist.map _)⟩

def any (t : Table κ α) (p : κ → α → Bool) : Bool := t.rows.any fun row => p row.1 row.2

/-- The number of rows that satisfy a condition. -/
def count (t : Table κ α) (p : κ → α → Bool) : ℕ := t.rows.countP fun row => p row.1 row.2

/-- The rows that satisfy a condition, sorted, up to a limit. -/
def select (t : Table κ α) (p : κ → α → Bool) (le : κ × α → κ × α → Bool) (limit : ℕ) : List (κ × α) :=
  ((t.rows.filter fun row => p row.1 row.2).mergeSort le).take limit

/-- What the rows contribute, in their order. -/
def collect {β : Type*} (t : Table κ α) (p : κ → α → Option β) : List β := t.rows.filterMap fun row => p row.1 row.2

def weigh (t : Table κ α) (w : κ → α → ℕ) : ℕ := (t.rows.map fun row => w row.1 row.2).sum

section Rows

variable {t u : Table κ α} {k l : κ} {a : α} {p : κ → α → Bool}

@[simp] theorem get?_empty (k : κ) : (empty : Table κ α).get? k = none := rfl

theorem mem_rows : (k, a) ∈ t.rows ↔ t.get? k = some a :=
  ⟨Assoc.lookup_of_mem t.unique, Assoc.mem_of_lookup⟩

theorem insert?_eq_some : t.insert? k a = some u ↔ t.get? k = none ∧ u.rows = t.rows ++ [(k, a)] := by
  obtain ⟨rows, unique⟩ := u
  unfold insert?
  split
  · next fresh =>
    simp only [Option.some.injEq, mk.injEq, fresh, true_and, Assoc.set_of_lookup_none fresh]
    exact eq_comm
  · next taken => simp only [reduceCtorEq, taken, false_and]

theorem insert?_eq_none : t.insert? k a = none ↔ t.get? k ≠ none := by
  unfold insert?
  split
  · next fresh => simp [fresh]
  · next taken => simp [taken]

theorem fresh_of_insert? (inserted : t.insert? k a = some u) : t.get? k = none := (insert?_eq_some.mp inserted).1

theorem get?_insert (inserted : t.insert? k a = some u) (l : κ) : u.get? l = if k = l then some a else t.get? l := by
  obtain ⟨fresh, rows⟩ := insert?_eq_some.mp inserted
  rw [get?, rows, ← Assoc.set_of_lookup_none fresh, Assoc.lookup_set]
  rfl

@[simp] theorem get?_modify (t : Table κ α) (f : κ → α → α) (k : κ) : (t.modify f).get? k = (t.get? k).map (f k) :=
  Assoc.lookup_mapValues f t.rows k

theorem get?_update (t : Table κ α) (k : κ) (f : α → α) (l : κ) :
    (t.update k f).get? l = if l = k then (t.get? l).map f else t.get? l := by
  rw [update, get?_modify]
  split
  · next here => simp only [here]
  · next other => simp only [Option.map_id']

/-- The updated row of a stored key, and every other row as it was. -/
theorem get?_update_of (found : t.get? k = some a) (f : α → α) (l : κ) :
    (t.update k f).get? l = if l = k then some (f a) else t.get? l := by
  rw [get?_update]
  split
  · next here => rw [here, found, Option.map_some]
  · rfl

@[simp] theorem update_rows (t : Table κ α) (k : κ) (f : α → α) :
    (t.update k f).rows = t.rows.map fun row => (row.1, if row.1 = k then f row.2 else row.2) := rfl

/-- An update depends on what it does with the stored row. -/
theorem update_congr {f g : α → α} (same : ∀ a, t.get? k = some a → f a = g a) : t.update k f = t.update k g := by
  have rows : (t.update k f).rows = (t.update k g).rows := by
    rw [update_rows, update_rows]
    refine List.map_congr_left fun row member => ?_
    split
    · next here => rw [same row.2 (here ▸ mem_rows.mp member)]
    · rfl
  revert rows
  generalize t.update k f = u
  generalize t.update k g = v
  obtain ⟨_, _⟩ := u
  obtain ⟨_, _⟩ := v
  rintro ⟨⟩
  rfl

theorem get?_insertOrIgnore (t : Table κ α) (k : κ) (a : α) (l : κ) :
    (t.insertOrIgnore k a).get? l = if l = k then some ((t.get? k).getD a) else t.get? l := by
  unfold insertOrIgnore
  cases inserted : t.insert? k a with
  | none =>
    obtain ⟨b, found⟩ := Option.ne_none_iff_exists'.mp (insert?_eq_none.mp inserted)
    rw [Option.getD_none, found]
    split
    · next here => rw [here, found, Option.getD_some]
    · rfl
  | some u =>
    rw [Option.getD_some, get?_insert inserted, fresh_of_insert? inserted, Option.getD_none]
    simp only [eq_comm]

theorem get?_upsert (t : Table κ α) (k : κ) (a : α) (f : α → α) (l : κ) :
    (t.upsert k a f).get? l = if l = k then some (((t.get? k).map f).getD a) else t.get? l := by
  unfold upsert
  cases inserted : t.insert? k a with
  | none =>
    obtain ⟨b, found⟩ := Option.ne_none_iff_exists'.mp (insert?_eq_none.mp inserted)
    rw [Option.getD_none, get?_update_of found, found]
    rfl
  | some u =>
    rw [Option.getD_some, get?_insert inserted, fresh_of_insert? inserted]
    simp only [eq_comm, Option.map_none, Option.getD_none]

theorem get?_delete (t : Table κ α) (p : κ → α → Bool) (k : κ) :
    (t.delete p).get? k = (t.get? k).filter fun a => !p k a := by
  cases found : t.get? k with
  | none =>
    have missing : k ∉ Assoc.keys (t.delete p).rows := fun member =>
      Assoc.lookup_eq_none_iff.mp found ((List.filter_sublist.map _).subset member)
    rw [get?, Assoc.lookup_eq_none_iff.mpr missing, Option.filter_none]
  | some a =>
    have stored := mem_rows.mpr found
    cases drops : p k a
    · have kept : (k, a) ∈ (t.delete p).rows := List.mem_filter.mpr ⟨stored, by simp [drops]⟩
      rw [mem_rows.mp kept, Option.filter_some, if_pos (by simp [drops])]
    · rw [Option.filter_some, if_neg (by simp [drops])]
      apply Option.eq_none_iff_forall_ne_some.mpr
      intro b present
      obtain ⟨member, keeps⟩ := List.mem_filter.mp (mem_rows.mpr present)
      have same : b = a := Option.some.inj ((mem_rows.mp member).symm.trans found)
      simp [same, drops] at keeps

theorem any_eq_true : t.any p = true ↔ ∃ k a, t.get? k = some a ∧ p k a = true := by
  simp only [any, List.any_eq_true, Prod.exists, mem_rows]

theorem any_eq_false : t.any p = false ↔ ∀ k a, t.get? k = some a → p k a = false := by
  rw [← Bool.not_eq_true, any_eq_true]
  simp

theorem count_pos {p : κ → α → Bool} : 0 < t.count p ↔ ∃ k a, t.get? k = some a ∧ p k a = true := by
  unfold count
  rw [List.countP_pos_iff]
  constructor
  · rintro ⟨⟨k, a⟩, member, holds⟩
    exact ⟨k, a, mem_rows.mp member, holds⟩
  · rintro ⟨k, a, stored, holds⟩
    exact ⟨(k, a), mem_rows.mpr stored, holds⟩

theorem count_insert (inserted : t.insert? k a = some u) (p : κ → α → Bool) :
    u.count p = t.count p + if p k a then 1 else 0 := by
  rw [count, (insert?_eq_some.mp inserted).2, List.countP_append, List.countP_singleton]
  rfl

/-- Rewriting rows so that none comes to satisfy a condition does not raise its count. -/
theorem count_modify_le {f : κ → α → α} (falls : ∀ k a, t.get? k = some a → p k (f k a) = true → p k a = true) :
    (t.modify f).count p ≤ t.count p := by
  have rewritten : (t.modify f).count p = t.rows.countP fun row => p row.1 (f row.1 row.2) := List.countP_map
  rw [rewritten]
  apply List.countP_mono_left
  intro row member
  exact falls row.1 row.2 (mem_rows.mp member)

theorem count_update_le {f : α → α} (falls : ∀ a, t.get? k = some a → p k (f a) = true → p k a = true) :
    (t.update k f).count p ≤ t.count p := by
  refine count_modify_le fun l a found => ?_
  split
  · next here =>
    subst here
    exact falls a found
  · exact id

theorem count_insertOrIgnore (fresh : t.get? k = none) (a : α) (p : κ → α → Bool) :
    (t.insertOrIgnore k a).count p = t.count p + if p k a then 1 else 0 := by
  obtain ⟨u, inserted⟩ : ∃ u, t.insert? k a = some u := by
    apply Option.ne_none_iff_exists'.mp
    rw [ne_eq, insert?_eq_none]
    exact fun taken => taken fresh
  rw [insertOrIgnore, inserted]
  exact count_insert inserted p

theorem count_le_insertOrIgnore (t : Table κ α) (k : κ) (a : α) (p : κ → α → Bool) :
    t.count p ≤ (t.insertOrIgnore k a).count p := by
  cases found : t.get? k with
  | none =>
    rw [count_insertOrIgnore found]
    exact Nat.le_add_right ..
  | some b =>
    have ignored : t.insert? k a = none := insert?_eq_none.mpr (by rw [found]; exact Option.some_ne_none b)
    rw [insertOrIgnore, ignored]
    exact Nat.le_refl _

omit [DecidableEq κ] in
theorem count_delete_eq (t : Table κ α) {drop p : κ → α → Bool} (stay : ∀ k a, p k a = true → drop k a = false) :
    (t.delete drop).count p = t.count p := by
  rw [count, count, delete, List.countP_filter]
  apply List.countP_congr
  intro row _
  rw [Bool.and_eq_true]
  exact ⟨And.left, fun counted => ⟨counted, by rw [stay row.1 row.2 counted]; rfl⟩⟩

omit [DecidableEq κ] in
theorem count_delete_le (t : Table κ α) (drop p : κ → α → Bool) : (t.delete drop).count p ≤ t.count p :=
  List.filter_sublist.countP_le

end Rows

section Collections

variable {t u : Table κ α} {k : κ} {a : α} {β : Type*} {p : κ → α → Option β}

theorem mem_collect {b : β} : b ∈ t.collect p ↔ ∃ k a, t.get? k = some a ∧ p k a = some b := by
  simp only [collect, List.mem_filterMap, Prod.exists, mem_rows]

theorem collect_insert (inserted : t.insert? k a = some u) (p : κ → α → Option β) :
    u.collect p = t.collect p ++ (p k a).toList := by
  rw [collect, (insert?_eq_some.mp inserted).2, List.filterMap_append]
  cases contributes : p k a <;> simp [collect, contributes]

/-- Rewriting rows without touching what they contribute. -/
theorem collect_modify {f : κ → α → α} (keeps : ∀ k a, t.get? k = some a → p k (f k a) = p k a) :
    (t.modify f).collect p = t.collect p := by
  have rewritten : (t.modify f).collect p = t.rows.filterMap fun row => p row.1 (f row.1 row.2) := List.filterMap_map
  rw [rewritten]
  apply List.filterMap_congr
  intro row member
  exact keeps row.1 row.2 (mem_rows.mp member)

theorem collect_update {f : α → α} (keeps : ∀ a, t.get? k = some a → p k (f a) = p k a) :
    (t.update k f).collect p = t.collect p := by
  apply collect_modify
  intro l a found
  split
  · next here =>
    subst here
    exact keeps a found
  · rfl

end Collections

section Weights

variable {t u : Table κ α} {k : κ} {a : α} {w : κ → α → ℕ}

theorem weigh_insert (inserted : t.insert? k a = some u) (w : κ → α → ℕ) : u.weigh w = t.weigh w + w k a := by
  rw [weigh, (insert?_eq_some.mp inserted).2, List.map_append, List.sum_append]
  rfl

omit [DecidableEq κ] in
theorem count_eq_weigh (t : Table κ α) (p : κ → α → Bool) : t.count p = t.weigh fun k a => if p k a then 1 else 0 := by
  unfold count weigh
  induction t.rows with
  | nil => rfl
  | cons row rest ih =>
    rw [List.countP_cons, List.map_cons, List.sum_cons, ih]
    exact Nat.add_comm ..

omit [DecidableEq κ] in
theorem sum_collect (t : Table κ α) (p : κ → α → Option ℕ) : (t.collect p).sum = t.weigh fun k a => (p k a).getD 0 := by
  unfold collect weigh
  induction t.rows with
  | nil => rfl
  | cons row rest ih =>
    rw [List.filterMap_cons, List.map_cons, List.sum_cons, ← ih]
    dsimp only
    cases p row.1 row.2 with
    | none => exact (Nat.zero_add _).symm
    | some n => exact List.sum_cons

omit [DecidableEq κ] in
private theorem sum_rows_le {rows others : List (κ × α)} (unique : (Assoc.keys rows).Nodup)
    (heavier : ∀ row ∈ rows, ∃ a, (row.1, a) ∈ others ∧ w row.1 row.2 ≤ w row.1 a) :
    (rows.map fun row => w row.1 row.2).sum ≤ (others.map fun row => w row.1 row.2).sum := by
  induction rows generalizing others with
  | nil => exact Nat.zero_le _
  | cons row rest ih =>
    obtain ⟨a, member, le⟩ := heavier row (List.mem_cons_self ..)
    obtain ⟨before, after, rfl⟩ := List.append_of_mem member
    obtain ⟨fresh, unique⟩ := List.nodup_cons.mp unique
    have others : ∀ other ∈ rest, ∃ a, (other.1, a) ∈ before ++ after ∧ w other.1 other.2 ≤ w other.1 a := by
      intro other later
      obtain ⟨b, member, le⟩ := heavier other (List.mem_cons_of_mem _ later)
      refine ⟨b, ?_, le⟩
      rcases List.mem_append.mp member with first | second
      · exact List.mem_append_left _ first
      rcases List.mem_cons.mp second with same | second
      · have key : other.1 = row.1 := (Prod.mk.inj same).1
        exact absurd (key ▸ List.mem_map_of_mem later) fresh
      · exact List.mem_append_right _ second
    have rest := ih unique others
    simp only [List.map_cons, List.map_append, List.sum_cons, List.sum_append] at rest ⊢
    omega

/-- A table whose rows each come from a row that weighs as much does not weigh more. -/
theorem weigh_le (heavier : ∀ k b, u.get? k = some b → ∃ a, t.get? k = some a ∧ w k b ≤ w k a) : u.weigh w ≤ t.weigh w := by
  apply sum_rows_le u.unique
  intro row member
  obtain ⟨a, stored, le⟩ := heavier row.1 row.2 (mem_rows.mp member)
  exact ⟨a, mem_rows.mpr stored, le⟩

end Weights

section Selections

variable {t : Table κ α} {p : κ → α → Bool} {le : κ × α → κ × α → Bool} {limit : ℕ}

theorem mem_of_mem_select {row : κ × α} (member : row ∈ t.select p le limit) :
    t.get? row.1 = some row.2 ∧ p row.1 row.2 = true := by
  have listed := List.mem_mergeSort.mp (List.mem_of_mem_take member)
  obtain ⟨stored, holds⟩ := List.mem_filter.mp listed
  exact ⟨mem_rows.mp stored, holds⟩

omit [DecidableEq κ] in
theorem select_nodup (t : Table κ α) (p : κ → α → Bool) (le : κ × α → κ × α → Bool) (limit : ℕ) :
    (Assoc.keys (t.select p le limit)).Nodup := by
  have filtered : (Assoc.keys (t.rows.filter fun row => p row.1 row.2)).Nodup :=
    t.unique.sublist (List.filter_sublist.map _)
  have sorted : (Assoc.keys ((t.rows.filter fun row => p row.1 row.2).mergeSort le)).Nodup :=
    ((List.mergeSort_perm _ le).map Prod.fst).nodup_iff.mpr filtered
  exact sorted.sublist ((List.take_sublist ..).map _)

theorem mem_select_of_length_le {row : κ × α} (found : t.get? row.1 = some row.2) (holds : p row.1 row.2 = true)
    (room : t.rows.length ≤ limit) : row ∈ t.select p le limit := by
  have listed : row ∈ (t.rows.filter fun row => p row.1 row.2).mergeSort le :=
    List.mem_mergeSort.mpr (List.mem_filter.mpr ⟨mem_rows.mpr found, holds⟩)
  have short : ((t.rows.filter fun row => p row.1 row.2).mergeSort le).length ≤ limit := by
    rw [List.length_mergeSort]
    exact (List.length_filter_le ..).trans room
  rwa [select, List.take_of_length_le short]

/-- A selection that leaves a row out is as long as it may be. -/
theorem length_select_of_not_mem {row : κ × α} (found : t.get? row.1 = some row.2) (holds : p row.1 row.2 = true)
    (left : row ∉ t.select p le limit) : (t.select p le limit).length = limit := by
  have listed : row ∈ (t.rows.filter fun row => p row.1 row.2).mergeSort le :=
    List.mem_mergeSort.mpr (List.mem_filter.mpr ⟨mem_rows.mpr found, holds⟩)
  have long : limit ≤ ((t.rows.filter fun row => p row.1 row.2).mergeSort le).length := by
    by_contra short
    refine left ?_
    rwa [select, List.take_of_length_le (by omega)]
  rw [select, List.length_take, Nat.min_eq_left long]

end Selections

/-! ## Rows over time -/

/-- The same keys, and every row became a related one. -/
def Evolves (R : α → α → Prop) (t u : Table κ α) : Prop := ∀ k, Option.Rel R (t.get? k) (u.get? k)

namespace Evolves

variable {R S : α → α → Prop} {t u v : Table κ α} {k : κ} {a b : α}

theorem refl (refl : ∀ a, R a a) (t : Table κ α) : t.Evolves R t := by
  intro k
  cases t.get? k with
  | none => exact .none
  | some a => exact .some (refl a)

theorem trans (trans : ∀ a b c, R a b → R b c → R a c) (first : t.Evolves R u) (second : u.Evolves R v) : t.Evolves R v := by
  intro k
  have before := first k
  have after := second k
  revert before after
  cases t.get? k <;> cases u.get? k <;> cases v.get? k <;> rintro ⟨⟩ ⟨⟩
  · exact .none
  · next first second => exact .some (trans _ _ _ first second)

theorem mono (weaker : ∀ a b, R a b → S a b) (changed : t.Evolves R u) : t.Evolves S u := by
  intro k
  have here := changed k
  revert here
  cases t.get? k <;> cases u.get? k <;> rintro ⟨⟩
  · exact .none
  · next related => exact .some (weaker _ _ related)

theorem after (changed : t.Evolves R u) (found : t.get? k = some a) : ∃ b, u.get? k = some b ∧ R a b := by
  have here := changed k
  rw [found] at here
  revert here
  cases u.get? k with
  | none => rintro ⟨⟩
  | some b =>
    rintro ⟨related⟩
    exact ⟨b, rfl, related⟩

theorem before (changed : t.Evolves R u) (found : u.get? k = some b) : ∃ a, t.get? k = some a ∧ R a b := by
  have here := changed k
  rw [found] at here
  revert here
  cases t.get? k with
  | none => rintro ⟨⟩
  | some a =>
    rintro ⟨related⟩
    exact ⟨a, rfl, related⟩

theorem of_map {f : κ → α → α} (rows : ∀ k, u.get? k = (t.get? k).map (f k))
    (related : ∀ k a, t.get? k = some a → R a (f k a)) : t.Evolves R u := by
  intro k
  rw [rows k]
  cases found : t.get? k with
  | none => exact .none
  | some a => exact .some (related k a found)

theorem modify {f : κ → α → α} (related : ∀ k a, t.get? k = some a → R a (f k a)) : t.Evolves R (t.modify f) :=
  of_map (get?_modify t f) related

theorem update {f : α → α} (refl : ∀ a, R a a) (related : ∀ a, t.get? k = some a → R a (f a)) :
    t.Evolves R (t.update k f) := by
  refine modify fun l a found => ?_
  split
  · next here =>
    subst here
    exact related a found
  · exact refl a

end Evolves

/-- Rewriting rows again and again rewrites each row again and again. -/
theorem get?_foldl_modify {ι : Type*} {f : ι → κ → α → α} (items : List ι) (t : Table κ α) (k : κ) :
    (items.foldl (fun t item => t.modify (f item)) t).get? k =
      (t.get? k).map fun a => items.foldl (fun a item => f item k a) a := by
  induction items generalizing t with
  | nil => simp only [List.foldl_nil, Option.map_id']
  | cons item items ih =>
    rw [List.foldl_cons, ih, get?_modify, Option.map_map]
    rfl

end Table

end PersistentHarness
