import Mathlib.Logic.Function.Iterate
import Mathlib.Logic.Relation
import PersistentHarness.Lib.Table

/-! # Branches of an append-only tree

A tree lists its nodes, the latest first; a node is named by the number of nodes before it. The branch of a node follows the
parents down to a root. Later nodes leave every branch as it is.
-/

namespace PersistentHarness.Ancestry

variable {α : Type*} {parent : α → Option ℕ} {older newer : List α} {node : α} {leaf : Option ℕ}

/-- The nodes from a leaf to its root. -/
def branch (parent : α → Option ℕ) : List α → Option ℕ → List α
  | [], _ => []
  | node :: older, leaf => if leaf = some older.length then node :: branch parent older (parent node) else branch parent older leaf

theorem branch_new : branch parent (node :: older) (some older.length) = node :: branch parent older (parent node) :=
  if_pos rfl

theorem branch_cons (other : leaf ≠ some older.length) : branch parent (node :: older) leaf = branch parent older leaf :=
  if_neg other

theorem branch_cons_forall {P : List α → Prop} (old : ∀ leaf, P (branch parent older leaf))
    (new : P (node :: branch parent older (parent node))) (leaf : Option ℕ) : P (branch parent (node :: older) leaf) := by
  by_cases same : leaf = some older.length
  · rw [same, branch_new]
    exact new
  · rw [branch_cons same]
    exact old leaf

end PersistentHarness.Ancestry

/-! ## Descendants in a table

Rows may name a parent row. The keys below some keys are found as a recursive query finds them: each round
adds the rows whose parent is already there, and as many rounds as there are rows reach them all, whatever
the edges look like. A table whose ranks grow along its edges is a forest.
-/

namespace PersistentHarness.Table

variable {κ α : Type*} [DecidableEq κ]

/-- One round: the kept rows whose parent is there join. -/
def grow (t : Table κ α) (parent : α → Option κ) (keep : α → Bool) (ids : List κ) : List κ :=
  ids ++ (Assoc.keys (t.rows.filter fun row => keep row.2 && (parent row.2).any (· ∈ ids))).filter (· ∉ ids)

/-- The given keys and every kept row below them. -/
def descendants (t : Table κ α) (parent : α → Option κ) (keep : α → Bool) (ids : List κ) : List κ :=
  (t.grow parent keep)^[t.rows.length] ids

def missing (t : Table κ α) (ids : List κ) : List κ := (Assoc.keys t.rows).filter (· ∉ ids)

variable {t : Table κ α} {parent : α → Option κ} {keep : α → Bool} {ids : List κ}

/-- Every kept row whose parent is there is there. -/
def Closed (t : Table κ α) (parent : α → Option κ) (keep : α → Bool) (ids : List κ) : Prop :=
  ∀ k a p, t.get? k = some a → keep a = true → parent a = some p → p ∈ ids → k ∈ ids

theorem mem_grow {k : κ} : k ∈ t.grow parent keep ids ↔
    k ∈ ids ∨ ∃ a p, t.get? k = some a ∧ keep a = true ∧ parent a = some p ∧ p ∈ ids := by
  unfold grow
  rw [List.mem_append, List.mem_filter]
  constructor
  · rintro (old | ⟨added, -⟩)
    · exact .inl old
    · obtain ⟨⟨l, a⟩, member, rfl⟩ := List.mem_map.mp added
      obtain ⟨stored, joins⟩ := List.mem_filter.mp member
      obtain ⟨kept, above⟩ := Bool.and_eq_true_iff.mp joins
      obtain ⟨p, edge, there⟩ := Option.any_eq_true .. |>.mp above
      exact .inr ⟨a, p, mem_rows.mp stored, kept, edge, of_decide_eq_true there⟩
  · rintro (old | ⟨a, p, found, kept, edge, there⟩)
    · exact .inl old
    · by_cases old : k ∈ ids
      · exact .inl old
      · refine .inr ⟨List.mem_map.mpr ⟨(k, a), List.mem_filter.mpr ⟨mem_rows.mpr found, ?_⟩, rfl⟩, decide_eq_true old⟩
        rw [kept, edge]
        exact decide_eq_true there

theorem subset_grow : ids ⊆ t.grow parent keep ids := fun _ member => mem_grow.mpr (.inl member)

theorem grow_of_closed (closed : t.Closed parent keep ids) : t.grow parent keep ids = ids := by
  have none_left : (Assoc.keys (t.rows.filter fun row => keep row.2 && (parent row.2).any (· ∈ ids))).filter (· ∉ ids) = [] := by
    apply List.filter_eq_nil_iff.mpr
    intro k member outside
    have grown : k ∈ t.grow parent keep ids := List.mem_append_right _ (List.mem_filter.mpr ⟨member, outside⟩)
    rcases mem_grow.mp grown with old | ⟨a, p, found, kept, edge, there⟩
    · exact of_decide_eq_true outside old
    · exact of_decide_eq_true outside (closed k a p found kept edge there)
  rw [grow, none_left, List.append_nil]

/-- A round that is not the last one reaches a new key. -/
theorem missing_grow_lt (opened : ¬t.Closed parent keep ids) :
    (t.missing (t.grow parent keep ids)).length < (t.missing ids).length := by
  unfold Closed at opened
  push Not at opened
  obtain ⟨k, a, p, found, kept, edge, there, outside⟩ := opened
  have joins : k ∈ t.grow parent keep ids := mem_grow.mpr (.inr ⟨a, p, found, kept, edge, there⟩)
  have fewer : t.missing (t.grow parent keep ids) = (t.missing ids).filter (· ∉ t.grow parent keep ids) := by
    unfold missing
    rw [List.filter_filter]
    apply List.filter_congr
    intro l _
    by_cases old : l ∈ ids
    · simp [old, @subset_grow _ _ _ t parent keep _ _ old]
    · simp [old]
  rw [fewer]
  apply List.length_filter_lt_length_iff_exists.mpr
  refine ⟨k, List.mem_filter.mpr ⟨List.mem_map.mpr ⟨(k, a), mem_rows.mpr found, rfl⟩, decide_eq_true outside⟩, ?_⟩
  simp [joins]

/-- As many rounds as keys are missing close the set. -/
theorem closed_iterate {rounds : ℕ} (enough : (t.missing ids).length ≤ rounds) :
    t.Closed parent keep ((t.grow parent keep)^[rounds] ids) := by
  induction rounds generalizing ids with
  | zero =>
    intro k a p found _ _ _
    have nothing := List.length_eq_zero_iff.mp (Nat.le_zero.mp enough)
    by_contra outside
    have member : k ∈ t.missing ids :=
      List.mem_filter.mpr ⟨List.mem_map.mpr ⟨(k, a), mem_rows.mpr found, rfl⟩, decide_eq_true outside⟩
    rw [nothing] at member
    cases member
  | succ rounds ih =>
    rw [Function.iterate_succ_apply]
    by_cases closed : t.Closed parent keep ids
    · rw [grow_of_closed closed, Function.iterate_fixed (grow_of_closed closed)]
      exact closed
    · have := missing_grow_lt closed
      exact ih (by omega)

theorem closed_descendants : t.Closed parent keep (t.descendants parent keep ids) := by
  apply closed_iterate
  calc (t.missing ids).length ≤ (Assoc.keys t.rows).length := List.length_filter_le _ _
    _ = t.rows.length := List.length_map _

theorem subset_descendants : ids ⊆ t.descendants parent keep ids := by
  unfold descendants
  induction t.rows.length generalizing ids with
  | zero => exact List.Subset.refl _
  | succ rounds ih =>
    rw [Function.iterate_succ_apply]
    exact fun _ member => ih (subset_grow member)

/-- A closed set holds everything below it. -/
theorem descendants_subset {P : κ → Prop} (start : ∀ k ∈ ids, P k)
    (closed : ∀ k a p, t.get? k = some a → keep a = true → parent a = some p → P p → P k) :
    ∀ k ∈ t.descendants parent keep ids, P k := by
  unfold descendants
  induction t.rows.length generalizing ids with
  | zero => exact start
  | succ rounds ih =>
    rw [Function.iterate_succ_apply]
    refine ih fun k member => ?_
    rcases mem_grow.mp member with old | ⟨a, p, found, kept, edge, there⟩
    · exact start k old
    · exact closed k a p found kept edge (start p there)

/-! ## Paths -/

/-- `k` is a kept row below `p`, and so is every row between them. -/
def Below (t : Table κ α) (parent : α → Option κ) (keep : α → Bool) : κ → κ → Prop :=
  Relation.TransGen fun p k => ∃ a, t.get? k = some a ∧ keep a = true ∧ parent a = some p

variable {p q k : κ}

theorem mem_descendants : k ∈ t.descendants parent keep [p] ↔ k = p ∨ t.Below parent keep p k := by
  constructor
  · refine fun member => descendants_subset (P := fun k => k = p ∨ t.Below parent keep p k) ?_ ?_ k member
    · exact fun k start => .inl (List.mem_singleton.mp start)
    · rintro k a q found kept edge (rfl | below)
      · exact .inr (.single ⟨a, found, kept, edge⟩)
      · exact .inr (.tail below ⟨a, found, kept, edge⟩)
  · rintro (rfl | below)
    · exact subset_descendants (List.mem_singleton_self _)
    · induction below with
      | single edge =>
        obtain ⟨a, found, kept, edge⟩ := edge
        exact closed_descendants _ a _ found kept edge (subset_descendants (List.mem_singleton_self _))
      | tail _ edge ih =>
        obtain ⟨a, found, kept, edge⟩ := edge
        exact closed_descendants _ a _ found kept edge ih

namespace Below

theorem mono {u : Table κ α} {keep' : α → Bool} (below : t.Below parent keep p k)
    (rows : ∀ l a, t.Below parent keep p l → t.get? l = some a → keep a = true →
      ∃ b, u.get? l = some b ∧ keep' b = true ∧ parent b = parent a) : u.Below parent keep' p k := by
  induction below with
  | single edge =>
    obtain ⟨a, found, kept, up⟩ := edge
    obtain ⟨b, found', kept', same⟩ := rows _ a (.single ⟨a, found, kept, up⟩) found kept
    exact .single ⟨b, found', kept', same.trans up⟩
  | tail before edge ih =>
    obtain ⟨a, found, kept, up⟩ := edge
    obtain ⟨b, found', kept', same⟩ := rows _ a (.tail before ⟨a, found, kept, up⟩) found kept
    exact .tail ih ⟨b, found', kept', same.trans up⟩

theorem compare (first : t.Below parent keep p k) (second : t.Below parent keep q k) :
    p = q ∨ t.Below parent keep p q ∨ t.Below parent keep q p := by
  induction first with
  | single edge =>
    obtain ⟨a, found, _, up⟩ := edge
    obtain ⟨middle, path, b, found', _, up'⟩ := Relation.TransGen.tail'_iff.mp second
    cases found.symm.trans found'
    cases up.symm.trans up'
    rcases Relation.reflTransGen_iff_eq_or_transGen.mp path with same | path
    · exact .inl same
    · exact .inr (.inr path)
  | tail before edge ih =>
    obtain ⟨a, found, _, up⟩ := edge
    obtain ⟨middle, path, b, found', _, up'⟩ := Relation.TransGen.tail'_iff.mp second
    cases found.symm.trans found'
    cases up.symm.trans up'
    rcases Relation.reflTransGen_iff_eq_or_transGen.mp path with rfl | path
    · exact .inr (.inl before)
    · exact ih path

end Below

/-- Ranks grow by one along every edge. -/
def Ranked (t : Table κ α) (parent : α → Option κ) (rank : α → ℕ) : Prop :=
  ∀ k a p, t.get? k = some a → parent a = some p → ∃ b, t.get? p = some b ∧ rank a = rank b + 1

namespace Ranked

variable {rank : α → ℕ}

theorem lt (ranked : t.Ranked parent rank) {a b : α} (found : t.get? p = some a) (found' : t.get? k = some b)
    (below : t.Below parent keep p k) : rank a < rank b := by
  induction below generalizing b with
  | single edge =>
    obtain ⟨c, stored, _, up⟩ := edge
    obtain ⟨d, above, grows⟩ := ranked _ c _ stored up
    cases found'.symm.trans stored
    cases found.symm.trans above
    omega
  | tail _ edge ih =>
    obtain ⟨c, stored, _, up⟩ := edge
    obtain ⟨d, above, grows⟩ := ranked _ c _ stored up
    cases found'.symm.trans stored
    have := ih above
    omega

theorem irrefl (ranked : t.Ranked parent rank) : ¬t.Below parent keep k k := by
  intro below
  obtain ⟨_, _, a, found, _, _⟩ := Relation.TransGen.tail'_iff.mp below
  exact absurd (ranked.lt found found below) (Nat.lt_irrefl _)

end Ranked

end PersistentHarness.Table
