import Mathlib.Algebra.Order.BigOperators.Group.List
import PersistentHarness.Model.Session.Views

/-! # The navigator keeps families together

What the queries return is live and listed once. A chain over rows that hold every live ancestor is closed under
live parents, so the choice, which takes whole chains, is closed too. Two bounds can hide an ancestor: no chain
has more than 65 rows, and the context query returns at most 64 rows for each session of the limit.
-/

namespace PersistentHarness.SessionStore

open Navigator

/-- A live row of the table. -/
def LiveEntry (sessions : Sessions) (entry : SessionEntry) : Prop :=
  sessions.get? entry.1 = some entry.2 ∧ entry.2.deleted = false

theorem mem_liveRows {sessions : Sessions} {entry : SessionEntry} :
    entry ∈ liveRows sessions ↔ LiveEntry sessions entry := by
  rw [liveRows, List.mem_filter, Table.mem_rows, LiveEntry, Bool.not_eq_true']

/-! ## Queries -/

section Queries

variable {rows : List SessionEntry} {le : SessionEntry → SessionEntry → Bool} {limit : ℕ} {entry : SessionEntry}

theorem mem_of_mem_ordered (member : entry ∈ ordered rows le limit) : entry ∈ rows :=
  (List.mem_insertionSort _).mp (List.mem_of_mem_take member)

theorem mem_ordered_of_length_le (member : entry ∈ rows) (room : rows.length ≤ limit) :
    entry ∈ ordered rows le limit := by
  rw [ordered, List.take_of_length_le (by rwa [List.length_insertionSort])]
  exact (List.mem_insertionSort _).mpr member

end Queries

theorem get?_addRows (byId : Sessions) (rows : List SessionEntry) (id : JsString) :
    (addRows byId rows).get? id = (byId.get? id).or (Assoc.lookup rows id) := by
  induction rows generalizing byId with
  | nil => rw [addRows, List.foldl_nil, Assoc.lookup_nil, Option.or_none]
  | cons row rest ih =>
    obtain ⟨key, value⟩ := row
    show (addRows (byId.insertOrIgnore key value) rest).get? id = _
    rw [ih, Table.get?_insertOrIgnore, Assoc.lookup_cons]
    by_cases same : key = id
    · subst same
      cases byId.get? key <;> simp
    · simp [same, Ne.symm same]

/-- The rows of a map that was filled from an empty one are among the rows it was filled with. -/
theorem mem_of_get?_addRows {rows : List SessionEntry} {entry : SessionEntry}
    (found : (addRows .empty rows).get? entry.1 = some entry.2) : entry ∈ rows := by
  rw [get?_addRows, Table.get?_empty, Option.none_or] at found
  exact Assoc.mem_of_lookup found

/-- Rows of one table fill a map with the rows of the table. -/
theorem get?_addRows_of_live {sessions byId : Sessions} {rows : List SessionEntry}
    (old : ∀ id row, byId.get? id = some row → LiveEntry sessions (id, row))
    (new : ∀ entry ∈ rows, LiveEntry sessions entry) {id : JsString} {row : Session}
    (found : (addRows byId rows).get? id = some row) : LiveEntry sessions (id, row) := by
  rw [get?_addRows] at found
  rcases Option.or_eq_some_iff.mp found with known | ⟨-, added⟩
  · exact old id row known
  · exact new _ (Assoc.mem_of_lookup added)

/-- A live row that is added is found in the map. -/
theorem get?_addRows_of_mem {sessions byId : Sessions} {rows : List SessionEntry}
    (old : ∀ id row, byId.get? id = some row → LiveEntry sessions (id, row))
    (new : ∀ entry ∈ rows, LiveEntry sessions entry) {entry : SessionEntry} (member : entry ∈ rows) :
    (addRows byId rows).get? entry.1 = some entry.2 := by
  cases found : (addRows byId rows).get? entry.1 with
  | some row =>
    have stored := (get?_addRows_of_live old new found).1
    rw [(new entry member).1] at stored
    exact stored.symm
  | none =>
    rw [get?_addRows, Option.or_eq_none_iff] at found
    exact absurd (List.mem_map_of_mem (f := Prod.fst) member) (Assoc.lookup_eq_none_iff.mp found.2)

section Candidates

variable {s : Store} {limit : ℕ} {preferred : List JsString} {entry : SessionEntry} {id : JsString} {row : Session}

theorem live_of_mem_priorityRows (member : entry ∈ priorityRows s preferred limit) : LiveEntry s.sessions entry :=
  mem_liveRows.mp (List.mem_of_mem_filter (mem_of_mem_ordered member))

theorem live_of_mem_newestRows (member : entry ∈ newestRows s.sessions limit) : LiveEntry s.sessions entry :=
  mem_liveRows.mp (mem_of_mem_ordered member)

theorem live_of_mem_queries (member : entry ∈ priorityRows s preferred limit ++ newestRows s.sessions limit) :
    LiveEntry s.sessions entry := by
  rcases List.mem_append.mp member with priority | newest
  · exact live_of_mem_priorityRows priority
  · exact live_of_mem_newestRows newest

theorem live_of_candidate (found : (navigatorCandidates s limit preferred).get? id = some row) :
    LiveEntry s.sessions (id, row) :=
  live_of_mem_queries (mem_of_get?_addRows found)

theorem live_of_mem_contextRows {candidates : List SessionEntry}
    (member : entry ∈ contextRows s.sessions candidates limit) : LiveEntry s.sessions entry :=
  mem_liveRows.mp (List.mem_of_mem_filter (mem_of_mem_ordered member))

theorem live_of_navigatorRows (found : (navigatorRows s limit preferred).get? id = some row) :
    LiveEntry s.sessions (id, row) :=
  get?_addRows_of_live (fun _ _ => live_of_candidate) (fun _ => live_of_mem_contextRows) found

theorem mem_queries_of_mem_orderedCandidates (member : entry ∈ orderedCandidates s limit preferred) :
    entry ∈ priorityRows s preferred limit ++ newestRows s.sessions limit := by
  have found := mem_of_get?_addRows (Table.mem_rows.mp member)
  rcases List.mem_append.mp found with front | newest
  · rcases List.mem_append.mp front with reserved | priority
    · exact List.mem_append_right _ (List.mem_of_mem_take reserved)
    · exact List.mem_append_left _ priority
  · exact List.mem_append_right _ newest

theorem live_of_mem_orderedCandidates (member : entry ∈ orderedCandidates s limit preferred) :
    LiveEntry s.sessions entry :=
  live_of_mem_queries (mem_queries_of_mem_orderedCandidates member)

theorem live_of_empty (found : (Table.empty : Sessions).get? id = some row) : LiveEntry s.sessions (id, row) := by
  rw [Table.get?_empty] at found
  contradiction

theorem candidate_of_mem_orderedCandidates (member : entry ∈ orderedCandidates s limit preferred) :
    (navigatorCandidates s limit preferred).get? entry.1 = some entry.2 :=
  get?_addRows_of_mem (fun _ _ => live_of_empty) (fun _ => live_of_mem_queries)
    (mem_queries_of_mem_orderedCandidates member)

theorem mem_orderedCandidates_of_newest (newest : entry ∈ newestRows s.sessions limit) :
    entry ∈ orderedCandidates s limit preferred := by
  have all : ∀ entry ∈ (newestRows s.sessions limit).take (max 1 (limit / 8)) ++ priorityRows s preferred limit
      ++ newestRows s.sessions limit, LiveEntry s.sessions entry := by
    intro entry member
    rcases List.mem_append.mp member with front | newest
    · rcases List.mem_append.mp front with reserved | priority
      · exact live_of_mem_newestRows (List.mem_of_mem_take reserved)
      · exact live_of_mem_priorityRows priority
    · exact live_of_mem_newestRows newest
  exact Table.mem_rows.mpr (get?_addRows_of_mem (fun _ _ => live_of_empty) all (List.mem_append_right _ newest))

/-- Every live ancestor of a candidate, up to 64 hops away, is in hand when the context query cuts nothing off. -/
theorem mem_navigatorRows_of_parentIds
    (uncut : (ancestorRows s.sessions (navigatorCandidates s limit preferred).rows).length ≤ limit * maxAncestorDepth)
    {candidate : SessionEntry} (chosen : (navigatorCandidates s limit preferred).get? candidate.1 = some candidate.2)
    (above : id ∈ parentIds s.sessions maxAncestorDepth candidate.1) (live : LiveEntry s.sessions (id, row)) :
    (navigatorRows s limit preferred).get? id = some row := by
  have ancestor : (id, row) ∈ ancestorRows s.sessions (navigatorCandidates s limit preferred).rows := by
    refine List.mem_filter.mpr ⟨mem_liveRows.mpr live, decide_eq_true ?_⟩
    exact List.mem_flatMap.mpr ⟨candidate, Table.mem_rows.mpr chosen, above⟩
  exact get?_addRows_of_mem (fun _ _ => live_of_candidate) (fun _ => live_of_mem_contextRows)
    (mem_ordered_of_length_le ancestor uncut)

end Candidates

/-! ## Chains -/

/-- The parent of every row that is among the ids is among them when it is live. -/
def FamilyClosed (sessions : Sessions) (ids : List JsString) : Prop :=
  ∀ id ∈ ids, ∀ row above parent, sessions.get? id = some row → row.parentSessionId = some parent →
    LiveEntry sessions (parent, above) → parent ∈ ids

section Chains

variable {sessions byId : Sessions} {room : ℕ} {seen : List JsString} {entry : SessionEntry}

theorem chain_forall {P : SessionEntry → Prop} (held : ∀ id row, byId.get? id = some row → P (id, row))
    (here : P entry) : ∀ other ∈ chain byId room seen entry, P other := by
  induction room generalizing seen entry with
  | zero =>
    intro other member
    cases member
  | succ room ih =>
    intro other member
    unfold chain at member
    split at member
    · cases member
    · rcases List.mem_append.mp member with further | last
      · split at further
        · cases further
        · next parent _ =>
          split at further
          · cases further
          · next above found => exact ih (held parent above found) other further
      · obtain rfl := List.mem_singleton.mp last
        exact here

/-- A chain lists no row twice, and none that was seen before. -/
theorem chain_nodup : (Assoc.keys (chain byId room seen entry)).Nodup ∧
    ∀ id ∈ Assoc.keys (chain byId room seen entry), id ∉ seen := by
  induction room generalizing seen entry with
  | zero => exact ⟨List.nodup_nil, fun _ member => absurd member List.not_mem_nil⟩
  | succ room ih =>
    unfold chain
    split
    · exact ⟨List.nodup_nil, fun _ member => absurd member List.not_mem_nil⟩
    · next fresh =>
      have alone : (Assoc.keys [entry]).Nodup ∧ ∀ id ∈ Assoc.keys [entry], id ∉ seen := by
        refine ⟨List.nodup_singleton _, fun id member => ?_⟩
        obtain rfl := List.mem_singleton.mp member
        exact fresh
      split
      · exact alone
      · next parent _ =>
        split
        · exact alone
        · next above _ =>
          obtain ⟨unique, unseen⟩ := @ih (entry.1 :: seen) (parent, above)
          rw [Assoc.keys_append]
          refine ⟨List.nodup_append.mpr ⟨unique, alone.1, fun id member other last same => ?_⟩, fun id member => ?_⟩
          · obtain rfl := List.mem_singleton.mp last
            exact unseen id member (same ▸ List.mem_cons_self ..)
          · rcases List.mem_append.mp member with further | last
            · exact fun old => unseen id further (List.mem_cons_of_mem _ old)
            · exact alone.2 id last

theorem mem_chain_self (fresh : entry.1 ∉ seen) : entry ∈ chain byId (room + 1) seen entry := by
  unfold chain
  rw [if_neg fresh]
  exact List.mem_append_right _ (List.mem_singleton_self _)

def Deeper (sessions : Sessions) (depth : ℕ) (seen : List JsString) : Prop :=
  ∀ id ∈ seen, ∃ row, sessions.get? id = some row ∧ depth < row.depth

theorem Deeper.fresh {id : JsString} {row : Session} (deeper : Deeper sessions row.depth seen)
    (found : sessions.get? id = some row) : id ∉ seen := by
  intro old
  obtain ⟨row, stored, lower⟩ := deeper _ old
  cases found.symm.trans stored
  exact absurd lower (Nat.lt_irrefl _)

/-- A step up leaves the row itself behind. -/
theorem Deeper.up (deeper : Deeper sessions entry.2.depth seen) (found : sessions.get? entry.1 = some entry.2)
    {above : Session} (rises : entry.2.depth = above.depth + 1) : Deeper sessions above.depth (entry.1 :: seen) := by
  intro id member
  rcases List.mem_cons.mp member with rfl | old
  · exact ⟨entry.2, found, by omega⟩
  · obtain ⟨row, stored, lower⟩ := deeper id old
    exact ⟨row, stored, by omega⟩

theorem mem_parentIds {hops : ℕ} {id parent other : JsString} {row : Session} (found : sessions.get? id = some row)
    (edge : row.parentSessionId = some parent) :
    other ∈ parentIds sessions (hops + 1) id ↔ other = parent ∨ other ∈ parentIds sessions hops parent := by
  rw [parentIds, found, Option.bind_some, edge]
  exact List.mem_cons

theorem ancestor_eq_some {row : Session} {parent : JsString} :
    row.ancestor = some parent ↔ row.parentSessionId = some parent ∧ parent ≠ [] := by
  rw [Session.ancestor, Option.filter_eq_some_iff, decide_eq_true_iff]

theorem mem_chain_above {other : SessionEntry} (fresh : entry.1 ∉ seen) :
    other ∈ chain byId (room + 1) seen entry ↔ other = entry ∨ ∃ parent above, entry.2.ancestor = some parent ∧
      byId.get? parent = some above ∧ other ∈ chain byId room (entry.1 :: seen) (parent, above) := by
  conv_lhs => unfold chain
  rw [if_neg fresh, List.mem_append, List.mem_singleton, or_comm]
  cases entry.2.ancestor with
  | none => simp
  | some parent =>
    cases found : byId.get? parent with
    | none => simp [found]
    | some above => simp [found]

/-- A chain that starts no deeper than its room, over rows that hold the live ancestors, is closed. -/
theorem chain_closed (ranked : sessions.Ranked Session.parentSessionId Session.depth) (named : sessions.get? [] = none)
    (live : LiveEntry sessions entry) (room_ : entry.2.depth ≤ room)
    (deeper : Deeper sessions entry.2.depth seen) (held : ∀ id row, byId.get? id = some row → LiveEntry sessions (id, row))
    (known : ∀ id ∈ parentIds sessions room entry.1, ∀ row, LiveEntry sessions (id, row) → byId.get? id = some row) :
    FamilyClosed sessions (Assoc.keys (chain byId (room + 1) seen entry)) := by
  induction room generalizing seen entry with
  | zero =>
    intro id member row above parent found edge liveAbove
    obtain ⟨⟨key, other⟩, listed, rfl⟩ := List.mem_map.mp member
    rcases (mem_chain_above (deeper.fresh live.1)).mp listed with rfl | ⟨_, _, -, -, further⟩
    · cases live.1.symm.trans found
      obtain ⟨there, -, rises⟩ := ranked key _ parent found edge
      omega
    · cases further
  | succ room ih =>
    intro id member row above parent found edge liveAbove
    have fresh : entry.1 ∉ seen := deeper.fresh live.1
    have closed : ∀ {up : JsString} {there : Session}, entry.2.ancestor = some up → byId.get? up = some there →
        FamilyClosed sessions (Assoc.keys (chain byId (room + 1) (entry.1 :: seen) (up, there))) := by
      intro up there upward stored
      obtain ⟨upEdge, -⟩ := ancestor_eq_some.mp upward
      obtain ⟨also, stored', rises⟩ := ranked entry.1 _ up live.1 upEdge
      cases (held up there stored).1.symm.trans stored'
      refine ih (held up there stored) (by omega) (deeper.up live.1 rises) fun id further => known id ?_
      exact (mem_parentIds live.1 upEdge).mpr (.inr further)
    obtain ⟨⟨key, other⟩, listed, rfl⟩ := List.mem_map.mp member
    rcases (mem_chain_above fresh).mp listed with rfl | ⟨up, there, upward, stored, further⟩
    · -- the last row: its live parent is in hand, and goes on top of it
      cases live.1.symm.trans found
      have nonempty : parent ≠ [] := by
        rintro rfl
        exact absurd (named.symm.trans liveAbove.1) (by simp)
      have upward : other.ancestor = some parent := ancestor_eq_some.mpr ⟨edge, nonempty⟩
      have stored : byId.get? parent = some above :=
        known parent ((mem_parentIds live.1 edge).mpr (.inl rfl)) above liveAbove
      obtain ⟨also, stored', rises⟩ := ranked key _ parent live.1 edge
      cases liveAbove.1.symm.trans stored'
      have topmost : parent ∉ key :: seen := (deeper.up live.1 rises).fresh liveAbove.1
      exact List.mem_map.mpr ⟨(parent, above),
        (mem_chain_above fresh).mpr (.inr ⟨parent, above, upward, stored, mem_chain_self topmost⟩), rfl⟩
    · obtain ⟨⟨_, row'⟩, topped, rfl⟩ := List.mem_map.mp
        (closed upward stored key (List.mem_map.mpr ⟨(key, other), further, rfl⟩) row above parent found edge liveAbove)
      exact List.mem_map.mpr ⟨_, (mem_chain_above fresh).mpr (.inr ⟨up, there, upward, stored, topped⟩), rfl⟩

end Chains

/-! ## The greedy choice -/

section Choice

variable {sessions byId : Sessions} {limit : ℕ} {candidates : List SessionEntry} {selected : List JsString}

theorem mem_append_missingIds {candidate : SessionEntry} {id : JsString} :
    id ∈ selected ++ missingIds byId selected candidate ↔
      id ∈ selected ∨ id ∈ Assoc.keys (chain byId (maxAncestorDepth + 1) [] candidate) := by
  rw [missingIds, List.mem_append, List.mem_filter, decide_eq_true_iff]
  by_cases chosen : id ∈ selected <;> simp [chosen, Assoc.keys]

/-- What every chain that fits keeps holds of the choice. -/
theorem selectIds_induction {P : List JsString → Prop}
    (step : ∀ candidate ∈ candidates, ∀ selected, P selected →
      selected.length + (missingIds byId selected candidate).length ≤ limit →
      P (selected ++ missingIds byId selected candidate))
    (start : P selected) : P (selectIds byId limit candidates selected) := by
  induction candidates generalizing selected with
  | nil => exact start
  | cons candidate rest ih =>
    have further : ∀ {next : List JsString}, P next →
        P (if next.length = limit then next else selectIds byId limit rest next) := by
      intro next holds
      split
      · exact holds
      · exact ih (fun other member => step other (List.mem_cons_of_mem _ member)) holds
    unfold selectIds
    refine further ?_
    split
    · next fits => exact step candidate (List.mem_cons_self ..) selected start fits
    · exact start

/-- Distinct live sessions, at most so many. -/
structure Choice (sessions : Sessions) (limit : ℕ) (ids : List JsString) : Prop where
  unique : ids.Nodup
  bound : ids.length ≤ limit
  live : ∀ id ∈ ids, ∃ row, LiveEntry sessions (id, row)

theorem Choice.add (held : ∀ id row, byId.get? id = some row → LiveEntry sessions (id, row)) {candidate : SessionEntry}
    (live : LiveEntry sessions candidate) (choice : Choice sessions limit selected)
    (fits : selected.length + (missingIds byId selected candidate).length ≤ limit) :
    Choice sessions limit (selected ++ missingIds byId selected candidate) := by
  refine ⟨?_, by rwa [List.length_append], fun id member => ?_⟩
  · refine List.nodup_append.mpr ⟨choice.unique, chain_nodup.1.filter _, fun id chosen other added same => ?_⟩
    have outside := of_decide_eq_true (List.mem_filter.mp added).2
    exact outside (same ▸ chosen)
  · rcases mem_append_missingIds.mp member with chosen | chained
    · exact choice.live id chosen
    · obtain ⟨⟨key, row⟩, listed, rfl⟩ := List.mem_map.mp chained
      exact ⟨row, chain_forall held live _ listed⟩

theorem FamilyClosed.add {candidate : SessionEntry} (closed : FamilyClosed sessions selected)
    (chained : FamilyClosed sessions (Assoc.keys (chain byId (maxAncestorDepth + 1) [] candidate))) :
    FamilyClosed sessions (selected ++ missingIds byId selected candidate) := by
  intro id member row above parent found edge live
  rw [mem_append_missingIds] at member ⊢
  rcases member with chosen | added
  · exact .inl (closed id chosen row above parent found edge live)
  · exact .inr (chained id added row above parent found edge live)

theorem subset_selectIds : selected ⊆ selectIds byId limit candidates selected :=
  selectIds_induction (P := fun ids => selected ⊆ ids)
    (fun _ _ _ old _ => fun _ member => List.mem_append_left _ (old member)) (List.Subset.refl _)

theorem Choice.length_le_live (choice : Choice sessions limit selected) :
    selected.length ≤ (liveRows sessions).length ∧
      ((liveRows sessions).length ≤ selected.length → ∀ entry, LiveEntry sessions entry → entry.1 ∈ selected) := by
  have within : selected ⊆ Assoc.keys (liveRows sessions) := by
    intro id member
    obtain ⟨row, live⟩ := choice.live id member
    exact List.mem_map.mpr ⟨(id, row), mem_liveRows.mpr live, rfl⟩
  have subperm := List.subperm_of_subset choice.unique within
  have keys_length : (Assoc.keys (liveRows sessions)).length = (liveRows sessions).length := List.length_map ..
  refine ⟨keys_length ▸ subperm.length_le, fun full entry live => ?_⟩
  exact (subperm.perm_of_length_le (keys_length ▸ full)).mem_iff.mpr
    (List.mem_map.mpr ⟨entry, mem_liveRows.mpr live, rfl⟩)

theorem mem_selectIds_of_live_le (few : (liveRows sessions).length ≤ limit)
    (held : ∀ id row, byId.get? id = some row → LiveEntry sessions (id, row))
    (live : ∀ candidate ∈ candidates, LiveEntry sessions candidate) (choice : Choice sessions limit selected) :
    ∀ candidate ∈ candidates, candidate.1 ∈ selectIds byId limit candidates selected := by
  induction candidates generalizing selected with
  | nil => exact fun _ member => absurd member List.not_mem_nil
  | cons candidate rest ih =>
    have here := live candidate (List.mem_cons_self ..)
    have roomy : Choice sessions (selected.length + (missingIds byId selected candidate).length)
        (selected ++ missingIds byId selected candidate) :=
      Choice.add held here ⟨choice.unique, Nat.le_add_right .., choice.live⟩ (Nat.le_refl _)
    have fits : selected.length + (missingIds byId selected candidate).length ≤ limit := by
      have bounded := roomy.length_le_live.1
      rw [List.length_append] at bounded
      omega
    have next := Choice.add held here choice fits
    have joined : candidate.1 ∈ selected ++ missingIds byId selected candidate :=
      mem_append_missingIds.mpr (.inr (List.mem_map.mpr ⟨candidate, mem_chain_self List.not_mem_nil, rfl⟩))
    intro other member
    unfold selectIds
    simp only [if_pos fits]
    split
    · next full => exact next.length_le_live.2 (full ▸ few) other (live other member)
    · rcases List.mem_cons.mp member with rfl | later
      · exact subset_selectIds joined
      · exact ih (fun other member => live other (List.mem_cons_of_mem _ member)) next other later

end Choice

/-! ## The list -/

section Lists

variable {s : Store} {limit : ℕ} {preferred : List JsString}

theorem navigatorSelection_choice (s : Store) (limit : ℕ) (preferred : List JsString) :
    Choice s.sessions limit (navigatorSelection s limit preferred) :=
  selectIds_induction (fun _ member _ choice fits =>
      choice.add (fun _ _ => live_of_navigatorRows) (live_of_mem_orderedCandidates member) fits)
    ⟨List.nodup_nil, Nat.zero_le _, fun _ member => absurd member List.not_mem_nil⟩

/-- No live session lies deeper than the ancestor bound. -/
def Shallow (sessions : Sessions) : Prop := ∀ entry, LiveEntry sessions entry → entry.2.depth ≤ maxAncestorDepth

/-- The limit of the context query leaves out no ancestor. -/
def ContextFits (s : Store) (limit : ℕ) (preferred : List JsString) : Prop :=
  (ancestorRows s.sessions (navigatorCandidates s limit preferred).rows).length ≤ limit * maxAncestorDepth

/-- Parents lie one level above their children, and no session has the empty id. -/
structure Consistent (sessions : Sessions) : Prop where
  ranked : sessions.Ranked Session.parentSessionId Session.depth
  named : sessions.get? [] = none

theorem mem_navigatorRows_of_selected : ∀ id ∈ navigatorSelection s limit preferred,
    ∃ row, (navigatorRows s limit preferred).get? id = some row := by
  refine selectIds_induction (P := fun ids => ∀ id ∈ ids, ∃ row, (navigatorRows s limit preferred).get? id = some row)
    (fun candidate member selected known _ id added => ?_) fun _ member => absurd member List.not_mem_nil
  rcases mem_append_missingIds.mp added with chosen | chained
  · exact known id chosen
  · obtain ⟨⟨key, row⟩, listed, rfl⟩ := List.mem_map.mp chained
    have inHand : (navigatorRows s limit preferred).get? candidate.1 = some candidate.2 := by
      rw [navigatorRows, get?_addRows, candidate_of_mem_orderedCandidates member, Option.some_or]
    exact ⟨row, chain_forall (P := fun entry => (navigatorRows s limit preferred).get? entry.1 = some entry.2)
      (fun _ _ stored => stored) inHand _ listed⟩

theorem navigatorSelection_closed (consistent : Consistent s.sessions) (shallow : Shallow s.sessions)
    (fits : ContextFits s limit preferred) : FamilyClosed s.sessions (navigatorSelection s limit preferred) := by
  refine selectIds_induction (fun candidate member _ closed _ => closed.add ?_) fun _ member => absurd member List.not_mem_nil
  have live := live_of_mem_orderedCandidates member
  exact chain_closed consistent.ranked consistent.named live (shallow candidate live)
    (fun _ old => absurd old List.not_mem_nil) (fun _ _ => live_of_navigatorRows)
    fun id above row there => mem_navigatorRows_of_parentIds fits (candidate_of_mem_orderedCandidates member) above there

theorem mem_navigatorSelection_of_few (few : (liveRows s.sessions).length ≤ limit) {entry : SessionEntry}
    (live : LiveEntry s.sessions entry) : entry.1 ∈ navigatorSelection s limit preferred :=
  mem_selectIds_of_live_le few (fun _ _ => live_of_navigatorRows) (fun _ => live_of_mem_orderedCandidates)
    ⟨List.nodup_nil, Nat.zero_le _, fun _ member => absurd member List.not_mem_nil⟩ entry
    (mem_orderedCandidates_of_newest (mem_ordered_of_length_le (mem_liveRows.mpr live) few))

theorem selectedRows_keys (localeCompare : JsString → JsString → ℤ) :
    (Assoc.keys (selectedRows localeCompare (navigatorRows s limit preferred) (navigatorSelection s limit preferred))).Perm
      (navigatorSelection s limit preferred) := by
  have found : ∀ ids : List JsString, (∀ id ∈ ids, ∃ row, (navigatorRows s limit preferred).get? id = some row) →
      Assoc.keys (ids.filterMap fun id => ((navigatorRows s limit preferred).get? id).map fun row => (id, row)) = ids := by
    intro ids known
    induction ids with
    | nil => rfl
    | cons id rest ih =>
      obtain ⟨row, stored⟩ := known id (List.mem_cons_self ..)
      rw [List.filterMap_cons, stored, Option.map_some]
      exact congrArg (id :: ·) (ih fun other member => known other (List.mem_cons_of_mem _ member))
  have sorted := (List.perm_insertionSort (fun a b : SessionEntry =>
      (if a.2.createdAt - b.2.createdAt ≠ 0 then a.2.createdAt - b.2.createdAt else localeCompare a.1 b.1) ≤ 0)
    ((navigatorSelection s limit preferred).filterMap fun id =>
      ((navigatorRows s limit preferred).get? id).map fun row => (id, row))).map Prod.fst
  exact sorted.trans (.of_eq (found _ mem_navigatorRows_of_selected))

/-- A live session is shown under its id, below its parent. -/
theorem navigatorView_of_live {sessions byId : Sessions} {entry : SessionEntry} (live : LiveEntry sessions entry) :
    ∃ view, navigatorView sessions byId limit entry = some view ∧ view.sessionId = entry.1 := by
  rw [navigatorView, mappedSession, live.1]
  exact ⟨_, rfl, rfl⟩

theorem sessionIds_of_live {sessions byId : Sessions} {rows : List SessionEntry}
    (live : ∀ entry ∈ rows, LiveEntry sessions entry) :
    (rows.filterMap (navigatorView sessions byId limit)).map SessionView.sessionId = Assoc.keys rows := by
  induction rows with
  | nil => rfl
  | cons entry rest ih =>
    obtain ⟨view, shown, named⟩ : ∃ view, navigatorView sessions byId limit entry = some view ∧ view.sessionId = entry.1 :=
      navigatorView_of_live (live entry (List.mem_cons_self ..))
    rw [List.filterMap_cons, shown, List.map_cons, named, ih fun other member => live other (List.mem_cons_of_mem _ member)]
    rfl

theorem count_live (sessions : Sessions) :
    (sessions.count fun _ row => !row.deleted) = (liveRows sessions).length := by
  rw [Table.count, liveRows, List.countP_eq_length_filter]

theorem listNavigatorSessions_eq (localeCompare : JsString → JsString → ℤ) (s : Store) (limit : ℤ)
    (preferredSessionIds : List Value) (inRange : 1 ≤ limit ∧ limit ≤ maxNavigatorSessions) :
    ∃ list, listNavigatorSessions localeCompare s limit preferredSessionIds = .ok list ∧
      (list.sessions.map SessionView.sessionId).Perm
        (navigatorSelection s limit.toNat (preferredIds limit.toNat preferredSessionIds)) := by
  rw [listNavigatorSessions, Checked.require_of inRange, Checked.ok_bind]
  have selection : ∀ preferred, (Assoc.keys (selectedRows localeCompare (navigatorRows s limit.toNat preferred)
      (navigatorSelection s limit.toNat preferred))).Perm (navigatorSelection s limit.toNat preferred) :=
    fun _ => selectedRows_keys localeCompare
  by_cases nothing : (s.sessions.count fun _ row => !row.deleted) = 0
  · have choice := navigatorSelection_choice s limit.toNat (preferredIds limit.toNat preferredSessionIds)
    have bounded := choice.length_le_live.1
    rw [← count_live, nothing] at bounded
    rw [List.length_eq_zero_iff.mp (Nat.le_zero.mp bounded)]
    exact ⟨_, if_pos nothing, .refl _⟩
  · refine ⟨_, if_neg nothing, ?_⟩
    rw [sessionIds_of_live]
    · exact selection _
    · intro entry member
      obtain ⟨id, -, kept⟩ := List.mem_filterMap.mp ((List.mem_insertionSort _).mp member)
      obtain ⟨row, stored, rfl⟩ := Option.map_eq_some_iff.mp kept
      exact live_of_navigatorRows stored

end Lists

/-- What a list shows: distinct live sessions within the limit, all of them when they fit, and families in one piece
when the live sessions lie within the ancestor bound and the context query leaves out no ancestor. -/
theorem listNavigatorSessions_families (localeCompare : JsString → JsString → ℤ) (s : Store) (limit : ℤ)
    (preferredSessionIds : List Value) (list : NavigatorList) (consistent : Consistent s.sessions)
    (listed : listNavigatorSessions localeCompare s limit preferredSessionIds = .ok list) :
    (list.sessions.map SessionView.sessionId).Nodup ∧
    (∀ view ∈ list.sessions, ∃ row, LiveEntry s.sessions (view.sessionId, row)) ∧
    list.sessions.length ≤ limit ∧
    (s.sessions.count (fun _ row => !row.deleted) ≤ limit →
      ∀ entry, LiveEntry s.sessions entry → entry.1 ∈ list.sessions.map SessionView.sessionId) ∧
    (Shallow s.sessions → ContextFits s limit.toNat (preferredIds limit.toNat preferredSessionIds) →
      FamilyClosed s.sessions (list.sessions.map SessionView.sessionId)) := by
  have inRange : 1 ≤ limit ∧ limit ≤ maxNavigatorSessions := by
    obtain ⟨_, checked, -⟩ := Checked.bind_eq_ok.mp listed
    exact Checked.require_eq_ok.mp checked
  obtain ⟨other, same, selection⟩ := listNavigatorSessions_eq localeCompare s limit preferredSessionIds inRange
  cases listed.symm.trans same
  have choice := navigatorSelection_choice s limit.toNat (preferredIds limit.toNat preferredSessionIds)
  refine ⟨selection.nodup_iff.mpr choice.unique, fun view member => ?_, ?_, fun few entry live => ?_, fun shallow fits => ?_⟩
  · exact choice.live _ (selection.mem_iff.mp (List.mem_map_of_mem member))
  · have bounded := choice.bound
    rw [← selection.length_eq, List.length_map] at bounded
    omega
  · rw [count_live] at few
    exact selection.mem_iff.mpr (mem_navigatorSelection_of_few (by omega) live)
  · intro id member row above parent found edge live
    rw [selection.mem_iff] at member ⊢
    exact navigatorSelection_closed consistent shallow fits id member row above parent found edge live

/-! ## Families that the bounds split -/

instance (sessions : Sessions) (ids : List JsString) : Decidable (FamilyClosed sessions ids) :=
  decidable_of_iff (∀ id ∈ ids, ∀ row ∈ (sessions.get? id).toList, ∀ parent ∈ row.parentSessionId.toList,
      ∀ above ∈ (sessions.get? parent).toList, above.deleted = false → parent ∈ ids) <| by
    simp only [Option.mem_toList, FamilyClosed, LiveEntry]
    constructor
    · intro closed id member row above parent found edge live
      exact closed id member row found parent edge above live.1 live.2
    · intro closed id member row found parent edge above there live
      exact closed id member row above parent found edge ⟨there, live⟩

instance (sessions : Sessions) : Decidable (Shallow sessions) :=
  decidable_of_iff (∀ entry ∈ liveRows sessions, entry.2.depth ≤ maxAncestorDepth) <| by
    simp only [mem_liveRows, Shallow]

instance (sessions : Sessions) : Decidable (Consistent sessions) :=
  decidable_of_iff ((∀ entry ∈ sessions.rows, ∀ parent ∈ entry.2.parentSessionId.toList,
      (sessions.get? parent).any fun above => entry.2.depth = above.depth + 1) ∧ sessions.get? [] = none) <| by
    simp only [Option.mem_toList, Option.any_eq_true, decide_eq_true_iff]
    constructor
    · rintro ⟨edges, named⟩
      refine ⟨fun id row parent found edge => ?_, named⟩
      obtain ⟨above, there, rises⟩ := edges (id, row) (Table.mem_rows.mpr found) parent edge
      exact ⟨above, there, rises⟩
    · rintro ⟨ranked, named⟩
      refine ⟨fun entry member parent edge => ?_, named⟩
      obtain ⟨above, there, rises⟩ := ranked entry.1 entry.2 parent (Table.mem_rows.mp member) edge
      exact ⟨above, there, rises⟩

/-- The id of the session with this number. -/
def lineId (n : ℕ) : JsString := [UInt16.ofNat (n + 97)]

/-- Sessions that are each the child of the one before, the youngest at work or stopped. -/
def line (first length : ℕ) (activity : Activity) : List SessionEntry :=
  (List.range length).map fun depth =>
    (lineId (first + depth),
      { shortId := lineId (first + depth), sessionFile := none, cwd := js "/workspace", repositoryRoot := none
        displayName := lineId (first + depth), kind := if depth = 0 then .root else .child, familyId := js "local-roots"
        parentSessionId := if depth = 0 then none else some (lineId (first + depth - 1)), depth
        activity := if depth + 1 = length then activity else .inactive, streaming := false, lifecycle := .stopped
        actorToken := [], actorGeneration := 1, actorPid := none, actorIdentity := none, launch := none, scratch := none
        quietSince := none, lastError := none, createdAt := depth, updatedAt := depth, lastActivityAt := none
        startedAt := none, stoppedAt := none, deletedAt := none })

/-- A store that holds these sessions and nothing else. -/
def storeOf (rows : List SessionEntry) : Store := { Store.empty with sessions := addRows .empty rows }

/-- A family of 66 generations. -/
def deepStore : Store := storeOf (line 0 66 .inactive)

/-- Two families of 34 generations, one with a session at work. -/
def forkedStore : Store := storeOf (line 0 34 .working ++ line 34 34 .inactive)

def unitCompare (a b : JsString) : ℤ := if a = b then 0 else if a.le b then -1 else 1

theorem FamilyClosed.of_perm {sessions : Sessions} {ids others : List JsString} (same : ids.Perm others)
    (closed : FamilyClosed sessions ids) : FamilyClosed sessions others := by
  intro id member row above parent found edge live
  exact same.mem_iff.mp (closed id (same.mem_iff.mpr member) row above parent found edge live)

/-- Both bounds split a family: a chain of 65 rows leaves its root out, and when two families share the rows of
one, the parent of a session that is shown alone is left out. -/
theorem listNavigatorSessions_splits_families :
    (Consistent deepStore.sessions ∧ ∃ list, listNavigatorSessions unitCompare deepStore 65 [] = .ok list ∧
      ¬FamilyClosed deepStore.sessions (list.sessions.map SessionView.sessionId)) ∧
    Consistent forkedStore.sessions ∧ Shallow forkedStore.sessions ∧
      ∃ list, listNavigatorSessions unitCompare forkedStore 1 [] = .ok list ∧
        ¬FamilyClosed forkedStore.sessions (list.sessions.map SessionView.sessionId) := by
  have deep : ¬FamilyClosed deepStore.sessions (navigatorSelection deepStore 65 []) := by decide +kernel
  have forked : ¬FamilyClosed forkedStore.sessions (navigatorSelection forkedStore 1 []) := by decide +kernel
  refine ⟨⟨by decide +kernel, ?_⟩, by decide +kernel, by decide +kernel, ?_⟩
  · obtain ⟨list, listed, selection⟩ := listNavigatorSessions_eq unitCompare deepStore 65 [] (by decide)
    exact ⟨list, listed, fun closed => deep (closed.of_perm selection)⟩
  · obtain ⟨list, listed, selection⟩ := listNavigatorSessions_eq unitCompare forkedStore 1 [] (by decide)
    exact ⟨list, listed, fun closed => forked (closed.of_perm selection)⟩

/-- A root and its child are listed together. -/
theorem listNavigatorSessions_families_sample :
    ∃ list, listNavigatorSessions unitCompare (storeOf (line 0 2 .working)) 5 [] = .ok list ∧
      lineId 1 ∈ list.sessions.map SessionView.sessionId ∧
      FamilyClosed (storeOf (line 0 2 .working)).sessions (list.sessions.map SessionView.sessionId) := by
  obtain ⟨list, listed, -⟩ :=
    listNavigatorSessions_eq unitCompare (storeOf (line 0 2 .working)) 5 [] (by decide)
  obtain ⟨-, -, -, all, closed⟩ := listNavigatorSessions_families unitCompare (storeOf (line 0 2 .working)) 5 [] list
    (by decide +kernel) listed
  refine ⟨list, listed, ?_, closed (by decide +kernel) (by unfold ContextFits; decide +kernel)⟩
  obtain ⟨row, live⟩ : ∃ row, (lineId 1, row) ∈ liveRows (storeOf (line 0 2 .working)).sessions := ⟨_, .tail _ (.head _)⟩
  exact all (by decide +kernel) _ (mem_liveRows.mp live)

end PersistentHarness.SessionStore
