import PersistentHarness.Data.Json
import PersistentHarness.Model.FileSearch

/-! # What a search finds

The walk visits the entries of a tree in one order, up to the bound on visited entries. The search is complete when it says so
exactly if the matches fill its limit within that bound, or none lies beyond it.
-/

namespace PersistentHarness.FileSearch

section Listing

mutual

/-- The entries below an entry, each before those below it. -/
def Entry.listing : Entry → List Path
  | .other => []
  | .unreadable => []
  | .directory entries => listing entries

def listing : List (JsString × Entry) → List Path
  | [] => []
  | (name, entry) :: rest => [name] :: entry.listing.map (name :: ·) ++ listing rest

end

/-- There is an entry at a path, in directories that can be read. -/
inductive Below : Entry → Path → Prop where
  | child {name : JsString} {entry : Entry} {entries : List (JsString × Entry)} (listed : (name, entry) ∈ entries) :
      Below (.directory entries) [name]
  | deeper {name : JsString} {entry : Entry} {entries : List (JsString × Entry)} {path : Path} (listed : (name, entry) ∈ entries)
      (below : Below entry path) : Below (.directory entries) (name :: path)

theorem listing_eq (entries : List (JsString × Entry)) :
    listing entries = entries.flatMap fun entry => [entry.1] :: entry.2.listing.map (entry.1 :: ·) := by
  induction entries with
  | nil => rfl
  | cons entry rest ih => rw [listing, ih, List.flatMap_cons, List.cons_append]

mutual

theorem mem_listing : ∀ (entry : Entry) (path : Path), path ∈ entry.listing ↔ Below entry path
  | .other, path => by
    refine ⟨fun member => absurd member List.not_mem_nil, ?_⟩
    rintro ⟨⟩
  | .unreadable, path => by
    refine ⟨fun member => absurd member List.not_mem_nil, ?_⟩
    rintro ⟨⟩
  | .directory entries, path => by
    rw [Entry.listing, mem_entries entries path]
    constructor
    · rintro (⟨name, entry, listed, rfl⟩ | ⟨name, entry, rest, listed, below, rfl⟩)
      · exact .child listed
      · exact .deeper listed below
    · intro below
      cases below with
      | child listed => exact .inl ⟨_, _, listed, rfl⟩
      | deeper listed below => exact .inr ⟨_, _, _, listed, below, rfl⟩

theorem mem_entries : ∀ (entries : List (JsString × Entry)) (path : Path), path ∈ listing entries ↔
    (∃ name entry, (name, entry) ∈ entries ∧ path = [name]) ∨
      ∃ name entry rest, (name, entry) ∈ entries ∧ Below entry rest ∧ path = name :: rest
  | [], path => by
    refine ⟨fun member => absurd member List.not_mem_nil, ?_⟩
    rintro (⟨_, _, ⟨⟩, -⟩ | ⟨_, _, _, ⟨⟩, -⟩)
  | (name, entry) :: entries, path => by
    rw [listing, List.cons_append, List.mem_cons, List.mem_append, List.mem_map, mem_entries entries path]
    constructor
    · rintro (rfl | ⟨rest, member, rfl⟩ | ⟨other, found, listed, rfl⟩ | ⟨other, found, rest, listed, below, rfl⟩)
      · exact .inl ⟨name, entry, List.mem_cons_self .., rfl⟩
      · exact .inr ⟨name, entry, rest, List.mem_cons_self .., (mem_listing entry rest).mp member, rfl⟩
      · exact .inl ⟨other, found, List.mem_cons_of_mem _ listed, rfl⟩
      · exact .inr ⟨other, found, rest, List.mem_cons_of_mem _ listed, below, rfl⟩
    · rintro (⟨other, found, listed, rfl⟩ | ⟨other, found, rest, listed, below, rfl⟩)
      · rcases List.mem_cons.mp listed with same | listed
        · cases same
          exact .inl rfl
        · exact .inr (.inr (.inl ⟨other, found, listed, rfl⟩))
      · rcases List.mem_cons.mp listed with same | listed
        · cases same
          exact .inr (.inl ⟨rest, (mem_listing entry rest).mpr below, rfl⟩)
        · exact .inr (.inr (.inr ⟨other, found, rest, listed, below, rfl⟩))

end

end Listing

section Walk

variable {localeCompare : JsString → JsString → Bool} {limit : ℕ}

theorem listing_perm {entries others : List (JsString × Entry)} (perm : entries.Perm others) :
    (listing entries).Perm (listing others) := by
  rw [listing_eq, listing_eq]
  exact perm.flatMap_right _

mutual

theorem sorted_listing (localeCompare : JsString → JsString → Bool) :
    ∀ entry : Entry, ((entry.sorted localeCompare).listing).Perm entry.listing
  | .other => .refl _
  | .unreadable => .refl _
  | .directory entries => (listing_perm (List.perm_insertionSort _ _)).trans (sortedEntries_listing localeCompare entries)

theorem sortedEntries_listing (localeCompare : JsString → JsString → Bool) :
    ∀ entries : List (JsString × Entry), (listing (sortedEntries localeCompare entries)).Perm (listing entries)
  | [] => .refl _
  | (name, entry) :: rest =>
    ((sorted_listing localeCompare entry).map (name :: ·) |>.cons [name]).append (sortedEntries_listing localeCompare rest)

end

/-- What is cut once may be cut again behind more. -/
theorem take_take_append {α : Type} (n : ℕ) (xs ys : List α) : (xs.take n ++ ys).take n = (xs ++ ys).take n := by
  by_cases short : xs.length ≤ n
  · rw [List.take_of_length_le short]
  · have full : n ≤ (xs.take n).length := by
      rw [List.length_take]
      omega
    rw [List.take_append_of_le_length full, List.take_take, Nat.min_self, List.take_append_of_le_length (by omega)]

mutual

/-- A walk visits what there is, in order, until its bound is reached. -/
theorem recurse_eq (current : Path) : ∀ (entry : Entry) {visited : List Path}, visited.length ≤ limit →
    entry.recurse limit current visited = (visited ++ entry.listing.map (current ++ ·)).take limit
  | .other, visited, within => by
    rw [Entry.recurse, Entry.listing, List.map_nil, List.append_nil, List.take_of_length_le within]
  | .unreadable, visited, within => by
    rw [Entry.recurse, Entry.listing, List.map_nil, List.append_nil, List.take_of_length_le within]
  | .directory entries, visited, within => by
    rw [Entry.recurse, Entry.listing]
    by_cases full : limit ≤ visited.length
    · rw [if_pos full, List.take_append_of_le_length full, List.take_of_length_le within]
    · rw [if_neg full, visitEntries_eq current entries within]

theorem visitEntries_eq (current : Path) : ∀ (entries : List (JsString × Entry)) {visited : List Path}, visited.length ≤ limit →
    visitEntries limit current entries visited = (visited ++ (listing entries).map (current ++ ·)).take limit
  | [], visited, within => by
    rw [visitEntries, listing, List.map_nil, List.append_nil, List.take_of_length_le within]
  | (name, entry) :: rest, visited, within => by
    rw [visitEntries]
    by_cases full : limit ≤ visited.length
    · rw [if_pos full, List.take_append_of_le_length full, List.take_of_length_le within]
    · have room : (visited ++ [current ++ [name]]).length ≤ limit := by
        rw [List.length_append, List.length_singleton]
        omega
      have inner := recurse_eq (current ++ [name]) entry room
      have bounded : (entry.recurse limit (current ++ [name]) (visited ++ [current ++ [name]])).length ≤ limit := by
        rw [inner]
        exact List.length_take_le _ _
      have deeper : entry.listing.map ((current ++ [name]) ++ ·) = (entry.listing.map (name :: ·)).map (current ++ ·) := by
        rw [List.map_map]
        refine List.map_congr_left fun path _ => ?_
        rw [Function.comp_apply, List.append_assoc, List.singleton_append]
      rw [if_neg full, visitEntries_eq current rest bounded, inner, deeper, listing, take_take_append, List.map_append, List.map_cons,
        List.append_assoc, List.append_assoc, List.cons_append, List.nil_append, List.cons_append]

end

theorem walk_eq (root : Entry) : walk localeCompare limit root = ((root.sorted localeCompare).listing).take limit := by
  rw [walk, recurse_eq [] _ (Nat.zero_le _), List.nil_append]
  simp only [List.nil_append, List.map_id_fun', id_eq]

end Walk

section Find

variable {localeCompare : JsString → JsString → Bool} {matchesGlob : JsString → JsString → Bool} {root : Entry} {pattern : JsString}
variable {limit : ℕ}

theorem foldl_matched (accepted : Path → Bool) (limit : ℕ) (paths : List Path) {matched : List Path} (room : matched.length ≤ limit) :
    paths.foldl (fun matched path => if matched.length < limit ∧ accepted path = true then matched ++ [path] else matched) matched =
      (matched ++ paths.filter accepted).take limit := by
  induction paths generalizing matched with
  | nil => rw [List.foldl_nil, List.filter_nil, List.append_nil, List.take_of_length_le room]
  | cons path paths ih =>
    rw [List.foldl_cons]
    by_cases accepts : accepted path = true
    · rw [List.filter_cons_of_pos accepts]
      by_cases full : matched.length < limit
      · have next : (matched ++ [path]).length ≤ limit := by
          rw [List.length_append, List.length_singleton]
          omega
        rw [if_pos ⟨full, accepts⟩, ih next, List.append_assoc, List.singleton_append]
      · rw [if_neg fun both => full both.1, ih room, List.take_append_of_le_length (by omega), List.take_append_of_le_length (by omega)]
    · rw [if_neg fun both => accepts both.2, List.filter_cons_of_neg accepts, ih room]

theorem find_matched : (find localeCompare matchesGlob root pattern limit).matched =
    ((((root.sorted localeCompare).listing).take maxSearchFiles).filter (accepts matchesGlob pattern)).take limit := by
  rw [find, walk_eq, foldl_matched _ _ _ (Nat.zero_le _), List.nil_append]

theorem find_truncated : (find localeCompare matchesGlob root pattern limit).truncated =
    decide (limit ≤ (find localeCompare matchesGlob root pattern limit).matched.length) := rfl

/-- A search that is exact: complete where it is not truncated, and full where it is. -/
structure Exact (matchesGlob : JsString → JsString → Bool) (root : Entry) (pattern : JsString) (limit : ℕ) (found : Found) : Prop where
  complete : found.truncated = false → ∀ path, path ∈ found.matched ↔ Below root path ∧ accepts matchesGlob pattern path = true
  full : found.truncated = true → found.matched.length = limit ∧
    ∀ path ∈ found.matched, Below root path ∧ accepts matchesGlob pattern path = true

/-- The entries that the walk comes to within its bound. -/
def firstEntries (localeCompare : JsString → JsString → Bool) (root : Entry) : List Path :=
  ((root.sorted localeCompare).listing).take maxSearchFiles

/-- A search is exact just when enough matches come within the bound of the walk, or all that there are. -/
theorem find_exact (localeCompare matchesGlob : JsString → JsString → Bool) (root : Entry) (pattern : JsString) (limit : ℕ) :
    Exact matchesGlob root pattern limit (find localeCompare matchesGlob root pattern limit) ↔
      limit ≤ ((firstEntries localeCompare root).filter (accepts matchesGlob pattern)).length ∨
        ∀ path, Below root path → accepts matchesGlob pattern path = true → path ∈ firstEntries localeCompare root := by
  have below : ∀ path ∈ firstEntries localeCompare root, Below root path := by
    intro path member
    exact (mem_listing root path).mp ((sorted_listing localeCompare root).mem_iff.mp (List.mem_of_mem_take member))
  have matched : (find localeCompare matchesGlob root pattern limit).matched =
      ((firstEntries localeCompare root).filter (accepts matchesGlob pattern)).take limit := find_matched
  have truncated := @find_truncated localeCompare matchesGlob root pattern limit
  rw [matched, List.length_take] at truncated
  by_cases enough : limit ≤ ((firstEntries localeCompare root).filter (accepts matchesGlob pattern)).length
  · refine iff_of_true ⟨fun open_ => ?_, fun _ => ?_⟩ (.inl enough)
    · rw [truncated, decide_eq_false_iff_not] at open_
      omega
    · rw [matched, List.length_take]
      refine ⟨by omega, fun path member => ?_⟩
      obtain ⟨first, accepted⟩ := List.mem_filter.mp (List.mem_of_mem_take member)
      exact ⟨below path first, accepted⟩
  · have all : ((firstEntries localeCompare root).filter (accepts matchesGlob pattern)).take limit =
        (firstEntries localeCompare root).filter (accepts matchesGlob pattern) := List.take_of_length_le (by omega)
    have open_ : (find localeCompare matchesGlob root pattern limit).truncated = false := by
      rw [truncated, decide_eq_false_iff_not]
      omega
    rw [all] at matched
    constructor
    · intro exact_
      refine .inr fun path there accepted => ?_
      have member := (exact_.complete open_ path).mpr ⟨there, accepted⟩
      rw [matched] at member
      exact (List.mem_filter.mp member).1
    · rintro (more | within)
      · exact absurd more enough
      · refine ⟨fun _ path => ?_, fun closed => absurd (open_.symm.trans closed) Bool.false_ne_true⟩
        rw [matched, List.mem_filter]
        constructor
        · rintro ⟨first, accepted⟩
          exact ⟨below path first, accepted⟩
        · rintro ⟨there, accepted⟩
          exact ⟨within path there accepted, accepted⟩

/-- As many entries as the walk visits. -/
def crowd : List (JsString × Entry) := (List.range maxSearchFiles).map fun i => (js "f" ++ Json.decimal i, .other)

/-- A crowded directory comes before a file. -/
def crowded (crowd : List (JsString × Entry)) : Entry := .directory [(js "a", .directory crowd), (js "b", .other)]

def sampleCompare (a b : JsString) : Bool := a.head? = b.head? ∨ a.head? = some 0x61

/-- A pattern without wildcards matches itself. -/
def sampleGlob (text pattern : JsString) : Bool := text = pattern

theorem listing_files (names : List JsString) : listing (names.map fun name => (name, .other)) = names.map fun name => [name] := by
  induction names with
  | nil => rfl
  | cons name names ih => rw [List.map_cons, List.map_cons, listing, ih, Entry.listing, List.map_nil, List.singleton_append]

theorem listing_crowded (crowd : List (JsString × Entry)) : ((crowded crowd).sorted sampleCompare).listing =
    ([js "a"] :: ((Entry.directory crowd).sorted sampleCompare).listing.map (js "a" :: ·)) ++ [[js "b"]] := rfl

/-- The file is not found, and nothing tells that the walk was stopped. -/
theorem find_crowded : ¬Exact sampleGlob (crowded crowd) (js "b") 1 (find sampleCompare sampleGlob (crowded crowd) (js "b") 1) := by
  have inside : (((Entry.directory crowd).sorted sampleCompare).listing).Perm
      ((List.range maxSearchFiles).map fun i => [js "f" ++ Json.decimal i]) := by
    refine (sorted_listing sampleCompare _).trans (.of_eq ?_)
    rw [Entry.listing, crowd, ← Function.comp_def (fun name : JsString => (name, Entry.other)), ← List.map_map, listing_files,
      List.map_map]
    rfl
  have length := inside.length_eq
  rw [List.length_map, List.length_range] at length
  have refused : ∀ path ∈ firstEntries sampleCompare (crowded crowd), accepts sampleGlob (js "b") path = false := by
    intro path member
    rw [firstEntries, listing_crowded, List.take_append_of_le_length (by rw [List.length_cons, List.length_map, length]; exact Nat.le_succ _)] at member
    rcases List.mem_cons.mp (List.mem_of_mem_take member) with rfl | deeper
    · decide
    · obtain ⟨rest, among, rfl⟩ := List.mem_map.mp deeper
      obtain ⟨i, -, rfl⟩ := List.mem_map.mp (inside.mem_iff.mp among)
      exact Bool.or_eq_false_iff.mpr ⟨decide_eq_false (by intro same; cases same), decide_eq_false (by intro same; cases same)⟩
  have nothing : (find sampleCompare sampleGlob (crowded crowd) (js "b") 1).matched = [] := by
    rw [find_matched]
    have none : (firstEntries sampleCompare (crowded crowd)).filter (accepts sampleGlob (js "b")) = [] :=
      List.filter_eq_nil_iff.mpr fun path member => Bool.eq_false_iff.mp (refused path member)
    exact congrArg (List.take 1) none
  intro exact_
  have open_ : (find sampleCompare sampleGlob (crowded crowd) (js "b") 1).truncated = false := by
    rw [find_truncated, nothing]
    rfl
  have found := (exact_.complete open_ [js "b"]).mpr ⟨.child (List.mem_cons_of_mem _ (List.mem_cons_self ..)), by decide⟩
  rw [nothing] at found
  cases found

end Find

end PersistentHarness.FileSearch
