import Mathlib.Data.List.Sort
import PersistentHarness.Data.JsString

/-! # Finding files by a pattern

`files.find` walks a directory in the order of its names and keeps the paths that match. Two bounds stop it: the number of
matches, and the number of entries that the walk visits. The comparison of `localeCompare` and `path.matchesGlob` are parameters.
-/

namespace PersistentHarness.FileSearch

/-- What is under a name: a directory that can be read or cannot, or anything else, also a link. -/
inductive Entry where
  | other
  | unreadable
  | directory (entries : List (JsString × Entry))

/-- A path, as the names below the directory where the search starts. -/
abbrev Path := List JsString

def maxSearchFiles : ℕ := 10000

section Walk

variable (localeCompare : JsString → JsString → Bool)

mutual

/-- Every directory lists its entries in the order of `entries.sort`. -/
def Entry.sorted : Entry → Entry
  | .other => .other
  | .unreadable => .unreadable
  | .directory entries => .directory ((sortedEntries entries).insertionSort fun a b => localeCompare a.1 b.1 = true)

def sortedEntries : List (JsString × Entry) → List (JsString × Entry)
  | [] => []
  | (name, entry) :: rest => (name, entry.sorted) :: sortedEntries rest

end

variable (limit : ℕ)

mutual

/-- `recurse(current)`; `visited` has the paths that were visited so far. -/
def Entry.recurse (current : Path) : Entry → (visited : List Path) → List Path
  | .other, visited => visited
  | .unreadable, visited => visited
  | .directory entries, visited => if limit ≤ visited.length then visited else visitEntries current entries visited

/-- The loop over the entries of a directory. -/
def visitEntries (current : Path) : List (JsString × Entry) → (visited : List Path) → List Path
  | [], visited => visited
  | (name, entry) :: rest, visited =>
    if limit ≤ visited.length then visited
    else visitEntries current rest (entry.recurse (current ++ [name]) (visited ++ [current ++ [name]]))

end

/-- `walk(root, visit)`: the paths that are visited, in their order. -/
def walk (root : Entry) : List Path := (root.sorted localeCompare).recurse limit [] []

end Walk

section Find

/-- `path.relative(root, filePath)`. -/
def relative (path : Path) : JsString := [(0x2F : UInt16)].intercalate path

def basename (path : Path) : JsString := (path.getLast?).getD []

/-- `path.matchesGlob(relative, pattern) || path.matchesGlob(path.basename(filePath), pattern)`. -/
def accepts (matchesGlob : JsString → JsString → Bool) (pattern : JsString) (path : Path) : Bool :=
  matchesGlob (relative path) pattern || matchesGlob (basename path) pattern

structure Found where
  matched : List Path
  truncated : Bool
deriving DecidableEq

/-- `files.find`. -/
def find (localeCompare : JsString → JsString → Bool) (matchesGlob : JsString → JsString → Bool) (root : Entry) (pattern : JsString)
    (limit : ℕ) : Found :=
  let matched := (walk localeCompare maxSearchFiles root).foldl (fun matched path =>
    if matched.length < limit ∧ accepts matchesGlob pattern path = true then matched ++ [path] else matched) []
  { matched := matched
    truncated := limit ≤ matched.length }

end Find

end PersistentHarness.FileSearch
