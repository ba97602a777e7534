import Mathlib.Data.List.Sort
import PersistentHarness.Data.Utf8

/-! # The digest of a materialised skill

`treeDigest` walks a directory tree and feeds one record to the hash for each directory and each file below it. The
comparison of `localeCompare` is a parameter, and so is the hash.
-/

namespace PersistentHarness.SkillArtifacts

open Json (unit)

/-- The UTF-8 text of a path or of a part of one. -/
@[ext]
structure Path where
  bytes : Bytes
  noNul : 0 ∉ bytes
deriving DecidableEq, Repr

/-- What `readdir` gives as the name of an entry. -/
@[ext]
structure Name where
  bytes : Bytes
  nonempty : bytes ≠ []
  plain : 0 ∉ bytes ∧ 0x2F ∉ bytes
deriving DecidableEq, Repr

/-- What is under a name: a regular file, or a directory. -/
inductive Entry where
  | file (mode : ℕ) (bytes : Bytes)
  | directory (entries : List (Name × Entry))

/-- `relative ? relative + "/" + name : name`. -/
def Path.child (relative : Path) (name : Name) : Path :=
  if relative.bytes = [] then ⟨name.bytes, name.plain.1⟩
  else
    ⟨relative.bytes ++ 0x2F :: name.bytes, by
      rw [List.mem_append, List.mem_cons]
      rintro (inside | slash | inside)
      · exact relative.noNul inside
      · cases slash
      · exact name.plain.1 inside⟩

/-- `MAX_BYTES` and `MAX_ENTRIES`. -/
def maxBytes : ℕ := 64 * 1024 * 1024

def maxEntries : ℕ := 10000

/-- What a callback of the walk hands to the digest. -/
inductive Record where
  | directory (relative : Path)
  | file (relative : Path) (executable : ℕ) (bytes : Bytes)
deriving DecidableEq, Repr

def Record.relative : Record → Path
  | .directory relative => relative
  | .file relative _ _ => relative

/-- What the hash is fed for a record. -/
def Record.text : Record → Bytes
  | .directory relative => 0x64 :: 0x3A :: relative.bytes ++ [0]
  | .file relative executable bytes =>
    0x66 :: 0x3A :: relative.bytes ++ 0 :: Utf8.encode (Json.decimal executable) ++ 0 :: bytes ++ [0]

section Listing

variable (localeCompare : Name → Name → Bool)

mutual

/-- Every directory lists its entries in the order of `names.sort`. -/
def Entry.sorted : Entry → Entry
  | .file mode bytes => .file mode bytes
  | .directory entries =>
    .directory ((sortedEntries entries).insertionSort fun a b => localeCompare a.1 b.1 = true)

def sortedEntries : List (Name × Entry) → List (Name × Entry)
  | [] => []
  | (name, entry) :: rest => (name, entry.sorted) :: sortedEntries rest

end

end Listing

/-- Where a walk is: the entries and bytes counted so far, and what the digest was given. -/
structure Walk where
  count : ℕ
  bytes : ℕ
  records : List Record

mutual

def visitEntry (rel : Path) : Entry → Walk → Except String Walk
  | .directory entries, walk =>
    if walk.count + 1 > maxEntries then .error "SKILL_ARTIFACT_LIMIT"
    else visit rel entries ⟨walk.count + 1, walk.bytes, walk.records ++ [.directory rel]⟩
  | .file mode bytes, walk =>
    if walk.count + 1 > maxEntries then .error "SKILL_ARTIFACT_LIMIT"
    else if walk.bytes + bytes.length > maxBytes then .error "SKILL_ARTIFACT_LIMIT"
    else .ok ⟨walk.count + 1, walk.bytes + bytes.length, walk.records ++ [.file rel (mode &&& 0o111) bytes]⟩

/-- The entries of one directory, in order. -/
def visit (relative : Path) : List (Name × Entry) → Walk → Except String Walk
  | [], walk => .ok walk
  | (name, entry) :: rest, walk =>
    match visitEntry (relative.child name) entry walk with
    | .error code => .error code
    | .ok walk => visit relative rest walk

end

mutual

/-- No directory lists a name twice. -/
def Entry.Distinct : Entry → Prop
  | .file _ _ => True
  | .directory entries => DistinctNames entries

def DistinctNames : List (Name × Entry) → Prop
  | [] => True
  | (name, entry) :: rest => (∀ other ∈ rest, other.1 ≠ name) ∧ entry.Distinct ∧ DistinctNames rest

end

/-- A directory of regular files and directories, in the order of `readdir`. -/
structure Tree where
  entries : List (Name × Entry)
  distinct : DistinctNames entries

def Path.root : Path := ⟨[], List.not_mem_nil⟩

/-- What the walk of a tree hands to its callbacks. -/
def Tree.walk (localeCompare : Name → Name → Bool) (tree : Tree) : Except String (List Record) := do
  let walk ← visit .root ((sortedEntries localeCompare tree.entries).insertionSort fun a b => localeCompare a.1 b.1 = true)
    ⟨0, 0, []⟩
  pure walk.records

/-- The bytes that `treeDigest` feeds to the hash. -/
def treeStream (localeCompare : Name → Name → Bool) (tree : Tree) : Except String Bytes := do
  let records ← tree.walk localeCompare
  pure (records.flatMap Record.text)

def treeDigest (sha256 : Bytes → JsString) (localeCompare : Name → Name → Bool) (tree : Tree) : Except String JsString := do
  let stream ← treeStream localeCompare tree
  pure (sha256 stream)

/-- The record of `artifact.json`. -/
structure ArtifactRecord where
  version : ℕ
  sourceContentHash : JsString
  skillFile : JsString
  materializedHash : JsString
deriving DecidableEq, Repr

def isHex (text : JsString) : Bool :=
  text.length = 64 && text.all fun u => (unit '0' ≤ u && u ≤ unit '9') || (unit 'a' ≤ u && u ≤ unit 'f')

def identity (sha256 : Bytes → JsString) (record : ArtifactRecord) : JsString :=
  sha256 (Utf8.encode (Json.stringify (.arr [.num (.ofNat 1), .str record.sourceContentHash, .str record.skillFile,
    .str record.materializedHash])))

/-- The record is one of this version, for this skill file, under its own identity. -/
def ArtifactRecord.identified (sha256 : Bytes → JsString) (id skillFile : JsString) (record : ArtifactRecord) : Bool :=
  record.version = 1 && isHex record.sourceContentHash && isHex record.materializedHash && record.skillFile = skillFile
    && identity sha256 record = id

/-- A first verification, once the object's own directory and `artifact.json` are in order. -/
def verifySkillArtifact (sha256 : Bytes → JsString) (localeCompare : Name → Name → Bool) (id skillFile : JsString)
    (record : ArtifactRecord) (tree : Tree) : Except String ArtifactRecord :=
  if !record.identified sha256 id skillFile then .error "SKILL_ARTIFACT_IDENTITY_INVALID"
  else do
    let found ← treeDigest sha256 localeCompare tree
    if found ≠ record.materializedHash then .error "SKILL_ARTIFACT_CONTENT_CHANGED" else .ok record

end PersistentHarness.SkillArtifacts
