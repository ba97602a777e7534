import Mathlib.Algebra.GroupWithZero.Nat
import Mathlib.Data.List.Range
import Mathlib.Data.List.Sort
import Mathlib.Data.Nat.Notation
import Mathlib.Tactic.Common

/-! # Publication of a snapshot

`save_snapshot` fills a temporary directory, moves what the snapshot path denotes out of the way and renames the temporary
directory to it. Each call of the file system is a step that may fail, and the process may die between two of them; the
next start makes the snapshot directory again where it is missing.
-/

namespace PersistentHarness.Kernel.SnapshotStore

/-- A file of a snapshot directory. A blob and a manifest belong to the save that wrote them, and a manifest lists how many
blobs there are. -/
inductive Entry where
  | config
  | blob (save index : ℕ)
  | manifest (save count : ℕ)
deriving DecidableEq, Repr

abbrev Directory := List Entry

def Entry.isManifest : Entry → Bool
  | .manifest _ _ => true
  | _ => false

/-- `entries.issubset({"kernel-config.json"})`. -/
def configOnly (directory : Directory) : Bool := directory.all (· = .config)

def hasManifest (directory : Directory) : Bool := directory.any Entry.isManifest

structure Disk where
  target : Option Directory
  previous : Option Directory
  temporary : Option Directory
  configurationHold : Option Directory
deriving DecidableEq

/-- The directory a start restores from: `recover_previous_snapshot`, then `restore_snapshot`. -/
def readDirectory (disk : Disk) : Option Directory :=
  match disk.target with
  | none => disk.previous
  | some target => if !hasManifest target && configOnly target then disk.previous else some target

/-- The next call of `save_snapshot`. -/
inductive Pc where
  /-- `mkdtemp` of the temporary directory. -/
  | making
  /-- `snapshot_reuse_candidates`, which stands before the handlers. -/
  | comparing
  /-- `write_bytes` or `link` of the next blob. -/
  | writing (written : ℕ)
  /-- `fsync` of the blobs. -/
  | syncingBlobs
  /-- `atomic_write_json` of the manifest. -/
  | describing
  | syncingTemporary
  /-- `target.exists()`, its entries, and `previous.exists()`. -/
  | inspecting
  /-- `mkdtemp` of the configuration hold. -/
  | reserving
  /-- `rmdir` of the configuration hold. -/
  | clearing
  /-- `os.replace(target, configuration_hold)`. -/
  | holding
  /-- `rmtree(previous)`. -/
  | removingPrevious
  /-- `os.replace(target, previous)`. -/
  | retiring
  | syncingParent
  /-- `os.replace(temporary, target)`. -/
  | publishing
  | syncingPublished
  /-- The handler around the publication. -/
  | restoring
  /-- `rmtree(temporary)` of the outer handler. -/
  | discarding
  /-- The moves of the outer handler. -/
  | restoringAgain
  /-- `previous.exists()` after the publication. -/
  | checkingPrevious
  /-- `rmtree(previous)` after the publication, errors ignored. -/
  | cleaningPrevious
  /-- `rmtree(configuration_hold)`, errors ignored. -/
  | cleaningHold
deriving DecidableEq, Repr

/-- A call of `save_snapshot`: its number, its parameters and its local variables. -/
structure Save where
  id : ℕ
  durable : Bool
  blobs : ℕ
  pc : Pc
  /-- `configuration_hold is not None`. -/
  held : Bool
  movedCurrent : Bool
deriving DecidableEq

/-- The disk, whether the process runs, the save it is in, how many were called, and the last one that returned. -/
structure System where
  disk : Disk
  alive : Bool
  save : Option Save
  calls : ℕ
  returned : Option ℕ
deriving DecidableEq

/-- How a call ends: `rmtree` may fail with some entries left. -/
inductive Outcome where
  | done
  | fails
  | leaves (left : Directory)
deriving DecidableEq

inductive Event where
  /-- The process calls `save_snapshot`. -/
  | call (durable : Bool) (blobs : ℕ)
  | step (outcome : Outcome)
  | die
  /-- The next process starts: a missing snapshot directory is made, and the configuration is written to it or not. -/
  | restart (config : Bool)
deriving DecidableEq

/-- `os.replace` of a directory goes through where the destination is absent or an empty directory. -/
def free (destination : Option Directory) : Bool := destination.all List.isEmpty

/-- The moves that bring back what was moved out of the way. -/
def rollback (disk : Disk) (save : Save) : Disk :=
  if save.held && disk.configurationHold.isSome && disk.target.isNone then
    { disk with target := disk.configurationHold, configurationHold := none }
  else if save.movedCurrent && disk.previous.isSome && disk.target.isNone then
    { disk with target := disk.previous, previous := none }
  else disk

namespace System

def goesTo (s : System) (save : Save) (pc : Pc) : System := { s with save := some { save with pc } }

/-- A call outside the handlers fails. -/
def fails (s : System) (save : Save) : System :=
  match save.pc with
  | .making | .comparing => { s with save := none }
  | .publishing | .syncingPublished => s.goesTo save .restoring
  | .restoring => s.goesTo save .discarding
  | .discarding => s.goesTo save .restoringAgain
  | .restoringAgain => { s with save := none }
  | .cleaningPrevious => s.goesTo save .cleaningHold
  | .cleaningHold => { s with save := none, returned := some save.id }
  | _ => s.goesTo save .discarding

def succeeds (s : System) (save : Save) : System :=
  let disk := s.disk
  match save.pc with
  | .making => { s with disk := { disk with temporary := some [] } }.goesTo save .comparing
  | .comparing => s.goesTo save (.writing 0)
  | .writing written =>
    if written < save.blobs then
      { s with disk := { disk with temporary := disk.temporary.map (· ++ [Entry.blob save.id written]) } }.goesTo save
        (.writing (written + 1))
    else s.goesTo save (if save.durable then .syncingBlobs else .describing)
  | .syncingBlobs => s.goesTo save .describing
  | .describing =>
    { s with disk := { disk with temporary := disk.temporary.map (· ++ [Entry.manifest save.id save.blobs]) } }.goesTo save
      (if save.durable then .syncingTemporary else .inspecting)
  | .syncingTemporary => s.goesTo save .inspecting
  | .inspecting =>
    match disk.target with
    | none => s.goesTo save (if save.durable then .syncingParent else .publishing)
    | some target =>
      if disk.previous.isSome && configOnly target then s.goesTo save .reserving
      else s.goesTo save (if disk.previous.isSome then .removingPrevious else .retiring)
  | .reserving => { s with disk := { disk with configurationHold := some [] } }.goesTo { save with held := true } .clearing
  | .clearing => { s with disk := { disk with configurationHold := none } }.goesTo save .holding
  | .holding =>
    { s with disk := { disk with target := none, configurationHold := disk.target } }.goesTo save
      (if save.durable then .syncingParent else .publishing)
  | .removingPrevious => { s with disk := { disk with previous := none } }.goesTo save .retiring
  | .retiring =>
    if free disk.previous then
      { s with disk := { disk with target := none, previous := disk.target } }.goesTo { save with movedCurrent := true }
        (if save.durable then .syncingParent else .publishing)
    else s.fails save
  | .syncingParent => s.goesTo save .publishing
  | .publishing =>
    if free disk.target then
      { s with disk := { disk with target := disk.temporary, temporary := none } }.goesTo save
        (if save.durable then .syncingPublished else .checkingPrevious)
    else s.fails save
  | .syncingPublished => s.goesTo save .checkingPrevious
  | .restoring => { s with disk := rollback disk save }.goesTo save .discarding
  | .discarding => { s with disk := { disk with temporary := none } }.goesTo save .restoringAgain
  | .restoringAgain => { s with disk := rollback disk save, save := none }
  | .checkingPrevious => s.goesTo save .cleaningPrevious
  | .cleaningPrevious => { s with disk := { disk with previous := none } }.goesTo save .cleaningHold
  | .cleaningHold =>
    { s with
      disk := if save.held then { disk with configurationHold := none } else disk
      save := none
      returned := some save.id }

/-- What an `rmtree` that fails leaves of a directory. -/
def leaves (s : System) (save : Save) (left : Directory) : System :=
  match save.pc, s.disk.previous with
  | .removingPrevious, some previous =>
    if left.isSublist previous then { s with disk := { s.disk with previous := some left } }.fails save else s
  | .cleaningPrevious, some previous =>
    if left.isSublist previous then { s with disk := { s.disk with previous := some left } }.fails save else s
  | _, _ => s.fails save

def step (s : System) : Event → System
  | .call durable blobs =>
    if s.alive && s.save.isNone then { s with save := some ⟨s.calls, durable, blobs, .making, false, false⟩, calls := s.calls + 1 }
    else s
  | .step outcome =>
    match s.save with
    | some save =>
      match outcome with
      | .done => s.succeeds save
      | .fails => s.fails save
      | .leaves left => s.leaves save left
    | none => s
  | .die => { s with alive := false, save := none }
  | .restart config =>
    if s.alive then s
    else
      let target := s.disk.target.getD []
      { s with
        alive := true
        save := none
        disk := { s.disk with target := some (if config && .config ∉ target then target ++ [.config] else target) } }

def run (s : System) (events : List Event) : System := events.foldl step s

/-- Before the first start. -/
def initial : System := ⟨⟨none, none, none, none⟩, false, none, 0, none⟩

end System

/-! ## Reused blobs

The stats of a manifest count how many blobs a save reused, and their bytes, but not which. A restore accepts them only
where some choice of the listed blobs accounts for both. -/

section Attribution

/-- `for count in range(count, 0, -1)`: one entry of `amount` bytes more for the totals of every number of entries. -/
def extendReachable (mask amount : ℕ) : ℕ → List ℕ → List ℕ
  | 0, reachable => reachable
  | count + 1, reachable =>
    let extended := reachable.getD (count + 1) 0 ||| ((reachable.getD count 0 <<< amount) &&& mask)
    extendReachable mask amount count (reachable.set (count + 1) extended)

/-- `for index, amount in enumerate(byte_counts)`. -/
def reachesTotal (mask blobCount byteCount : ℕ) : ℕ → List ℕ → List ℕ → Bool
  | _, [], _ => false
  | index, amount :: rest, reachable =>
    let reachable := extendReachable mask amount (min blobCount (index + 1)) reachable
    if (reachable.getD blobCount 0 >>> byteCount) &&& 1 ≠ 0 then true
    else reachesTotal mask blobCount byteCount (index + 1) rest reachable

/-- The smaller of the chosen side and its complement, with its bytes. -/
def smallerSide (byteCounts : List ℕ) (blobCount byteCount : ℤ) : ℤ × ℤ :=
  if blobCount > byteCounts.length - blobCount then (byteCounts.length - blobCount, byteCounts.sum - byteCount)
  else (blobCount, byteCount)

/-- What `exact_blob_attribution_possible` does with the smaller side. -/
def sideAttributable (byteCounts : List ℕ) (blobCount byteCount : ℤ) : Bool :=
  let ordered := byteCounts.insertionSort (· ≤ ·)
  if byteCount < (ordered.take blobCount.toNat).sum ∨ byteCount > (ordered.drop (ordered.length - blobCount.toNat)).sum then false
  else if byteCounts.length * blobCount > 250000 ∨ (blobCount + 1) * (byteCount + 1) > 64000000 then false
  else
    let mask := (1 <<< (byteCount.toNat + 1)) - 1
    reachesTotal mask blobCount.toNat byteCount.toNat 0 byteCounts ((List.replicate (blobCount.toNat + 1) 0).set 0 1)

def exactBlobAttributionPossible (byteCounts : List ℕ) (blobCount byteCount : ℤ) : Bool :=
  if blobCount < 0 ∨ blobCount > byteCounts.length ∨ byteCount < 0 then false
  else if blobCount = 0 then byteCount = 0
  else if blobCount = byteCounts.length then byteCount = byteCounts.sum
  else
    let side := smallerSide byteCounts blobCount byteCount
    sideAttributable byteCounts side.1 side.2

end Attribution

end PersistentHarness.Kernel.SnapshotStore
