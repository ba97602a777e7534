import Mathlib.Data.PNat.Basic
import PersistentHarness.Data.Utf8

/-! # The reader of recent events

The newest lines of the event log are read backwards, in blocks from the end of the current file and then of the rotated one.
Only whole lines are decoded; a line that is no JSON is left out of the events but counts among the lines.
-/

namespace PersistentHarness.EventLog

/-- A file that does not change while it is read. A read gives some of the bytes that are wanted, perhaps fewer. -/
structure File where
  content : Bytes
  /-- `bytesRead`, of a read at a position. -/
  count : (position wanted : ℕ) → ℕ
  some : ∀ position wanted, 0 < wanted → 0 < count position wanted
  most : ∀ position wanted, count position wanted ≤ wanted

section Blocks

variable (file : File)

/-- A block, read until it is filled. -/
def fill (position : ℕ) : (wanted : ℕ) → Bytes
  | 0 => []
  | wanted + 1 =>
    let bytesRead := file.count position (wanted + 1)
    (file.content.drop position).take bytesRead ++ fill (position + bytesRead) (wanted + 1 - bytesRead)
  termination_by wanted => wanted
  decreasing_by
    have := file.some position (wanted + 1) (Nat.succ_pos wanted)
    omega

/-- `buffer.lastIndexOf(0x0a, end - 1)`. -/
def lastNewline (buffer : Bytes) : (end_ : ℕ) → Option ℕ
  | 0 => none
  | end_ + 1 => if buffer[end_]? = some 0x0A then some end_ else lastNewline buffer end_

theorem lastNewline_lt {buffer : Bytes} {end_ newline : ℕ} (found : lastNewline buffer end_ = some newline) : newline < end_ := by
  induction end_ with
  | zero => cases found
  | succ end_ ih =>
    rw [lastNewline] at found
    split at found
    · obtain rfl := Option.some.inj found
      exact Nat.lt_succ_self _
    · exact Nat.lt_succ_of_lt (ih found)

/-- `buffer.subarray(start, end)`. -/
def subarray (buffer : Bytes) (start end_ : ℕ) : Bytes := (buffer.take end_).drop start

/-- `Buffer.concat(parts.reverse())`; the parts of a line are collected from its end. -/
def concat (parts : List Bytes) : Bytes := parts.reverse.flatten

/-- The lines that begin in a block, newest first, and the parts of the line that does not. -/
def scanBlock (buffer : Bytes) (end_ : ℕ) (parts : List Bytes) : List Bytes × List Bytes :=
  match found : lastNewline buffer end_ with
  | none => ([], if 0 < end_ then parts ++ [subarray buffer 0 end_] else parts)
  | some newline =>
    let parts := if newline + 1 < end_ then parts ++ [subarray buffer (newline + 1) end_] else parts
    let rest := scanBlock buffer newline []
    if parts ≠ [] then (concat parts :: rest.1, rest.2) else rest
  termination_by end_
  decreasing_by exact lastNewline_lt found

/-- The lines before a position, with the parts of the line that the position is in. -/
def readBefore (chunk : ℕ+) (position : ℕ) (parts : List Bytes) : List Bytes :=
  if begun : 0 < position then
    let length := min position chunk
    let block := scanBlock (fill file (position - length) length) length parts
    block.1 ++ readBefore chunk (position - length) block.2
  else if parts ≠ [] then [concat parts]
  else []
  termination_by position
  decreasing_by
    have := chunk.pos
    omega

/-- `reverseLines(file, size)`; the reader takes blocks of `chunkBytes`. -/
def reverseLines (chunk : ℕ+) : List Bytes := readBefore file chunk file.content.length []

end Blocks

section Recent

/-- The lines are taken until there is one more than asked for. -/
def takeLines (limit : ℕ) (lines : List Bytes) : (source : List Bytes) → List Bytes
  | [] => lines
  | line :: source => if limit < (lines ++ [line]).length then lines ++ [line] else takeLines limit (lines ++ [line]) source

/-- The lines of several files, the newest file first. -/
def takeFiles (chunk : ℕ+) (limit : ℕ) (lines : List Bytes) : (files : List File) → List Bytes
  | [] => lines
  | file :: files =>
    let lines := takeLines limit lines (reverseLines file chunk)
    if limit < lines.length then lines else takeFiles chunk limit lines files

structure Recent (α : Type) where
  events : List α
  truncated : Bool

/-- `readRecentEvents(logPath, limit)`. A file that does not exist is skipped; `parse` decodes a line and reads its JSON. -/
def readRecentEvents {α : Type} (chunk : ℕ+) (parse : Bytes → Option α) (rotated current : Option File) (limit : ℕ) : Recent α :=
  let files := rotated.toList ++ current.toList
  let lines := takeFiles chunk limit [] files.reverse
  { events := (lines.take limit).reverse.filterMap parse
    truncated := limit < lines.length }

end Recent

end PersistentHarness.EventLog
