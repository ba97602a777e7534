import PersistentHarness.Lib.While
import PersistentHarness.Data.JsonBytes

/-! # Bounded replies

A client that attaches is sent the newest events of an actor, and one that asks for entries the newest of these. Both
lists are cut from the front until their JSON text is short enough, and the bytes of that text are counted down with
every cut.
-/

namespace PersistentHarness.Supervisor

open Json (jsonBytes)

/-- An event that an actor keeps for those who attach to it. -/
structure RingItem where
  seq : JsNumber
  event : Value
deriving DecidableEq

/-- `{ seq: item.seq, event: item.event }`. -/
def RingItem.replayed (item : RingItem) : Value := .record [("seq", .num item.seq), ("event", item.event)]

/-- A list that is cut from the front, with the bytes counted for its JSON text. -/
structure Cutting where
  selected : List Value
  bytes : ℤ
deriving DecidableEq

section Replay

/-- One turn of `while (selected.length > 1 && bytes > 40 * 1024)`. -/
def Cutting.shift (cut : Cutting) : Option Cutting :=
  match cut.selected with
  | oldest :: next :: rest =>
    if 40 * 1024 < cut.bytes then some ⟨next :: rest, cut.bytes - (jsonBytes oldest + 1)⟩ else none
  | _ => none

/-- `boundedReplay` before its loop. -/
def replayStart (ring : List RingItem) : Cutting :=
  let selected := (ring.drop (ring.length - 128)).map RingItem.replayed
  ⟨selected, if 1 < selected.length then jsonBytes (.arr selected) else 0⟩

def boundedReplay (ring : List RingItem) : Option (List Value) :=
  let start := replayStart ring
  (While.loop Cutting.shift (start.selected.length + 1) start).map Cutting.selected

end Replay

section Entries

/-- One turn of `while (selected.length && bytes > 48 * 1024)`; the length is rounded up to whole quarters. -/
def Cutting.dropQuarter (cut : Cutting) : Option Cutting :=
  if cut.selected ≠ [] ∧ 48 * 1024 < cut.bytes then
    let drop := (cut.selected.length + 3) / 4
    some ⟨cut.selected.drop drop,
      if drop < cut.selected.length then cut.bytes - ((jsonBytes (.arr (cut.selected.take drop)) : ℤ) - 1) else cut.bytes⟩
  else none

structure EntriesReply where
  entries : List Value
  leafId : Value
  truncated : Bool
deriving DecidableEq

/-- `Array.isArray(data?.entries) ? data.entries : []`. -/
def entriesOf (data : Value) : List Value := (data.get (js "entries")).items

/-- `boundedEntries` before its loop. -/
def entriesStart (data : Value) : Cutting :=
  let entries := entriesOf data
  let selected := entries.drop (entries.length - 256)
  ⟨selected, if selected ≠ [] then jsonBytes (.arr selected) else 0⟩

def boundedEntries (data : Value) : Option EntriesReply :=
  let start := entriesStart data
  (While.loop Cutting.dropQuarter (start.selected.length + 1) start).map fun cut =>
    { entries := cut.selected
      leafId := if data.get (js "leafId") = .undefined then .null else data.get (js "leafId")
      truncated := cut.selected.length < (entriesOf data).length }

end Entries

end PersistentHarness.Supervisor
