import PersistentHarness.Soundness.Connection.Output
import PersistentHarness.Soundness.Framing

/-! # What the peer of a connection reads

The bytes that a socket has taken are lines of whole frames, so a decoder reads from any beginning of them the first of the
messages, wherever the network cuts it.
-/

namespace PersistentHarness.Connection.Output

open Framing (encodeFrame JsonLineDecoder frameBytes readBytes)

variable {maxFrameBytes : ℕ}

/-- A value that is written, by itself or in the bytes that were encoded for several connections. -/
def Carries (maxFrameBytes : ℕ) (frame : Frame) (value : Value) : Prop :=
  value ≠ .undefined ∧ frame.encode maxFrameBytes = Connection.encode maxFrameBytes value

/-- The message that is sent for a value. -/
def sent (maxFrameBytes : ℕ) (value : Value) : Value :=
  if maxFrameBytes < (frameBytes value).length then truncatedFrame value else value

def Event.frame? : Event → Option Frame
  | .write frame _ => some frame
  | _ => none

theorem encode_sent {value : Value} {payload : Bytes} (encodes : Connection.encode maxFrameBytes value = some payload) :
    encodeFrame maxFrameBytes (sent maxFrameBytes value) = .ok payload := by
  rw [Connection.encode, Framing.encodeFrame_eq] at encodes
  unfold sent
  split
  · next large =>
    rw [if_pos large] at encodes
    cases shown : encodeFrame maxFrameBytes (truncatedFrame value) with
    | error e =>
      rw [shown] at encodes
      cases encodes
    | ok bytes =>
      rw [shown] at encodes
      exact congrArg _ (Option.some.inj encodes)
  · next fits =>
    rw [if_neg fits] at encodes
    rw [Framing.encodeFrame_eq, if_neg fits, Option.some.inj encodes]

theorem sent_ne_undefined {value : Value} (defined : value ≠ .undefined) : sent maxFrameBytes value ≠ .undefined := by
  unfold sent truncatedFrame errorResponse Connection.event Value.record
  split_ifs
  · nofun
  · nofun
  · exact defined

theorem step_accepted (o : Output) (event : Event) :
    (step maxFrameBytes o event).accepted = o.accepted
      ∨ ∃ frame payload, Event.frame? event = some frame ∧ frame.encode maxFrameBytes = some payload
        ∧ (step maxFrameBytes o event).accepted = o.accepted ++ [payload] := by
  cases event with
  | write frame callback =>
    rw [step, write]
    split
    · exact .inl rfl
    · split
      · exact .inl rfl
      · next payload encodes =>
        split
        · exact .inl rfl
        · exact .inr ⟨frame, payload, rfl, encodes, flushWrites_accepted _⟩
  | returned answer =>
    simp only [step]
    unfold returned
    split
    · exact .inl rfl
    · exact .inl rfl
    · exact .inl (pump_accepted _)
    · exact .inl (pump_accepted _)
  | drain => exact .inl (flushWrites_accepted _)
  | cleanup =>
    rw [step]
    split <;> exact .inl rfl
  | _ => exact .inl rfl

theorem run_accepted (events : List Event) : ∃ frames : List Frame, frames.Sublist (events.filterMap Event.frame?)
    ∧ List.Forall₂ (fun frame payload => frame.encode maxFrameBytes = some payload) frames
      (run maxFrameBytes events).accepted := by
  induction events using List.reverseRecOn with
  | nil => exact ⟨[], .slnil, .nil⟩
  | append_singleton events event ih =>
    obtain ⟨frames, written, encoded⟩ := ih
    rw [List.filterMap_append, run, List.foldl_append]
    rcases step_accepted (run maxFrameBytes events) event with same | ⟨frame, payload, here, encodes, more⟩
    · exact ⟨frames, written.trans (List.sublist_append_left ..), same.symm ▸ encoded⟩
    · refine ⟨frames ++ [frame], written.append (by simp [here]), ?_⟩
      exact more.symm ▸ List.rel_append encoded (.cons encodes .nil)

theorem exists_written {frames : List Frame} {payloads : List Bytes}
    (encoded : List.Forall₂ (fun frame payload => frame.encode maxFrameBytes = some payload) frames payloads)
    (values : ∀ frame ∈ frames, ∃ value, Carries maxFrameBytes frame value) :
    ∃ written, List.Forall₂ (Carries maxFrameBytes) frames written
      ∧ List.Forall₂ (fun message payload => encodeFrame maxFrameBytes message = .ok payload)
        (written.map (sent maxFrameBytes)) payloads
      ∧ ∀ message ∈ written.map (sent maxFrameBytes), message ≠ .undefined := by
  induction encoded with
  | nil => exact ⟨[], .nil, .nil, nofun⟩
  | cons encodes _ ih =>
    obtain ⟨value, of⟩ := values _ List.mem_cons_self
    obtain ⟨written, all, messages, defined⟩ := ih fun frame member => values frame (List.mem_cons_of_mem _ member)
    exact ⟨value :: written, .cons of all, .cons (encode_sent (of.2.symm.trans encodes)) messages,
      List.forall_mem_cons.mpr ⟨sent_ne_undefined of.1, defined⟩⟩

end PersistentHarness.Connection.Output
