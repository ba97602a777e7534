import Mathlib.Data.List.Induction
import PersistentHarness.Lib.SlotQueue
import PersistentHarness.Model.Connection

/-! # What a connection sends

The frames that the socket has taken and the frames that wait are, together and in order, the frames that were
accepted. The byte count is that of the waiting frames, and with what the socket buffers it stays within the
limit, which leaves room for one full frame on an idle connection.
-/

namespace PersistentHarness.Connection

open SlotQueue (Holds)
open Framing (encodeFrame)

namespace Output

variable {maxFrameBytes : ℕ} {o : Output} {items : List Queued} {frame : Queued}

def bytesOf (items : List Queued) : ℤ := (items.map fun frame => (frame.encoded.length : ℤ)).sum

theorem bytesOf_nil : bytesOf [] = 0 := rfl

theorem bytesOf_cons (frame : Queued) (items : List Queued) :
    bytesOf (frame :: items) = frame.encoded.length + bytesOf items := by
  rw [bytesOf, List.map_cons, List.sum_cons, bytesOf]

theorem bytesOf_concat (items : List Queued) (frame : Queued) :
    bytesOf (items ++ [frame]) = bytesOf items + frame.encoded.length := by
  rw [bytesOf, List.map_append, List.sum_append, bytesOf, List.map_singleton, List.sum_singleton]

theorem bytesOf_nonneg (items : List Queued) : 0 ≤ bytesOf items := by
  induction items with
  | nil => exact le_rfl
  | cons frame rest ih =>
    rw [bytesOf_cons]
    omega

/-- The queue holds the frames that wait, counted and in order. -/
structure Keeps (maxFrameBytes : ℕ) (o : Output) (items : List Queued) : Prop where
  holds : Holds o.outputQueue o.outputQueueHead items
  counted : o.outputBytes = bytesOf items
  bounded : o.outputBytes + o.socket.writableLength ≤ socketOutputBufferLimit maxFrameBytes
  ordered : o.socket.destroyed = false → o.socket.received ++ items.map Queued.encoded = o.accepted

theorem Keeps.queued (keeps : Keeps maxFrameBytes o items) : o.queued = items := keeps.holds.reduce

/-- Frames wait only for a drain, unless a flush is under way. -/
def Flushed (o : Output) (items : List Queued) : Prop :=
  o.writing = 0 → o.socket.destroyed = false → o.socket.writableEnded = false → o.outputBlocked = true ∨ items = []

structure Sound (maxFrameBytes : ℕ) (o : Output) : Prop where
  keeps : Keeps maxFrameBytes o o.queued
  flushed : Flushed o o.queued
  gone : o.cleaned = true → o.socket.destroyed = true

theorem Sound.of_keeps (keeps : Keeps maxFrameBytes o items) (flushed : Flushed o items)
    (gone : o.cleaned = true → o.socket.destroyed = true) : Sound maxFrameBytes o := by
  obtain rfl := keeps.queued
  exact ⟨keeps, flushed, gone⟩

theorem new_sound : Sound maxFrameBytes new := by
  have empty : Keeps maxFrameBytes new [] := ⟨.empty, rfl, by simp [new, Socket.new], fun _ => rfl⟩
  exact .of_keeps empty (fun _ _ _ => .inr rfl) nofun

section Flushes

theorem Keeps.compact (keeps : Keeps maxFrameBytes o items) : Keeps maxFrameBytes o.compact items := by
  unfold Output.compact
  split
  · next drained =>
    have holds := keeps.holds
    rw [drained] at holds
    obtain rfl := holds.drained
    exact ⟨.empty, keeps.counted, keeps.bounded, keeps.ordered⟩
  · split
    · exact ⟨keeps.holds.compact, keeps.counted, keeps.bounded, keeps.ordered⟩
    · exact keeps

theorem compact_frame (o : Output) : o.compact.socket = o.socket ∧ o.compact.outputBlocked = o.outputBlocked
    ∧ o.compact.cleaned = o.cleaned ∧ o.compact.accepted = o.accepted := by
  unfold Output.compact
  split
  · exact ⟨rfl, rfl, rfl, rfl⟩
  · split <;> exact ⟨rfl, rfl, rfl, rfl⟩

theorem write_destroyed (socket : Socket) (encoded : Bytes) (gone : socket.destroyed = true) :
    (socket.write encoded).destroyed = true := by
  rw [Socket.write, if_pos gone, gone]

/-- Handing a frame over moves its bytes from the queue to the socket. -/
theorem Keeps.hand (keeps : Keeps maxFrameBytes o (frame :: items)) :
    Keeps maxFrameBytes { o with
      outputQueue := o.outputQueue.set o.outputQueueHead none
      outputQueueHead := o.outputQueueHead + 1
      outputBytes := o.outputBytes - frame.encoded.length
      socket := o.socket.write frame.encoded
      writing := o.writing + 1 } items := by
  have counted := keeps.counted
  have bounded := keeps.bounded
  rw [bytesOf_cons] at counted
  refine ⟨keeps.holds.take, ?_, ?_, ?_⟩
  · dsimp only
    omega
  · dsimp only
    unfold Socket.write
    split
    · omega
    · split
      · simp only [Socket.destroy]
        omega
      · dsimp only
        push_cast
        omega
  · unfold Socket.write
    dsimp only
    split
    · next gone => exact fun stands => absurd (gone.symm.trans stands) (by decide)
    · next stands =>
      split
      · simp only [Socket.destroy, Bool.true_eq_false, false_implies]
      · intro _
        rw [← keeps.ordered (Bool.not_eq_true _ ▸ stands), List.append_assoc]
        rfl

/-- A flush that stops before a call of `write` has nothing to hand over, or waits for a drain. -/
theorem pump_sound (keeps : Keeps maxFrameBytes o items) (gone : o.cleaned = true → o.socket.destroyed = true) :
    Sound maxFrameBytes o.pump := by
  unfold pump
  obtain ⟨socket, blocked, cleaned, _⟩ := o.compact_frame
  have gone' : o.compact.cleaned = true → o.compact.socket.destroyed = true := by rwa [socket, cleaned]
  split
  · next waits => exact .of_keeps keeps.compact (fun _ _ _ => .inl (blocked.trans waits)) gone'
  · have here := keeps.holds.getElem?
    cases items with
    | nil =>
      rw [here]
      exact .of_keeps keeps.compact (fun _ _ _ => .inr rfl) gone'
    | cons frame rest =>
      rw [here]
      exact .of_keeps keeps.hand nofun fun cleaned => write_destroyed _ _ (gone cleaned)

theorem flushWrites_sound (keeps : Keeps maxFrameBytes o items) (gone : o.cleaned = true → o.socket.destroyed = true) :
    Sound maxFrameBytes o.flushWrites := by
  unfold flushWrites
  split
  · next still =>
    refine .of_keeps keeps (fun _ stands lasts => ?_) gone
    rcases still with cleaned | destroyed | ended
    · exact absurd ((gone cleaned).symm.trans stands) (by decide)
    · exact absurd (destroyed.symm.trans stands) (by decide)
    · exact absurd (ended.symm.trans lasts) (by decide)
  · exact pump_sound keeps gone

end Flushes

section Steps

/-- A socket that is gone promises nothing about what it has taken. -/
theorem Sound.destroyed (sound : Sound maxFrameBytes o) : Sound maxFrameBytes { o with socket := o.socket.destroy } := by
  have keeps := sound.keeps
  exact .of_keeps ⟨keeps.holds, keeps.counted, keeps.bounded, nofun⟩ (fun _ => nofun) fun _ => rfl

theorem write_spec (sound : Sound maxFrameBytes o) (frame : Frame) (callback : Bool) :
    Sound maxFrameBytes (o.write maxFrameBytes frame callback).1 := by
  unfold write
  split
  · exact sound
  next stands =>
    push Not at stands
    split
    · exact sound.destroyed
    next encoded encodes =>
      split
      · exact sound.destroyed
      next fits =>
        have keeps := sound.keeps
        have holds := keeps.holds.push ⟨encoded, callback⟩
        refine flushWrites_sound ⟨holds, ?_, ?_, fun lasts => ?_⟩ sound.gone
        · dsimp only
          rw [bytesOf_concat, keeps.counted]
        · dsimp only
          omega
        · dsimp only
          rw [List.map_append, ← List.append_assoc, keeps.ordered lasts, List.map_singleton]

theorem returned_spec (sound : Sound maxFrameBytes o) (answer : Answer) : Sound maxFrameBytes (o.returned answer) := by
  have keeps := sound.keeps
  unfold returned
  split
  · exact sound
  · exact .of_keeps ⟨keeps.holds, keeps.counted, keeps.bounded, nofun⟩ (fun _ => nofun) fun _ => rfl
  · exact pump_sound ⟨keeps.holds, keeps.counted, keeps.bounded, keeps.ordered⟩ sound.gone
  · exact pump_sound ⟨keeps.holds, keeps.counted, keeps.bounded, keeps.ordered⟩ sound.gone

theorem cleanup_spec (sound : Sound maxFrameBytes o) (gone : o.socket.destroyed = true) :
    Sound maxFrameBytes o.cleanup := by
  have bounded := sound.keeps.bounded
  have counted := sound.keeps.counted
  have some := bytesOf_nonneg o.queued
  have empty : Keeps maxFrameBytes o.cleanup [] := by
    refine ⟨.empty, rfl, ?_, fun stands => absurd (gone.symm.trans stands) (by decide)⟩
    dsimp only [cleanup]
    omega
  exact .of_keeps empty (fun _ _ _ => .inr rfl) fun _ => gone

theorem step_sound (sound : Sound maxFrameBytes o) (event : Event) : Sound maxFrameBytes (step maxFrameBytes o event) := by
  have keeps := sound.keeps
  cases event with
  | write frame callback => exact write_spec sound frame callback
  | returned answer => exact returned_spec sound answer
  | drain => exact flushWrites_sound ⟨keeps.holds, keeps.counted, keeps.bounded, keeps.ordered⟩ sound.gone
  | sent bytes =>
    have bounded := keeps.bounded
    refine .of_keeps ⟨keeps.holds, keeps.counted, ?_, keeps.ordered⟩ sound.flushed sound.gone
    dsimp only [step]
    omega
  | finish => exact .of_keeps ⟨keeps.holds, keeps.counted, keeps.bounded, keeps.ordered⟩ (fun _ _ => nofun) sound.gone
  | destroy => exact sound.destroyed
  | close => exact .of_keeps ⟨keeps.holds, keeps.counted, keeps.bounded, keeps.ordered⟩ sound.flushed sound.gone
  | cleanup =>
    simp only [step]
    split
    · next gone => exact cleanup_spec sound gone
    · exact sound

theorem run_sound (maxFrameBytes : ℕ) (events : List Event) : Sound maxFrameBytes (run maxFrameBytes events) := by
  induction events using List.reverseRecOn with
  | nil => exact new_sound
  | append_singleton events event ih =>
    rw [run, List.foldl_append]
    exact step_sound ih event

end Steps

section Results

theorem pump_accepted (o : Output) : o.pump.accepted = o.accepted := by
  unfold pump
  have compacted := o.compact_frame.2.2.2
  split
  · exact compacted
  · split
    · exact compacted
    · rfl
    · rfl

theorem flushWrites_accepted (o : Output) : o.flushWrites.accepted = o.accepted := by
  unfold flushWrites
  split
  · rfl
  · exact pump_accepted o

theorem encodeFrame_length {frame : Value} {encoded : Bytes} (encodes : encodeFrame maxFrameBytes frame = .ok encoded) :
    encoded.length ≤ maxFrameBytes + 1 := by
  simp only [encodeFrame] at encodes
  split at encodes
  · cases encodes
  next fits =>
    cases encodes
    omega

/-- An open connection that has nothing left to send. -/
structure Idle (o : Output) : Prop where
  closing : o.closing = false
  cleaned : o.cleaned = false
  destroyed : o.socket.destroyed = false
  writableEnded : o.socket.writableEnded = false
  queued : o.queued = []
  writableLength : o.socket.writableLength = 0

theorem Idle.admits (idle : Idle o) (sound : Sound maxFrameBytes o) {frame : Value} {encoded : Bytes}
    (encodes : encodeFrame maxFrameBytes frame = .ok encoded) (callback : Bool) :
    (o.write maxFrameBytes (.value frame) callback).2 = true
      ∧ (o.write maxFrameBytes (.value frame) callback).1.accepted = o.accepted ++ [encoded] := by
  have stands : ¬(o.closing = true ∨ o.cleaned = true ∨ o.socket.destroyed = true ∨ o.socket.writableEnded = true) := by
    simp only [idle.closing, idle.cleaned, idle.destroyed, idle.writableEnded, Bool.false_eq_true, or_self, not_false_eq_true]
  have encoding : (Frame.value frame).encode maxFrameBytes = some encoded := by
    rw [Frame.encode, Connection.encode, encodes]
  have counted : o.outputBytes = 0 := by rw [sound.keeps.counted, idle.queued, bytesOf_nil]
  have room : ¬(socketOutputBufferLimit maxFrameBytes : ℤ) < o.outputBytes + o.socket.writableLength + encoded.length := by
    have length := encodeFrame_length encodes
    have wide : maxFrameBytes + 1 ≤ socketOutputBufferLimit maxFrameBytes := Nat.le_add_right _ _
    rw [counted, idle.writableLength]
    omega
  simp only [write, if_neg stands, encoding, if_neg room, flushWrites_accepted, and_self]

/-- Whatever is written and whenever the socket drains: the frames that the socket has taken, and after them those that
wait, are the accepted frames; none waits on an open socket without reason; the waiting bytes are counted, and stay
with the socket's own within the limit, in which an idle connection has room for every legal frame. -/
theorem run_delivers (maxFrameBytes : ℕ) (events : List Event) :
    ((run maxFrameBytes events).socket.destroyed = false →
      (run maxFrameBytes events).socket.received ++ (run maxFrameBytes events).queued.map Queued.encoded
        = (run maxFrameBytes events).accepted)
    ∧ ((run maxFrameBytes events).socket.destroyed = false → (run maxFrameBytes events).socket.writableEnded = false →
      (run maxFrameBytes events).writing = 0 → (run maxFrameBytes events).outputBlocked = false →
      (run maxFrameBytes events).socket.received.flatten = (run maxFrameBytes events).accepted.flatten)
    ∧ (run maxFrameBytes events).outputBytes = bytesOf (run maxFrameBytes events).queued
    ∧ (run maxFrameBytes events).outputBytes + (run maxFrameBytes events).socket.writableLength
      ≤ socketOutputBufferLimit maxFrameBytes
    ∧ (Idle (run maxFrameBytes events) → ∀ frame encoded callback, encodeFrame maxFrameBytes frame = .ok encoded →
      ((run maxFrameBytes events).write maxFrameBytes (.value frame) callback).2 = true
        ∧ ((run maxFrameBytes events).write maxFrameBytes (.value frame) callback).1.accepted
          = (run maxFrameBytes events).accepted ++ [encoded]) := by
  have sound := run_sound maxFrameBytes events
  refine ⟨sound.keeps.ordered, fun stands lasts settled flows => ?_, sound.keeps.counted, sound.keeps.bounded,
    fun idle _ _ callback encodes => idle.admits sound encodes callback⟩
  rcases sound.flushed settled stands lasts with blocked | empty
  · exact absurd (blocked.symm.trans flows) (by decide)
  · rw [← sound.keeps.ordered stands, empty, List.map_nil, List.append_nil]

end Results

end Output

end PersistentHarness.Connection
