import PersistentHarness.Soundness.Kernel.OutputCollector

/-! # The records of an output collector

The entries of `outputs` spell what arrived, in order, without the records that were reclaimed or found no room; one
marker stands where something is missing. Room for a final result is made by the oldest records.
-/

namespace PersistentHarness.Kernel

open Json Utf8

/-- The same pieces in the same order, with some records missing. -/
inductive Thinned : List Piece → List Piece → Prop
  | nil : Thinned [] []
  | keep {kept all : List Piece} (piece : Piece) (rest : Thinned kept all) : Thinned (piece :: kept) (piece :: all)
  | drop {kept all : List Piece} (mime : Value) (rest : Thinned kept all) : Thinned kept (.record mime :: all)

namespace Thinned

variable {kept all other more : List Piece}

theorem refl (all : List Piece) : Thinned all all := by
  induction all with
  | nil => exact .nil
  | cons piece rest ih => exact .keep piece ih

theorem append (first : Thinned kept all) (second : Thinned other more) : Thinned (kept ++ other) (all ++ more) := by
  induction first with
  | nil => exact second
  | keep piece _ ih => exact .keep piece ih
  | drop mime _ ih => exact .drop mime ih

theorem trans (first : Thinned kept all) (second : Thinned all more) : Thinned kept more := by
  induction second generalizing kept with
  | nil => exact first
  | keep piece _ ih =>
    cases first with
    | keep _ rest => exact .keep piece (ih rest)
    | drop mime rest => exact .drop mime (ih rest)
  | drop mime _ ih => exact .drop mime (ih first)

theorem length_le (thinned : Thinned kept all) : kept.length ≤ all.length := by
  induction thinned with
  | nil => exact le_rfl
  | keep piece _ ih => exact Nat.succ_le_succ ih
  | drop mime _ ih => exact Nat.le_succ_of_le ih

theorem textOf_eq (thinned : Thinned kept all) : textOf kept = textOf all := by
  induction thinned with
  | nil => rfl
  | keep piece _ ih =>
    cases piece with
    | unit u => exact congrArg (u :: ·) ih
    | record mime => exact ih
  | drop mime _ ih => exact ih

theorem of_units {text : JsString} (thinned : Thinned kept (text.map .unit)) : kept = text.map .unit := by
  induction text generalizing kept with
  | nil =>
    cases thinned
    rfl
  | cons u text ih =>
    cases thinned with
    | keep _ rest => rw [ih rest, List.map_cons]

theorem split (thinned : Thinned kept (all ++ more)) :
    ∃ first second, kept = first ++ second ∧ Thinned first all ∧ Thinned second more := by
  induction all generalizing kept with
  | nil => exact ⟨[], kept, rfl, .nil, thinned⟩
  | cons piece all ih =>
    cases thinned with
    | keep _ rest =>
      obtain ⟨first, second, rfl, before, behind⟩ := ih rest
      exact ⟨piece :: first, second, rfl, .keep piece before, behind⟩
    | drop mime rest =>
      obtain ⟨first, second, rfl, before, behind⟩ := ih rest
      exact ⟨first, second, rfl, .drop mime before, behind⟩

end Thinned

/-- The entries without their first `n` records. -/
def dropRecords : ℕ → List Output → List Output
  | 0, outputs => outputs
  | _, [] => []
  | n + 1, .text text :: rest => .text text :: dropRecords (n + 1) rest
  | n + 1, .mime _ :: rest => dropRecords n rest

theorem dropRecords_zero (outputs : List Output) : dropRecords 0 outputs = outputs := by rw [dropRecords]

theorem records_dropRecords (n : ℕ) (outputs : List Output) : records (dropRecords n outputs) = (records outputs).drop n := by
  induction outputs generalizing n with
  | nil => cases n <;> rfl
  | cons output rest ih =>
    cases n with
    | zero => rfl
    | succ n =>
      cases output with
      | text text => exact ih (n + 1)
      | mime mime => exact ih n

theorem thinned_dropRecords (n : ℕ) (outputs : List Output) : Thinned (contents (dropRecords n outputs)) (contents outputs) := by
  induction outputs generalizing n with
  | nil =>
    cases n with
    | zero => exact .nil
    | succ n => exact .nil
  | cons output rest ih =>
    cases n with
    | zero => exact .refl _
    | succ n =>
      cases output with
      | text text => exact (Thinned.refl (text.map .unit)).append (ih (n + 1))
      | mime mime => exact .drop mime (ih n)

def totalOf (mimes : List Value) : ℤ := (mimes.map recordBytes).sum

theorem totalOf_nonneg (mimes : List Value) : 0 ≤ totalOf mimes := by
  induction mimes with
  | nil => exact le_rfl
  | cons mime rest ih =>
    rw [totalOf, List.map_cons, List.sum_cons]
    exact Int.add_nonneg (Int.natCast_nonneg _) ih

/-- The loop removes the oldest records, and none once there is room. -/
theorem foldl_reclaimed (bytes limit : ℤ) (outputs : List Output) (loop : Reclaimed) :
    ∃ n ≤ (records outputs).length,
      (outputs.foldl (Reclaimed.step bytes limit) loop).retained = loop.retained ++ dropRecords n outputs
      ∧ (outputs.foldl (Reclaimed.step bytes limit) loop).richOutputBytes
          = loop.richOutputBytes - totalOf ((records outputs).take n)
      ∧ ((outputs.foldl (Reclaimed.step bytes limit) loop).richOutputBytes + bytes ≤ limit ∨ n = (records outputs).length)
      ∧ (0 < n → limit < loop.richOutputBytes - totalOf ((records outputs).take (n - 1)) + bytes)
      ∧ ((outputs.foldl (Reclaimed.step bytes limit) loop).firstRemoved = none ↔ loop.firstRemoved = none ∧ n = 0) := by
  induction outputs generalizing loop with
  | nil => exact ⟨0, le_rfl, (List.append_nil _).symm, (Int.sub_zero _).symm, .inr rfl, nofun, by simp⟩
  | cons output rest ih =>
    cases output with
    | text text =>
      obtain ⟨n, few, retained, held, room, least, first⟩ := ih { loop with retained := loop.retained ++ [.text text] }
      refine ⟨n, few, ?_, held, room, least, first⟩
      rw [List.foldl_cons, Reclaimed.step, retained, List.append_assoc]
      cases n with
      | zero => rw [dropRecords_zero, dropRecords_zero, List.singleton_append]
      | succ n => rfl
    | mime mime =>
      rw [List.foldl_cons, Reclaimed.step]
      have spelled : records (.mime mime :: rest) = mime :: records rest := rfl
      rw [spelled]
      split
      · next crowded =>
        obtain ⟨n, few, retained, held, room, least, first⟩ := ih
          ⟨loop.richOutputBytes - recordBytes mime, loop.retained, some (loop.firstRemoved.getD loop.retained.length)⟩
        refine ⟨n + 1, Nat.succ_le_succ few, retained, ?_, ?_, fun _ => ?_, ?_⟩
        · rw [held, List.take_succ_cons, totalOf, totalOf, List.map_cons, List.sum_cons]
          dsimp only
          omega
        · exact room.imp id (congrArg Nat.succ)
        · cases n with
          | zero =>
            change limit < loop.richOutputBytes - 0 + bytes
            omega
          | succ n =>
            have least := least n.succ_pos
            rw [Nat.add_sub_cancel] at least ⊢
            rw [List.take_succ_cons, totalOf, List.map_cons, List.sum_cons, ← totalOf]
            dsimp only at least
            omega
        · simp only [first, reduceCtorEq, false_and, Nat.succ_ne_zero, and_false]
      · next fits =>
        obtain ⟨n, few, retained, held, room, least, first⟩ := ih { loop with retained := loop.retained ++ [.mime mime] }
        have zero : n = 0 := by
          by_contra some
          have least := least (Nat.pos_of_ne_zero some)
          have nonneg := totalOf_nonneg ((records rest).take (n - 1))
          dsimp only at least
          omega
        subst zero
        refine ⟨0, Nat.zero_le _, ?_, held, .inl ?_, nofun, first⟩
        · rw [retained, List.append_assoc, dropRecords_zero, dropRecords_zero, List.singleton_append]
        · rw [held]
          have same : totalOf ((records rest).take 0) = 0 := rfl
          dsimp only
          omega

theorem contents_length (outputs : List Output) :
    (contents outputs).length = (textOf (contents outputs)).length + (records outputs).length := by
  induction outputs with
  | nil => rfl
  | cons output rest ih =>
    rw [contents, List.flatMap_cons, ← contents, List.length_append, textOf_append, List.length_append]
    cases output with
    | text text =>
      rw [Output.pieces, textOf_units, List.length_map, ih]
      change text.length + ((textOf (contents rest)).length + (records rest).length) = _ + (records rest).length
      omega
    | mime mime =>
      change 1 + (contents rest).length = 0 + (textOf (contents rest)).length + ((records rest).length + 1)
      omega

/-! ## What is held and what is missing -/

namespace OutputCollector

variable {c : OutputCollector} {past : List Piece} {refused : Bool}

/-- The marker stands at one place between the pieces that are left, and something is missing. -/
def Marked (c : OutputCollector) (past : List Piece) (refused : Bool) : Prop :=
  ∃ before behind limit, Thinned (before ++ behind) past
    ∧ contents c.outputs = before ++ (richMarker limit).map .unit ++ behind
    ∧ (refused = true ∨ (before ++ behind).length < past.length)

/-- The collector after pieces arrived, and possibly a result the runtime truncated. -/
structure Listed (c : OutputCollector) (past : List Piece) (refused : Bool) : Prop where
  held : c.richOutputBytes = totalOf (records c.outputs)
  whole : c.richTruncated = false → contents c.outputs = past ∧ refused = false
  marked : c.richTruncated = true → c.Marked past refused

theorem Marked.append (marked : c.Marked past refused) (more : List Piece) {after : OutputCollector}
    (listed : contents after.outputs = contents c.outputs ++ more) : after.Marked (past ++ more) refused := by
  obtain ⟨before, behind, limit, thinned, spelled, lost⟩ := marked
  refine ⟨before, behind ++ more, limit, ?_, ?_, lost.imp id fun fewer => ?_⟩
  · rw [← List.append_assoc]
    exact thinned.append (.refl more)
  · rw [listed, spelled, List.append_assoc _ behind more]
  · simp only [List.length_append] at fewer ⊢
    omega

theorem truncateRich_frame (c : OutputCollector) (index : ℕ) :
    records (c.truncateRich index).outputs = records c.outputs ∧ (c.truncateRich index).richTruncated = true
      ∧ (c.truncateRich index).richOutputBytes = c.richOutputBytes
      ∧ (c.truncateRich index).richOutputLimit = c.richOutputLimit
      ∧ (∀ stream, (c.truncateRich index).captured stream = c.captured stream)
      ∧ (c.truncateRich index).maxBytes = c.maxBytes := by
  unfold truncateRich
  split
  · next already => exact ⟨rfl, already, rfl, rfl, fun _ => rfl, rfl⟩
  · dsimp only
    split
    · refine ⟨(contents_addText _ _).2, ?_, ?_, ?_, fun stream => ?_, maxBytes_addText _ _⟩
      · exact congrArg (·.2.2.2) (rich_addText { c with richTruncated := true } (richMarker c.richOutputLimit))
      · exact congrArg (·.2.1) (rich_addText { c with richTruncated := true } (richMarker c.richOutputLimit))
      · exact congrArg (·.2.2.1) (rich_addText { c with richTruncated := true } (richMarker c.richOutputLimit))
      · rw [captured_addText]
        cases stream <;> rfl
    · refine ⟨?_, rfl, rfl, rfl, fun stream => by cases stream <;> rfl, rfl⟩
      have around := records_append (c.outputs.take index) (.text (richMarker c.richOutputLimit) :: c.outputs.drop index)
      have whole := records_append (c.outputs.take index) (c.outputs.drop index)
      rw [List.take_append_drop] at whole
      exact around.trans whole.symm

/-- The marker is put in once, at the place asked for. -/
theorem contents_truncateRich (fresh : c.richTruncated = false) (index : ℕ) :
    contents (c.truncateRich index).outputs
      = contents (c.outputs.take index) ++ (richMarker c.richOutputLimit).map .unit ++ contents (c.outputs.drop index) := by
  rw [truncateRich, if_neg (by rw [fresh]; exact Bool.false_ne_true)]
  dsimp only
  split
  · next last =>
    rw [(contents_addText _ _).1, last, List.take_length, List.drop_length]
    exact (List.append_nil _).symm
  · rw [contents_append, List.append_assoc]
    rfl

theorem marked_truncateRich (index : ℕ)
    (fresh : c.richTruncated = false →
      Thinned (contents c.outputs) past ∧ (refused = true ∨ (contents c.outputs).length < past.length))
    (again : c.richTruncated = true → c.Marked past refused) : (c.truncateRich index).Marked past refused := by
  cases truncated : c.richTruncated with
  | true =>
    rw [truncateRich, if_pos truncated]
    exact again truncated
  | false =>
    obtain ⟨thinned, lost⟩ := fresh truncated
    have whole := contents_append (c.outputs.take index) (c.outputs.drop index)
    rw [List.take_append_drop] at whole
    rw [whole] at thinned lost
    exact ⟨_, _, _, thinned, contents_truncateRich truncated index, lost⟩

theorem totalOf_drop (mimes : List Value) (n : ℕ) : totalOf (mimes.drop n) = totalOf mimes - totalOf (mimes.take n) := by
  have whole : totalOf (mimes.take n ++ mimes.drop n) = totalOf (mimes.take n) + totalOf (mimes.drop n) := by
    rw [totalOf, List.map_append, List.sum_append, totalOf, totalOf]
  rw [List.take_append_drop] at whole
  omega

/-- The fewest of the oldest records go, and there is room for a final result. -/
theorem Listed.reclaim (listed : c.Listed past refused) {bytes : ℤ} (legal : bytes ≤ c.richOutputLimit) :
    (c.reclaim bytes).Listed past refused
      ∧ (c.reclaim bytes).richOutputLimit = c.richOutputLimit
      ∧ (c.reclaim bytes).richOutputBytes + bytes ≤ c.richOutputLimit
      ∧ (∃ n, records (c.reclaim bytes).outputs = (records c.outputs).drop n
        ∧ (0 < n → c.richOutputLimit < totalOf ((records c.outputs).drop (n - 1)) + bytes))
      ∧ (∀ stream, (c.reclaim bytes).captured stream = c.captured stream) ∧ (c.reclaim bytes).maxBytes = c.maxBytes := by
  obtain ⟨held, whole, marked⟩ := listed
  unfold OutputCollector.reclaim
  split
  · next crowded =>
    obtain ⟨n, few, retained, kept, room, least, first⟩ :=
      foldl_reclaimed bytes c.richOutputLimit c.outputs ⟨c.richOutputBytes, [], none⟩
    dsimp only at retained kept least first
    generalize c.outputs.foldl (Reclaimed.step bytes c.richOutputLimit) ⟨c.richOutputBytes, [], none⟩ = loop at *
    obtain ⟨left, outputs, removed⟩ := loop
    dsimp only at retained kept room first ⊢
    rw [List.nil_append] at retained
    subst retained
    have enough : left + bytes ≤ c.richOutputLimit := by
      rcases room with room | all
      · exact room
      · rw [all, List.take_length] at kept
        omega
    have positive : n ≠ 0 := by
      rintro rfl
      have none : totalOf ((records c.outputs).take 0) = 0 := rfl
      omega
    cases removed with
    | none => exact absurd (first.mp rfl).2 positive
    | some index =>
      have shorter : (contents (dropRecords n c.outputs)).length < (contents c.outputs).length := by
        rw [contents_length, contents_length, records_dropRecords, List.length_drop,
          (thinned_dropRecords n c.outputs).textOf_eq]
        omega
      obtain ⟨same, truncated, bytesSame, limitSame, capturedSame, maxSame⟩ :=
        truncateRich_frame { c with richOutputBytes := left, outputs := dropRecords n c.outputs } index
      dsimp only at same bytesSame limitSame maxSame ⊢
      refine ⟨⟨?_, fun fresh => ?_, fun _ => marked_truncateRich index (fun fresh => ?_) fun again => ?_⟩, limitSame, ?_,
        ⟨n, ?_, fun _ => ?_⟩, fun stream => (capturedSame stream).trans (by cases stream <;> rfl), maxSame⟩
      · rw [bytesSame, same, records_dropRecords, totalOf_drop, ← held, kept]
      · rw [truncated] at fresh
        cases fresh
      · rw [← (whole fresh).1]
        exact ⟨thinned_dropRecords n c.outputs, .inr shorter⟩
      · obtain ⟨before, behind, limit, thinned, spelled, lost⟩ := marked again
        have left := thinned_dropRecords n c.outputs
        rw [spelled] at left
        obtain ⟨_, second, spelledLeft, first, third⟩ := left.split
        obtain ⟨front, middle, rfl, begins, between⟩ := first.split
        rw [between.of_units] at spelledLeft
        refine ⟨front, second, limit, (begins.append third).trans thinned, spelledLeft, lost.imp id fun fewer => ?_⟩
        have bound := (begins.append third).length_le
        omega
      · rw [bytesSame]
        exact enough
      · rw [same, records_dropRecords]
      · rw [totalOf_drop, ← held]
        exact least (Nat.pos_of_ne_zero positive)
  · next fits =>
    exact ⟨⟨held, whole, marked⟩, rfl, by omega, ⟨0, List.drop_zero.symm, nofun⟩, fun _ => rfl, rfl⟩

/-- What an addition brings to `outputs`. -/
def arrived (c : OutputCollector) : Addition → List Piece
  | .stream stream chunk => (c.addedText stream chunk).map .unit
  | .mime mime truncated _ => if !truncated && isRecord mime then [.record mime] else []

/-- What some additions bring, in the order they arrive. -/
def arrivals (c : OutputCollector) : List Addition → List Piece
  | [] => []
  | addition :: rest => c.arrived addition ++ (c.receive addition).arrivals rest

end OutputCollector

/-- The runtime truncated the result itself. -/
def Addition.refused : Addition → Bool
  | .stream .. => false
  | .mime _ truncated _ => truncated

namespace OutputCollector

variable {c : OutputCollector} {past : List Piece} {refused : Bool}

theorem Listed.refuse (listed : c.Listed past refused) :
    (c.truncateRich c.outputs.length).Listed past true := by
  obtain ⟨same, truncated, bytesSame, _⟩ := truncateRich_frame c c.outputs.length
  refine ⟨by rw [bytesSame, same, listed.held], fun fresh => ?_, fun _ => marked_truncateRich _ (fun fresh => ?_) fun again => ?_⟩
  · rw [truncated] at fresh
    cases fresh
  · rw [(listed.whole fresh).1]
    exact ⟨.refl past, .inl rfl⟩
  · obtain ⟨before, behind, limit, thinned, spelled, _⟩ := listed.marked again
    exact ⟨before, behind, limit, thinned, spelled, .inl rfl⟩

/-- A display that finds no room is lost. -/
theorem Listed.lose (listed : c.Listed past refused) (mime : Value) :
    (c.truncateRich c.outputs.length).Listed (past ++ [.record mime]) refused := by
  obtain ⟨same, truncated, bytesSame, _⟩ := truncateRich_frame c c.outputs.length
  have lost : Thinned past (past ++ [.record mime]) := by
    have thinned := (Thinned.refl past).append (.drop mime .nil)
    rwa [List.append_nil] at thinned
  have longer : (past ++ [Piece.record mime]).length = past.length + 1 := List.length_append
  refine ⟨by rw [bytesSame, same, listed.held], fun fresh => ?_, fun _ => marked_truncateRich _ (fun fresh => ?_) fun again => ?_⟩
  · rw [truncated] at fresh
    cases fresh
  · rw [(listed.whole fresh).1]
    exact ⟨lost, .inr (by omega)⟩
  · obtain ⟨before, behind, limit, thinned, spelled, _⟩ := listed.marked again
    have bound := thinned.length_le
    exact ⟨before, behind, limit, thinned.trans lost, spelled, .inr (by omega)⟩

theorem Listed.push (listed : c.Listed past refused) (mime : Value) :
    { c with
      richOutputBytes := c.richOutputBytes + recordBytes mime
      mime := mime
      outputs := c.outputs ++ [.mime mime] : OutputCollector }.Listed (past ++ [.record mime]) refused where
  held := by
    have sum : totalOf (records c.outputs ++ [mime]) = totalOf (records c.outputs) + recordBytes mime := by
      rw [totalOf, List.map_append, List.sum_append, totalOf, List.map_singleton, List.sum_singleton]
    change c.richOutputBytes + recordBytes mime = totalOf (records (c.outputs ++ [.mime mime]))
    rw [records_append, listed.held]
    exact sum.symm
  whole fresh := by
    obtain ⟨spelled, calm⟩ := listed.whole fresh
    exact ⟨by rw [contents_append, spelled]; rfl, calm⟩
  marked truncated := (listed.marked truncated).append [.record mime] (contents_append _ _)

theorem Listed.limit (listed : c.Listed past refused) (limit : ℤ) :
    { c with richOutputLimit := limit : OutputCollector }.Listed past refused := ⟨listed.held, listed.whole, listed.marked⟩

theorem Listed.add (listed : c.Listed past refused) (stream : StreamName) (chunk : Bytes) :
    (c.add stream chunk).Listed (past ++ (c.addedText stream chunk).map .unit) refused := by
  obtain ⟨_, spelled, same, rich, _⟩ := add_spec c stream chunk
  have bytes : (c.add stream chunk).richOutputBytes = c.richOutputBytes := congrArg (·.2.1) rich
  have truncated : (c.add stream chunk).richTruncated = c.richTruncated := congrArg (·.2.2.2) rich
  refine ⟨by rw [bytes, same, listed.held], fun fresh => ?_, fun again => ?_⟩
  · obtain ⟨before, calm⟩ := listed.whole (truncated.symm.trans fresh)
    exact ⟨by rw [spelled, before], calm⟩
  · exact (listed.marked (truncated.symm.trans again)).append _ spelled

theorem addMime_spec (listed : c.Listed past refused) (within : c.richOutputBytes ≤ c.richOutputLimit) (mime : Value)
    (truncated terminal : Bool) :
    (c.addMime mime truncated terminal).Listed (past ++ c.arrived (.mime mime truncated terminal)) (refused || truncated)
      ∧ (c.addMime mime truncated terminal).richOutputBytes ≤ (c.addMime mime truncated terminal).richOutputLimit
      ∧ (∀ stream, (c.addMime mime truncated terminal).captured stream = c.captured stream)
      ∧ (c.addMime mime truncated terminal).maxBytes = c.maxBytes
      ∧ (terminal = false → records (c.addMime mime truncated terminal).outputs = records c.outputs
        ∨ records (c.addMime mime truncated terminal).outputs = records c.outputs ++ [mime])
      ∧ (isRecord mime = true → truncated = false → terminal = true →
        (c.addMime mime truncated terminal).richOutputLimit = max KERNEL_FRAME_BYTES (recordBytes mime)
          ∧ ∃ n, records (c.addMime mime truncated terminal).outputs = (records c.outputs).drop n ++ [mime]
            ∧ (0 < n → max KERNEL_FRAME_BYTES (recordBytes mime)
              < totalOf ((records c.outputs).drop (n - 1)) + recordBytes mime)) := by
  have brings : c.arrived (.mime mime truncated terminal) = if !truncated && isRecord mime then [.record mime] else [] := rfl
  rw [brings]
  unfold addMime
  cases truncated with
  | true =>
    rw [if_pos rfl, Bool.or_true]
    obtain ⟨same, _, bytesSame, limitSame, capturedSame, maxSame⟩ := truncateRich_frame c c.outputs.length
    refine ⟨?_, by rw [bytesSame, limitSame]; exact within, capturedSame, maxSame, fun _ => .inl same, nofun⟩
    simpa using listed.refuse
  | false =>
    rw [if_neg Bool.false_ne_true, Bool.or_false]
    cases record : isRecord mime with
    | false =>
      rw [if_pos (show (!false) = true from rfl)]
      exact ⟨by simpa using listed, within, fun _ => rfl, rfl, fun _ => .inl rfl, nofun⟩
    | true =>
      rw [if_neg (by decide)]
      dsimp only
      cases terminal with
      | true =>
        rw [if_pos rfl]
        obtain ⟨reclaimed, limitSame, room, ⟨n, left, least⟩, capturedSame, maxSame⟩ :=
          (listed.limit (max KERNEL_FRAME_BYTES (recordBytes mime))).reclaim (Int.le_max_right _ _)
        rw [if_neg (by rw [limitSame]; exact Int.not_lt.mpr room)]
        refine ⟨reclaimed.push mime, by rw [limitSame]; exact room, fun stream => ?_, maxSame, nofun,
          fun _ _ _ => ⟨limitSame, n, ?_, least⟩⟩
        · refine Eq.trans ?_ ((capturedSame stream).trans ?_)
          · cases stream <;> rfl
          · cases stream <;> rfl
        · rw [records_append, left]
          rfl
      | false =>
        rw [if_neg Bool.false_ne_true]
        have opened : ∃ limit, c.richOutputBytes ≤ limit
            ∧ (if c.richOutputBytes = 0 then { c with richOutputLimit := max KERNEL_FRAME_BYTES (recordBytes mime) } else c)
              = { c with richOutputLimit := limit } := by
          split
          · next empty =>
            have positive : 0 ≤ KERNEL_FRAME_BYTES := by decide
            exact ⟨_, by omega, rfl⟩
          · exact ⟨c.richOutputLimit, within, rfl⟩
        obtain ⟨limit, below, same⟩ := opened
        rw [same]
        have listed := listed.limit limit
        split
        · next crowded =>
          obtain ⟨same, _, bytesSame, limitSame, capturedSame, maxSame⟩ :=
            truncateRich_frame { c with richOutputLimit := limit } c.outputs.length
          refine ⟨listed.lose mime, by rw [bytesSame, limitSame]; exact below, fun stream => ?_, maxSame, fun _ => .inl same, nofun⟩
          exact (capturedSame stream).trans (by cases stream <;> rfl)
        · next fits =>
          exact ⟨listed.push mime, Int.not_lt.mp fits, fun stream => by cases stream <;> rfl, rfl,
            fun _ => .inr (records_append _ _), nofun⟩

theorem Listed.receive (listed : c.Listed past refused) (within : c.richOutputBytes ≤ c.richOutputLimit) (addition : Addition) :
    (c.receive addition).Listed (past ++ c.arrived addition) (refused || addition.refused)
      ∧ (c.receive addition).richOutputBytes ≤ (c.receive addition).richOutputLimit := by
  cases addition with
  | stream stream chunk =>
    obtain ⟨_, _, _, rich, _⟩ := add_spec c stream chunk
    have bytes : (c.add stream chunk).richOutputBytes = c.richOutputBytes := congrArg (·.2.1) rich
    have limit : (c.add stream chunk).richOutputLimit = c.richOutputLimit := congrArg (·.2.2.1) rich
    refine ⟨?_, by rw [OutputCollector.receive, bytes, limit]; exact within⟩
    rw [Addition.refused, Bool.or_false]
    exact listed.add stream chunk
  | mime mime truncated terminal =>
    obtain ⟨next, bound, _⟩ := addMime_spec listed within mime truncated terminal
    exact ⟨next, bound⟩

theorem Listed.run (listed : c.Listed past refused) (within : c.richOutputBytes ≤ c.richOutputLimit) (additions : List Addition) :
    (additions.foldl OutputCollector.receive c).Listed (past ++ c.arrivals additions) (refused || additions.any Addition.refused)
      ∧ (additions.foldl OutputCollector.receive c).richOutputBytes
        ≤ (additions.foldl OutputCollector.receive c).richOutputLimit := by
  induction additions generalizing c past refused with
  | nil => simpa [arrivals] using ⟨listed, within⟩
  | cons addition rest ih =>
    obtain ⟨next, bound⟩ := listed.receive within addition
    have last := ih next bound
    rwa [List.append_assoc, Bool.or_assoc] at last

end OutputCollector

theorem listed_new (maxBytes : ℕ) : ({ maxBytes := maxBytes } : OutputCollector).Listed [] false :=
  ⟨rfl, fun _ => ⟨rfl, rfl⟩, nofun⟩

/-- The records that are held are counted and fit, what is left is in the order it arrived with one marker where something
is missing, a final result is kept when it arrives, and the fewest of the oldest records make room for it. -/
theorem collect_accounted (maxBytes : ℕ) (additions : List Addition) :
    let c := collect maxBytes additions
    let all := OutputCollector.arrivals { maxBytes := maxBytes } additions
    (c.richOutputBytes = totalOf (records c.outputs) ∧ c.richOutputBytes ≤ c.richOutputLimit)
      ∧ (c.richTruncated = false → contents c.outputs = all ∧ ∀ addition ∈ additions, addition.refused = false)
      ∧ (c.richTruncated = true → ∃ before behind limit, Thinned (before ++ behind) all
        ∧ contents c.outputs = before ++ (richMarker limit).map .unit ++ behind
        ∧ ((∃ addition ∈ additions, addition.refused = true) ∨ (before ++ behind).length < all.length))
      ∧ (∀ mime, OutputCollector.isRecord mime = true →
        (c.addMime mime false true).richOutputLimit = max KERNEL_FRAME_BYTES (recordBytes mime)
          ∧ ∃ n, records (c.addMime mime false true).outputs = (records c.outputs).drop n ++ [mime]
            ∧ (0 < n → max KERNEL_FRAME_BYTES (recordBytes mime)
              < totalOf ((records c.outputs).drop (n - 1)) + recordBytes mime))
      ∧ ∀ mime truncated, records (c.addMime mime truncated false).outputs = records c.outputs
        ∨ records (c.addMime mime truncated false).outputs = records c.outputs ++ [mime] := by
  intro c all
  have start : (0 : ℤ) ≤ KERNEL_FRAME_BYTES := by decide
  obtain ⟨listed, within⟩ := (listed_new maxBytes).run start additions
  rw [List.nil_append, Bool.false_or] at listed
  refine ⟨⟨listed.held, within⟩, fun fresh => ?_, fun truncated => ?_, fun mime record => ?_, fun mime truncated => ?_⟩
  · obtain ⟨spelled, calm⟩ := listed.whole fresh
    exact ⟨spelled, by simpa using calm⟩
  · obtain ⟨before, behind, limit, thinned, spelled, lost⟩ := listed.marked truncated
    rw [List.any_eq_true] at lost
    exact ⟨before, behind, limit, thinned, spelled, lost⟩
  · exact (OutputCollector.addMime_spec listed within mime false true).2.2.2.2.2 record rfl rfl
  · exact (OutputCollector.addMime_spec listed within mime truncated false).2.2.2.2.1 rfl

/-- A text of one repeated code unit. -/
def repeated (u : UInt16) : Value := Value.record [("text/plain", .str (List.replicate 600000 u))]

theorem length_le_utf8Length (s : JsString) : s.length ≤ s.utf8Length := by
  have wide (u : UInt16) : 1 ≤ JsString.unitWidth u := by
    unfold JsString.unitWidth
    split
    · exact le_rfl
    · split <;> decide
  induction s using JsString.utf8Length.induct with
  | case1 => exact le_rfl
  | case2 u => exact wide u
  | case3 u v rest paired ih =>
    rw [JsString.utf8Length, if_pos paired, List.length_cons, List.length_cons]
    omega
  | case4 u v rest single ih =>
    rw [JsString.utf8Length, if_neg single, List.length_cons]
    have := wide u
    omega

theorem length_le_escapeUnits (s : JsString) : s.length ≤ (escapeUnits s).length := by
  have wide (u : UInt16) : 1 ≤ (escapeUnit u).length := by
    unfold escapeUnit unicodeEscape
    split_ifs <;> simp
  induction s using escapeUnits.induct with
  | case1 => exact le_rfl
  | case2 u => exact wide u
  | case3 u v rest paired ih =>
    rw [escapeUnits, if_pos paired, List.length_cons, List.length_cons, List.length_cons, List.length_cons]
    omega
  | case4 u v rest single ih =>
    rw [escapeUnits, if_neg single, List.length_cons, List.length_append]
    have := wide u
    omega

theorem length_le_stringify (s : JsString) :
    s.length ≤ (stringify (Value.record [("mime", Value.record [("text/plain", .str s)])])).length := by
  have escaped := length_le_escapeUnits s
  have inner : stringify? (Value.record [("text/plain", .str s)])
      = some (unit '\x7b' :: (quote (js "text/plain") ++ unit ':' :: quote s ++ [unit '\x7d'])) := by
    simp only [Value.record, List.map_cons, List.map_nil, stringify?, stringifyMembers, List.intercalate_singleton]
  have outer : stringify (Value.record [("mime", Value.record [("text/plain", .str s)])])
      = unit '\x7b' :: (quote (js "mime") ++ unit ':' :: unit '\x7b' ::
        (quote (js "text/plain") ++ unit ':' :: quote s ++ [unit '\x7d']) ++ [unit '\x7d']) := by
    have fields : Value.record [("mime", Value.record [("text/plain", .str s)])]
        = .obj [(js "mime", Value.record [("text/plain", .str s)])] := rfl
    rw [stringify, fields, stringify?, stringifyMembers, stringifyMembers, inner, Option.getD_some, List.intercalate_singleton]
  rw [outer]
  generalize quote (js "mime") = key
  generalize quote (js "text/plain") = name
  simp only [quote, List.length_cons, List.length_append]
  omega

theorem repeated_bytes (u : UInt16) : 600000 ≤ recordBytes (repeated u) := by
  have spelled := length_le_stringify (List.replicate 600000 u)
  have bytes := length_le_utf8Length (stringify (Value.record [("mime", repeated u)]))
  rw [List.length_replicate] at spelled
  exact Int.ofNat_le.mpr (spelled.trans bytes)

theorem repeated_inj {u v : UInt16} (same : repeated u = repeated v) : u = v := by
  have fields := (List.cons.inj (Value.obj.inj same)).1
  have texts := Value.str.inj (Prod.mk.inj fields).2
  exact (List.replicate_inj.mp texts).2.resolve_left (by decide)

theorem mem_records {outputs : List Output} {mime : Value} (member : .mime mime ∈ outputs) : mime ∈ records outputs :=
  List.mem_filterMap.mpr ⟨_, member, rfl⟩

theorem collect_two (maxBytes : ℕ) (first second : Value) :
    collect maxBytes [.mime first false true, .mime second false true]
      = (OutputCollector.addMime { maxBytes := maxBytes } first false true).addMime second false true := rfl

/-- Two final results of 600,000 characters: the second evicts the first. -/
theorem second_final_evicts_first :
    ¬∀ mime, .mime mime false true ∈ [Addition.mime (repeated 0x61) false true, .mime (repeated 0x62) false true] →
      .mime mime ∈ (collect 65536 [.mime (repeated 0x61) false true, .mime (repeated 0x62) false true]).outputs := by
  intro always
  have kept := always (repeated 0x61) (List.mem_cons_self ..)
  have start : (0 : ℤ) ≤ KERNEL_FRAME_BYTES := by decide
  obtain ⟨listed, within, _, _, _, first⟩ :=
    OutputCollector.addMime_spec (listed_new 65536) start (repeated 0x61) false true
  obtain ⟨_, n, alone, _⟩ := first rfl rfl rfl
  obtain ⟨last, bound, _, _, _, second⟩ := OutputCollector.addMime_spec listed within (repeated 0x62) false true
  obtain ⟨limit, m, left, _⟩ := second rfl rfl rfl
  have none : (records ({ maxBytes := 65536 } : OutputCollector).outputs).drop n = [] := List.drop_nil
  rw [none, List.nil_append] at alone
  rw [alone] at left
  rw [last.held, limit, left] at bound
  have large := repeated_bytes 0x61
  have larger := repeated_bytes 0x62
  have frame : KERNEL_FRAME_BYTES = 1048576 := rfl
  cases m with
  | zero =>
    rw [List.drop_zero, totalOf, List.map_append, List.sum_append, List.map_singleton, List.map_singleton,
      List.sum_singleton, List.sum_singleton] at bound
    omega
  | succ m =>
    rw [collect_two] at kept
    have held := mem_records kept
    rw [left, List.drop_succ_cons, List.drop_nil, List.nil_append] at held
    exact absurd (repeated_inj (List.mem_singleton.mp held)) (by decide)

end PersistentHarness.Kernel
