import PersistentHarness.Soundness.HostFiles

/-! # Editing a file

The text of a file is decoded, split, joined and encoded again. The result is what replacing in the bytes gives, but for a byte
order mark, which the decoder takes away.
-/

namespace PersistentHarness.HostFiles

open Effect (Spec raise attempt settle rethrow ensuring require get modify Ends)
open Replace (Code occurrences replaced)
open Utf8 (charBytes textBytes withoutMark)

section Codes

def bytesOf (text : List Char) : Bytes := text.flatMap charBytes

def unitsOf (text : List Char) : JsString := text.flatMap utf16

theorem bytesCode : Code charBytes fun b => !Utf8.isContinuation b where
  shape c := by
    obtain ⟨first, rest, spelled, begins, goesOn⟩ := Utf8.charBytes_shape c
    refine ⟨first, rest, spelled, by rw [begins, Bool.not_false], fun b member => ?_⟩
    rw [goesOn b member, Bool.not_true]
  apart same := by
    have decoded := congrArg Utf8.Decoder.start.decode same
    rw [Utf8.decode_charBytes, Utf8.decode_charBytes] at decoded
    exact (List.cons.inj decoded).1

theorem unitsCode : Code utf16 fun u => !isLowSurrogate u where
  shape c := by
    have range : c.toNat < 0xD800 ∨ 0xDFFF < c.toNat ∧ c.toNat < 0x110000 := c.valid
    have low (n : ℕ) (small : n < 0x10000) :
        isLowSurrogate (.ofNat n) = decide (0xDC00 ≤ n ∧ n ≤ 0xDFFF) := by
      simp only [isLowSurrogate, UInt16.le_iff_toNat_le, UInt16.toNat_ofNat', Nat.mod_eq_of_lt small, UInt16.reduceToNat]
    unfold utf16
    split
    · next short =>
      refine ⟨_, [], rfl, ?_, List.forall_mem_nil _⟩
      rw [low _ short, Bool.not_eq_true', decide_eq_false_iff_not]
      omega
    · refine ⟨_, _, rfl, ?_, ?_⟩
      · rw [low _ (by omega), Bool.not_eq_true', decide_eq_false_iff_not]
        omega
      · rw [List.forall_mem_singleton, low _ (by omega), Bool.not_eq_false', decide_eq_true_eq]
        omega
  apart same := (utf16_append_inj same).1

theorem encode_unitsOf (text : List Char) : Utf8.encode (unitsOf text) = bytesOf text := Utf8.encode_flatMap text

theorem bytesOf_length (text : List Char) : (bytesOf text).length = textBytes text := rfl

theorem byteLength_unitsOf (text : List Char) : byteLength (unitsOf text) = textBytes text := by
  rw [byteLength, encode_unitsOf, bytesOf_length]

theorem bytesOf_inj {first second : List Char} (same : bytesOf first = bytesOf second) : first = second := by
  have decoded := congrArg Utf8.decodeChars same
  rwa [bytesOf, bytesOf, Utf8.decodeChars_charBytes, Utf8.decodeChars_charBytes] at decoded

/-- The decoder takes a byte order mark away and nothing else. -/
theorem decodeText_bytesOf (text : List Char) : decodeText (bytesOf text) = some (unitsOf (withoutMark text)) := by
  unfold decodeText Utf8.FatalDecoder.decode bytesOf
  have read : Utf8.FatalDecoder.initial.decoder.strict (text.flatMap charBytes) = some (.start, text) := Utf8.strict_valid text
  rw [read]
  rfl

end Codes

section Edits

variable (text old new : List Char) (replaceAll : Bool)

/-- One occurrence, or any number of them if all are to be replaced. -/
def Admissible (n : ℕ) : Prop := n = 1 ∨ replaceAll = true ∧ n ≠ 0

/-- The edit of a text is within the limits, and the text it is made on has the occurrences. -/
structure Editable : Prop where
  source : textBytes text ≤ maxWriteBytes
  oldText : textBytes old ≤ maxWriteBytes
  newText : textBytes new ≤ maxWriteBytes
  found : Admissible replaceAll (occurrences old (withoutMark text))
  updated : textBytes (replaced old new (withoutMark text)) ≤ maxWriteBytes

variable {text old new replaceAll}

theorem buildEdit_bytesOf (nonempty : old ≠ []) (source : Snapshot) (read : source.content = bytesOf text) :
    (∀ built, buildEdit (unitsOf old) (unitsOf new) replaceAll (some source) = .ok built →
      Admissible replaceAll (occurrences old (withoutMark text)) ∧ textBytes (replaced old new (withoutMark text)) ≤ maxWriteBytes
        ∧ built.content = unitsOf (replaced old new (withoutMark text)))
      ∧ (Admissible replaceAll (occurrences old (withoutMark text)) →
        textBytes (replaced old new (withoutMark text)) ≤ maxWriteBytes →
          ∃ built, buildEdit (unitsOf old) (unitsOf new) replaceAll (some source) = .ok built) := by
  have counted : occurrences (unitsOf old) (unitsOf (withoutMark text)) = occurrences old (withoutMark text) :=
    unitsCode.occurrences_flatMap nonempty _
  have updated : replaced (unitsOf old) (unitsOf new) (unitsOf (withoutMark text)) = unitsOf (replaced old new (withoutMark text)) :=
    unitsCode.replaced_flatMap nonempty new _
  have decoded : (some source).bind (fun source => decodeText source.content) = some (unitsOf (withoutMark text)) := by
    rw [Option.bind_some, read, decodeText_bytesOf]
  unfold buildEdit
  rw [decoded]
  dsimp only
  rw [counted, updated, byteLength_unitsOf]
  generalize occurrences old (withoutMark text) = n
  constructor
  · intro built made
    split at made
    · cases made
    · next some =>
      split at made
      · cases made
      · next one =>
        split at made
        · cases made
        · next fits =>
          rw [← Except.ok.inj made]
          refine ⟨?_, not_lt.mp fits, rfl⟩
          cases replaceAll with
          | true => exact .inr ⟨rfl, some⟩
          | false => exact .inl (of_not_not fun other => one ⟨rfl, other⟩)
  · intro admissible fits
    have some : n ≠ 0 := by
      rcases admissible with one | ⟨_, some⟩
      · omega
      · exact some
    rw [if_neg some, if_neg ?_, if_neg (not_lt.mpr fits)]
    · exact ⟨_, rfl⟩
    · rintro ⟨single, other⟩
      rcases admissible with one | ⟨all, _⟩
      · exact other one
      · rw [single] at all
        cases all

theorem admitEdit_unitsOf (nonempty : old ≠ []) :
    admitEdit (unitsOf old) (unitsOf new) = .ok ⟨⟩ ↔ textBytes old ≤ maxWriteBytes ∧ textBytes new ≤ maxWriteBytes := by
  have some : unitsOf old ≠ [] := by
    obtain ⟨c, rest, rfl⟩ := List.exists_cons_of_ne_nil nonempty
    obtain ⟨first, tail, spelled, _⟩ := unitsCode.shape c
    rw [unitsOf, List.flatMap_cons, spelled]
    exact List.cons_ne_nil _ _
  unfold admitEdit requireString
  rw [byteLength_unitsOf, byteLength_unitsOf]
  by_cases oldFits : textBytes old ≤ maxWriteBytes
  · rw [if_neg (by simp [some, oldFits])]
    by_cases newFits : textBytes new ≤ maxWriteBytes
    · rw [if_neg (by simp [newFits])]
      exact iff_of_true rfl ⟨oldFits, newFits⟩
    · rw [if_pos (.inr (not_le.mp newFits))]
      refine iff_of_false ?_ fun fits => newFits fits.2
      rintro ⟨⟩
  · rw [if_pos (.inr (not_le.mp oldFits))]
    refine iff_of_false ?_ fun fits => oldFits fits.1
    rintro ⟨⟩

end Edits

/-! ## A run in which nothing fails -/

section Granted

/-- The answer of a call that succeeds. -/
def granted : Reply := ⟨none, ⟨0, 0, 1, 0, 0⟩, false, maxWriteBytes + 1⟩

/-- Every call that is left succeeds. -/
def Granted (files : Files) (w : World) : Prop := w.replies = (fun _ => granted) ∧ w.files = files

/-- A computation leads from some files to others, with a value. -/
abbrev Yields {ε α : Type} (before after : Files) (x : Effect World ε α) (value : α) : Prop :=
  Spec (Granted before) x (fun a w => Granted after w ∧ a = value) fun _ _ => False

variable {ε α β : Type} {before middle after : Files} {value : α}

theorem yields_bind {x : Effect World ε α} {f : α → Effect World ε β} {result : β} (first : Yields before middle x value)
    (rest : Yields middle after (f value) result) : Yields before after (x >>= f) result := by
  apply Spec.bind first
  rintro a w ⟨here, rfl⟩
  exact rest w here

theorem yields_pure : Yields before before (pure value : Effect World ε α) value := Spec.pure fun _ here => ⟨here, rfl⟩

theorem yields_require {condition : Prop} [Decidable condition] (e : ε) (holds : condition) :
    Yields before before (require condition e : Effect World ε PUnit) ⟨⟩ :=
  Spec.require (fun _ _ here => ⟨here, rfl⟩) fun fails => absurd holds fails

theorem yields_attempt {x : Effect World ε α} (yields : Yields before after x value) :
    Yields before after (attempt x) (.ok value) := by
  apply Spec.attempt
  apply yields.weaken
  · rintro a w ⟨here, rfl⟩
    exact ⟨here, rfl⟩
  · intro e w never
    exact absurd never id

theorem yields_rethrow {δ : Type} {x : Effect World ε α} (yields : Yields before after x value) (f : ε → δ) :
    Yields before after (rethrow x f) value := Spec.rethrow yields

theorem yields_ensuring {x : Effect World ε α} {last : Effect World ε PUnit} (yields : Yields before middle x value)
    (lastYields : Yields middle after last ⟨⟩) : Yields before after (ensuring x last) value :=
  yields_bind (yields_attempt yields) (yields_bind lastYields yields_pure)

theorem yields_modify {f : World → World} (keeps : ∀ w, (f w).replies = w.replies ∧ (f w).files = w.files) :
    Yields before before (modify f : M PUnit) ⟨⟩ := by
  apply Spec.modify
  rintro w ⟨replies, files⟩
  exact ⟨⟨(keeps w).1.trans replies, (keeps w).2.trans files⟩, rfl⟩

theorem yields_call {fails : Reply → Files → Files} {acts : Reply → Files → Except SystemError α × Files}
    (acted : acts granted before = (.ok value, after)) : Yields before after (call fails acts) value := by
  rintro w ⟨replies, rfl⟩
  unfold call
  have reply : w.replies w.calls = granted := congrFun replies _
  dsimp only
  rw [reply]
  dsimp only [granted]
  change Ends _ _ (Except.mapError Failure.system (acts granted w.files).1, w.next (acts granted w.files).2)
  rw [acted]
  exact ⟨⟨replies, rfl⟩, rfl⟩

theorem yields_look {find : Reply → Files → Except SystemError α} (found : find granted before = .ok value) :
    Yields before before (look find) value := by
  apply yields_call
  rw [found]

theorem yields_touch : Yields before before touch ⟨⟩ := yields_look rfl

theorem yields_throwIfAborted : Yields before before throwIfAborted ⟨⟩ := by
  rintro w ⟨replies, files⟩
  unfold throwIfAborted
  rw [replies]
  exact ⟨⟨replies, files⟩, rfl⟩

theorem yields_openAnchoredDirectory (create : Bool) : Yields before before (openAnchoredDirectory create []) ⟨⟩ :=
  yields_bind yields_touch (yields_bind (yields_attempt yields_pure) yields_pure)

theorem yields_syncDirectory : Yields before before syncDirectory ⟨⟩ := yields_bind (yields_attempt yields_touch) yields_pure

theorem yields_readBoundedHandle (inode : Inode) (bounded : (before.node inode).content.length ≤ maxWriteBytes) :
    Yields before before (readBoundedHandle inode maxWriteBytes) (before.node inode).content := by
  have read : Yields before before (readFrom inode (maxWriteBytes + 1) (maxWriteBytes + 1) []) (before.node inode).content := by
    have positive : maxWriteBytes = maxWriteBytes - 1 + 1 := rfl
    have whole : (before.node inode).content.take (maxWriteBytes + 1) = (before.node inode).content :=
      List.take_of_length_le (by omega)
    have first : Yields before before (read inode 0 (maxWriteBytes + 1)) (before.node inode).content := by
      apply yields_look
      have room : min (maxWriteBytes + 1) (max 1 granted.length) = maxWriteBytes + 1 := rfl
      rw [room, List.drop_zero, whole]
    have begun : ([] : Bytes).length < maxWriteBytes + 1 := Nat.succ_pos _
    rw [readFrom, if_pos begun]
    apply yields_bind first
    split
    · next empty =>
      rw [empty]
      exact yields_pure
    · rw [List.nil_append, positive, readFrom, if_pos (by omega)]
      have second : Yields before before (HostFiles.read inode (before.node inode).content.length
          (maxWriteBytes - 1 + 1 + 1 - (before.node inode).content.length)) [] := by
        apply yields_look
        rw [List.drop_length, List.take_nil]
      apply yields_bind second
      rw [if_pos rfl]
      exact yields_pure
  exact yields_bind read (yields_bind (yields_require _ bounded) yields_pure)

structure Replaceable (node : Node) : Prop where
  regular : fileType node.mode = 0o100000
  plain : node.mode &&& 0o7000 = 0
  bounded : node.content.length ≤ maxWriteBytes

theorem Replaceable.isFile {node : Node} (replaceable : Replaceable node) (facts : Facts) : (node.stat facts).isFile = true :=
  decide_eq_true replaceable.regular

theorem yields_readRegularSnapshot (leaf : before.leaf = some .existing) (replaceable : Replaceable before.existing) :
    Yields before before readRegularSnapshot
      (some ⟨before.existing.stat granted.facts, before.existing.content⟩) := by
  have stat : Yields before before lstatLeaf (before.existing.stat granted.facts) := by
    apply yields_look
    rw [leaf]
    rfl
  have notLink : ¬fileType before.existing.mode = 0o120000 := by
    rw [replaceable.regular]
    decide
  have opened : Yields before before openLeaf .existing := by
    apply yields_look
    rw [leaf]
    exact if_neg notLink
  have handle : Yields before before (statHandle .existing) (before.existing.stat granted.facts) := yields_look rfl
  have read : Yields before before (readOpened .existing (before.existing.stat granted.facts))
      ⟨before.existing.stat granted.facts, before.existing.content⟩ := by
    apply yields_bind handle
    apply yields_bind (yields_require _ (replaceable.isFile _))
    apply yields_bind (yields_require _ ⟨rfl, rfl⟩)
    apply yields_bind (yields_require _ replaceable.bounded)
    apply yields_bind (yields_readBoundedHandle .existing replaceable.bounded)
    apply yields_bind handle
    exact yields_bind (yields_require _ ⟨rfl, rfl⟩) yields_pure
  apply yields_bind (yields_attempt stat)
  apply yields_bind (yields_require _ (decide_eq_false notLink))
  apply yields_bind (yields_require _ (replaceable.isFile _))
  apply yields_bind (yields_rethrow opened _)
  exact yields_bind (yields_ensuring read yields_touch) yields_pure

/-- The directory with the new file under its temporary name. -/
def Files.staged (files : Files) (created : Node) : Files := { files with temp := some .created, created }

/-- The directory with the new file under its own name. -/
def Files.replacedBy (files : Files) (created : Node) : Files := { files with leaf := some .created, temp := none, created }

variable {files : Files} {operation : JsString}

/-- What the temporary file is known by. -/
def ownedTemp (created : Node) : OwnedTemp := ⟨true, created.stat granted.facts, created.content⟩

theorem yields_assertTempPathIdentity {created : Node} (regular : fileType created.mode = 0o100000) :
    Yields (files.staged created) (files.staged created) (assertTempPathIdentity operation (ownedTemp created))
      (created.stat granted.facts) := by
  have named : Yields (files.staged created) (files.staged created) lstatTemp (created.stat granted.facts) := yields_look rfl
  have handle : Yields (files.staged created) (files.staged created) (statHandle .created) (created.stat granted.facts) :=
    yields_look rfl
  apply yields_bind (yields_rethrow named _)
  apply yields_bind handle
  exact yields_bind (yields_require _ ⟨decide_eq_true regular, rfl, rfl, rfl⟩) yields_pure

theorem yields_assertTempUnchanged {created : Node} (regular : fileType created.mode = 0o100000)
    (bounded : created.content.length ≤ maxWriteBytes) :
    Yields (files.staged created) (files.staged created) (assertTempUnchanged operation (ownedTemp created)) ⟨⟩ := by
  apply yields_bind (yields_assertTempPathIdentity regular)
  have content : Yields (files.staged created) (files.staged created) (readBoundedHandle .created maxWriteBytes) created.content :=
    yields_readBoundedHandle .created bounded
  apply yields_bind content
  have handle : Yields (files.staged created) (files.staged created) (statHandle .created) (created.stat granted.facts) :=
    yields_look rfl
  apply yields_bind handle
  exact yields_require _ ⟨rfl, rfl⟩

theorem yields_assertSameParent : Yields before before (assertSameParent operation) ⟨⟩ := by
  have stat : Yields before before statDirectory granted.facts := yields_look rfl
  exact yields_bind stat (yields_bind stat (yields_require _ ⟨rfl, rfl⟩))

theorem yields_withParent {check : M PUnit} (yields : Yields before before check ⟨⟩) :
    Yields before before (withParent operation [] check) ⟨⟩ := by
  apply yields_bind (yields_attempt (yields_openAnchoredDirectory false))
  apply yields_bind (yields_attempt yields)
  apply yields_bind (yields_attempt yields_touch)
  exact yields_rethrow yields_pure _

/-- A name that can stand in a directory. -/
def leafA : JsString := js "a"

theorem yields_procFdChild : Yields before before (procFdChild leafA) ⟨⟩ := yields_require _ (by decide)

theorem yields_assertReplacementSourceUnchanged (leaf : before.leaf = some .existing) (replaceable : Replaceable before.existing) :
    Yields before before (assertReplacementSourceUnchanged operation [] leafA
      ⟨before.existing.stat granted.facts, before.existing.content⟩) ⟨⟩ := by
  apply yields_withParent
  apply yields_bind yields_assertSameParent
  apply yields_bind (yields_rethrow (yields_bind yields_procFdChild (yields_readRegularSnapshot leaf replaceable)) _)
  exact yields_require _ ⟨_, rfl, rfl, rfl⟩

theorem yields_prepareTemp (uid gid : ℕ) (content : JsString) (mode newUid newGid : ℕ) :
    Yields (files.staged ⟨0o100600, uid, gid, []⟩)
      (files.staged ⟨fileType 0o100600 ||| mode, newUid, newGid, Utf8.encode content⟩)
      (prepareTemp content mode (some (newUid, newGid)))
      (ownedTemp ⟨fileType 0o100600 ||| mode, newUid, newGid, Utf8.encode content⟩) := by
  have opened : Yields (files.staged ⟨0o100600, uid, gid, []⟩) (files.staged ⟨0o100600, uid, gid, []⟩) (statHandle .created)
      (Node.stat ⟨0o100600, uid, gid, []⟩ granted.facts) := yields_look rfl
  have created : fileType 0o100600 = 0o100000 := by decide
  have regular : (Node.stat ⟨0o100600, uid, gid, []⟩ granted.facts).isFile = true := decide_eq_true created
  have written : Yields (files.staged ⟨0o100600, uid, gid, []⟩) (files.staged ⟨0o100600, uid, gid, Utf8.encode content⟩)
      (writeFile (Utf8.encode content)) ⟨⟩ := yields_call rfl
  have owned : Yields (files.staged ⟨0o100600, uid, gid, Utf8.encode content⟩)
      (files.staged ⟨0o100600, newUid, newGid, Utf8.encode content⟩)
      (changeOwner (Node.stat ⟨0o100600, uid, gid, []⟩ granted.facts) (some (newUid, newGid))) ⟨⟩ := by
    change Yields _ _ (if uid ≠ newUid ∨ gid ≠ newGid then chown newUid newGid else pure ⟨⟩) _
    split
    · exact yields_call rfl
    · next same =>
      obtain ⟨rfl, rfl⟩ : uid = newUid ∧ gid = newGid := by
        constructor
        · exact of_not_not fun other => same (.inl other)
        · exact of_not_not fun other => same (.inr other)
      exact yields_pure
  have moded : Yields (files.staged ⟨0o100600, newUid, newGid, Utf8.encode content⟩)
      (files.staged ⟨fileType 0o100600 ||| mode, newUid, newGid, Utf8.encode content⟩) (chmod mode) ⟨⟩ := yields_call rfl
  apply yields_bind opened
  apply yields_bind (yields_require _ ⟨regular, rfl⟩)
  apply yields_bind written
  apply yields_bind owned
  apply yields_bind moded
  apply yields_bind yields_touch
  exact yields_bind (yields_look rfl) yields_pure

theorem yields_createOwnedTemp (free : files.temp = none) (content : JsString) (mode uid gid : ℕ) :
    Yields files (files.staged ⟨fileType 0o100600 ||| mode, uid, gid, Utf8.encode content⟩)
      (createOwnedTemp content mode (some (uid, gid)))
      (ownedTemp ⟨fileType 0o100600 ||| mode, uid, gid, Utf8.encode content⟩) := by
  apply Spec.bind (M := fun _ => Granted files) (Spec.get fun w here => here)
  intro start
  have opened : Yields files (files.staged ⟨0o100600, start.process.uid, start.process.gid, []⟩) (openTemp start.process) ⟨⟩ := by
    apply yields_call
    rw [free]
    rfl
  apply yields_bind (yields_attempt opened)
  have prepared := @yields_prepareTemp files start.process.uid start.process.gid content mode uid gid
  exact yields_bind (yields_attempt (yields_bind yields_pure prepared)) yields_pure

theorem yields_publish (request : Request α) (source : Snapshot) (created : Node) :
    Yields (files.staged created) (files.replacedBy created) (publish request (some source) (ownedTemp created)) ⟨⟩ := by
  have renamed : Yields (files.staged created) (files.replacedBy created) rename ⟨⟩ := yields_call rfl
  exact yields_bind renamed (yields_modify fun w => ⟨rfl, rfl⟩)

theorem yields_verifyPublished (request : Request α) (place : request.parentPath = [] ∧ request.leafName = leafA)
    (source : Snapshot) {created : Node} (regular : fileType created.mode = 0o100000)
    (bounded : created.content.length ≤ maxWriteBytes) :
    Yields (files.replacedBy created) (files.replacedBy created) (verifyPublished request (some source) (ownedTemp created)) ⟨⟩ := by
  have stat : Yields (files.replacedBy created) (files.replacedBy created) statDirectory granted.facts := yields_look rfl
  have synced : Yields (files.replacedBy created) (files.replacedBy created) (syncParents request (some source)) ⟨⟩ :=
    yields_bind stat (yields_bind stat (yields_bind yields_syncDirectory yields_pure))
  have named : Yields (files.replacedBy created) (files.replacedBy created) lstatLeaf (created.stat granted.facts) :=
    yields_look rfl
  have handle : Yields (files.replacedBy created) (files.replacedBy created) (statHandle .created)
      (created.stat granted.facts) := yields_look rfl
  have content : Yields (files.replacedBy created) (files.replacedBy created) (readBoundedHandle .created maxWriteBytes)
      created.content := yields_readBoundedHandle .created bounded
  unfold verifyPublished
  rw [place.1, place.2]
  apply yields_bind (yields_openAnchoredDirectory false)
  apply yields_ensuring _ yields_touch
  apply yields_bind synced
  apply yields_bind yields_procFdChild
  apply yields_bind named
  apply yields_bind handle
  apply yields_bind (yields_require _ ⟨decide_eq_true regular, rfl, rfl, rfl⟩)
  apply yields_bind content
  apply yields_bind handle
  exact yields_require _ ⟨rfl, rfl⟩

/-- A file of its owner, with a content. -/
def plainNode (content : Bytes) : Node := ⟨0o100644, 0, 0, content⟩

theorem replaceable_plainNode {content : Bytes} (bounded : content.length ≤ maxWriteBytes) : Replaceable (plainNode content) := by
  have regular : fileType 0o100644 = 0o100000 := by decide
  have plain : 0o100644 &&& 0o7000 = 0 := by decide
  exact ⟨regular, plain, bounded⟩

/-- What the new file is. -/
def editedNode (content : Bytes) : Node := ⟨0o100644, 0, 0, content⟩

theorem yields_attemptCommit (request : Request α) (place : request.parentPath = [] ∧ request.leafName = leafA)
    (replacing : request.replaceExisting = true) {content : Bytes} (bounded : content.length ≤ maxWriteBytes) {built : Built α}
    (made : request.buildContent (some ⟨(plainNode content).stat granted.facts, content⟩) = .ok built)
    (fits : (Utf8.encode built.content).length ≤ maxWriteBytes) :
    Yields (.initial (some (plainNode content)))
      ((Files.initial (some (plainNode content))).replacedBy (editedNode (Utf8.encode built.content)))
      (attemptCommit request) ⟨false, built.metadata⟩ := by
  have replaceable := replaceable_plainNode bounded
  have read : Yields (.initial (some (plainNode content))) (.initial (some (plainNode content))) readRegularSnapshot
      (some ⟨(plainNode content).stat granted.facts, content⟩) := yields_readRegularSnapshot rfl replaceable
  have admitted : Yields (.initial (some (plainNode content))) (.initial (some (plainNode content))) (admitSource request)
      (some ⟨(plainNode content).stat granted.facts, content⟩) := by
    apply yields_bind read
    apply yields_bind (yields_require _ (.inr rfl))
    apply yields_bind (yields_require _ ?_)
    · exact yields_bind (yields_require _ (.inl replacing)) yields_pure
    · intro snapshot same
      rw [← Option.some.inj same]
      exact replaceable.plain
  apply yields_bind admitted
  have settled : Yields (.initial (some (plainNode content))) (.initial (some (plainNode content)))
      (settle ((request.buildContent (some ⟨(plainNode content).stat granted.facts, content⟩)).mapError .raised) : M (Built α))
      built := by
    rw [made]
    exact yields_pure
  apply yields_bind settled
  apply yields_bind (yields_require _ fits)
  apply Spec.bind (M := fun _ => Granted _) (Spec.get fun w here => here)
  intro start
  have created : Yields (.initial (some (plainNode content)))
      ((Files.initial (some (plainNode content))).staged (editedNode (Utf8.encode built.content)))
      (createOwnedTemp built.content (modeFor start.process (some ⟨(plainNode content).stat granted.facts, content⟩)) (some (0, 0)))
      (ownedTemp (editedNode (Utf8.encode built.content))) := by
    have mode : fileType 0o100600 ||| (0o100644 &&& 0o777) = 0o100644 := by decide
    have free : (Files.initial (some (plainNode content))).temp = none := rfl
    have created := yields_createOwnedTemp free built.content (0o100644 &&& 0o777) 0 0
    rw [mode] at created
    exact created
  apply yields_bind created
  refine yields_bind (yields_modify ?_) ?_
  · intro w
    exact ⟨rfl, rfl⟩
  have plain : fileType 0o100644 = 0o100000 := by decide
  have regular : fileType (editedNode (Utf8.encode built.content)).mode = 0o100000 := plain
  have checked : Yields ((Files.initial (some (plainNode content))).staged (editedNode (Utf8.encode built.content)))
      ((Files.initial (some (plainNode content))).staged (editedNode (Utf8.encode built.content)))
      (assertUnpublished request (some ⟨(plainNode content).stat granted.facts, content⟩)
        (ownedTemp (editedNode (Utf8.encode built.content)))) ⟨⟩ := by
    apply yields_bind yields_throwIfAborted
    apply yields_bind (yields_assertTempUnchanged regular fits)
    have unchanged : Yields ((Files.initial (some (plainNode content))).staged (editedNode (Utf8.encode built.content)))
        ((Files.initial (some (plainNode content))).staged (editedNode (Utf8.encode built.content)))
        (assertPlaceUnchanged request (some ⟨(plainNode content).stat granted.facts, content⟩)) ⟨⟩ := by
      unfold assertPlaceUnchanged
      dsimp only
      rw [place.1, place.2]
      exact yields_assertReplacementSourceUnchanged rfl replaceable
    apply yields_bind unchanged
    exact yields_bind (yields_assertTempPathIdentity regular) yields_throwIfAborted
  apply yields_bind checked
  apply yields_bind (yields_publish request _ _)
  exact yields_bind (yields_verifyPublished request place _ regular fits) yields_pure

theorem yields_cleanUp (free : files.temp = none) : Yields files files cleanUp none := by
  apply Spec.bind (M := fun _ => Granted files) (Spec.get fun w here => here)
  intro start
  have closed : Yields files files (attemptWhen start.temp.isSome touch) (.ok ⟨⟩) := by
    unfold attemptWhen
    split
    · exact yields_attempt yields_touch
    · exact yields_pure
  apply yields_bind closed
  have removed : Spec (Granted files) (attemptWhen (start.temp.any OwnedTemp.hasPath) unlinkTemp)
      (fun r w => Granted files w ∧ unlessMissing r = none) fun _ _ => False := by
    unfold attemptWhen
    split
    · apply Spec.attempt
      rintro w ⟨replies, rfl⟩
      unfold unlinkTemp call
      have reply : w.replies w.calls = granted := congrFun replies _
      dsimp only
      rw [reply]
      dsimp only [granted]
      rw [free]
      exact ⟨⟨replies, rfl⟩, rfl⟩
    · exact Spec.pure fun w here => ⟨here, rfl⟩
  apply Spec.bind removed
  intro r
  have last : Spec (fun w => Granted files w ∧ unlessMissing r = none) (attempt touch)
      (fun parentClosed w => (Granted files w ∧ parentClosed = .ok ⟨⟩) ∧ unlessMissing r = none) fun _ _ => False := by
    rintro w ⟨here, ignored⟩
    have touched : Yields files files (attempt touch) (.ok ⟨⟩) := yields_attempt yields_touch
    exact (touched.weaken (fun _ _ held => ⟨held, ignored⟩) fun _ _ never => never) w here
  apply Spec.bind last
  intro parentClosed
  apply Spec.pure
  rintro w ⟨⟨here, rfl⟩, ignored⟩
  rw [ignored]
  exact ⟨here, rfl⟩

/-- An edit that is within the limits can succeed. -/
theorem filesEdit_succeeds {text old new : List Char} {replaceAll : Bool} (nonempty : old ≠ [])
    (editable : Editable text old new replaceAll) :
    ∃ result, (filesEdit ⟨[], leafA, js "/a"⟩ (unitsOf old) (unitsOf new) replaceAll
      (World.initial ⟨0, 0, 0⟩ (fun _ => granted) (some (plainNode (bytesOf text))))).1 = .ok result := by
  have source : (⟨(plainNode (bytesOf text)).stat granted.facts, bytesOf text⟩ : Snapshot).content = bytesOf text := rfl
  have building := @buildEdit_bytesOf text old new replaceAll nonempty _ source
  obtain ⟨built, made⟩ := building.2 editable.found editable.updated
  obtain ⟨_, _, content⟩ := building.1 built made
  have fits : (Utf8.encode built.content).length ≤ maxWriteBytes := by
    rw [content, encode_unitsOf]
    exact editable.updated
  let request := editRequest ⟨[], leafA, js "/a"⟩ (unitsOf old) (unitsOf new) replaceAll
  have committed := yields_attemptCommit request ⟨rfl, rfl⟩ rfl editable.source made fits
  have opened : Yields (.initial (some (plainNode (bytesOf text)))) (.initial (some (plainNode (bytesOf text))))
      (openParent request) ⟨⟩ :=
    yields_bind yields_throwIfAborted (yields_bind (yields_openAnchoredDirectory false) yields_procFdChild)
  have done : Spec (Granted (.initial (some (plainNode (bytesOf text))))) (commitAtomicFile request)
      (fun receipt _ => receipt = ⟨false, built.metadata⟩) fun _ _ => False := by
    apply Spec.bind (M := fun _ => Granted _) ((yields_rethrow opened _).weaken (fun _ _ held => held.1) fun _ _ never => never)
    intro _
    apply Spec.bind (yields_rethrow (yields_attempt committed) _)
    intro result
    apply Spec.bind (M := fun cleanupError _ => result = .ok ⟨false, built.metadata⟩ ∧ cleanupError = none)
    · rintro w ⟨here, rfl⟩
      exact ((yields_rethrow (yields_cleanUp rfl) Rejection.failure).weaken (fun _ _ held => ⟨rfl, held.2⟩)
        fun _ _ never => never) w here
    · intro cleanupError
      apply Spec.bind (M := fun _ _ => result = .ok ⟨false, built.metadata⟩ ∧ cleanupError = none) (Spec.get fun _ held => held)
      intro last
      apply Spec.settle
      · rintro receipt w concluded ⟨rfl, rfl⟩
        exact (Except.ok.inj concluded).symm
      · rintro e w concluded ⟨rfl, rfl⟩
        cases concluded
  have admitted := (admitEdit_unitsOf nonempty).mpr ⟨editable.oldText, editable.newText⟩
  have edited : Spec (Granted (.initial (some (plainNode (bytesOf text)))))
      (filesEdit ⟨[], leafA, js "/a"⟩ (unitsOf old) (unitsOf new) replaceAll) (fun _ _ => True) fun _ _ => False := by
    unfold filesEdit
    rw [admitted]
    apply Spec.bind (M := fun _ => Granted (.initial (some (plainNode (bytesOf text))))) (Spec.settle (fun _ _ _ here => here) ?_)
    · intro _
      exact Spec.bind done fun receipt => Spec.pure fun _ _ => trivial
    · intro e w failed
      cases failed
  have ends := edited (World.initial ⟨0, 0, 0⟩ (fun _ => granted) (some (plainNode (bytesOf text)))) ⟨rfl, rfl⟩
  revert ends
  generalize filesEdit ⟨[], leafA, js "/a"⟩ (unitsOf old) (unitsOf new) replaceAll
    (World.initial ⟨0, 0, 0⟩ (fun _ => granted) (some (plainNode (bytesOf text)))) = ended
  obtain ⟨result, w⟩ := ended
  intro ends
  cases result with
  | error e => exact absurd ends id
  | ok result => exact ⟨result, rfl⟩

end Granted

/-! ## Which edits are exact -/

section Exact

variable (text old new : List Char) (replaceAll : Bool)

/-- Whatever the calls answer: an edit that succeeds replaces the occurrences in the bytes of the file, one of them unless all are
asked for; without them it fails, and the file is as it was. -/
def EditsExactly : Prop :=
  ∀ (place : Place) (process : Process) (replies : ℕ → Reply) (node : Node), node.content = bytesOf text →
    let ended := filesEdit place (unitsOf old) (unitsOf new) replaceAll (World.initial process replies (some node))
    (∀ result, ended.1 = .ok result → Admissible replaceAll (occurrences (bytesOf old) (bytesOf text))
      ∧ ∃ after, ended.2.files.destination = some after
        ∧ after.content = replaced (bytesOf old) (bytesOf new) (bytesOf text))
      ∧ (¬Admissible replaceAll (occurrences (bytesOf old) (bytesOf text)) →
        (∃ e, ended.1 = .error e) ∧ ended.2.files.destination = some node)

variable {text old new replaceAll}

/-- How an edit ends: the text without its mark is replaced, or the file is as it was. -/
theorem filesEdit_ends (nonempty : old ≠ []) (place : Place) (process : Process) (replies : ℕ → Reply) {node : Node}
    (read : node.content = bytesOf text) :
    let ended := filesEdit place (unitsOf old) (unitsOf new) replaceAll (World.initial process replies (some node))
    (∃ e, ended.1 = .error e) ∧ ended.2.files.destination = some node
      ∨ Editable text old new replaceAll ∧ ∃ after, ended.2.files.destination = some after
        ∧ after.content = bytesOf (replaced old new (withoutMark text)) := by
  obtain ⟨start, apart, same⟩ := start_initial process replies (some node)
  let request := editRequest place (unitsOf old) (unitsOf new) replaceAll
  have published {source : Option Snapshot} {built : Built EditMetadata} {w : World}
      (fits : textBytes old ≤ maxWriteBytes ∧ textBytes new ≤ maxWriteBytes)
      (made : request.Makes (.initial (some node)) source built)
      (done : Published (.initial (some node)) source (Utf8.encode built.content) w) :
      Editable text old new replaceAll ∧ ∃ after, w.files.destination = some after
        ∧ after.content = bytesOf (replaced old new (withoutMark text)) := by
    obtain ⟨snapshot, rfl⟩ := Option.isSome_iff_exists.mp (made.present rfl)
    obtain ⟨found, held, content, bounded⟩ := made.found snapshot rfl
    rw [same] at held
    obtain rfl := Option.some.inj held
    rw [content, read] at bounded
    obtain ⟨admissible, updated, building⟩ := (buildEdit_bytesOf nonempty snapshot (content.trans read)).1 built made.made
    obtain ⟨after, named, holds⟩ := done.1.destination
    refine ⟨⟨bounded, fits.1, fits.2, admissible, updated⟩, after, named, ?_⟩
    rw [holds, building, encode_unitsOf]
  have ends : Spec (Start (.initial (some node))) (filesEdit place (unitsOf old) (unitsOf new) replaceAll)
      (fun _ w => Editable text old new replaceAll ∧ ∃ after, w.files.destination = some after
        ∧ after.content = bytesOf (replaced old new (withoutMark text)))
      fun _ w => w.files.destination = some node ∨ Editable text old new replaceAll ∧ ∃ after, w.files.destination = some after
        ∧ after.content = bytesOf (replaced old new (withoutMark text)) := by
    apply Spec.bind (M := fun _ w => Start (.initial (some node)) w
      ∧ textBytes old ≤ maxWriteBytes ∧ textBytes new ≤ maxWriteBytes)
    · apply Spec.settle
      · intro _ w admitted start
        refine ⟨start, (admitEdit_unitsOf nonempty).mp ?_⟩
        cases checked : admitEdit (unitsOf old) (unitsOf new) with
        | ok _ => rfl
        | error message =>
          rw [checked] at admitted
          cases admitted
      · intro e w _ start
        exact .inl ((start.making.before.destination apart).trans same)
    · intro _
      rintro w ⟨start, fits⟩
      have committed : Spec (Start (.initial (some node))) (commitAtomicFile request)
          (fun _ w => Editable text old new replaceAll ∧ ∃ after, w.files.destination = some after
            ∧ after.content = bytesOf (replaced old new (withoutMark text)))
          fun _ w => w.files.destination = some node ∨ Editable text old new replaceAll
            ∧ ∃ after, w.files.destination = some after ∧ after.content = bytesOf (replaced old new (withoutMark text)) := by
        apply (spec_commitAtomicFile apart rfl request).weaken
        · rintro receipt w ⟨⟨source, built, made, done, _⟩, _⟩
          exact published fits made done
        · rintro e w ⟨⟨failure, _, before⟩ | ⟨_, source, built, made, done⟩, _⟩
          · exact .inl ((before.destination apart).trans same)
          · exact .inr (published fits made done)
      exact Spec.bind committed (fun receipt => Spec.pure fun _ held => held) w start
  have ended := ends _ start
  revert ended
  generalize filesEdit place (unitsOf old) (unitsOf new) replaceAll (World.initial process replies (some node)) = ended
  obtain ⟨result, w⟩ := ended
  intro ended
  cases result with
  | ok result => exact .inr ended
  | error e =>
    rcases ended with kept | edited
    · exact .inl ⟨⟨e, rfl⟩, kept⟩
    · exact .inr edited

theorem occurrences_bytesOf (nonempty : old ≠ []) : occurrences (bytesOf old) (bytesOf text) = occurrences old text :=
  bytesCode.occurrences_flatMap nonempty text

theorem replaced_bytesOf (nonempty : old ≠ []) :
    replaced (bytesOf old) (bytesOf new) (bytesOf text) = bytesOf (replaced old new text) :=
  bytesCode.replaced_flatMap nonempty new text

theorem filesEdit_success (nonempty : old ≠ []) (place : Place) (process : Process) (replies : ℕ → Reply) {node : Node}
    (read : node.content = bytesOf text) {result : EditResult}
    (succeeded : (filesEdit place (unitsOf old) (unitsOf new) replaceAll (World.initial process replies (some node))).1
      = .ok result) :
    Editable text old new replaceAll ∧ ∃ after,
      (filesEdit place (unitsOf old) (unitsOf new) replaceAll (World.initial process replies (some node))).2.files.destination
        = some after ∧ after.content = bytesOf (replaced old new (withoutMark text)) := by
  rcases filesEdit_ends nonempty place process replies read with ⟨⟨e, failed⟩, _⟩ | edited
  · rw [succeeded] at failed
    cases failed
  · exact edited

/-- An edit is exact if and only if the file has no byte order mark at its start, or the text behind the mark is not edited at all,
or the mark belongs to an occurrence and replacing with and without it is the same. -/
theorem filesEdit_exact (text old new : List Char) (replaceAll : Bool) (nonempty : old ≠ []) :
    EditsExactly text old new replaceAll ↔
      withoutMark text = text ∨ ¬Editable text old new replaceAll
        ∨ Admissible replaceAll (occurrences old text) ∧ replaced old new text = replaced old new (withoutMark text) := by
  constructor
  · intro exact_
    by_contra other
    simp only [not_or, not_not] at other
    obtain ⟨_, editable, differs⟩ := other
    obtain ⟨result, succeeded⟩ := filesEdit_succeeds nonempty editable
    obtain ⟨_, edited, named, content⟩ := filesEdit_success nonempty _ _ _ rfl succeeded
    obtain ⟨admissible, after, found, exactly⟩ := (exact_ _ _ _ _ rfl).1 result succeeded
    rw [occurrences_bytesOf nonempty] at admissible
    rw [named] at found
    obtain rfl := Option.some.inj found
    rw [replaced_bytesOf nonempty, content] at exactly
    exact differs ⟨admissible, (bytesOf_inj exactly).symm⟩
  · intro condition place process replies node read
    have ends := @filesEdit_ends text old new replaceAll nonempty place process replies _ read
    rw [occurrences_bytesOf nonempty, replaced_bytesOf nonempty]
    rcases ends with ⟨⟨e, failed⟩, kept⟩ | ⟨editable, after, named, content⟩
    · refine ⟨fun result succeeded => ?_, fun _ => ⟨⟨e, failed⟩, kept⟩⟩
      rw [failed] at succeeded
      cases succeeded
    · have exactly : Admissible replaceAll (occurrences old text) ∧ replaced old new text = replaced old new (withoutMark text) := by
        rcases condition with unmarked | refused | held
        · have found := editable.found
          rw [unmarked] at found ⊢
          exact ⟨found, rfl⟩
        · exact absurd editable refused
        · exact held
      refine ⟨fun result succeeded => ⟨exactly.1, after, named, ?_⟩, fun refused => absurd exactly.1 refused⟩
      rw [content, exactly.2]

/-- Text without a mark is edited exactly, line endings and NULs included. -/
theorem filesEdit_exact_lines : EditsExactly ['a', '\r', '\n', '\x00', 'b'] ['a'] ['c'] false :=
  (filesEdit_exact _ _ _ _ (List.cons_ne_nil _ _)).mpr (.inl rfl)

/-- The mark of a file is lost when the text behind it is edited. -/
theorem filesEdit_drops_mark : ¬EditsExactly [Utf8.byteOrderMark, 'a'] ['a'] ['b'] false := by
  intro exact_
  have editable : Editable [Utf8.byteOrderMark, 'a'] ['a'] ['b'] false :=
    ⟨by decide, by decide, by decide, .inl (by decide), by decide⟩
  obtain ⟨result, succeeded⟩ := filesEdit_succeeds (List.cons_ne_nil _ _) editable
  obtain ⟨_, edited, named, content⟩ := filesEdit_success (List.cons_ne_nil _ _) _ _ _ rfl succeeded
  obtain ⟨_, after, found, exactly⟩ := (exact_ _ _ _ _ rfl).1 result succeeded
  rw [named] at found
  obtain rfl := Option.some.inj found
  rw [content] at exactly
  revert exactly
  decide

end Exact

end PersistentHarness.HostFiles
