import PersistentHarness.Data.JsonText
import PersistentHarness.Lib.Pointwise
import PersistentHarness.Model.SkillArtifacts

/-! # What the digest of a skill tells apart

Paths and executable bits hold no NUL, so the head of a record can be read back. The bytes of a file may hold
anything, also the text of other records: they end where the reader of the stream wants them to.
-/

namespace PersistentHarness.SkillArtifacts

open Json (unit)

section Text

/-- No byte of the text of a number is NUL. -/
theorem decimal_noNul (n : ℕ) : 0 ∉ Utf8.encode (Json.decimal n) := by
  intro inside
  have ink := Utf8.ink_of_printable (Json.printable_decimal n) 0 inside
  revert ink
  decide

theorem decimal_injective {n m : ℕ} (same : Utf8.encode (Json.decimal n) = Utf8.encode (Json.decimal m)) : n = m := by
  have units := congrArg Utf8.decodeUnits same
  rw [Utf8.decodeUnits_encode (Json.printable_decimal n), Utf8.decodeUnits_encode (Json.printable_decimal m)] at units
  have value := congrArg Json.digitsValue (Option.some.inj units)
  rwa [Json.digitsValue_decimal, Json.digitsValue_decimal] at value

/-- Two records are at the head of one text: they are the same, or one is of a file whose bytes go on in the other. -/
inductive SameText : Record → Bytes → Record → Bytes → Prop
  | same (record rest) : SameText record rest record rest
  | longer (relative executable bytes more rest) :
    SameText (.file relative executable bytes) (more ++ 0 :: rest) (.file relative executable (bytes ++ 0 :: more)) rest
  | shorter (relative executable bytes more rest) :
    SameText (.file relative executable (bytes ++ 0 :: more)) rest (.file relative executable bytes) (more ++ 0 :: rest)

theorem sameText_of_bytes {relative : Path} {executable : ℕ} {bytes other rest more : Bytes}
    (same : bytes ++ 0 :: rest = other ++ 0 :: more) :
    SameText (.file relative executable bytes) rest (.file relative executable other) more := by
  rcases List.append_eq_append_iff.mp same with ⟨tail, rfl, left⟩ | ⟨tail, rfl, left⟩
  · cases tail with
    | nil =>
      rw [List.append_nil]
      cases left
      exact .same ..
    | cons head tail =>
      cases left
      exact .longer ..
  · cases tail with
    | nil =>
      rw [List.append_nil]
      cases left
      exact .same ..
    | cons head tail =>
      cases left
      exact .shorter ..

theorem text_append {record other : Record} {rest more : Bytes} (same : record.text ++ rest = other.text ++ more) :
    SameText record rest other more := by
  cases record with
  | directory relative =>
    cases other with
    | directory relative' =>
      simp only [Record.text, List.cons_append, List.append_assoc, List.cons.injEq, true_and, List.nil_append] at same
      obtain ⟨path, rfl⟩ := Fields.inj relative.noNul relative'.noNul same
      cases Path.ext path
      exact .same ..
    | file relative' executable' bytes' => cases same
  | file relative executable bytes =>
    cases other with
    | directory relative' => cases same
    | file relative' executable' bytes' =>
      simp only [Record.text, List.cons_append, List.append_assoc, List.cons.injEq, true_and, List.nil_append] at same
      obtain ⟨path, tail⟩ := Fields.inj relative.noNul relative'.noNul same
      cases Path.ext path
      obtain ⟨number, content⟩ := Fields.inj (decimal_noNul executable) (decimal_noNul executable') tail
      cases decimal_injective number
      exact sameText_of_bytes content

end Text

section Streams

/-- At the first place where they differ, the records of one walk have a file whose bytes go on in the other walk
with a NUL and with the text of records that follow it in the first. -/
def Continues (records others : List Record) : Prop :=
  ∃ before relative executable bytes more after rest,
    records = before ++ .file relative executable bytes :: after
      ∧ others = before ++ .file relative executable (bytes ++ 0 :: more) :: rest
      ∧ after.flatMap Record.text = more ++ 0 :: rest.flatMap Record.text

theorem Continues.cons {records others : List Record} (record : Record) :
    Continues records others → Continues (record :: records) (record :: others)
  | ⟨before, relative, executable, bytes, more, after, rest, first, second, text⟩ =>
    ⟨record :: before, relative, executable, bytes, more, after, rest, by rw [first]; rfl, by rw [second]; rfl, text⟩

theorem Continues.text {records others : List Record} (continues : Continues records others) :
    records.flatMap Record.text = others.flatMap Record.text := by
  obtain ⟨before, relative, executable, bytes, more, after, rest, rfl, rfl, text⟩ := continues
  simp only [List.flatMap_append, List.flatMap_cons, text, Record.text, List.append_assoc, List.cons_append, List.nil_append]

theorem records_of_text {records others : List Record} (same : records.flatMap Record.text = others.flatMap Record.text) :
    records = others ∨ Continues records others ∨ Continues others records := by
  induction records generalizing others with
  | nil =>
    cases others with
    | nil => exact .inl rfl
    | cons other others => cases other <;> cases same
  | cons record records ih =>
    cases others with
    | nil => cases record <;> cases same
    | cons other others =>
      rw [List.flatMap_cons, List.flatMap_cons] at same
      have heads := text_append same
      generalize rest_eq : records.flatMap Record.text = rest at heads
      generalize more_eq : others.flatMap Record.text = more at heads
      cases heads with
      | same =>
        rcases ih (rest_eq.trans more_eq.symm) with rfl | continues | continues
        · exact .inl rfl
        · exact .inr (.inl (continues.cons _))
        · exact .inr (.inr (continues.cons _))
      | longer relative executable bytes =>
        refine .inr (.inl ⟨[], relative, executable, bytes, _, records, others, rfl, rfl, ?_⟩)
        rw [rest_eq, more_eq]
      | shorter relative executable bytes =>
        refine .inr (.inr ⟨[], relative, executable, bytes, _, others, records, rfl, rfl, ?_⟩)
        rw [rest_eq, more_eq]

end Streams

section Contents

mutual

/-- What there is at a path, with the listings as they are. -/
def Entry.contents (rel : Path) : Entry → List Record
  | .directory entries => .directory rel :: contents rel entries
  | .file mode bytes => [.file rel (mode &&& 0o111) bytes]

/-- What there is below a directory. -/
def contents (relative : Path) : List (Name × Entry) → List Record
  | [] => []
  | (name, entry) :: rest => entry.contents (relative.child name) ++ contents relative rest

end

theorem contents_eq (relative : Path) (entries : List (Name × Entry)) :
    contents relative entries = entries.flatMap fun entry => entry.2.contents (relative.child entry.1) := by
  induction entries with
  | nil => rfl
  | cons entry rest ih => rw [contents, ih, List.flatMap_cons]

theorem contents_perm {relative : Path} {entries others : List (Name × Entry)} (perm : entries.Perm others) :
    (contents relative entries).Perm (contents relative others) := by
  rw [contents_eq, contents_eq]
  exact perm.flatMap_right _

mutual

theorem sorted_contents (localeCompare : Name → Name → Bool) (rel : Path) :
    ∀ entry, ((Entry.sorted localeCompare entry).contents rel).Perm (entry.contents rel)
  | .file _ _ => .refl _
  | .directory entries =>
    .cons _ ((contents_perm (List.perm_insertionSort _ _)).trans (sortedEntries_contents localeCompare rel entries))

theorem sortedEntries_contents (localeCompare : Name → Name → Bool) (relative : Path) :
    ∀ entries, (contents relative (sortedEntries localeCompare entries)).Perm (contents relative entries)
  | [] => .refl _
  | (name, entry) :: rest =>
    (sorted_contents localeCompare (relative.child name) entry).append (sortedEntries_contents localeCompare relative rest)

end

mutual

theorem visitEntry_records (rel : Path) : ∀ (entry : Entry) {walk after : Walk},
    visitEntry rel entry walk = .ok after → after.records = walk.records ++ entry.contents rel
  | .directory entries, walk, after, visited => by
    unfold visitEntry at visited
    split at visited
    · cases visited
    · rw [visit_records rel entries visited, Entry.contents]
      simp only [List.append_assoc, List.cons_append, List.nil_append]
  | .file mode bytes, walk, after, visited => by
    unfold visitEntry at visited
    split at visited
    · cases visited
    · split at visited <;> cases visited
      rfl

theorem visit_records (relative : Path) : ∀ (entries : List (Name × Entry)) {walk after : Walk},
    visit relative entries walk = .ok after → after.records = walk.records ++ contents relative entries
  | [], walk, after, visited => by
    cases visited
    exact (List.append_nil _).symm
  | (name, entry) :: rest, walk, after, visited => by
    unfold visit at visited
    split at visited
    · cases visited
    · next middle first =>
      rw [visit_records relative rest visited, visitEntry_records (relative.child name) entry first, contents,
        List.append_assoc]

end

end Contents

section Paths

/-- A path is below another one or is that path. -/
def Within (rel path : Path) : Prop := ∃ more, path.bytes ++ [0x2F] = rel.bytes ++ 0x2F :: more

theorem child_bytes (relative : Path) :
    ∃ stem, ∀ name, (relative.child name).bytes = stem ++ name.bytes := by
  by_cases root : relative.bytes = []
  · refine ⟨[], fun name => ?_⟩
    rw [Path.child, if_pos root, List.nil_append]
  · refine ⟨relative.bytes ++ [0x2F], fun name => ?_⟩
    rw [Path.child, if_neg root, List.append_assoc, List.singleton_append]

theorem child_nonempty (relative : Path) (name : Name) : (relative.child name).bytes ≠ [] := by
  obtain ⟨stem, whole⟩ := child_bytes relative
  rw [whole]
  exact List.append_ne_nil_of_right_ne_nil _ name.nonempty

theorem Within.refl (path : Path) : Within path path := ⟨[], rfl⟩

theorem Within.parent {rel path : Path} {name : Name} (inside : rel.bytes ≠ []) (within : Within (rel.child name) path) :
    Within rel path := by
  obtain ⟨more, whole⟩ := within
  refine ⟨name.bytes ++ 0x2F :: more, ?_⟩
  rw [whole, Path.child, if_neg inside]
  simp only [List.append_assoc, List.cons_append]

/-- Nothing that is below a directory has its path. -/
theorem Within.ne {rel path : Path} {name : Name} (inside : rel.bytes ≠ []) (within : Within (rel.child name) path) :
    path ≠ rel := by
  rintro rfl
  obtain ⟨more, whole⟩ := within
  rw [Path.child, if_neg inside] at whole
  simp only [List.append_assoc, List.append_cancel_left_eq, List.cons_append, List.cons.injEq, true_and] at whole
  exact List.append_ne_nil_of_right_ne_nil _ (List.cons_ne_nil _ _) whole.symm

/-- A path is below one entry of a directory only. -/
theorem Within.name {relative path : Path} {name other : Name} (within : Within (relative.child name) path)
    (withinToo : Within (relative.child other) path) : name = other := by
  obtain ⟨stem, whole⟩ := child_bytes relative
  obtain ⟨more, first⟩ := within
  obtain ⟨rest, second⟩ := withinToo
  have same := first.symm.trans second
  rw [whole, whole, List.append_assoc, List.append_assoc] at same
  exact Name.ext (Fields.inj name.plain.2 other.plain.2 (List.append_cancel_left same)).1

mutual

theorem Entry.contents_within (rel : Path) (inside : rel.bytes ≠ []) : ∀ (entry : Entry) {record : Record},
    record ∈ entry.contents rel → Within rel record.relative
  | .file mode bytes, record, member => by
    rw [List.mem_singleton.mp member]
    exact .refl rel
  | .directory entries, record, member => by
    rcases List.mem_cons.mp member with rfl | member
    · exact .refl rel
    · obtain ⟨entry, -, within⟩ := contents_within rel entries member
      exact within.parent inside

theorem contents_within (relative : Path) : ∀ (entries : List (Name × Entry)) {record : Record},
    record ∈ contents relative entries → ∃ entry ∈ entries, Within (relative.child entry.1) record.relative
  | [], record, member => absurd member List.not_mem_nil
  | (name, entry) :: rest, record, member => by
    rcases List.mem_append.mp member with member | member
    · exact ⟨(name, entry), List.mem_cons_self .., entry.contents_within _ (child_nonempty relative name) member⟩
    · obtain ⟨other, listed, within⟩ := contents_within relative rest member
      exact ⟨other, List.mem_cons_of_mem _ listed, within⟩

end

mutual

theorem Entry.contents_unique (rel : Path) (inside : rel.bytes ≠ []) : ∀ (entry : Entry), entry.Distinct →
    ∀ {record other : Record}, record ∈ entry.contents rel → other ∈ entry.contents rel →
      record.relative = other.relative → record = other
  | .file mode bytes, _, record, other, member, memberToo, _ => by
    rw [List.mem_singleton.mp member, List.mem_singleton.mp memberToo]
  | .directory entries, distinct, record, other, member, memberToo, same => by
    rcases List.mem_cons.mp member with rfl | member <;> rcases List.mem_cons.mp memberToo with rfl | memberToo
    · rfl
    · obtain ⟨entry, -, within⟩ := contents_within rel entries memberToo
      exact absurd same.symm (within.ne inside)
    · obtain ⟨entry, -, within⟩ := contents_within rel entries member
      exact absurd same (within.ne inside)
    · exact contents_unique rel entries distinct member memberToo same

theorem contents_unique (relative : Path) : ∀ (entries : List (Name × Entry)), DistinctNames entries →
    ∀ {record other : Record}, record ∈ contents relative entries → other ∈ contents relative entries →
      record.relative = other.relative → record = other
  | [], _, record, other, member, _, _ => absurd member List.not_mem_nil
  | (name, entry) :: rest, ⟨fresh, distinct, distinctRest⟩, record, other, member, memberToo, same => by
    have apart : ∀ {record other : Record}, record ∈ entry.contents (relative.child name) → other ∈ contents relative rest →
        record.relative ≠ other.relative := by
      intro record other member memberToo same
      have within := entry.contents_within _ (child_nonempty relative name) member
      obtain ⟨later, listed, withinToo⟩ := contents_within relative rest memberToo
      rw [same] at within
      exact fresh later listed (within.name withinToo).symm
    rcases List.mem_append.mp member with member | member <;> rcases List.mem_append.mp memberToo with memberToo | memberToo
    · exact entry.contents_unique _ (child_nonempty relative name) distinct member memberToo same
    · exact absurd same (apart member memberToo)
    · exact absurd same.symm (apart memberToo member)
    · exact contents_unique relative rest distinctRest member memberToo same

end

end Paths

section Digest

variable {localeCompare : Name → Name → Bool} {published found : Tree}

def Tree.contents (tree : Tree) : List Record := SkillArtifacts.contents .root tree.entries

/-- The records of a tree in the order of a walk. -/
def Tree.listing (localeCompare : Name → Name → Bool) (tree : Tree) : List Record :=
  SkillArtifacts.contents .root
    ((sortedEntries localeCompare tree.entries).insertionSort fun a b => localeCompare a.1 b.1 = true)

/-- Two trees have the same paths, of the same kinds, with the same executable bits and bytes. -/
def Same (published found : Tree) : Prop := ∀ record, record ∈ published.contents ↔ record ∈ found.contents

/-- The bytes of a file of one tree run into the records that follow it in the other. -/
def Blurred (localeCompare : Name → Name → Bool) (published found : Tree) : Prop :=
  Continues (published.listing localeCompare) (found.listing localeCompare)
    ∨ Continues (found.listing localeCompare) (published.listing localeCompare)

theorem mem_listing {tree : Tree} (record : Record) : record ∈ tree.listing localeCompare ↔ record ∈ tree.contents :=
  ((contents_perm (List.perm_insertionSort _ _)).trans (sortedEntries_contents localeCompare .root tree.entries)).mem_iff

theorem treeStream_listing {tree : Tree} {stream : Bytes} (fed : treeStream localeCompare tree = .ok stream) :
    stream = (tree.listing localeCompare).flatMap Record.text := by
  unfold treeStream Tree.walk at fed
  generalize walked : visit _ _ _ = outcome at fed
  cases outcome with
  | error code => cases fed
  | ok walk =>
    have records := visit_records _ _ walked
    rw [List.nil_append] at records
    cases fed
    rw [records]
    rfl

/-- A file whose bytes go on in the other tree is not the same there. -/
theorem Continues.not_same (continues : Continues (published.listing localeCompare) (found.listing localeCompare)) :
    ¬Same published found := by
  intro same
  obtain ⟨before, relative, executable, bytes, more, after, rest, first, second, -⟩ := continues
  have short : .file relative executable bytes ∈ published.contents := by
    rw [← mem_listing, first]
    exact List.mem_append_right _ (List.mem_cons_self ..)
  have long : .file relative executable (bytes ++ 0 :: more) ∈ found.contents := by
    rw [← mem_listing, second]
    exact List.mem_append_right _ (List.mem_cons_self ..)
  have whole := contents_unique .root published.entries published.distinct short ((same _).mpr long) rfl
  have length := congrArg List.length (Record.file.inj whole).2.2
  rw [List.length_append, List.length_cons] at length
  omega

theorem Same.symm (same : Same published found) : Same found published := fun record => (same record).symm

/-- Trees with one text are the same unless they are blurred. -/
theorem same_iff_of_stream {stream other : Bytes} (fed : treeStream localeCompare published = .ok stream)
    (fedToo : treeStream localeCompare found = .ok other) :
    (stream = other → Same published found) ↔ ¬Blurred localeCompare published found := by
  rw [treeStream_listing fed, treeStream_listing fedToo]
  constructor
  · rintro same (continues | continues)
    · exact continues.not_same (same continues.text)
    · exact continues.not_same (same continues.text.symm).symm
  · intro clear text record
    rcases records_of_text text with listed | continues | continues
    · rw [← mem_listing, ← mem_listing, listed]
    · exact absurd (.inl continues) clear
    · exact absurd (.inr continues) clear

theorem verifySkillArtifact_iff {sha256 : Bytes → JsString} {id skillFile : JsString} {record : ArtifactRecord} {stream : Bytes}
    (identified : record.identified sha256 id skillFile = true) (fed : treeStream localeCompare found = .ok stream) :
    verifySkillArtifact sha256 localeCompare id skillFile record found = .ok record ↔ sha256 stream = record.materializedHash := by
  unfold verifySkillArtifact treeDigest
  rw [identified, fed]
  dsimp only [bind, pure, Except.bind, Except.pure]
  rw [if_neg (by decide)]
  split
  · next differ =>
    constructor
    · rintro ⟨⟩
    · exact fun same => absurd same differ
  · next same => exact ⟨fun _ => not_not.mp same, fun _ => rfl⟩

end Digest

section Samples

def nameOf (letter : UInt8) (plain : 0 ∉ [letter] ∧ 0x2F ∉ [letter]) : Name := ⟨[letter], List.cons_ne_nil _ _, plain⟩

def fileA : Name := nameOf 0x61 (by decide)

def fileB : Name := nameOf 0x62 (by decide)

/-- `a` holds `x`, and `b` holds the given bytes. -/
def twoFiles (bytes : Bytes) : Tree :=
  ⟨[(fileA, .file 0o400 [0x78]), (fileB, .file 0o400 bytes)], by
    refine ⟨?_, trivial, ?_, trivial, trivial⟩
    · intro other listed
      cases List.mem_singleton.mp listed
      exact (by decide : fileB ≠ fileA)
    · exact List.forall_mem_nil _⟩

/-- `a` holds `x`, a NUL and the text of the record of `b` up to its end mark. -/
def oneFile : Tree :=
  ⟨[(fileA, .file 0o400 [0x78, 0, 0x66, 0x3A, 0x62, 0, 0x30, 0, 0x79])], List.forall_mem_nil _, trivial, trivial⟩

def byBytes (a b : Name) : Bool := a.bytes ≤ b.bytes

/-- A hash that tells the text of the two files from every other one. -/
def sampleHash (stream : Bytes) : JsString :=
  List.replicate 64 (if treeStream byBytes (twoFiles [0x79]) = .ok stream then unit '0' else unit '1')

def sampleRecord : ArtifactRecord where
  version := 1
  sourceContentHash := List.replicate 64 (unit 'a')
  skillFile := js "SKILL.md"
  materializedHash := List.replicate 64 (unit '0')

end Samples

end PersistentHarness.SkillArtifacts
