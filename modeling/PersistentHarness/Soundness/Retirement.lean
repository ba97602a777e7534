import PersistentHarness.Model.Retirement

/-! # Quiescent sessions have no running jobs

A sample loses no job of its owners: one that was present is still kept, or its owner, which the first reading of its
metadata tells, is none of them. A call that finds sessions quiescent has looked at each job that is kept.
-/

namespace PersistentHarness.Retirement

open BackgroundNotifier (isJobId)

variable {look : Look} {sampleOwners owners : List JsString} {id : JsString} {previous entry : Option JobIdentity}
  {identity : JobIdentity} {jobs readings : List (JsString × Option JobIdentity)} {s : Monitor}

section Owners

def firstReading (readings : List (JsString × Option JobIdentity)) (id : JsString) : Option JobIdentity :=
  readings.findSome? fun reading => if reading.1 = id then reading.2 else none

/-- The owner of a job, once it is known. -/
def established (readings : List (JsString × Option JobIdentity)) (id : JsString) : Option JsString :=
  (firstReading readings id).map JobIdentity.sessionId

theorem established_append (readings more : List (JsString × Option JobIdentity)) (id : JsString) :
    established (readings ++ more) id = (established readings id).or (established more id) := by
  unfold established firstReading
  rw [List.findSome?_append]
  cases List.findSome? (fun reading => if reading.1 = id then reading.2 else none) readings with
  | none => rfl
  | some identity => rfl

theorem established_stays {owner : JsString} (known : established readings id = some owner) (more : List (JsString × Option JobIdentity)) :
    established (readings ++ more) id = some owner := by
  rw [established_append, known, Option.some_or]

theorem established_of_not_mem (unread : id ∉ Assoc.keys readings) : established readings id = none := by
  unfold established firstReading
  rw [Option.map_eq_none_iff, List.findSome?_eq_none_iff]
  intro reading member
  rw [if_neg]
  rintro rfl
  exact unread (List.mem_map.mpr ⟨reading, member, rfl⟩)

theorem established_single (id : JsString) (identity : Option JobIdentity) :
    established [(id, identity)] id = identity.map JobIdentity.sessionId := by
  unfold established firstReading
  rw [List.findSome?_cons, if_pos rfl, List.findSome?_nil]
  cases identity with
  | none => rfl
  | some identity => rfl

end Owners

section Findings

theorem keys_readingsOf {other : JsString} (member : other ∈ Assoc.keys (readingsOf look owners id previous)) : other = id := by
  unfold readingsOf at member
  split at member
  · exact List.mem_singleton.mp member
  · cases member

theorem judgedBy_read (judged : judgedBy look owners id previous = some identity)
    (same : ∀ other, previous = some other → identity.sessionId = other.sessionId)
    (known : established readings id = previous.map JobIdentity.sessionId)
    (read : ∀ other, previous = some other → (id, some other) ∈ readings) :
    (id, some identity) ∈ readings ++ readingsOf look owners id previous
      ∧ established (readings ++ readingsOf look owners id previous) id = some identity.sessionId := by
  unfold judgedBy at judged
  unfold readingsOf
  split at judged
  · next again =>
    rw [if_pos again, judged]
    refine ⟨List.mem_append_right _ (List.mem_singleton_self _), ?_⟩
    rw [established_append, known, established_single]
    cases previous with
    | none => rfl
    | some other =>
      rw [same other rfl]
      rfl
  · next kept =>
    rw [if_neg kept, List.append_nil, known, judged]
    exact ⟨read identity judged, rfl⟩

/-- What a finding says of the job's entry. -/
theorem examine_cases (look : Look) (sampleOwners owners : List JsString) (id : JsString) (previous : Option JobIdentity) :
    (sampled owners previous = false ∧ examine look sampleOwners owners id previous = .kept previous)
      ∨ (examine look sampleOwners owners id previous = .blocked previous
        ∧ (previous = none → judgedBy look owners id previous = none))
      ∨ ∃ identity, judgedBy look owners id previous = some identity
        ∧ (∀ other, previous = some other → identity.sessionId = other.sessionId)
        ∧ ((identity.sessionId ∉ sampleOwners ∧ examine look sampleOwners owners id previous = .dropped)
          ∨ (identity.sessionId ∈ sampleOwners ∧ examine look sampleOwners owners id previous = .blocked (some identity))
          ∨ (identity.sessionId ∈ sampleOwners ∧ examine look sampleOwners owners id previous = .kept (some identity)
            ∧ (identity.sessionId ∈ owners → identity.complete = true ∧ (look.process id).stopped identity = true))) := by
  unfold examine
  cases kept : sampled owners previous with
  | false => exact .inl ⟨rfl, rfl⟩
  | true =>
    rw [if_pos rfl]
    cases judged : judgedBy look owners id previous with
    | none => exact .inr (.inl ⟨rfl, fun _ => rfl⟩)
    | some identity =>
      dsimp only
      split
      · next changed =>
        refine .inr (.inl ⟨rfl, ?_⟩)
        rintro rfl
        cases changed
      · next sticky =>
        have same (other : JobIdentity) (held : previous = some other) : identity.sessionId = other.sessionId := by
          rw [held, Option.any_some, decide_eq_true_eq, not_not] at sticky
          exact sticky
        refine .inr (.inr ⟨identity, rfl, same, ?_⟩)
        split
        · next foreign => exact .inl ⟨foreign, rfl⟩
        · next inside =>
          have sampledToo := not_not.mp inside
          split
          · next other => exact .inr (.inr ⟨sampledToo, rfl, fun asked => absurd asked other⟩)
          · split
            · next done => exact .inr (.inr ⟨sampledToo, rfl, fun _ => Bool.and_eq_true_iff.mp done⟩)
            · exact .inr (.inl ⟨sampledToo, rfl⟩)

end Findings

section Checks

/-- A job that is present is kept, with its owner if that is known; or its owner is none of those that retire. -/
def Covers (sampleOwners : List JsString) (readings jobs : List (JsString × Option JobIdentity)) (id : JsString) : Prop :=
  (∃ previous, (id, previous) ∈ jobs ∧ established readings id = previous.map JobIdentity.sessionId)
    ∨ ∃ owner, established readings id = some owner ∧ owner ∉ sampleOwners

/-- What a sample keeps of a job has been read. -/
def Read (readings jobs : List (JsString × Option JobIdentity)) : Prop :=
  ∀ id identity, (id, some identity) ∈ jobs → (id, some identity) ∈ readings

theorem Covers.subset {others : List (JsString × Option JobIdentity)} (covers : Covers sampleOwners readings jobs id)
    (subset : ∀ entry ∈ jobs, entry ∈ others) : Covers sampleOwners readings others id := by
  rcases covers with ⟨previous, kept, known⟩ | foreign
  · exact .inl ⟨previous, subset _ kept, known⟩
  · exact .inr foreign

theorem keys_checkJobs (look : Look) (sampleOwners owners : List JsString) (jobs : List (JsString × Option JobIdentity)) :
    (Assoc.keys (checkJobs look sampleOwners owners jobs).jobs).Sublist (Assoc.keys jobs) := by
  induction jobs with
  | nil => exact List.Sublist.refl _
  | cons job rest ih =>
    obtain ⟨id, previous⟩ := job
    rw [checkJobs]
    dsimp only
    split
    · exact List.Sublist.refl _
    · exact ih.cons _
    · exact ih.cons_cons _

theorem keys_readings (jobs : List (JsString × Option JobIdentity)) :
    ∀ id ∈ Assoc.keys (checkJobs look sampleOwners owners jobs).readings, id ∈ Assoc.keys jobs := by
  induction jobs with
  | nil =>
    intro id member
    exact member
  | cons job rest ih =>
    obtain ⟨head, previous⟩ := job
    intro id member
    have later (inside : id ∈ Assoc.keys (readingsOf look owners head previous ++ (checkJobs look sampleOwners owners rest).readings)) :
        id ∈ Assoc.keys ((head, previous) :: rest) := by
      unfold Assoc.keys at inside
      rw [List.map_append] at inside
      rcases List.mem_append.mp inside with here | there
      · rw [keys_readingsOf here]
        exact List.mem_cons_self ..
      · exact List.mem_cons_of_mem _ (ih id there)
    rw [checkJobs] at member
    dsimp only at member
    split at member
    · rw [keys_readingsOf member]
      exact List.mem_cons_self ..
    · exact later member
    · exact later member

theorem read_checkJobs (read : Read readings jobs) :
    Read (readings ++ (checkJobs look sampleOwners owners jobs).readings) (checkJobs look sampleOwners owners jobs).jobs := by
  induction jobs generalizing readings with
  | nil =>
    intro id identity member
    cases member
  | cons job rest ih =>
    obtain ⟨head, previous⟩ := job
    have readToo : Read (readings ++ readingsOf look owners head previous) rest := fun id identity member =>
      List.mem_append_left _ (read id identity (List.mem_cons_of_mem _ member))
    have headRead (identity : JobIdentity) (held : previous = some identity) : (head, some identity) ∈ readings :=
      read head identity (held ▸ List.mem_cons_self ..)
    have entryRead (identity : JobIdentity) (judged : judgedBy look owners head previous = some identity) :
        (head, some identity) ∈ readings ++ readingsOf look owners head previous := by
      unfold judgedBy at judged
      unfold readingsOf
      split at judged
      · next again =>
        rw [if_pos again, judged]
        exact List.mem_append_right _ (List.mem_singleton_self _)
      · exact List.mem_append_left _ (headRead identity judged)
    have tail := ih readToo
    rw [List.append_assoc] at tail
    rw [checkJobs]
    dsimp only
    rcases examine_cases look sampleOwners owners head previous with
      ⟨-, kept⟩ | ⟨blocked, -⟩ | ⟨other, judged, -, ⟨-, dropped⟩ | ⟨-, blocked⟩ | ⟨-, kept, -⟩⟩
    · rw [kept]
      intro id identity member
      rcases List.mem_cons.mp member with here | there
      · obtain ⟨rfl, held⟩ := Prod.mk.inj here
        exact List.mem_append_left _ (headRead identity held.symm)
      · exact tail id identity there
    · rw [blocked]
      intro id identity member
      rcases List.mem_cons.mp member with here | there
      · obtain ⟨rfl, held⟩ := Prod.mk.inj here
        exact List.mem_append_left _ (headRead identity held.symm)
      · exact readToo id identity there
    · rw [dropped]
      exact tail
    · rw [blocked]
      intro id identity member
      rcases List.mem_cons.mp member with here | there
      · obtain ⟨rfl, held⟩ := Prod.mk.inj here
        exact entryRead identity (judged.trans held.symm)
      · exact readToo id identity there
    · rw [kept]
      intro id identity member
      rcases List.mem_cons.mp member with here | there
      · obtain ⟨rfl, held⟩ := Prod.mk.inj here
        rw [← List.append_assoc]
        exact List.mem_append_left _ (entryRead identity (judged.trans held.symm))
      · exact tail id identity there

theorem unread_head {other : JsString} (distinct : other ≠ id) :
    other ∉ Assoc.keys (readingsOf look owners id previous) :=
  fun member => distinct (keys_readingsOf member)

theorem covers_checkJobs (unique : (Assoc.keys jobs).Nodup) (read : Read readings jobs) {id : JsString}
    (covers : Covers sampleOwners readings jobs id) :
    Covers sampleOwners (readings ++ (checkJobs look sampleOwners owners jobs).readings)
      (checkJobs look sampleOwners owners jobs).jobs id := by
  rcases covers with ⟨previous, kept, known⟩ | ⟨owner, known, foreign⟩
  swap
  · exact .inr ⟨owner, established_stays known _, foreign⟩
  induction jobs generalizing readings with
  | nil => cases kept
  | cons job rest ih =>
    obtain ⟨head, entry⟩ := job
    obtain ⟨fresh, uniqueToo⟩ := List.nodup_cons.mp unique
    have readToo : Read (readings ++ readingsOf look owners head entry) rest := fun id identity member =>
      List.mem_append_left _ (read id identity (List.mem_cons_of_mem _ member))
    rcases List.mem_cons.mp kept with here | there
    · obtain ⟨rfl, rfl⟩ := Prod.mk.inj here
      have unread : id ∉ Assoc.keys (checkJobs look sampleOwners owners rest).readings := fun member =>
        fresh (keys_readings rest id member)
      rw [checkJobs]
      dsimp only
      rcases examine_cases look sampleOwners owners id previous with
        ⟨unsampled, found⟩ | ⟨found, unread⟩ | ⟨identity, judged, same, outcome⟩
      · rw [found, readingsOf, rereads, unsampled]
        refine .inl ⟨previous, List.mem_cons_self .., ?_⟩
        rw [Bool.false_and, if_neg Bool.false_ne_true, List.nil_append, established_append, established_of_not_mem unread,
          Option.or_none, known]
      · rw [found]
        cases previous with
        | some identity => exact .inl ⟨some identity, List.mem_cons_self .., established_stays known _⟩
        | none =>
          have missing : look.meta_ id = none := unread rfl
          refine .inl ⟨none, List.mem_cons_self .., ?_⟩
          change established (readings ++ [(id, look.meta_ id)]) id = none
          rw [established_append, known, established_single, missing]
          rfl
      · have judgedToo := judgedBy_read judged same known fun other held => read id other (held ▸ List.mem_cons_self ..)
        rcases outcome with ⟨foreign, found⟩ | ⟨-, found⟩ | ⟨-, found, -⟩
        · rw [found, ← List.append_assoc]
          exact .inr ⟨identity.sessionId, established_stays judgedToo.2 _, foreign⟩
        · rw [found]
          exact .inl ⟨some identity, List.mem_cons_self .., judgedToo.2⟩
        · rw [found, ← List.append_assoc]
          exact .inl ⟨some identity, List.mem_cons_self .., established_stays judgedToo.2 _⟩
    · have distinct : id ≠ head := by
        rintro rfl
        exact fresh (List.mem_map.mpr ⟨_, there, rfl⟩)
      have knownToo : established (readings ++ readingsOf look owners head entry) id = previous.map JobIdentity.sessionId := by
        rw [established_append, established_of_not_mem (unread_head distinct), Option.or_none, known]
      have later := ih uniqueToo readToo there knownToo
      rw [List.append_assoc] at later
      rw [checkJobs]
      dsimp only
      split
      · exact .inl ⟨previous, List.mem_cons_of_mem _ there, knownToo⟩
      · exact later
      · exact later.subset fun _ => List.mem_cons_of_mem _

/-- Every job that a passed check has looked at has an owner, and one that is asked for has a complete identity and a process
that is seen not to run. -/
theorem cleared_of_ok (inside : ∀ owner ∈ owners, owner ∈ sampleOwners) (unique : (Assoc.keys jobs).Nodup) (read : Read readings jobs)
    (ok : (checkJobs look sampleOwners owners jobs).ok = true) {id : JsString} (kept : (id, previous) ∈ jobs)
    (known : established readings id = previous.map JobIdentity.sessionId) :
    ∃ owner, established (readings ++ (checkJobs look sampleOwners owners jobs).readings) id = some owner
      ∧ (owner ∈ owners → ∃ identity, (id, some identity) ∈ readings ++ (checkJobs look sampleOwners owners jobs).readings
        ∧ identity.sessionId = owner ∧ identity.complete = true ∧ (look.process id).stopped identity = true) := by
  induction jobs generalizing readings with
  | nil => cases kept
  | cons job rest ih =>
    obtain ⟨head, entry⟩ := job
    obtain ⟨fresh, uniqueToo⟩ := List.nodup_cons.mp unique
    have readToo : Read (readings ++ readingsOf look owners head entry) rest := fun id identity member =>
      List.mem_append_left _ (read id identity (List.mem_cons_of_mem _ member))
    rw [checkJobs] at ok ⊢
    dsimp only at ok ⊢
    rcases List.mem_cons.mp kept with here | there
    · obtain ⟨rfl, rfl⟩ := Prod.mk.inj here
      rcases examine_cases look sampleOwners owners id previous with
        ⟨unsampled, found⟩ | ⟨found, -⟩ | ⟨identity, judged, same, outcome⟩
      · rw [found]
        cases previous with
        | none => cases unsampled
        | some identity =>
          have foreign : identity.sessionId ∉ owners := by
            unfold sampled at unsampled
            rw [Option.all_some] at unsampled
            exact of_decide_eq_false unsampled
          exact ⟨identity.sessionId, established_stays known _, fun asked => absurd asked foreign⟩
      · rw [found] at ok
        cases ok
      · obtain ⟨member, judgedToo⟩ := judgedBy_read judged same known fun other held => read id other (held ▸ List.mem_cons_self ..)
        rcases outcome with ⟨foreign, found⟩ | ⟨-, found⟩ | ⟨-, found, clear⟩
        · rw [found, ← List.append_assoc]
          exact ⟨identity.sessionId, established_stays judgedToo _, fun asked => absurd (inside _ asked) foreign⟩
        · rw [found] at ok
          cases ok
        · rw [found, ← List.append_assoc]
          exact ⟨identity.sessionId, established_stays judgedToo _, fun asked =>
            ⟨identity, List.mem_append_left _ member, rfl, clear asked⟩⟩
    · have distinct : id ≠ head := by
        rintro rfl
        exact fresh (List.mem_map.mpr ⟨_, there, rfl⟩)
      have knownToo : established (readings ++ readingsOf look owners head entry) id = previous.map JobIdentity.sessionId := by
        rw [established_append, established_of_not_mem (unread_head distinct), Option.or_none, known]
      have later := ih uniqueToo readToo
      split at ok
      · cases ok
      · rw [← List.append_assoc]
        exact later ok there knownToo
      · rw [← List.append_assoc]
        exact later ok there knownToo

end Checks

section Samples

/-- What a sample tells of the jobs that were present when it was taken. -/
structure Sample.Sound (s : Monitor) (sample : Sample) : Prop where
  unique : (Assoc.keys sample.jobs).Nodup
  read : Read s.readings sample.jobs
  covers : sample.complete = true → ∀ id ∈ s.present, Covers sample.owners s.readings sample.jobs id
  empty : sample.complete = true → sample.directory = none → s.present = []

def Inv (s : Monitor) : Prop := ∀ sample, s.sample = some sample → sample.Sound s

theorem initial_inv : Inv .initial := by
  rintro sample ⟨⟩

theorem empty_inv (complete : Bool) : Inv ⟨some ⟨owners, [], complete, none⟩, [], []⟩ := by
  rintro sample ⟨⟩
  exact ⟨List.nodup_nil, fun _ _ member => absurd member List.not_mem_nil, fun _ _ member => absurd member List.not_mem_nil,
    fun _ _ => rfl⟩

theorem established_map (f : JsString → Option JobIdentity) {names : List JsString} (listed : id ∈ names) :
    established (names.map fun name => (name, f name)) id = (f id).map JobIdentity.sessionId := by
  induction names with
  | nil => cases listed
  | cons name rest ih =>
    rw [List.map_cons, ← List.singleton_append, established_append]
    by_cases here : name = id
    · subst here
      rw [established_single]
      cases shown : f name with
      | some identity => rfl
      | none =>
        rw [Option.map_none, Option.none_or]
        by_cases again : name ∈ rest
        · rw [ih again, shown]
          rfl
        · apply established_of_not_mem
          unfold Assoc.keys
          rw [List.map_map]
          exact fun member => again (by simpa using member)
    · rw [ih ((List.mem_cons.mp listed).resolve_left (Ne.symm here)), established_of_not_mem, Option.none_or]
      exact fun member => here (List.mem_singleton.mp member).symm

theorem foreign_of_unsampled (unsampled : ¬sampled owners previous = true) :
    ∃ identity, previous = some identity ∧ identity.sessionId ∉ owners := by
  cases previous with
  | none => exact absurd rfl unsampled
  | some identity =>
    unfold sampled at unsampled
    rw [Option.all_some, decide_eq_true_eq] at unsampled
    exact ⟨identity, rfl, unsampled⟩

theorem takeSample_inv (owners : List JsString) (look : Look) : Inv (takeSample owners look) := by
  unfold takeSample
  split
  · exact empty_inv true
  · split
    · exact empty_inv true
    · exact empty_inv false
    · next directory listing _ =>
      rintro sample ⟨⟩
      constructor
      · have names : (Assoc.keys (((listing.names.take MAX_ENTRIES).filter isJobId).map fun name => (name, look.meta_ name))).Nodup := by
          unfold Assoc.keys
          rw [List.map_map]
          have unique : ((listing.names.take MAX_ENTRIES).filter isJobId).Nodup :=
            (listing.unique.sublist (List.take_sublist MAX_ENTRIES _)).filter isJobId
          rwa [show (Prod.fst ∘ fun name => (name, look.meta_ name)) = id from rfl, List.map_id]
        exact names.sublist (List.filter_sublist.map Prod.fst)
      · exact fun name identity member => List.mem_of_mem_filter member
      · intro complete name listed
        have whole : listing.names.take MAX_ENTRIES = listing.names := by
          apply List.take_of_length_le
          exact of_decide_eq_true (Bool.and_eq_true_iff.mp (Bool.and_eq_true_iff.mp complete).1).1
        rw [whole]
        have known := established_map look.meta_ listed
        by_cases kept : sampled owners (look.meta_ name) = true
        · exact .inl ⟨_, List.mem_filter.mpr ⟨List.mem_map.mpr ⟨name, listed, rfl⟩, kept⟩, known⟩
        · obtain ⟨identity, shown, foreign⟩ := foreign_of_unsampled kept
          rw [shown] at known
          exact .inr ⟨identity.sessionId, known, foreign⟩
      · intro _ missing
        cases missing

theorem prepare_inv (inv : Inv s) (sessionIds : List JsString) (look : Look) : Inv (s.prepareRetirementProof sessionIds look) := by
  unfold Monitor.prepareRetirementProof
  split
  · next previous held =>
    split
    · next subset =>
      have sound := inv previous held
      rintro sample ⟨⟩
      constructor
      · exact sound.unique.sublist (List.filter_sublist.map Prod.fst)
      · exact fun id identity member => sound.read id identity (List.mem_of_mem_filter member)
      · intro complete id listed
        rcases sound.covers complete id listed with ⟨entry, kept, known⟩ | ⟨owner, known, foreign⟩
        · by_cases stays : sampled sessionIds entry = true
          · exact .inl ⟨entry, List.mem_filter.mpr ⟨kept, stays⟩, known⟩
          · obtain ⟨identity, shown, foreign⟩ := foreign_of_unsampled stays
            rw [shown] at known
            exact .inr ⟨identity.sessionId, known, foreign⟩
        · refine .inr ⟨owner, known, fun inside => foreign ?_⟩
          exact of_decide_eq_true (List.all_eq_true.mp subset owner inside)
      · exact sound.empty
    · exact takeSample_inv sessionIds look
  · exact takeSample_inv sessionIds look

theorem quiescent_inv (inv : Inv s) (sessionIds : List JsString) (look : Look) : Inv (s.areSessionsQuiescent sessionIds look).2 := by
  unfold Monitor.areSessionsQuiescent
  split
  · exact inv
  · next sample held =>
    split
    · exact inv
    · split
      · exact inv
      · next directory placed =>
        split
        · split
          · have sound := inv sample held
            rintro later ⟨⟩
            exact ⟨sound.unique.sublist (keys_checkJobs ..), read_checkJobs sound.read,
              fun complete id listed => covers_checkJobs sound.unique sound.read (sound.covers complete id listed), sound.empty⟩
          · exact inv
        · exact inv

theorem run_inv (calls : List Call) : Inv (run calls) := by
  unfold run
  induction calls using List.reverseRecOn with
  | nil => exact initial_inv
  | append_singleton calls call ih =>
    rw [List.foldl_append]
    cases call with
    | reset => exact initial_inv
    | prepare sessionIds look => exact prepare_inv ih sessionIds look
    | quiescent sessionIds look => exact quiescent_inv ih sessionIds look

/-- Sessions are quiescent only where each job that was present when the sample was taken has a known owner, and each job of theirs
has a complete identity whose process is seen not to run in the call. -/
theorem quiescent_only_if (calls : List Call) (sessionIds : List JsString) (look : Look)
    (quiet : ((run calls).areSessionsQuiescent sessionIds look).1 = true) :
    ∀ id ∈ (run calls).present, ∃ owner,
      established ((run calls).areSessionsQuiescent sessionIds look).2.readings id = some owner
        ∧ (owner ∈ sessionIds → ∃ identity, (id, some identity) ∈ ((run calls).areSessionsQuiescent sessionIds look).2.readings
          ∧ identity.sessionId = owner ∧ identity.complete = true ∧ (look.process id).stopped identity = true) := by
  intro id listed
  have inv := run_inv calls
  unfold Monitor.areSessionsQuiescent at quiet ⊢
  split at quiet
  · cases quiet
  · next sample held =>
    have sound := inv sample held
    split at quiet
    · cases quiet
    · next asked =>
      obtain ⟨incomplete, inside⟩ := not_or.mp asked
      have complete := Bool.eq_true_of_not_eq_false incomplete
      have known (owner : JsString) (member : owner ∈ sessionIds) : owner ∈ sample.owners := by
        by_contra foreign
        exact inside (List.any_eq_true.mpr ⟨owner, member, decide_eq_true foreign⟩)
      split at quiet
      · next missing =>
        rw [sound.empty complete missing] at listed
        cases listed
      · next directory placed =>
        split at quiet
        · next opened =>
          split at quiet
          · next same =>
            rw [if_neg asked, placed]
            dsimp only
            rw [if_pos same]
            have ok := (Bool.and_eq_true_iff.mp quiet).1
            rcases sound.covers complete id listed with ⟨previous, kept, first⟩ | ⟨owner, first, foreign⟩
            · exact cleared_of_ok known sound.unique sound.read ok kept first
            · exact ⟨owner, established_stays first _, fun member => absurd (known owner member) foreign⟩
          · cases quiet
        · cases quiet

def sampleMetadata : Value :=
  .record [("schema", .text "background.job.v1"), ("id", .text "bg-0123456789ab"), ("session_id", .text "root"),
    ("kind", .text "launched"), ("pid", .num (.ofNat 41)), ("starttime", .text "7")]

/-- A job whose metadata is there after the sample is taken only, and whose process has exited by then. -/
def sampleLook (metadata : Option Value) : Look where
  opened := .directory ⟨1, 2⟩ ⟨[js "bg-0123456789ab"], List.pairwise_singleton _ _, false⟩
  metadata _ := metadata
  process _ := .missing
  current := some ⟨1, 2⟩

theorem quiescent_only_if_sample :
    ((run [.prepare [js "root"] (sampleLook none)]).areSessionsQuiescent [js "root"]
      (sampleLook (some sampleMetadata))).1 = true ∧ ∀ id ∈ (run [.prepare [js "root"] (sampleLook none)]).present, ∃ owner,
      established ((run [.prepare [js "root"] (sampleLook none)]).areSessionsQuiescent [js "root"]
          (sampleLook (some sampleMetadata))).2.readings id = some owner
        ∧ (owner ∈ [js "root"] → ∃ identity,
          (id, some identity) ∈ ((run [.prepare [js "root"] (sampleLook none)]).areSessionsQuiescent [js "root"]
            (sampleLook (some sampleMetadata))).2.readings
          ∧ identity.sessionId = owner ∧ identity.complete = true
          ∧ ((sampleLook (some sampleMetadata)).process id).stopped identity = true) :=
  ⟨by decide +kernel,
    quiescent_only_if [.prepare [js "root"] (sampleLook none)] [js "root"] (sampleLook (some sampleMetadata)) (by decide +kernel)⟩

end Samples

end PersistentHarness.Retirement
