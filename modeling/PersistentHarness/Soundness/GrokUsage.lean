import PersistentHarness.Model.GrokUsage

/-! # Each caller is told about its own provider

An operation answers about the provider that started it. A call that joins an operation gives the value on when it asks for
grok-cli itself, so it is told about the right provider as long as it joins operations for grok-cli only.
-/

namespace PersistentHarness.GrokUsage

section Records

variable {κ α ρ : Type} {formats : Formats κ α ρ} {provider : JsString}

/-- A provider name that the reader accepts. -/
def Valid (provider : JsString) : Prop := boundedText provider 128 = some provider

theorem boundedText_eq {value text : JsString} {max : ℕ} (accepted : boundedText value max = some text) : text = value := by
  unfold boundedText at accepted
  split at accepted
  · exact (Option.some.inj accepted).symm
  · cases accepted

theorem valid_of_boundedText {value text : JsString} (accepted : boundedText value 128 = some text) : Valid text := by
  rw [Valid, boundedText_eq accepted]
  rwa [boundedText_eq accepted] at accepted

theorem valid_grokCliProvider : Valid grokCliProvider := by
  unfold Valid
  decide

/-- An answer about a provider: only grok-cli is ever ready. -/
structure Answers (record : Record ρ) (provider : JsString) : Prop where
  own : record.provider = provider
  ready : record.status = .ready → provider = grokCliProvider

theorem provider_project (valid : Valid provider) (model : Option JsString) (status : Status) (weekly : Option α) :
    (projectGrokCliRemaining formats provider model status weekly).provider = provider := by
  unfold projectGrokCliRemaining
  rw [show boundedText provider 128 = some provider from valid]
  simp only
  split
  · rfl
  · split
    · rfl
    · rfl

theorem answers_unavailable (valid : Valid provider) (model : Option JsString) :
    Answers (unavailable formats provider model) provider := by
  refine ⟨provider_project valid .., fun ready => ?_⟩
  unfold unavailable projectGrokCliRemaining at ready
  rw [show boundedText provider 128 = some provider from valid] at ready
  by_cases grok : provider = grokCliProvider
  · exact grok
  · simp only [if_neg grok, if_true] at ready
    cases ready

theorem answers_grok {record : Record ρ} (own : record.provider = grokCliProvider) : Answers record grokCliProvider := ⟨own, fun _ => rfl⟩

end Records

section Operations

variable {κ α ρ : Type} {formats : Formats κ α ρ} {minLiveIntervalMs : ℤ} {memo : Option (Memo ρ)} {provider : JsString}

def Remembered (memo : Option (Memo ρ)) : Prop := ∀ kept, memo = some kept → kept.value.provider = grokCliProvider

/-- The values of an operation answer for its provider; only grok-cli asks the service. -/
def Stage.Sound (provider : JsString) : Stage κ ρ → Prop
  | .live .. => provider = grokCliProvider
  | .settled value => ∀ record, value = some record → Answers record provider
  | .cleared value => ∀ record, value = some record → Answers record provider

theorem sound_settled {record : Record ρ} (answers : Answers record provider) :
    Stage.Sound provider (.settled (some record) : Stage κ ρ) := by
  rintro _ ⟨⟩
  exact answers

theorem remembered_some {record : Record ρ} (own : record.provider = grokCliProvider) (liveAt : ℤ) :
    Remembered (some ⟨record, liveAt⟩) := by
  rintro _ ⟨⟩
  exact own

theorem provider_cachedProjection {cache : κ} {accountId : JsString} {model : Option JsString} {now : ℤ} {record : Record ρ}
    (projected : cachedProjection formats cache accountId model now = some record) : record.provider = grokCliProvider := by
  obtain ⟨weekly, -, rfl⟩ := Option.map_eq_some_iff.mp projected
  exact provider_project valid_grokCliProvider ..

theorem fallback_sound (remembered : Remembered memo) (observedAt : ℤ) (model : Option JsString) (cache : Option κ)
    (accountId : JsString) : (fallback formats memo observedAt model cache accountId).1.Sound grokCliProvider ∧
      Remembered (fallback formats memo observedAt model cache accountId).2 := by
  unfold fallback
  split
  · next record found =>
    obtain ⟨content, -, projected⟩ := Option.bind_eq_some_iff.mp (Option.filter_eq_some_iff.mp found).1
    have own := provider_cachedProjection projected
    exact ⟨sound_settled (answers_grok own), remembered_some own _⟩
  · exact ⟨sound_settled (answers_unavailable valid_grokCliProvider model), remembered⟩

theorem refresh_sound (valid : Valid provider) (remembered : Remembered memo) (look : Look κ) :
    (refresh formats minLiveIntervalMs memo provider look).1.Sound provider ∧
      Remembered (refresh formats minLiveIntervalMs memo provider look).2 := by
  unfold refresh
  split
  · exact ⟨by rintro _ ⟨⟩, remembered⟩
  · next observedAt clock =>
    by_cases grok : provider = grokCliProvider
    · subst grok
      rw [if_neg (not_not.mpr rfl)]
      split
      · next kept found =>
        have own := remembered kept (Option.filter_eq_some_iff.mp found).1
        exact ⟨sound_settled (answers_grok own), remembered_some own _⟩
      · split
        · next record remaining found =>
          obtain ⟨cache, -, found⟩ := Option.bind_eq_some_iff.mp found
          obtain ⟨value, projected, found⟩ := Option.bind_eq_some_iff.mp found
          obtain ⟨rest, -, found⟩ := Option.bind_eq_some_iff.mp found
          obtain ⟨-, -, found⟩ := Option.bind_eq_some_iff.mp found
          cases found
          have own := provider_cachedProjection projected
          exact ⟨sound_settled (answers_grok own), remembered_some own _⟩
        · split
          · exact ⟨rfl, remembered⟩
          · exact fallback_sound remembered ..
    · rw [if_pos grok]
      exact ⟨sound_settled (answers_unavailable valid none), remembered⟩

theorem finishLive_sound {stage : Stage κ ρ} (sound : stage.Sound provider) (remembered : Remembered memo) (weekly : Option α) :
    (finishLive formats memo stage weekly).1.Sound provider ∧ Remembered (finishLive formats memo stage weekly).2 := by
  cases stage with
  | live observedAt model cache accountId =>
    obtain rfl : provider = grokCliProvider := sound
    cases weekly with
    | some weekly =>
      have own : (projectGrokCliRemaining formats grokCliProvider model .ready (some weekly)).provider = grokCliProvider :=
        provider_project valid_grokCliProvider ..
      exact ⟨sound_settled (answers_grok own), remembered_some own _⟩
    | none => exact fallback_sound remembered ..
  | settled value => exact ⟨sound, remembered⟩
  | cleared value => exact ⟨sound, remembered⟩

end Operations

section Runs

variable {κ α ρ : Type} {formats : Formats κ α ρ} {minLiveIntervalMs : ℤ} {reader : Reader κ ρ}

/-- A call for grok-cli that joins the operation of another provider. -/
def joinsOther (reader : Reader κ ρ) : Event κ α → Bool
  | .get provider _ => provider = grokCliProvider ∧
      (reader.inflight.bind (reader.operations[·]?)).any fun operation => operation.provider ≠ grokCliProvider
  | _ => false

/-- A call that waits has the operation of its own provider, or asks for another than grok-cli. -/
structure Waits (reader : Reader κ ρ) (call : Call ρ) (i : ℕ) : Prop where
  valid : Valid call.requested
  operation : ∃ operation, reader.operations[i]? = some operation ∧
    (call.own = true ∨ call.requested = grokCliProvider → operation.provider = call.requested)

/-- What every run keeps, as long as no call for grok-cli joins the operation of another provider. -/
structure Inv (reader : Reader κ ρ) : Prop where
  remembered : Remembered reader.memo
  sound : ∀ operation ∈ reader.operations, operation.stage.Sound operation.provider
  inflight : ∀ i, reader.inflight = some i → i < reader.operations.length
  waits : ∀ call ∈ reader.calls, ∀ i, call.operation = some i → Waits reader call i
  answered : ∀ call ∈ reader.calls, Valid call.requested → ∀ record, call.answer = some record → Answers record call.requested

theorem inv_initial : Inv (Reader.initial : Reader κ ρ) := by
  constructor
  · rintro kept ⟨⟩
  · rintro operation ⟨⟩
  · rintro i ⟨⟩
  · rintro call ⟨⟩
  · rintro call ⟨⟩

variable {next : Reader κ ρ}

/-- Operations keep their places and their providers. -/
def Kept (reader next : Reader κ ρ) : Prop :=
  ∀ (i : ℕ) (operation : Operation κ ρ), reader.operations[i]? = some operation →
    ∃ other : Operation κ ρ, next.operations[i]? = some other ∧ other.provider = operation.provider

theorem Waits.of_kept {call : Call ρ} {i : ℕ} (waits : Waits reader call i) (kept : Kept reader next) : Waits next call i := by
  obtain ⟨operation, found, same⟩ := waits.operation
  obtain ⟨other, there, provider⟩ := kept i operation found
  exact ⟨waits.valid, other, there, fun asks => provider.trans (same asks)⟩

theorem kept_set {i : ℕ} {operation : Operation κ ρ} (found : reader.operations[i]? = some operation) {stage : Stage κ ρ}
    (changed : next.operations = reader.operations.set i ⟨operation.provider, stage⟩) : Kept reader next := by
  intro j other there
  rw [changed]
  by_cases here : i = j
  · subst here
    obtain rfl := Option.some.inj (found.symm.trans there)
    exact ⟨_, List.getElem?_set_self (List.getElem?_eq_some_iff.mp found).1, rfl⟩
  · exact ⟨other, (List.getElem?_set_ne here).trans there, rfl⟩

theorem sound_set (inv : Inv reader) {i : ℕ} {operation : Operation κ ρ} {stage : Stage κ ρ} (sound : stage.Sound operation.provider) :
    ∀ other ∈ reader.operations.set i ⟨operation.provider, stage⟩, other.stage.Sound other.provider := by
  intro other member
  rcases List.mem_or_eq_of_mem_set member with before | rfl
  · exact inv.sound other before
  · exact sound

theorem inv_get (inv : Inv reader) {provider : JsString} {look : Look κ}
    (alone : joinsOther reader (.get provider look : Event κ α) = false) : Inv (get formats minLiveIntervalMs reader provider look) := by
  unfold get
  split
  · next refused =>
    refine ⟨inv.remembered, inv.sound, inv.inflight, fun call member => ?_, fun call member => ?_⟩
    · rcases List.mem_append.mp member with before | last
      · exact fun i waiting => (inv.waits call before i waiting).of_kept fun j operation there => ⟨operation, there, rfl⟩
      · rw [List.mem_singleton.mp last]
        rintro i ⟨⟩
    · rcases List.mem_append.mp member with before | last
      · exact inv.answered call before
      · rw [List.mem_singleton.mp last]
        exact fun valid => absurd (refused.symm.trans valid) (by intro same; cases same)
  · next requested accepted =>
    have valid := valid_of_boundedText accepted
    split
    · next i flying =>
      refine ⟨inv.remembered, inv.sound, inv.inflight, fun call member => ?_, fun call member => ?_⟩
      · rcases List.mem_append.mp member with before | last
        · exact fun j waiting => (inv.waits call before j waiting).of_kept fun k operation there => ⟨operation, there, rfl⟩
        · rw [List.mem_singleton.mp last]
          rintro _ ⟨⟩
          have there := List.getElem?_eq_getElem (inv.inflight i flying)
          refine ⟨valid, _, there, ?_⟩
          rintro (⟨⟨⟩⟩ | asks)
          have same : requested = provider := boundedText_eq accepted
          by_contra other
          refine absurd alone ((Bool.not_eq_false _).mpr ?_)
          simp only [joinsOther, flying, Option.bind_some, there, Option.any_some, decide_eq_true_eq]
          exact ⟨same.symm.trans asks, fun grok => other (grok.trans asks.symm)⟩
      · rcases List.mem_append.mp member with before | last
        · exact inv.answered call before
        · rw [List.mem_singleton.mp last]
          rintro - record ⟨⟩
    · next idle =>
      obtain ⟨sound, remembered⟩ := refresh_sound valid inv.remembered look
      refine ⟨remembered, fun operation member => ?_, ?_, fun call member => ?_, fun call member => ?_⟩
      · rcases List.mem_append.mp member with before | last
        · exact inv.sound operation before
        · rw [List.mem_singleton.mp last]
          exact sound
      · rintro _ ⟨⟩
        rw [List.length_append, List.length_singleton]
        omega
      · rcases List.mem_append.mp member with before | last
        · intro i waiting
          refine (inv.waits call before i waiting).of_kept fun j operation there => ⟨operation, ?_, rfl⟩
          exact (List.getElem?_append_left (List.getElem?_eq_some_iff.mp there).1).trans there
        · rw [List.mem_singleton.mp last]
          rintro _ ⟨⟩
          exact ⟨valid, _, List.getElem?_concat_length, fun _ => rfl⟩
      · rcases List.mem_append.mp member with before | last
        · exact inv.answered call before
        · rw [List.mem_singleton.mp last]
          rintro - record ⟨⟩

theorem answers_result {call : Call ρ} {i : ℕ} (waits : Waits reader call i) {provider : JsString} {value : Option (Record ρ)}
    (found : reader.operations[i]? = some ⟨provider, .cleared value⟩)
    (sound : Stage.Sound provider (.cleared value : Stage κ ρ)) : Answers (call.result formats value) call.requested := by
  obtain ⟨operation, there, same⟩ := waits.operation
  obtain rfl := Option.some.inj (found.symm.trans there)
  unfold Call.result
  cases value with
  | none => exact answers_unavailable waits.valid none
  | some record =>
    simp only
    split
    · next asks =>
      have own : provider = call.requested := same asks
      subst own
      exact sound record rfl
    · exact answers_unavailable waits.valid none

theorem inv_step (inv : Inv reader) {event : Event κ α} (alone : joinsOther reader event = false) :
    Inv (step formats minLiveIntervalMs reader event) := by
  cases event with
  | get provider look => exact inv_get inv alone
  | answer i weekly =>
    unfold step
    simp only
    split
    · next operation found =>
      obtain ⟨sound, remembered⟩ := finishLive_sound
        (inv.sound operation (List.mem_of_getElem? found)) inv.remembered weekly
      refine ⟨remembered, sound_set inv sound, fun j flying => ?_, fun call member j waiting => ?_, inv.answered⟩
      · rw [List.length_set]
        exact inv.inflight j flying
      · exact (inv.waits call member j waiting).of_kept (kept_set found rfl)
    · exact inv
  | clear i =>
    unfold step
    simp only
    split
    · next provider value found =>
      refine ⟨inv.remembered, @sound_set _ _ _ inv _ ⟨provider, .settled value⟩ _ (inv.sound _ (List.mem_of_getElem? found)),
        fun j flying => ?_, fun call member j waiting => ?_, inv.answered⟩
      · rw [List.length_set]
        refine inv.inflight j ?_
        simp only at flying
        split at flying
        · cases flying
        · exact flying
      · exact (inv.waits call member j waiting).of_kept (kept_set found rfl)
    · exact inv
  | resume j =>
    unfold step
    simp only
    split
    · next call there =>
      split
      · next provider value found =>
        split
        · obtain ⟨i, waiting, found⟩ := Option.bind_eq_some_iff.mp found
          have waits := inv.waits call (List.mem_of_getElem? there) i waiting
          refine ⟨inv.remembered, inv.sound, inv.inflight, fun other member k waiting => ?_, fun other member => ?_⟩
          · rcases List.mem_or_eq_of_mem_set member with before | rfl
            · exact (inv.waits other before k waiting).of_kept fun l operation here => ⟨operation, here, rfl⟩
            · have before := inv.waits call (List.mem_of_getElem? there) k waiting
              exact ⟨before.valid, before.operation⟩
          · rcases List.mem_or_eq_of_mem_set member with before | rfl
            · exact inv.answered other before
            · rintro - _ ⟨⟩
              exact answers_result waits found (inv.sound _ (List.mem_of_getElem? found))
        · exact inv
      · exact inv
    · exact inv

/-- No call of a run joins the operation of another provider while it asks for grok-cli. -/
def aloneFrom (formats : Formats κ α ρ) (minLiveIntervalMs : ℤ) (reader : Reader κ ρ) : List (Event κ α) → Bool
  | [] => true
  | event :: events =>
    !joinsOther reader event && aloneFrom formats minLiveIntervalMs (step formats minLiveIntervalMs reader event) events

theorem inv_run (events : List (Event κ α)) (inv : Inv reader) (alone : aloneFrom formats minLiveIntervalMs reader events = true) :
    Inv (events.foldl (step formats minLiveIntervalMs) reader) := by
  induction events generalizing reader with
  | nil => exact inv
  | cons event events ih =>
    obtain ⟨here, rest⟩ := Bool.and_eq_true_iff.mp alone
    exact ih (inv_step inv ((Bool.not_eq_true' _).mp here)) rest

/-- Each call of such a run is told about the provider that it asked for, and only grok-cli is ready. -/
theorem run_answers (formats : Formats κ α ρ) (minLiveIntervalMs : ℤ) (events : List (Event κ α))
    (alone : aloneFrom formats minLiveIntervalMs .initial events = true) :
    ∀ call ∈ (run formats minLiveIntervalMs events).calls, Valid call.requested → ∀ record, call.answer = some record →
      record.provider = call.requested ∧ (record.status = .ready → call.requested = grokCliProvider) := by
  intro call member valid record answer
  have answers := (inv_run events inv_initial alone).answered call member valid record answer
  exact ⟨answers.own, answers.ready⟩

def sample : Formats Unit Unit Unit := ⟨fun _ _ _ => none, some, fun _ => true, fun _ => 0⟩

def sampleLook : Look Unit := ⟨some 0, none, none, some (js "account-1")⟩

/-- Two calls for grok-cli share an operation, which another call joins. -/
def sampleShared : List (Event Unit Unit) :=
  [.get grokCliProvider sampleLook, .get grokCliProvider sampleLook, .get (js "openai-codex") sampleLook, .answer 0 (some ()), .clear 0,
    .resume 1, .resume 2]

theorem run_answers_shared :
    aloneFrom sample 60000 .initial sampleShared = true ∧ ∀ call ∈ (run sample 60000 sampleShared).calls, Valid call.requested → ∀ record, call.answer = some record →
      record.provider = call.requested ∧ (record.status = .ready → call.requested = grokCliProvider) :=
  ⟨by decide +kernel, run_answers sample 60000 sampleShared (by decide +kernel)⟩

/-- A call for grok-cli comes while the operation of another provider is in flight. -/
def sampleJoined : List (Event Unit Unit) :=
  [.get (js "openai-codex") sampleLook, .get grokCliProvider sampleLook, .clear 0, .resume 1]

/-- It is told about the other provider. -/
theorem run_joined :
    ¬∀ call ∈ (run sample 60000 sampleJoined).calls, Valid call.requested → ∀ record, call.answer = some record →
      record.provider = call.requested ∧ (record.status = .ready → call.requested = grokCliProvider) := by
  intro all
  have told := all ⟨grokCliProvider, some 0, false, some ⟨js "openai-codex", none, .unsupported, none⟩⟩
    (List.mem_of_getElem? (i := 1) (by rfl)) valid_grokCliProvider _ rfl
  exact absurd told.1 (by decide)

end Runs

end PersistentHarness.GrokUsage
