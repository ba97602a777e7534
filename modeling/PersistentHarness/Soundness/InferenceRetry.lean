import PersistentHarness.Model.InferenceRetry

/-! # What an allowed retry has shown

A retry is allowed only by an observation record in which every guard is proven: no call was admitted or dispatched, the
attempt is over and cannot act any more, and a transport report, if there is one, is well formed and is of this attempt.
-/

namespace PersistentHarness.InferenceRetry

variable {input : Input} {report : Value} {delayMs : ℚ}

theorem boolean_eq_some {v : Value} {b : Bool} : boolean v = some b ↔ v = .bool b := by
  cases v <;> simp [boolean]

/-- A report with all its fields, of a supported version and transport, whose outcome agrees with what was sent. -/
structure WellFormed (report : Value) : Prop where
  version : (report.get (js "version")).isNat 1
  requestId : (id (report.get (js "requestId"))).isSome = true
  attemptId : (id (report.get (js "attemptId"))).isSome = true
  attemptNumber : (ordinal (report.get (js "attemptNumber"))).isSome = true
  transport : (transport (report.get (js "transport"))).isSome = true
  outcome : outcome (report.get (js "outcome")) ≠ .unproven
  flags : ∀ key ∈ ["sent", "created", "providerTools", "retired", "fenced", "possibleUsage"],
    ∃ b, report.get (js key) = .bool b
  calls : ∃ calls, report.get (js "observedCalls") = .arr calls ∧ calls.length ≤ 10000
    ∧ ∀ call ∈ calls, (projectCall call).valid = true
  created : report.get (js "created") = .bool true → report.get (js "sent") = .bool true
  unknown : InferenceRetry.outcome (report.get (js "outcome")) = .unknown → report.get (js "sent") = .bool true

theorem reportCalls_eq_some {calls : List Value} (found : reportCalls report = some calls) :
    report.get (js "observedCalls") = .arr calls ∧ calls.length ≤ 10000 := by
  unfold reportCalls at found
  split at found
  · next items same =>
    split at found
    · next short =>
      cases found
      exact ⟨same, short⟩
    · cases found
  · cases found

theorem validCalls_spec (valid : validCalls report = true) : ∃ calls, report.get (js "observedCalls") = .arr calls
    ∧ calls.length ≤ 10000 ∧ ∀ call ∈ calls, (projectCall call).valid = true := by
  unfold validCalls at valid
  split at valid
  · next calls found =>
    obtain ⟨same, short⟩ := reportCalls_eq_some found
    exact ⟨calls, same, short, List.all_eq_true.mp valid⟩
  · cases valid

private theorem flag_of_isSome {v : Value} (some_ : (boolean v).isSome = true) : ∃ b, v = .bool b := by
  obtain ⟨b, same⟩ := Option.isSome_iff_exists.mp some_
  exact ⟨b, boolean_eq_some.mp same⟩

theorem wellFormed_of_valid (valid : validReport report = true) : WellFormed report := by
  simp only [validReport, Bool.and_eq_true, Bool.not_eq_true', bne_iff_ne, ne_eq] at valid
  obtain ⟨⟨⟨⟨⟨⟨⟨⟨⟨⟨⟨⟨⟨⟨version, requestId⟩, attemptId⟩, attemptNumber⟩, transport⟩, sent⟩, created⟩, providerTools⟩, retired⟩,
    fenced⟩, possibleUsage⟩, outcome⟩, calls⟩, createdSent⟩, unknownSent⟩ := valid
  constructor
  · by_contra other
    rw [projectReport, if_neg other] at version
    cases version
  · exact requestId
  · exact attemptId
  · exact attemptNumber
  · exact transport
  · exact outcome
  · intro key member
    simp only [List.mem_cons, List.not_mem_nil, or_false] at member
    rcases member with rfl | rfl | rfl | rfl | rfl | rfl
    · exact flag_of_isSome sent
    · exact flag_of_isSome created
    · exact flag_of_isSome providerTools
    · exact flag_of_isSome retired
    · exact flag_of_isSome fenced
    · exact flag_of_isSome possibleUsage
  · exact validCalls_spec calls
  · intro isCreated
    have isSome : (projectReport report).created = some true := boolean_eq_some.mpr isCreated
    rw [isSome] at createdSent
    have sent : (projectReport report).sent = some true := by simpa using createdSent
    exact boolean_eq_some.mp sent
  · intro isUnknown
    have same : (projectReport report).outcome = .unknown := isUnknown
    rw [same] at unknownSent
    have sent : (projectReport report).sent = some true := by simpa using unknownSent
    exact boolean_eq_some.mp sent

/-- A report of this attempt that does not exclude another one. -/
structure ReportAllows (input : Input) (report : Value) : Prop where
  wellFormed : WellFormed report
  request : id (report.get (js "requestId")) = id input.requestId
  attempt : id (report.get (js "attemptId")) = id input.attemptId
  outcome : outcome (report.get (js "outcome")) = .unknown ∨ InferenceRetry.outcome (report.get (js "outcome")) = .failed
  providerTools : report.get (js "providerTools") = .bool false
  retired : report.get (js "retired") = .bool true
  fenced : report.get (js "fenced") = .bool true

theorem reportAllows_of_check (checked : checkReport input = .ok ()) : ReportAllows input input.transportReport := by
  simp only [checkReport, Checked.bind_eq_ok, Checked.require_eq_ok, exists_const] at checked
  obtain ⟨valid, ⟨request, attempt⟩, noTools, ⟨retired, fenced⟩, ⟨notSent, notRejected⟩, notCompleted⟩ := checked
  have wellFormed := wellFormed_of_valid valid
  have known : (projectReport input.transportReport).outcome ≠ .unproven := wellFormed.outcome
  refine ⟨wellFormed, request, attempt, ?_, ?_, boolean_eq_some.mp retired, boolean_eq_some.mp fenced⟩
  · change (projectReport input.transportReport).outcome = .unknown ∨ (projectReport input.transportReport).outcome = .failed
    cases outcome : (projectReport input.transportReport).outcome with
    | not_sent => exact absurd outcome notSent
    | rejected => exact absurd outcome notRejected
    | unknown => exact .inl rfl
    | failed => exact .inr rfl
    | completed => exact absurd outcome notCompleted
    | unproven => exact absurd outcome known
  · obtain ⟨b, same⟩ := wellFormed.flags "providerTools" (by simp)
    cases b with
    | false => exact same
    | true => exact absurd (boolean_eq_some.mpr same) noTools

/-- What the attempt and its observations show. -/
structure AttemptAllows (input : Input) : Prop where
  admitted : count input.admittedCount = some 0
  dispatched : count input.dispatchedCount = some 0
  providerTools : input.providerTools = .bool false
  retired : input.retired = .bool true
  fenced : input.fenced = .bool true
  aborted : input.aborted = .bool false
  stopReason : input.error.get (js "stopReason") ≠ .text "aborted"
  report : input.transportReport ≠ .undefined → ReportAllows input input.transportReport

private theorem false_of_proven {v : Value} (proven : (boolean v).isSome = true) (other : boolean v ≠ some true) :
    v = .bool false := by
  obtain ⟨b, rfl⟩ := flag_of_isSome proven
  cases b with
  | false => rfl
  | true => exact absurd rfl other

theorem attemptAllows_of_check (checked : checkAttempt input = .ok ()) :
    AttemptAllows input ∧ (ordinal input.attemptNumber).isSome = true := by
  simp only [checkAttempt, Checked.bind_eq_ok, Checked.require_eq_ok, exists_const] at checked
  obtain ⟨⟨_, _, attemptNumber, _⟩, ⟨notAborted, stopReason⟩, proven, admitted, dispatched, noTools, ⟨retired, fenced⟩,
    report⟩ := checked
  simp only [Observations.proven, Bool.and_eq_true] at proven
  obtain ⟨⟨⟨⟨⟨_, _⟩, tools⟩, aborted⟩, _⟩, _⟩ := proven
  refine ⟨⟨admitted, dispatched, false_of_proven tools noTools, boolean_eq_some.mp retired, boolean_eq_some.mp fenced,
    false_of_proven aborted notAborted, stopReason, fun reported => ?_⟩, attemptNumber⟩
  rw [if_neg reported] at report
  exact reportAllows_of_check report

/-- An attempt within the budget of an enabled policy, and the delay that the policy gives it. -/
structure BudgetAllows (input : Input) (attemptNumber : ℕ) (delayMs : ℚ) : Prop where
  attempt : ordinal input.attemptNumber = some attemptNumber
  policy : ∃ policy maxRetries baseDelayMs, input.policy = some policy ∧ policy.enabled = .bool true
    ∧ count policy.maxRetries = some maxRetries ∧ attemptNumber ≤ maxRetries ∧ policy.baseDelayMs = .finite baseDelayMs
    ∧ 0 ≤ baseDelayMs ∧ delayMs = baseDelayMs * 2 ^ (attemptNumber - 1)
  timer : delayMs ≤ 2147483647

theorem budgetAllows_of_check {attemptNumber : ℕ} (given : ordinal input.attemptNumber = some attemptNumber)
    (checked : checkPolicy input = .ok delayMs) : BudgetAllows input attemptNumber delayMs := by
  simp only [checkPolicy, given, Option.getD_some] at checked
  split at checked
  · cases checked
  · next policy known =>
    split at checked
    · next enabled maxRetries baseDelayMs isEnabled isMax isBase =>
      simp only [Checked.bind_eq_ok, Checked.require_eq_ok, exists_const] at checked
      obtain ⟨positive, rfl, budget, checked⟩ := checked
      split at checked
      · cases checked
      · next delay computed =>
        simp only [Checked.bind_eq_ok, Checked.require_eq_ok, exists_const, Checked.pure_eq_ok] at checked
        obtain ⟨⟨timer, _⟩, rfl⟩ := checked
        unfold timerDelay at computed
        split at computed
        · cases computed
          exact ⟨given, ⟨policy, maxRetries, baseDelayMs, known, boolean_eq_some.mp isEnabled, isMax, budget, isBase, positive,
            rfl⟩, timer⟩
        · cases computed
    · cases checked

/-- A retry is allowed only when the attempt, its report and the budget allow it; the stored decision is the returned one. -/
theorem evaluateInferenceRetry_sound (input : Input) :
    ((evaluateInferenceRetry input).retry = true → AttemptAllows input
      ∧ ∃ attemptNumber, BudgetAllows input attemptNumber (evaluateInferenceRetry input).delayMs)
    ∧ (evaluateInferenceRetry input).record.decision =
      ⟨(evaluateInferenceRetry input).retry, (evaluateInferenceRetry input).delayMs⟩ := by
  unfold evaluateInferenceRetry
  split
  · next classification delayMs success =>
    refine ⟨fun _ => ?_, rfl⟩
    simp only [allowed, Checked.bind_eq_ok, Checked.pure_eq_ok, Prod.mk.injEq] at success
    obtain ⟨_, attempt, delay, budget, _, _, _, rfl⟩ := success
    obtain ⟨allows, isSome⟩ := attemptAllows_of_check attempt
    obtain ⟨attemptNumber, given⟩ := Option.isSome_iff_exists.mp isSome
    exact ⟨allows, attemptNumber, budgetAllows_of_check given budget⟩
  · refine ⟨?_, rfl⟩
    rintro ⟨⟩

/-- A second attempt whose transport was lost: it may be retried after twice the base delay. -/
def lostTransport : Input where
  api := ⟨some fun _ => .holds, some fun _ => .fails⟩
  transportReport := .record [("version", .num (.ofNat 1)), ("requestId", .text "r"), ("attemptId", .text "a"),
    ("attemptNumber", .num (.ofNat 1)), ("transport", .text "sse"), ("outcome", .text "unknown"), ("sent", .bool true),
    ("created", .bool true), ("responseId", .null), ("providerTools", .bool false), ("retired", .bool true),
    ("fenced", .bool true), ("possibleUsage", .bool true), ("observedCalls", .arr [])]
  policy := some ⟨.bool true, .num (.ofNat 3), .finite 1000⟩
  error := .record [("stopReason", .text "error"), ("errorMessage", .text "provider_timeout")]
  requestId := .text "r"
  attemptId := .text "a"
  attemptNumber := .num (.ofNat 2)
  snapshotVersion := .num (.ofNat 0)
  admittedCount := .num (.ofNat 0)
  dispatchedCount := .num (.ofNat 0)
  providerTools := .bool false
  aborted := .bool false
  retired := .bool true
  fenced := .bool true

theorem evaluateInferenceRetry_sample :
    AttemptAllows lostTransport ∧ (evaluateInferenceRetry lostTransport).delayMs = 2000 := by
  have allows : (evaluateInferenceRetry lostTransport).retry = true := by decide +kernel
  exact ⟨((evaluateInferenceRetry_sound lostTransport).1 allows).1, by decide +kernel⟩

end PersistentHarness.InferenceRetry
