import Mathlib.Algebra.Order.Ring.Rat
import PersistentHarness.Data.Value
import PersistentHarness.Lib.Checked

/-! # Retry decisions for a failed inference attempt

`evaluateInferenceRetry` reads one observation record, trusts none of its fields, and returns a decision with the record
that stores it. An own field that is missing, is an accessor or lies on no object reads as `undefined`. The base delay is the
exact rational of a double; the two classifiers are the caller's.
-/

namespace PersistentHarness.InferenceRetry

def maxTimerDelayMs : ℚ := 2147483647

def unknownTransportErrors : List String :=
  ["websocket_closed", "websocket_transport_error", "provider_timeout", "provider_response_not_successful",
    "provider_stream_incomplete"]

/-! ## Field readers -/

def boolean : Value → Option Bool
  | .bool b => some b
  | _ => none

def count (input : Value) : Option ℕ := input.safeNat?

def ordinal (input : Value) : Option ℕ := (count input).filter (0 < ·)

/-- `[\u0000-\u0020\u007f]` -/
def isControl (u : UInt16) : Bool := u ≤ 0x20 || u == 0x7F

def id (input : Value) : Option JsString :=
  input.nonempty?.filter fun s => s.length ≤ 1024 ∧ s.all (fun u => !isControl u) = true

/-! ## Transport reports -/

inductive Outcome where
  | not_sent
  | rejected
  | unknown
  | failed
  | completed
  | unproven
deriving DecidableEq, Repr

/-- `OUTCOMES.has(outcome) ? outcome : "unproven"`. -/
def outcome (input : Value) : Outcome :=
  if input = .text "not_sent" then .not_sent
  else if input = .text "rejected" then .rejected
  else if input = .text "unknown" then .unknown
  else if input = .text "failed" then .failed
  else if input = .text "completed" then .completed
  else .unproven

inductive Transport where
  | sse
  | websocket
deriving DecidableEq, Repr

def transport (input : Value) : Option Transport :=
  if input = .text "sse" then some .sse else if input = .text "websocket" then some .websocket else none

structure ObservedCall where
  itemId : Option JsString
  callId : Option JsString
  complete : Option Bool
  native : Option Bool
deriving DecidableEq, Repr

def projectCall (call : Value) : ObservedCall where
  itemId := id (call.get (js "itemId"))
  callId := id (call.get (js "callId"))
  complete := boolean (call.get (js "complete"))
  native := boolean (call.get (js "native"))

def ObservedCall.valid (call : ObservedCall) : Bool :=
  call.itemId.isSome && call.callId.isSome && call.complete.isSome && call.native.isSome
    && !(call.native == some true && call.complete != some true)

/-- The fields of a transport report that are kept. -/
structure Report where
  version : Option ℕ
  requestId : Option JsString
  attemptId : Option JsString
  transportAttemptNumber : Option ℕ
  transport : Option Transport
  outcome : Outcome
  sent : Option Bool
  created : Option Bool
  responseId : Option JsString
  providerTools : Option Bool
  retired : Option Bool
  fenced : Option Bool
  possibleUsage : Option Bool
  observedCalls : List ObservedCall
deriving DecidableEq, Repr

/-- The calls of a report, unless they are no array of bounded length. -/
def reportCalls (report : Value) : Option (List Value) :=
  match report.get (js "observedCalls") with
  | .arr calls => if calls.length ≤ 10000 then some calls else none
  | _ => none

def projectReport (report : Value) : Report where
  version := if (report.get (js "version")).isNat 1 then some 1 else none
  requestId := id (report.get (js "requestId"))
  attemptId := id (report.get (js "attemptId"))
  transportAttemptNumber := ordinal (report.get (js "attemptNumber"))
  transport := transport (report.get (js "transport"))
  outcome := outcome (report.get (js "outcome"))
  sent := boolean (report.get (js "sent"))
  created := boolean (report.get (js "created"))
  responseId := id (report.get (js "responseId"))
  providerTools := boolean (report.get (js "providerTools"))
  retired := boolean (report.get (js "retired"))
  fenced := boolean (report.get (js "fenced"))
  possibleUsage := boolean (report.get (js "possibleUsage"))
  observedCalls := ((reportCalls report).getD []).map projectCall

def validCalls (report : Value) : Bool :=
  match reportCalls report with
  | some calls => calls.all fun call => (projectCall call).valid
  | none => false

def validReport (report : Value) : Bool :=
  let projected := projectReport report
  projected.version.isSome && projected.requestId.isSome && projected.attemptId.isSome
    && projected.transportAttemptNumber.isSome && projected.transport.isSome && projected.sent.isSome
    && projected.created.isSome && projected.providerTools.isSome && projected.retired.isSome && projected.fenced.isSome
    && projected.possibleUsage.isSome && projected.outcome != .unproven && validCalls report
    && !(projected.created == some true && projected.sent != some true)
    && !(projected.outcome == .unknown && projected.sent != some true)

/-! ## Observations -/

/-- What reads as a number: an exact double, one that is not finite, or no number at all. -/
inductive PolicyNumber where
  | finite (value : ℚ)
  | nonFinite
  | noNumber
deriving DecidableEq, Repr

structure Policy where
  enabled : Value
  maxRetries : Value
  baseDelayMs : PolicyNumber

/-- What a classifier does with a failed message. -/
inductive Verdict where
  | holds
  | fails
  | throws
deriving DecidableEq, Repr

/-- The two public classifiers, as functions of the error message; an absent one is no function. -/
structure Api where
  isRetryableAssistantError : Option (JsString → Verdict)
  isContextOverflow : Option (JsString → Verdict)

structure Input where
  api : Api
  transportReport : Value
  policy : Option Policy
  error : Value
  requestId : Value
  attemptId : Value
  attemptNumber : Value
  snapshotVersion : Value
  admittedCount : Value
  dispatchedCount : Value
  providerTools : Value
  aborted : Value
  retired : Value
  fenced : Value

structure Observations where
  admittedCount : Option ℕ
  dispatchedCount : Option ℕ
  providerTools : Option Bool
  aborted : Option Bool
  retired : Option Bool
  fenced : Option Bool
deriving DecidableEq, Repr

def observations (input : Input) : Observations where
  admittedCount := count input.admittedCount
  dispatchedCount := count input.dispatchedCount
  providerTools := boolean input.providerTools
  aborted := boolean input.aborted
  retired := boolean input.retired
  fenced := boolean input.fenced

/-- `Object.values(observations).some(field => field === null)` -/
def Observations.proven (o : Observations) : Bool :=
  o.admittedCount.isSome && o.dispatchedCount.isSome && o.providerTools.isSome && o.aborted.isSome && o.retired.isSome
    && o.fenced.isSome

/-! ## Decisions -/

inductive Classification where
  | invalid_snapshot
  | aborted
  | unproven_observations
  | local_admissions
  | local_effects
  | provider_tools
  | unfenced_attempt
  | invalid_transport_report
  | identity_mismatch
  | adapter_owned_retry
  | completed_attempt
  | policy_disabled
  | invalid_policy
  | retry_budget_exhausted
  | unsafe_timer_delay
  | not_error
  | unproven_error
  | missing_public_retry_api
  | context_overflow
  | unknown_condition_not_proven
  | retry_unknown
  | not_retryable
  | retry_transient
  | classifier_failed
deriving DecidableEq, Repr

structure Decision where
  retry : Bool
  delayMs : ℚ
deriving DecidableEq

inductive PriorAttempt where
  | reported (report : Report) (possibleProcessing possibleUsage : Bool)
  | unreported (requestId attemptId : Option JsString)
deriving DecidableEq, Repr

def priorAttempt (input : Input) : PriorAttempt :=
  if input.transportReport = .undefined then .unreported (id input.requestId) (id input.attemptId)
  else
    let report := projectReport input.transportReport
    .reported report (report.outcome == .unknown || report.sent != some false)
      (if report.outcome = .unknown then true else report.possibleUsage.getD true)

/-- The stored `inference_retry_decision`. -/
structure Record where
  requestId : Option JsString
  attemptId : Option JsString
  attemptNumber : Option ℕ
  snapshotVersion : Option ℕ
  classification : Classification
  decision : Decision
  observations : Observations
  priorAttempt : PriorAttempt
deriving DecidableEq

structure Result where
  retry : Bool
  delayMs : ℚ
  classification : Classification
  record : Record

def finish (input : Input) (classification : Classification) (retry : Bool) (delayMs : ℚ) : Result where
  retry
  delayMs
  classification
  record :=
    { requestId := id input.requestId, attemptId := id input.attemptId, attemptNumber := ordinal input.attemptNumber
      snapshotVersion := count input.snapshotVersion, classification, decision := ⟨retry, delayMs⟩
      observations := observations input, priorAttempt := priorAttempt input }

def checkReport (input : Input) : Except Classification Unit := do
  let report := projectReport input.transportReport
  Checked.require (validReport input.transportReport = true) .invalid_transport_report
  Checked.require (report.requestId = id input.requestId ∧ report.attemptId = id input.attemptId) .identity_mismatch
  Checked.require (report.providerTools ≠ some true) .provider_tools
  Checked.require (report.retired = some true ∧ report.fenced = some true) .unfenced_attempt
  Checked.require (report.outcome ≠ .not_sent ∧ report.outcome ≠ .rejected) .adapter_owned_retry
  Checked.require (report.outcome ≠ .completed) .completed_attempt

def checkAttempt (input : Input) : Except Classification Unit := do
  let observed := observations input
  Checked.require ((id input.requestId).isSome = true ∧ (id input.attemptId).isSome = true
    ∧ (ordinal input.attemptNumber).isSome = true ∧ (count input.snapshotVersion).isSome = true) .invalid_snapshot
  Checked.require (observed.aborted ≠ some true ∧ input.error.get (js "stopReason") ≠ .text "aborted") .aborted
  Checked.require (observed.proven = true) .unproven_observations
  Checked.require (observed.admittedCount = some 0) .local_admissions
  Checked.require (observed.dispatchedCount = some 0) .local_effects
  Checked.require (observed.providerTools ≠ some true) .provider_tools
  Checked.require (observed.retired = some true ∧ observed.fenced = some true) .unfenced_attempt
  if input.transportReport = .undefined then pure () else checkReport input

/-- `baseDelayMs * 2 ** (attemptNumber - 1)` in doubles. From 2 ** 1024 on the power is infinite and the product is not
finite; below that a product that fits a timer is exact. -/
def timerDelay (baseDelayMs : ℚ) (attemptNumber : ℕ) : Option ℚ :=
  if attemptNumber - 1 < 1024 then some (baseDelayMs * 2 ^ (attemptNumber - 1)) else none

/-- The delay that the policy allows before the next attempt. -/
def checkPolicy (input : Input) : Except Classification ℚ :=
  let attemptNumber := (ordinal input.attemptNumber).getD 0
  match input.policy with
  | none => .error .policy_disabled
  | some policy =>
    match boolean policy.enabled, count policy.maxRetries, policy.baseDelayMs with
    | some enabled, some maxRetries, .finite baseDelayMs => do
      Checked.require (0 ≤ baseDelayMs) .invalid_policy
      Checked.require (enabled = true) .policy_disabled
      Checked.require (attemptNumber ≤ maxRetries) .retry_budget_exhausted
      match timerDelay baseDelayMs attemptNumber with
      | none => .error .unsafe_timer_delay
      | some delayMs =>
        Checked.require (delayMs ≤ maxTimerDelayMs ∧ attemptNumber + 1 ≤ 9007199254740991) .unsafe_timer_delay
        pure delayMs
    | _, _, _ => .error .invalid_policy

/-- The classification of the error that allows a retry. -/
def checkError (input : Input) : Except Classification Classification := do
  let errorMessage := input.error.get (js "errorMessage")
  Checked.require (input.error.get (js "stopReason") = .text "error") .not_error
  Checked.require (errorMessage.nonempty?.isSome = true ∧ errorMessage.units.length ≤ 65536) .unproven_error
  match input.api.isRetryableAssistantError, input.api.isContextOverflow with
  | some isRetryableAssistantError, some isContextOverflow =>
    match isContextOverflow errorMessage.units with
    | .holds => .error .context_overflow
    | .throws => .error .classifier_failed
    | .fails =>
      if input.transportReport ≠ .undefined ∧ (projectReport input.transportReport).outcome = .unknown then do
        Checked.require (errorMessage.units ∈ unknownTransportErrors.map js) .unknown_condition_not_proven
        pure .retry_unknown
      else
        match isRetryableAssistantError errorMessage.units with
        | .holds => pure .retry_transient
        | .fails => .error .not_retryable
        | .throws => .error .classifier_failed
  | _, _ => .error .missing_public_retry_api

/-- The classification and the delay of an allowed retry. -/
def allowed (input : Input) : Except Classification (Classification × ℚ) := do
  checkAttempt input
  let delayMs ← checkPolicy input
  let classification ← checkError input
  pure (classification, delayMs)

def evaluateInferenceRetry (input : Input) : Result :=
  match allowed input with
  | .ok (classification, delayMs) => finish input classification true delayMs
  | .error classification => finish input classification false 0

end PersistentHarness.InferenceRetry
