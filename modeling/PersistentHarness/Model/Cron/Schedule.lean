import PersistentHarness.Data.Text
import PersistentHarness.Lib.Checked

/-! # Schedules

Validation of schedules and the next occurrence of a stored one. Times are integers of milliseconds.
The time-zone database, `Date.parse` and the cron evaluator are not part of the repository: they are
the fields of a `Calendar`.
-/

namespace PersistentHarness.Cron

open Json (unit isDigit)

/-- The unique indexes of the two cron tables. -/
inductive UniqueIndex where
  | jobId
  | liveName
  | runId
  | occurrence
  | activeRun
deriving DecidableEq, Repr

/-- What an operation throws: a `TypeError`, another `Error`, or a constraint of the database. -/
inductive CronError where
  | typeError (message : JsString)
  | error (message : JsString)
  | column (name : String)
  | unique (index : UniqueIndex)
deriving DecidableEq, Repr

abbrev CronResult := Except CronError

/-- Throw a `TypeError` unless the condition holds. -/
abbrev requireType (ok : Prop) [Decidable ok] (message : String) : CronResult Unit :=
  Checked.require ok (.typeError (js message))

/-- The host's time zones and date parser, and the `croner` evaluator. -/
structure Calendar where
  /-- `Intl.DateTimeFormat` accepts the zone. -/
  knows : JsString → Bool
  /-- `Date.parse` of a date-time with an explicit offset. -/
  parse : JsString → Option ℤ
  /-- `new Cron(pattern, { timezone }).nextRun(new Date(after))`, or the message of its error. -/
  nextRun : JsString → JsString → ℤ → Except JsString (Option ℤ)
  /-- `new Cron(pattern, { timezone }).getOnce()`. -/
  getOnce : JsString → JsString → Except JsString (Option ℤ)

/-- The evaluator answers with occurrences after the instant it is asked about. -/
def Calendar.Forward (calendar : Calendar) : Prop :=
  ∀ pattern timezone after next, calendar.nextRun pattern timezone after = .ok (some next) → after < next

/-- A normalized schedule. Its one-shot instant is stored as an ISO text and parsed back. -/
inductive Schedule where
  | once (time : ℤ) (timezone : JsString)
  | every (intervalSeconds : ℕ) (timezone : JsString)
  | cron (expression : JsString) (timezone : JsString)
deriving DecidableEq, Repr

def Schedule.timezone : Schedule → JsString
  | .once _ timezone | .every _ timezone | .cron _ timezone => timezone

/-- `schedule.kind !== "at"`. -/
def Schedule.recurring : Schedule → Bool
  | .once .. => false
  | _ => true

def defaultCronTimezone : JsString := js "UTC"
def minCronIntervalSeconds : ℕ := 5 * 60
def maxCronIntervalSeconds : ℕ := 366 * 24 * 60 * 60

/-- What normalization returns; the next run is known and, unless past times are allowed, in the future. -/
structure Normalized where
  schedule : Schedule
  display : JsString
  nextRunAt : ℤ
deriving DecidableEq, Repr

/-- `Number.isInteger(value) && low <= value && value <= high` for bounds of natural numbers. -/
def integerIn (value : Value) (low high : ℕ) : Option ℕ :=
  value.safeNat?.filter fun n => low ≤ n ∧ n ≤ high

section Matching

def skipUnit (u : UInt16) : JsString → Option JsString
  | v :: rest => if v = u then some rest else none
  | [] => none

def skipDigits : ℕ → JsString → Option JsString
  | 0, text => some text
  | n + 1, u :: rest => if isDigit u then skipDigits n rest else none
  | _ + 1, [] => none

/-- `(?:Z|[+-]\d{2}:?\d{2})?$`: whether an offset is given. -/
def isoOffset : JsString → Option Bool
  | [] => some false
  | u :: rest =>
    if u = unit 'Z' then if rest = [] then some true else none
    else if u = unit '+' ∨ u = unit '-' then do
      let rest ← skipDigits 2 rest
      let rest := (skipUnit (unit ':') rest).getD rest
      let rest ← skipDigits 2 rest
      if rest = [] then some true else none
    else none

/-- `(?:\.\d{1,3})?` and what follows it. -/
def isoFraction : JsString → Option Bool
  | u :: rest =>
    if u = unit '.' then do
      let rest ← skipDigits 1 rest
      let rest := (skipDigits 1 rest).getD rest
      let rest := (skipDigits 1 rest).getD rest
      isoOffset rest
    else isoOffset (u :: rest)
  | [] => isoOffset []

/-- The two patterns of an ISO date-time: whether the text is one, and then whether it has an offset. -/
def isoShape (text : JsString) : Option Bool := do
  let rest ← skipDigits 4 text
  let rest ← skipUnit (unit '-') rest
  let rest ← skipDigits 2 rest
  let rest ← skipUnit (unit '-') rest
  let rest ← skipDigits 2 rest
  let rest ← skipUnit (unit 'T') rest
  let rest ← skipDigits 2 rest
  let rest ← skipUnit (unit ':') rest
  let rest ← skipDigits 2 rest
  match skipUnit (unit ':') rest with
  | some seconds => do isoFraction (← skipDigits 2 seconds)
  | none => isoOffset rest

end Matching

section Normalize

variable (calendar : Calendar)

def validateCronTimezone (value : Value) : CronResult JsString :=
  match (if value = .undefined then .str defaultCronTimezone else value) with
  | .str timezone => do
    requireType (timezone ≠ [] ∧ timezone.length ≤ 128) "timezone must be a non-empty IANA timezone"
    Checked.require (calendar.knows timezone = true) (.typeError (js "invalid IANA timezone: " ++ timezone))
    pure timezone
  | _ => .error (.typeError (js "timezone must be a non-empty IANA timezone"))

def cronDate (pattern timezone : JsString) (after : ℤ) (allowPastAt : Bool) : CronResult (Option ℤ) :=
  match if allowPastAt then calendar.getOnce pattern timezone else calendar.nextRun pattern timezone after with
  | .ok value => .ok value
  | .error message => .error (.typeError message)

def isoAt (value : Value) (timezone : JsString) (now : ℤ) (allowPastAt : Bool) : CronResult ℤ := do
  let malformed : CronError := .typeError (js "at schedule must be an ISO date-time, with an optional UTC offset")
  Checked.require (value.isString = true ∧ value.units.length ≤ 128) malformed
  let explicitOffset ← (isoShape value.units).elim (.error malformed) .ok
  let timestamp ← (if explicitOffset then .ok (calendar.parse value.units)
    else cronDate calendar value.units timezone (now - 1) allowPastAt)
  match timestamp with
  | none => .error (.typeError (js "at schedule is not a valid date-time"))
  | some time => do
    requireType (allowPastAt = true ∨ now < time) "at schedule must be in the future"
    pure time

def normalizeCronSchedule (input : Value) (now : ℤ) (defaultTimezone : Value) (allowPastAt : Bool)
    (minIntervalSeconds : ℕ) : CronResult Normalized := do
  requireType (input.isObject = true) "schedule must be an object"
  let kind := input.get (js "kind")
  let timezone ← validateCronTimezone calendar ((input.get (js "timezone")).coalesce defaultTimezone)
  if kind = Value.text "at" then
    let time ← isoAt calendar (input.get (js "at")) timezone now allowPastAt
    pure { schedule := .once time timezone, display := isoString time ++ js " (" ++ timezone ++ js ")", nextRunAt := time }
  else if kind = Value.text "every" then
    match integerIn (input.get (js "intervalSeconds")) minIntervalSeconds maxCronIntervalSeconds with
    | some intervalSeconds =>
      pure { schedule := .every intervalSeconds timezone
             display := js "every " ++ Json.decimal intervalSeconds ++ js " seconds"
             nextRunAt := now + intervalSeconds * 1000 }
    | none =>
      .error (.typeError (js "intervalSeconds must be an integer from " ++ Json.decimal minIntervalSeconds
        ++ js " through " ++ Json.decimal maxCronIntervalSeconds))
  else if kind = Value.text "cron" then
    match input.get (js "expression") with
    | .str text => do
      let expression := JsString.trim text
      requireType (text.length ≤ 256 ∧ expression.countFields = 5) "cron expression must contain exactly five fields"
      match ← cronDate calendar expression timezone now false with
      | some nextRunAt =>
        pure { schedule := .cron expression timezone, display := expression ++ js " (" ++ timezone ++ js ")", nextRunAt }
      | none => .error (.typeError (js "cron expression has no future occurrence"))
    | _ => .error (.typeError (js "cron expression must contain exactly five fields"))
  else .error (.typeError (js "schedule.kind must be at, every, or cron"))

/-- The occurrence after `scheduledAt` that is not yet due at `now`. -/
def nextCronRunAfter (schedule : Schedule) (scheduledAt now : ℤ) : CronResult (Option ℤ) :=
  match schedule with
  | .once .. => pure none
  | .every intervalSeconds _ => do
    let intervalMs := intervalSeconds * 1000
    requireType (intervalMs ≤ 9007199254740991 ∧ 0 < intervalMs) "stored interval schedule is invalid"
    let elapsed := max 0 (now - scheduledAt)
    pure (some (scheduledAt + (elapsed / (intervalMs : ℤ) + 1) * (intervalMs : ℤ)))
  | .cron expression timezone => do
    let timezone ← validateCronTimezone calendar (.str timezone)
    cronDate calendar expression timezone (max scheduledAt now) false

end Normalize

end PersistentHarness.Cron

/-! ## Launch pins and check commands

A job pins a model and a thinking level explicitly or leaves them to the live settings. A check is a
shell command that decides whether a due occurrence wakes the agent. Both are normalized before they
are stored.
-/

namespace PersistentHarness.Cron

/-- An explicit model; `source` is "explicit". -/
structure ModelPin where
  requested : JsString
  provider : JsString
  id : JsString
deriving DecidableEq, Repr

/-- An explicit thinking level. -/
structure ThinkingPin where
  requested : JsString
  resolved : JsString
deriving DecidableEq, Repr

/-- A launch policy without capabilities; an absent pin follows the settings. -/
structure Launch where
  model : Option ModelPin
  thinking : Option ThinkingPin
deriving DecidableEq, Repr

/-- `typeof value === "string" && value ? value : other`. -/
def textOr (value : Value) (other : JsString) : JsString := if value.units ≠ [] then value.units else other

def pinnedModel (model : Value) : Option ModelPin :=
  let resolved := model.get (js "resolved")
  match resolved.get (js "provider"), resolved.get (js "id") with
  | .str provider, .str id =>
    if model.get (js "source") = Value.text "explicit" ∧ provider ≠ [] ∧ id ≠ [] then
      some ⟨textOr (model.get (js "requested")) (provider ++ js "/" ++ id), provider, id⟩
    else none
  | _, _ => none

/-- The pin of a thinking level, if `isPinnedThinking`. -/
def pinnedThinking (thinking : Value) : Option ThinkingPin :=
  match thinking.get (js "resolved") with
  | .str resolved =>
    if thinking.get (js "source") = Value.text "explicit" ∧ resolved ≠ [] then
      some ⟨textOr (thinking.get (js "requested")) resolved, resolved⟩
    else none
  | _ => none

def normalizeCronLaunch (launch : Value) : Launch :=
  ⟨pinnedModel (launch.get (js "model")), pinnedThinking (launch.get (js "thinking"))⟩

def settingsPin : Value := Value.record [("requested", .null), ("resolved", .null), ("source", Value.text "settings")]

/-- The model that a request names, or the settings. -/
def modelChoice (provider model : Value) : Value :=
  if provider.truthy ∧ model.truthy then
    Value.record [("requested", .str (provider.units ++ js "/" ++ model.units)),
      ("resolved", Value.record [("provider", provider), ("id", model)]), ("source", Value.text "explicit")]
  else settingsPin

def thinkingChoice (thinkingLevel : Value) : Value :=
  if thinkingLevel.truthy then
    Value.record [("requested", thinkingLevel), ("resolved", thinkingLevel), ("source", Value.text "explicit")]
  else settingsPin

def cronLaunchFromRequest (params : Value) : Launch :=
  normalizeCronLaunch (Value.record
    [("model", modelChoice (params.get (js "provider")) (params.get (js "model"))),
      ("thinking", thinkingChoice (params.get (js "thinkingLevel")))])

/-- Apply an optional pin or clear onto a normalized policy. -/
def mergeCronLaunch (current : Launch) (patch : Value) : Launch :=
  let provider := patch.get (js "provider")
  let model := patch.get (js "model")
  let thinkingLevel := patch.get (js "thinkingLevel")
  { model := if provider ≠ .undefined ∨ model ≠ .undefined then pinnedModel (modelChoice provider model) else current.model
    thinking := if thinkingLevel ≠ .undefined then pinnedThinking (thinkingChoice thinkingLevel) else current.thinking }

/-! ## Check commands -/

def defaultCronCheckTimeoutSeconds : ℕ := 30
def maxCronCheckTimeoutSeconds : ℕ := 120
def maxCronCheckCommandBytes : ℕ := 4096
def cronCheckFailureAlertThreshold : ℕ := 3
def minCheckedIntervalSeconds : ℕ := 60

structure Check where
  command : JsString
  timeoutSeconds : ℕ
deriving DecidableEq, Repr

/-- What a finished check command reports. -/
inductive CheckResult where
  | ok (output : JsString)
  | failed (error : JsString)
deriving DecidableEq, Repr

def normalizeCronCheck (value : Value) : CronResult (Option Check) := do
  if value = .undefined ∨ value = .null then return none
  requireType (value.isObject = true) "check must be an object"
  match (Assoc.keys value.fields).find? fun key => key ≠ js "command" ∧ key ≠ js "timeoutSeconds" with
  | some key => .error (.typeError (js "check." ++ key ++ js " is not supported"))
  | none =>
    let command := value.get (js "command")
    Checked.require (command.isString = true ∧ command.units.trim ≠ [] ∧ ¬command.units.includes 0
        ∧ command.units.utf8Length ≤ maxCronCheckCommandBytes)
      (.typeError (js "check.command must be a nonblank shell command of at most "
        ++ Json.decimal maxCronCheckCommandBytes ++ js " bytes"))
    let timeoutSeconds := value.get (js "timeoutSeconds")
    match if timeoutSeconds = .undefined then some defaultCronCheckTimeoutSeconds
      else integerIn timeoutSeconds 1 maxCronCheckTimeoutSeconds with
    | some timeoutSeconds => pure (some ⟨command.units, timeoutSeconds⟩)
    | none => .error (.typeError (js "check.timeoutSeconds must be an integer from 1 through "
        ++ Json.decimal maxCronCheckTimeoutSeconds))

end PersistentHarness.Cron

/-! ## Creation requests on the wire

What the protocol accepts as the creation of a cron job, and the parameters it hands on.
-/

