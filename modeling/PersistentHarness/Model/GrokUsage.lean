import Mathlib.Data.Int.Notation
import PersistentHarness.Data.JsString

/-! # The remaining usage of grok-cli

A reader answers with the usage that remains for a provider. Callers share one operation in flight: a call that finds one waits
for it. What the files and the service give is read off once for each operation; percentages and dates are parameters.
-/

namespace PersistentHarness.GrokUsage

section Records

def grokCliProvider : JsString := js "grok-cli"

inductive Status where
  | ready
  | unavailable
  | unsupported
deriving DecidableEq

/-- The answer about a provider; `ρ` is what remains of an allowance. -/
structure Record (ρ : Type) where
  provider : JsString
  model : Option JsString
  status : Status
  remaining : Option ρ
deriving DecidableEq

def isAlphanumeric (c : UInt16) : Bool := 0x30 ≤ c ∧ c ≤ 0x39 ∨ 0x41 ≤ c ∧ c ≤ 0x5A ∨ 0x61 ≤ c ∧ c ≤ 0x7A

def isProviderId : JsString → Bool
  | [] => false
  | c :: rest => isAlphanumeric c ∧ rest.length ≤ 127 ∧ rest.all fun c => isAlphanumeric c ∨ c = 0x2E ∨ c = 0x5F ∨ c = 0x2D

def isControl (c : UInt16) : Bool := c ≤ 0x1F ∨ 0x7F ≤ c ∧ c ≤ 0x9F

def boundedText (value : JsString) (max : ℕ) : Option JsString :=
  if value ≠ [] ∧ value.length ≤ max ∧ value.any isControl = false ∧ isProviderId value = true then some value else none

/-- What the reader takes from outside: `κ` is the content of the cache, `α` an allowance with its tier and its time. -/
structure Formats (κ α ρ : Type) where
  /-- The allowance of an account that the cache has, seen at a time. -/
  cached : κ → JsString → ℤ → Option α
  /-- What is shown of an allowance, where its percentages and its dates can be read. -/
  remaining : α → Option ρ
  fresh : ρ → Bool
  /-- `new Date(remaining.updatedAt).getTime()`. -/
  updatedAt : ρ → ℤ

variable {κ α ρ : Type} (formats : Formats κ α ρ)

def projectGrokCliRemaining (provider : JsString) (model : Option JsString) (status : Status) (weekly : Option α) : Record ρ :=
  match boundedText provider 128 with
  | none => ⟨grokCliProvider, none, .unavailable, none⟩
  | some safeProvider =>
    let safeModel := model.bind fun model => boundedText model 256
    if status = .unsupported then ⟨safeProvider, safeModel, .unsupported, none⟩
    else
      match (if status = .ready then weekly else none).bind formats.remaining with
      | some remaining => ⟨safeProvider, safeModel, .ready, some remaining⟩
      | none => ⟨safeProvider, safeModel, .unavailable, none⟩

def unavailable (provider : JsString) (model : Option JsString) : Record ρ :=
  projectGrokCliRemaining formats provider model (if provider = grokCliProvider then .unavailable else .unsupported) none

def cachedProjection (cache : κ) (accountId : JsString) (model : Option JsString) (now : ℤ) : Option (Record ρ) :=
  (formats.cached cache accountId now).map fun weekly => projectGrokCliRemaining formats grokCliProvider model .ready (some weekly)

end Records

section Refresh

variable {κ α ρ : Type}

structure Memo (ρ : Type) where
  value : Record ρ
  liveAt : ℤ

/-- What an operation finds when it starts: the clock may throw, the cache and the credential may be missing. -/
structure Look (κ : Type) where
  observedAt : Option ℤ
  model : Option JsString
  cache : Option κ
  accountId : Option JsString

/-- An operation: it asks the service, has a value or an error, or has left the place of the operation in flight. -/
inductive Stage (κ ρ : Type) where
  | live (observedAt : ℤ) (model : Option JsString) (cache : Option κ) (accountId : JsString)
  | settled (value : Option (Record ρ))
  | cleared (value : Option (Record ρ))

variable (formats : Formats κ α ρ) (minLiveIntervalMs : ℤ)

/-- The value when the service gives none: that of the cache, where it is ready. -/
def fallback (memo : Option (Memo ρ)) (observedAt : ℤ) (model : Option JsString) (cache : Option κ) (accountId : JsString) :
    Stage κ ρ × Option (Memo ρ) :=
  match (cache.bind fun cache => cachedProjection formats cache accountId model observedAt).filter fun value =>
      value.status = .ready with
  | some value => (.settled (some value), some ⟨value, (memo.map fun memo => memo.liveAt).getD 0⟩)
  | none => (.settled (some (unavailable formats grokCliProvider model)), memo)

/-- The record of the cache, where it is fresh and within the interval. -/
def recentCached (cache : Option κ) (model : Option JsString) (observedAt : ℤ) : Option (Record ρ × ρ) := do
  let cache ← cache
  let value ← cachedProjection formats cache (js "account-1") model observedAt
  let remaining ← value.remaining
  guard (value.status = .ready ∧ formats.fresh remaining = true ∧ observedAt - formats.updatedAt remaining < minLiveIntervalMs)
  pure (value, remaining)

/-- `refresh(provider)`, up to its first `await`. -/
def refresh (memo : Option (Memo ρ)) (provider : JsString) (look : Look κ) : Stage κ ρ × Option (Memo ρ) :=
  match look.observedAt with
  | none => (.settled none, memo)
  | some observedAt =>
    if provider ≠ grokCliProvider then (.settled (some (unavailable formats provider none)), memo)
    else
      match memo.filter fun memo => memo.value.provider = grokCliProvider ∧ memo.value.status = .ready
          ∧ observedAt - memo.liveAt < minLiveIntervalMs with
      | some memo => (.settled (some memo.value), some memo)
      | none =>
        match recentCached formats minLiveIntervalMs look.cache look.model observedAt with
        | some (value, remaining) => (.settled (some value), some ⟨value, formats.updatedAt remaining⟩)
        | none =>
          match look.accountId with
          | some accountId => (.live observedAt look.model look.cache accountId, memo)
          | none => fallback formats memo observedAt look.model look.cache (js "account-1")

/-- The rest of `refresh(provider)`, once the service has answered or failed. -/
def finishLive (memo : Option (Memo ρ)) (stage : Stage κ ρ) (weekly : Option α) : Stage κ ρ × Option (Memo ρ) :=
  match stage with
  | .live observedAt model cache accountId =>
    match weekly with
    | some weekly =>
      let value := projectGrokCliRemaining formats grokCliProvider model .ready (some weekly)
      (.settled (some value), some ⟨value, observedAt⟩)
    | none => fallback formats memo observedAt model cache accountId
  | stage => (stage, memo)

end Refresh

section Reader

variable {κ α ρ : Type}

structure Operation (κ ρ : Type) where
  provider : JsString
  stage : Stage κ ρ

/-- A call of `get`; it waits for an operation, its own or one that was in flight. -/
structure Call (ρ : Type) where
  requested : JsString
  operation : Option ℕ
  own : Bool
  answer : Option (Record ρ)

structure Reader (κ ρ : Type) where
  memo : Option (Memo ρ)
  inflight : Option ℕ
  operations : List (Operation κ ρ)
  calls : List (Call ρ)

def Reader.initial : Reader κ ρ := ⟨none, none, [], []⟩

inductive Event (κ α : Type) where
  /-- A call, and what its operation would find. -/
  | get (provider : JsString) (look : Look κ)
  /-- The service answers, or fails. -/
  | answer (operation : ℕ) (weekly : Option α)
  | clear (operation : ℕ)
  /-- A call goes on behind its `await`. -/
  | resume (call : ℕ)

variable (formats : Formats κ α ρ) (minLiveIntervalMs : ℤ)

/-- `get(provider)`, up to its `await`. -/
def get (reader : Reader κ ρ) (provider : JsString) (look : Look κ) : Reader κ ρ :=
  match boundedText provider 128 with
  | none =>
    { reader with calls := reader.calls ++ [⟨provider, none, true, some (unavailable formats grokCliProvider none)⟩] }
  | some requested =>
    match reader.inflight with
    | some operation => { reader with calls := reader.calls ++ [⟨requested, some operation, false, none⟩] }
    | none =>
      let (stage, memo) := refresh formats minLiveIntervalMs reader.memo requested look
      { memo := memo
        inflight := some reader.operations.length
        operations := reader.operations ++ [⟨requested, stage⟩]
        calls := reader.calls ++ [⟨requested, some reader.operations.length, true, none⟩] }

/-- What a call makes of the operation that it has waited for. -/
def Call.result (call : Call ρ) (value : Option (Record ρ)) : Record ρ :=
  match value with
  | some value => if call.own = true ∨ call.requested = grokCliProvider then value else unavailable formats call.requested none
  | none => unavailable formats call.requested none

def step (reader : Reader κ ρ) : Event κ α → Reader κ ρ
  | .get provider look => get formats minLiveIntervalMs reader provider look
  | .answer i weekly =>
    match reader.operations[i]? with
    | some operation =>
      let (stage, memo) := finishLive formats reader.memo operation.stage weekly
      { reader with memo := memo, operations := reader.operations.set i { operation with stage := stage } }
    | none => reader
  | .clear i =>
    match reader.operations[i]? with
    | some ⟨provider, .settled value⟩ =>
      { reader with
        inflight := if reader.inflight = some i then none else reader.inflight
        operations := reader.operations.set i ⟨provider, .cleared value⟩ }
    | _ => reader
  | .resume j =>
    match reader.calls[j]? with
    | some call =>
      match call.operation.bind (reader.operations[·]?) with
      | some ⟨_, .cleared value⟩ =>
        if call.answer.isNone then
          { reader with calls := reader.calls.set j { call with answer := some (call.result formats value) } }
        else reader
      | _ => reader
    | none => reader

def run (events : List (Event κ α)) : Reader κ ρ := events.foldl (step formats minLiveIntervalMs) .initial

end Reader

end PersistentHarness.GrokUsage
