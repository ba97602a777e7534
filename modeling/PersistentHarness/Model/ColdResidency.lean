import Mathlib.Algebra.Order.Ring.Int
import Mathlib.Algebra.Order.Ring.Nat
import Mathlib.Algebra.BigOperators.Group.List.Basic
import Mathlib.Data.Int.Notation
import Mathlib.Data.List.Induction
import Mathlib.Tactic.Common

/-! # Cold residency

A kernel marks its mappings cold and later pages out those that have not been referenced since. A plan is worked through
in chunks, over many steps. What the probes of a step find and what `madvise` answers is given with the step.
-/

namespace PersistentHarness.ColdResidency

def CHUNK_BYTES : ℕ := 1024 * 1024

def STEP_BYTES : ℕ := 4 * CHUNK_BYTES

def MAX_PASS_BYTES : ℤ := 1024 * 1024 * 1024

def SWAP_RESERVE : ℤ := 256 * 1024 * 1024

def PRESSURE_HEADROOM : ℤ := 2 * 1024 * 1024 * 1024

def MIN_ANON_RSS : ℤ := 64 * 1024 * 1024

section Probes

/-- `process_memory`. -/
structure Memory where
  rss : ℤ
  anonymous : ℤ
  swap : ℤ
deriving DecidableEq, Repr

/-- A private anonymous mapping that `regions` has found. -/
structure Region where
  start : ℕ
  end_ : ℕ
  rss : ℕ
  referenced : ℕ
  locked : ℕ
deriving DecidableEq, Repr

/-- What `pressure_budget` reads of a sample. `pressed` tells that `full.avg10` is a number from 0.1 to 100. -/
structure PressureSample where
  available : Option ℤ
  beforeHigh : Option ℤ
  swapFree : Option ℤ
  swapCurrent : Option ℤ
  swapMaxUnlimited : Option Bool
  swapMax : Option ℤ
  pressed : Bool
deriving DecidableEq, Repr

/-- The answer of one `madvise`, and whether the step is over time after it. -/
structure Answer where
  errno : Option ℕ
  late : Bool
deriving DecidableEq, Repr

/-- What one step finds; `none` is an exception that the step handles. -/
structure Probes where
  /-- `_start`. -/
  startPressure : Option PressureSample
  startMemory : Option Memory
  library : Bool
  startRegions : Option (List Region)
  pagePressure : Option PressureSample
  pageRegions : Option (List Region)
  stepPressure : Option PressureSample
  /-- The step's own inspection. -/
  current : Option (List Region)
  advice : ℕ → Answer
  after : Option Memory

end Probes

section State

inductive Phase where
  | none_
  | mark
  | waiting
  | pageout
  | complete
  | hot
  | small
  | unreclaimable
  | unsupported
  | unavailable
  | noSwap
  | noPressure
deriving DecidableEq, Repr

/-- A phase whose loop runs. -/
def Phase.active (phase : Phase) : Bool := phase = .mark ∨ phase = .pageout

/-- A phase that no work is left in. -/
def Phase.terminal (phase : Phase) : Bool := phase ≠ .mark ∧ phase ≠ .waiting ∧ phase ≠ .pageout

def pressureBudget (sample : PressureSample) : Option Phase × ℕ :=
  match sample.available, sample.beforeHigh, sample.swapFree, sample.swapCurrent with
  | some available, some beforeHigh, some swapFree, some swapCurrent =>
    match if sample.swapMaxUnlimited = some true then some swapFree
      else if sample.swapMaxUnlimited = some false then sample.swapMax.map fun limit => min swapFree (max 0 (limit - swapCurrent))
      else none with
    | none => (some .unavailable, 0)
    | some room =>
      if room ≤ SWAP_RESERVE then (some .noSwap, 0)
      else if PRESSURE_HEADROOM < min available beforeHigh ∧ sample.pressed = false then (some .noPressure, 0)
      else (none, (min MAX_PASS_BYTES (room - SWAP_RESERVE)).toNat)
  | _, _, _, _ => (some .unavailable, 0)

abbrev Mapping := ℕ × ℕ

def size (mapping : Mapping) : ℕ := mapping.2 - mapping.1

inductive Advice where
  | cold
  | pageout
deriving DecidableEq, Repr

/-- A call of `madvise`, for a part of a mapping. -/
structure Advised where
  advice : Advice
  mapping : Mapping
  start : ℕ
  count : ℕ
  ok : Bool
deriving DecidableEq, Repr

/-- The fields of a `ColdResidency`; besides them, the budget of each plan and the calls of `madvise` since the token was started
and in the current step. -/
structure State (Token : Type*) where
  token : Option Token
  phase : Phase
  plan : List Mapping
  markedPlan : List Mapping
  index : ℕ
  offset : ℕ
  marked : ℕ
  paged : ℕ
  before : Option Memory
  markBudget : ℕ
  pageBudget : ℕ
  advised : List Advised
  fresh : List Advised

def State.initial {Token : Type*} : State Token := ⟨none, .none_, [], [], 0, 0, 0, 0, none, 0, 0, [], []⟩

end State

section Passes

variable {Token : Type*}

/-- The mappings of a plan: each that fits into what is left of the budget. -/
def fill (budget : ℕ) : ℕ → List Mapping → List Mapping
  | _, [] => []
  | total, mapping :: rest =>
    if total + size mapping ≤ budget then mapping :: fill budget (total + size mapping) rest else fill budget total rest

def Region.mapping (region : Region) : Mapping := (region.start, region.end_)

/-- The region with these bounds, of a dictionary that keeps the last. -/
def regionAt (regions : List Region) (mapping : Mapping) : Option Region := regions.reverse.find? fun region => region.mapping = mapping

/-- `_start`; an error is the state that an exception leaves. -/
def start (token : Option Token) (probes : Probes) : Except (State Token) (State Token) :=
  let s : State Token := { (State.initial : State Token) with token }
  match probes.startPressure, probes.startMemory with
  | some sample, some memory =>
    let s := { s with before := some memory }
    match pressureBudget sample with
    | (some reason, _) => .ok { s with phase := reason }
    | (none, budget) =>
      if memory.anonymous < MIN_ANON_RSS then .ok { s with phase := .small }
      else if probes.library = false then .error s
      else
        match probes.startRegions with
        | none => .error s
        | some regions =>
          let eligible := regions.filter fun region => region.locked = 0 ∧ region.rss ≠ 0 ∧ region.start < region.end_
          let plan := fill budget 0 (eligible.map Region.mapping)
          .ok { s with plan, markBudget := budget, phase := if plan = [] then .unreclaimable else .mark }
  | _, _ => .error s

def beginPageout (s : State Token) (probes : Probes) : Except (State Token) (State Token) :=
  match probes.pagePressure with
  | none => .error s
  | some sample =>
    match pressureBudget sample with
    | (some reason, _) => .ok { s with phase := reason }
    | (none, budget) =>
      match probes.pageRegions with
      | none => .error s
      | some regions =>
        let cool := s.plan.filter fun mapping =>
          (regionAt regions mapping).any fun region => region.locked = 0 ∧ region.referenced = 0 ∧ region.rss ≠ 0
        let plan := fill budget 0 cool
        .ok { s with plan, index := 0, offset := 0, pageBudget := budget, phase := if plan = [] then .hot else .pageout }

/-- A page-out goes on only under pressure, and with room for a chunk. -/
def recheck (s : State Token) (probes : Probes) : Except (State Token) (State Token) :=
  if s.phase = .pageout then
    match probes.stepPressure with
    | none => .error s
    | some sample =>
      match pressureBudget sample with
      | (some reason, _) => .ok { s with phase := reason }
      | (none, budget) => .ok (if budget < CHUNK_BYTES then { s with phase := .noSwap } else s)
  else .ok s

structure Loop (Token : Type*) where
  state : State Token
  done : ℕ
  calls : ℕ
  /-- The loop has been left by a `break`. -/
  halted : Bool

def Region.usable (phase : Phase) (region : Region) : Bool :=
  region.locked = 0 ∧ region.rss ≠ 0 ∧ (phase = .pageout → region.referenced = 0)

/-- `EINVAL`, `ENOSYS`, `EPERM` and `EACCES`. -/
def unsupportedErrno (number : ℕ) : Bool := number = 22 ∨ number = 38 ∨ number = 1 ∨ number = 13

/-- One `madvise`, and what follows it. -/
def advise (l : Loop Token) (mapping : Mapping) (answer : Answer) : Loop Token :=
  let s := l.state
  let count := min CHUNK_BYTES (size mapping - s.offset)
  let advice : Advice := if s.phase = .mark then .cold else .pageout
  let call : Advised := ⟨advice, mapping, mapping.1 + s.offset, count, answer.errno.isNone⟩
  let s := { s with advised := s.advised ++ [call], fresh := s.fresh ++ [call] }
  match answer.errno with
  | some number =>
    { l with
      state := { s with phase := if unsupportedErrno number then .unsupported else .unreclaimable }, calls := l.calls + 1, halted := true }
  | none =>
    let s := if advice = .cold then { s with marked := s.marked + count } else { s with paged := s.paged + count }
    let whole := mapping.1 + (s.offset + count) = mapping.2
    let s :=
      if whole then
        { s with
          markedPlan := if s.phase = .mark then s.markedPlan ++ [mapping] else s.markedPlan, index := s.index + 1, offset := 0 }
      else { s with offset := s.offset + count }
    { state := s, done := l.done + count, calls := l.calls + 1, halted := STEP_BYTES ≤ l.done + count ∨ answer.late = true }

def iterate (regions : List Region) (answers : ℕ → Answer) (l : Loop Token) : Loop Token :=
  match l.state.plan[l.state.index]? with
  | none => l
  | some mapping =>
    match (regionAt regions mapping).filter (Region.usable l.state.phase) with
    | none => { l with state := { l.state with index := l.state.index + 1, offset := 0 } }
    | some _ => advise l mapping (answers l.calls)

def Loop.runs (l : Loop Token) : Bool := !l.halted && l.state.phase.active && l.state.index < l.state.plan.length

def loop (regions : List Region) (answers : ℕ → Answer) : ℕ → Loop Token → Loop Token
  | 0, l => l
  | fuel + 1, l => if l.runs then loop regions answers fuel (iterate regions answers l) else l

/-- A bound on the rounds that are left. -/
def State.work (s : State Token) : ℕ := ((s.plan.drop s.index).map fun mapping => size mapping + 1).sum - s.offset

def advisePlan (s : State Token) (probes : Probes) : Except (State Token) (State Token) :=
  if s.phase.active then
    match probes.current with
    | none => .error s
    | some regions => .ok (loop regions probes.advice s.work ⟨s, 0, 0, false⟩).state
  else .ok s

def endPass (s : State Token) : State Token :=
  if s.phase.active = true ∧ s.index = s.plan.length then
    if s.phase = .mark then
      { s with plan := s.markedPlan, index := 0, offset := 0, phase := if s.markedPlan = [] then .unreclaimable else .waiting }
    else { s with phase := .complete }
  else s

inductive Request where
  | mark
  | pageout
  | other
deriving DecidableEq, Repr

structure Reply where
  /-- `none` stands for "cancelled". -/
  state : Option Phase
  markedBytes : ℕ
  pageoutBytes : ℕ
  /-- The memory before the token was started and after the step. -/
  memory : Option (Memory × Memory)
deriving DecidableEq, Repr

/-- The reply of a step; a terminal one tells the memory, and drops the plans. -/
def conclude (s : State Token) (probes : Probes) : Except (State Token) (State Token × Reply) :=
  if s.phase.terminal then
    match probes.after, s.before with
    | some after, some before =>
      .ok ({ s with plan := [], markedPlan := [] }, ⟨some s.phase, s.marked, s.paged, some (before, after)⟩)
    | _, _ => .error s
  else .ok (s, ⟨some s.phase, s.marked, s.paged, none⟩)

/-- What a handled exception leaves. -/
def State.failed (s : State Token) : State Token := { s with phase := .unavailable, plan := [], markedPlan := [] }

def settle : Except (State Token) (State Token × Reply) → State Token × Reply
  | .ok result => result
  | .error s => (s.failed, ⟨some .unavailable, s.marked, s.paged, none⟩)

/-- A page-out that is asked for begins where a marked plan waits for it. -/
def enterPageout (s : State Token) (request : Request) (probes : Probes) : Except (State Token) (State Token) :=
  if request = .pageout ∧ s.phase = .waiting then beginPageout s probes else .ok s

/-- A step for the token that is being worked for. -/
def proceed (s : State Token) (request : Request) (probes : Probes) : Except (State Token) (State Token × Reply) := do
  let s ← enterPageout s request probes
  let s ← recheck s probes
  let s ← advisePlan s probes
  conclude (endPass s) probes

def step [DecidableEq Token] (s : State Token) (token : Option Token) (request : Request) (probes : Probes) : State Token × Reply :=
  if request = .mark ∧ s.token ≠ token then settle ((start token probes).bind fun s => proceed s request probes)
  else if s.token ≠ token then ({ s with fresh := [] }, ⟨none, 0, 0, none⟩)
  else settle (proceed { s with fresh := [] } request probes)

def run [DecidableEq Token] (steps : List (Option Token × Request × Probes)) : State Token :=
  steps.foldl (fun s each => (step s each.1 each.2.1 each.2.2).1) .initial

end Passes

end PersistentHarness.ColdResidency
