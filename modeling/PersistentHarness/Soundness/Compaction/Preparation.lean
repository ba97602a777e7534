import PersistentHarness.Lib.Retreat
import PersistentHarness.Model.Compaction.Preparation

/-! # The cut of a compaction

The pass over the entries before the stock cut ends with the last cut that no call needs a later result than. What is
summarised follows from the cut; where the cut stays, the stock preparation stays as it is.
-/

namespace PersistentHarness.Compaction

variable {sdk : Sdk} {projected : List Entry} {start original cut index : ℕ} {id : JsString}

/-- The entry at a position has a result of the call. -/
def HasResult (projected : List Entry) (id : JsString) (position : ℕ) : Prop :=
  ∃ entry, projected[position]? = some entry ∧ id ∈ resultsOf entry

/-- The entry at a position gives the model a user message. -/
def UserAt (sdk : Sdk) (projected : List Entry) (position : ℕ) : Prop :=
  ∃ entry, projected[position]? = some entry ∧ givesUser sdk entry = true

/-- The cuts that keep call and result together: the original cut, the start or a user turn, such that every native async
call before the cut has its result before it. -/
def Cuts (sdk : Sdk) (projected : List Entry) (start original : ℕ) : Set ℕ :=
  {cut | start ≤ cut ∧ cut ≤ original ∧ (cut = original ∨ cut = start ∨ UserAt sdk projected cut) ∧
    ∀ index entry id, start ≤ index → index < cut → projected[index]? = some entry → id ∈ asyncCalls entry →
      (∃ position < cut, HasResult projected id position) ∧ ∀ position, cut ≤ position → ¬HasResult projected id position}

/-! ## Results -/

theorem resultsFrom_none {first : ℕ} (none_ : resultsFrom first projected id = none) (position : ℕ) :
    ¬HasResult projected id position := by
  induction projected generalizing first position with
  | nil =>
    rintro ⟨entry, found, _⟩
    cases found
  | cons entry rest ih =>
    rw [resultsFrom, Option.or_eq_none_iff] at none_
    rintro ⟨other, found, result⟩
    cases position with
    | zero =>
      cases found
      rw [if_pos result] at none_
      cases none_.2
    | succ position => exact ih none_.1 position ⟨other, found, result⟩

theorem resultsFrom_some {first position : ℕ} (some_ : resultsFrom first projected id = some position) :
    ∃ offset, position = first + offset ∧ HasResult projected id offset ∧
      ∀ later, offset < later → ¬HasResult projected id later := by
  induction projected generalizing first with
  | nil => cases some_
  | cons entry rest ih =>
    rw [resultsFrom] at some_
    cases later : resultsFrom (first + 1) rest id with
    | some found =>
      rw [later, Option.some_or] at some_
      cases some_
      obtain ⟨offset, same, has, last⟩ := ih later
      refine ⟨offset + 1, by omega, has, ?_⟩
      intro other after
      cases other with
      | zero => omega
      | succ other => exact last other (by omega)
    | none =>
      rw [later, Option.none_or] at some_
      split at some_
      next result =>
        cases some_
        refine ⟨0, rfl, ⟨entry, rfl, result⟩, ?_⟩
        intro other after
        cases other with
        | zero => omega
        | succ other => exact resultsFrom_none later other
      next => cases some_

theorem waits_eq_false_iff : waits projected cut id = false ↔
    (∃ position < cut, HasResult projected id position) ∧ ∀ position, cut ≤ position → ¬HasResult projected id position := by
  unfold waits results
  cases found : resultsFrom 0 projected id with
  | none =>
    constructor
    · intro waiting
      cases waiting
    · rintro ⟨⟨position, _, result⟩, _⟩
      exact absurd result (resultsFrom_none found position)
  | some last =>
    obtain ⟨offset, same, result, final⟩ := resultsFrom_some found
    rw [Nat.zero_add] at same
    subst same
    rw [decide_eq_false_iff_not, not_le]
    constructor
    · intro before
      exact ⟨⟨last, before, result⟩, fun position after => final position (by omega)⟩
    · rintro ⟨_, none_⟩
      by_contra behind
      exact none_ last (not_lt.1 behind) result

theorem waits_mono {first second : ℕ} (le : first ≤ second) (waiting : waits projected second id = true) :
    waits projected first id = true := by
  unfold waits at waiting ⊢
  cases found : results projected id with
  | none => rfl
  | some position =>
    rw [found] at waiting
    have behind : second ≤ position := of_decide_eq_true waiting
    exact decide_eq_true (le.trans behind)

/-! ## The pass -/

def anchored (sdk : Sdk) (projected : List Entry) (position : ℕ) : Prop := projected[position]?.any (givesUser sdk) = true

instance : DecidablePred (anchored sdk projected) := fun _ => inferInstanceAs (Decidable (_ = true))

/-- The entry has a call that waits for a result at or behind the cut. -/
def blocks (projected : List Entry) (index cut : ℕ) : Prop :=
  ∃ entry, projected[index]? = some entry ∧ (asyncCalls entry).any (waits projected cut) = true

theorem anchored_iff (position : ℕ) : anchored sdk projected position ↔ UserAt sdk projected position := by
  unfold anchored UserAt
  cases projected[position]? <;> simp

theorem turnOf_eq (turn : ℕ) : turnOf sdk projected start turn = Retreat.retreat (anchored sdk projected) start turn := by
  induction turn with
  | zero => rfl
  | succ turn ih =>
    rw [turnOf, Retreat.retreat, ih]
    rfl

theorem blocks_mono (item first second : ℕ) (le : first ≤ second) (blocked : blocks projected item second) :
    blocks projected item first := by
  obtain ⟨entry, found, waiting⟩ := blocked
  refine ⟨entry, found, ?_⟩
  rw [List.any_eq_true] at waiting ⊢
  obtain ⟨id, member, waits⟩ := waiting
  exact ⟨id, member, waits_mono le waits⟩

/-- What the loop has done, at an index. -/
abbrev Passing (sdk : Sdk) (projected : List Entry) (start original index cut : ℕ) : Prop :=
  Retreat.Passing (anchored sdk projected) (blocks projected) start original index cut

theorem examine_passing {s : Cut} (passing : Passing sdk projected start original (index + 1) s.cut) (begun : start ≤ index)
    (inside : index < original) : Passing sdk projected start original index (examine sdk projected start index s).cut := by
  unfold examine
  cases found : projected[index]? with
  | none =>
    apply passing.pass
    rintro ⟨entry, present, _⟩
    rw [found] at present
    cases present
  | some entry =>
    dsimp only
    by_cases waiting : (asyncCalls entry).any (waits projected s.cut) = true
    · rw [if_pos waiting]
      dsimp only
      rw [turnOf_eq]
      exact passing.move begun inside ⟨entry, found, waiting⟩ blocks_mono
    · rw [if_neg waiting]
      apply passing.pass
      rintro ⟨other, present, blocked⟩
      rw [found] at present
      cases present
      exact waiting blocked

theorem retain_passing {s : Cut} (passing : Passing sdk projected start original index s.cut) (inside : index ≤ original)
    (begun : start ≤ index) : Passing sdk projected start original start (retain sdk projected start index s).cut := by
  induction index generalizing s with
  | zero =>
    obtain rfl : start = 0 := by omega
    exact passing
  | succ index ih =>
    rw [retain]
    split
    next more => exact ih (examine_passing passing more inside) (by omega) more
    next ended =>
      obtain rfl : start = index + 1 := by omega
      exact passing

theorem cuts_eq : Retreat.Choices (anchored sdk projected) (blocks projected) start original =
    Cuts sdk projected start original := by
  ext cut
  have free (item : ℕ) : ¬blocks projected item cut ↔ ∀ entry id, projected[item]? = some entry → id ∈ asyncCalls entry →
      (∃ position < cut, HasResult projected id position) ∧
        ∀ position, cut ≤ position → ¬HasResult projected id position := by
    unfold blocks
    constructor
    · intro free entry id found member
      rw [← waits_eq_false_iff, ← Bool.not_eq_true]
      intro waiting
      exact free ⟨entry, found, List.any_eq_true.2 ⟨id, member, waiting⟩⟩
    · rintro closed ⟨entry, found, waiting⟩
      obtain ⟨id, member, waits⟩ := List.any_eq_true.1 waiting
      rw [waits_eq_false_iff.2 (closed entry id found member)] at waits
      cases waits
  simp only [Retreat.Choices, Cuts, Set.mem_ofPred_eq, anchored_iff, free]
  constructor
  · rintro ⟨first, last, chosen, closed⟩
    exact ⟨first, last, chosen, fun index entry id begun inside => closed index begun inside entry id⟩
  · rintro ⟨first, last, chosen, closed⟩
    exact ⟨first, last, chosen, fun index begun inside entry id => closed index entry id begun inside⟩

/-- The loop ends with the last cut that keeps every call and its result together. -/
theorem retain_greatest (begun : start ≤ original) (diagnostics : List Diagnostic) :
    IsGreatest (Cuts sdk projected start original) (retain sdk projected start original ⟨original, diagnostics⟩).cut := by
  have initial : Passing sdk projected start original original (⟨original, diagnostics⟩ : Cut).cut := .initial begun
  rw [← cuts_eq]
  exact (retain_passing initial (le_refl _) begun).isGreatest

/-! ## The preparation -/

/-- What is returned for a cut: the stock preparation where the cut stays, and else the messages up to the cut. -/
def preparedFor (view : View) (preparation : Preparation) (start original cut : ℕ) (diagnostics : List Diagnostic) :
    Except Code Prepared :=
  if cut = original then .ok ⟨view.outstanding, some preparation, diagnostics⟩
  else
    match view.projected[cut]?.bind Entry.id with
    | none => .error .keptAnchor
    | some id =>
      let messages := messagesBetween view.projected start cut
      if messages = [] then .ok ⟨view.outstanding, none, diagnostics⟩
      else
        .ok ⟨view.outstanding, some { preparation with
          firstKeptEntryId := id
          messagesToSummarize := messages
          turnPrefixMessages := []
          isSplitTurn := false }, diagnostics⟩

/-- For a stock cut at or behind the start, the last cut that keeps every native async call and its result together is
taken. The stock preparation is kept where that is the stock cut; behind a moved cut the messages to summarise are those
of the entries from the start to the cut, and there is no preparation where there are none. -/
theorem prepareActorCompaction_cut (sdk : Sdk) (manual : Bool) (view : View) (preparation : Preparation) (original : ℕ)
    (current : view.current = true) (retained : ∀ call ∈ view.outstanding, call.retainedInContext = true)
    (stock : stockPreparation sdk manual view = some preparation)
    (found : view.projected.findIdx? (·.id = some preparation.firstKeptEntryId) = some original)
    (behind : startOf view.projected ≤ original) :
    ∃ cut diagnostics, IsGreatest (Cuts sdk view.projected (startOf view.projected) original) cut ∧
      prepareActorCompaction sdk manual view =
        preparedFor view preparation (startOf view.projected) original cut diagnostics := by
  let s := retain sdk view.projected (startOf view.projected) original ⟨original, []⟩
  refine ⟨s.cut, s.diagnostics, retain_greatest behind [], ?_⟩
  have all : view.outstanding.all (·.retainedInContext) = true := List.all_eq_true.2 retained
  rw [prepareActorCompaction, current, all, stock]
  simp only [Bool.not_true, Bool.false_eq_true, if_false]
  rw [selectCut, found]
  dsimp only
  rw [if_neg (not_lt.2 behind), preparedFor]
  simp only [List.isEmpty_iff]
  rfl

/-- A call before the stock cut whose result is behind it. -/
def spanView : View where
  outstanding := []
  stock := some ⟨js "d", none, [], [], false, 4⟩
  projected :=
    [⟨js "a", false, [⟨.user, [], [.other (js "go")]⟩], none⟩,
      ⟨js "b", false, [⟨.user, [], [.other (js "on")]⟩], none⟩,
      ⟨js "c", false, [⟨.assistant, [], [.toolCall (js "call") true]⟩], none⟩,
      ⟨js "d", false, [⟨.toolResult, js "call", []⟩], none⟩]
  current := true

def identitySdk : Sdk := ⟨fun messages => messages, fun _ => 1⟩

theorem prepareActorCompaction_cut_span :
    ∃ cut diagnostics, IsGreatest (Cuts identitySdk spanView.projected (startOf spanView.projected) 3) cut ∧
      prepareActorCompaction identitySdk false spanView =
        preparedFor spanView ⟨js "d", none, [], [], false, 4⟩ (startOf spanView.projected) 3 cut diagnostics :=
  prepareActorCompaction_cut identitySdk false spanView _ 3 rfl nofun rfl (by decide) (by decide)

/-- A manual refresh of a summary: nothing lies between the start and the kept anchor. -/
def refreshView : View where
  outstanding := []
  stock := none
  projected :=
    [⟨js "a", true, [⟨.other, [], [.other (js "summary")]⟩], js "summary"⟩,
      ⟨js "b", false, [⟨.user, [], [.other (js "go")]⟩], none⟩]
  current := true

/-- The preparation of a manual refresh is kept though there is nothing between the start and its cut. -/
theorem refresh_kept :
    startOf refreshView.projected = 1 ∧ refreshView.projected.findIdx? (·.id = some (js "b")) = some 1 ∧
      messagesBetween refreshView.projected 1 1 = [] ∧
      ∃ preparation, prepareActorCompaction identitySdk true refreshView = .ok ⟨[], some preparation, []⟩ := by
  refine ⟨by decide, by decide, rfl, _, rfl⟩

end PersistentHarness.Compaction
