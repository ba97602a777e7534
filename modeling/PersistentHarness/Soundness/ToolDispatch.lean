import PersistentHarness.Model.ToolDispatch

/-! # What a root waits for

An operation is in the set of its root until it has settled, and its scope is only open until then. So when the set is empty, no
scope of the root is left that could accept a call; and what the records say by then is final.
-/

namespace PersistentHarness.ToolDispatch

open Assoc (lookup)

variable {υ : Type} {addToolUsage : υ → υ → υ} {s t : State υ} {n : ℕ} {operation : Operation}

section Moves

/-- What a step can do. -/
inductive Move (addToolUsage : υ → υ → υ) (s : State υ) : State υ → Prop
  | accept {callerId : JsString} {scope : Scope} (toolCall : ToolCall) (found : lookup s.scopes callerId = some scope)
      (accepting : scope.accepting = true) (longer : callerId.length < toolCall.id.length) :
      Move addToolUsage s (s.accept callerId scope toolCall)
  | proceed {n : ℕ} {operation : Operation} (here : s.operations[n]? = some operation) (queued : operation.stage = .queued) :
      Move addToolUsage s ((s.openNested operation.toolCall.id).withStage n .starting)
  | started {n : ℕ} {operation : Operation} (here : s.operations[n]? = some operation) (starting : operation.stage = .starting) :
      Move addToolUsage s (s.withStage n .running)
  | ran {n : ℕ} {operation : Operation} (outcome : Outcome υ) (here : s.operations[n]? = some operation)
      (running : operation.stage = .running) : Move addToolUsage s (s.ran addToolUsage n operation outcome)
  | settle {n : ℕ} {operation : Operation} (here : s.operations[n]? = some operation)
      (open_ : operation.stage = .starting ∨ operation.stage = .running ∨ operation.stage = .ending) :
      Move addToolUsage s (s.settle n operation)
  | forget {n : ℕ} (settled : s.isSettled n = true) :
      Move addToolUsage s { s with root := { s.root with pending := s.root.pending.erase n } }
  | foreign : Move addToolUsage s { s with tail := none }
  | finish {scope : Scope} (found : lookup s.scopes s.id = some scope) : Move addToolUsage s (s.close scope).drain
  | drained {snapshot : List ℕ} (waiting : s.draining = some snapshot) : Move addToolUsage s s.drain

theorem lt_nextCall (callerId : JsString) (scope : Scope) (name : JsString) (arguments : Option Arguments) :
    callerId.length < (State.nextCall callerId scope name arguments).id.length := by
  change callerId.length < (callerId ++ js "/" ++ Json.decimal scope.nextId).length
  rw [List.length_append, List.length_append]
  have slash : (js "/").length = 1 := rfl
  omega

theorem step_move (addToolUsage : υ → υ → υ) (s : State υ) (event : Event υ) :
    s.step addToolUsage event = s ∨ Move addToolUsage s (s.step addToolUsage event) := by
  cases event with
  | execute callerId name args distinct =>
    unfold State.step
    dsimp only
    split
    · next scope found =>
      split
      · next accepting => exact .inr (.accept _ found accepting (lt_nextCall callerId scope name _))
      · exact .inl rfl
    · exact .inl rfl
  | executeUnwritable callerId name =>
    unfold State.step
    dsimp only
    split
    · next scope found =>
      split
      · next accepting => exact .inr (.accept _ found accepting (lt_nextCall callerId scope name _))
      · exact .inl rfl
    · exact .inl rfl
  | proceed n =>
    unfold State.step
    dsimp only
    split
    · next operation here =>
      split
      · next ready => exact .inr (.proceed here ready.1)
      · exact .inl rfl
    · exact .inl rfl
  | started n published =>
    unfold State.step
    dsimp only
    split
    · next operation here =>
      split
      · next starting =>
        cases published with
        | true => exact .inr (.started here starting)
        | false => exact .inr (.settle here (.inl starting))
      · exact .inl rfl
    · exact .inl rfl
  | ran n outcome =>
    unfold State.step
    dsimp only
    split
    · next operation here =>
      split
      · next running =>
        cases outcome with
        | some outcome => exact .inr (.ran outcome here running)
        | none => exact .inr (.settle here (.inr (.inl running)))
      · exact .inl rfl
    · exact .inl rfl
  | ended n published =>
    unfold State.step
    dsimp only
    split
    · next operation here =>
      split
      · next ending => exact .inr (.settle here (.inr (.inr ending)))
      · exact .inl rfl
    · exact .inl rfl
  | forget n =>
    unfold State.step
    dsimp only
    split
    · next settled => exact .inr (.forget settled)
    · exact .inl rfl
  | foreign => exact .inr .foreign
  | finish =>
    unfold State.step
    dsimp only
    split
    · next scope found =>
      split
      · exact .inl rfl
      · exact .inr (.finish found)
    · exact .inl rfl
  | drained =>
    unfold State.step
    dsimp only
    split
    · next snapshot waiting =>
      split
      · exact .inr (.drained waiting)
      · exact .inl rfl
    · exact .inl rfl

theorem run_keeps {P : State υ → Prop} (keeps : ∀ s t, P s → Move addToolUsage s t → P t) (holds : P s)
    (events : List (Event υ)) : P (s.run addToolUsage events) := by
  induction events generalizing s with
  | nil => exact holds
  | cons event rest ih =>
    apply ih
    rcases step_move addToolUsage s event with same | moved
    · rw [same]
      exact holds
    · exact keeps s _ holds moved

theorem operations_withStage (s : State υ) (n m : ℕ) (stage : Stage) :
    (s.withStage n stage).operations[m]?
      = if n = m then (s.operations[m]?).map fun operation => { operation with stage } else s.operations[m]? := by
  change (s.operations.modify n _)[m]? = _
  rw [List.getElem?_modify]
  split
  · rfl
  · exact Option.map_id'

theorem of_withStage {m : ℕ} {stage : Stage} {after : Operation} (here : s.operations[n]? = some operation)
    (found : (s.withStage n stage).operations[m]? = some after) :
    (m = n ∧ after = { operation with stage }) ∨ (m ≠ n ∧ s.operations[m]? = some after) := by
  rw [operations_withStage] at found
  split at found
  · next same =>
    subst same
    rw [here] at found
    exact .inl ⟨rfl, (Option.some.inj found).symm⟩
  · next other => exact .inr ⟨Ne.symm other, found⟩

theorem of_concat {m : ℕ} {added after : Operation} (found : (s.operations ++ [added])[m]? = some after) :
    s.operations[m]? = some after ∨ (m = s.operations.length ∧ after = added) := by
  rw [List.getElem?_append] at found
  split at found
  · exact .inl found
  · next beyond =>
    cases offset : m - s.operations.length with
    | zero =>
      rw [offset] at found
      exact .inr ⟨by omega, (Option.some.inj found).symm⟩
    | succ k =>
      rw [offset] at found
      cases found

theorem concat_of {m : ℕ} {added after : Operation} (found : s.operations[m]? = some after) :
    (s.operations ++ [added])[m]? = some after := by
  have within := (List.getElem?_eq_some_iff.mp found).1
  rw [List.getElem?_append_left within, found]

end Moves

section Scopes

/-- Scopes are those of the root and of operations that have not settled, and these are in the set of the root. -/
structure Scoped (s : State υ) : Prop where
  names : ∀ (n : ℕ) (operation : Operation), s.operations[n]? = some operation → s.id.length < operation.toolCall.id.length
  scopes : ∀ key scope, lookup s.scopes key = some scope →
    key = s.id ∨ ∃ (n : ℕ) (operation : Operation), s.operations[n]? = some operation ∧ operation.toolCall.id = key ∧ operation.stage ≠ .settled
  pending : ∀ (n : ℕ) (operation : Operation), s.operations[n]? = some operation → operation.stage ≠ .settled → n ∈ s.root.pending
  closed : s.draining.isSome = true → ∀ scope, lookup s.scopes s.id = some scope → scope.accepting = false
  ended : s.finished.isSome = true → (∀ (n : ℕ) (operation : Operation), s.operations[n]? = some operation → operation.stage = .settled)
    ∧ lookup s.scopes s.id = none ∧ s.draining = none

theorem scoped_opened (id : JsString) : Scoped (State.opened id : State υ) where
  names n operation found := by cases found
  scopes key scope found := by
    refine .inl ?_
    unfold State.opened at found
    rw [Assoc.lookup_cons] at found
    split at found
    · next same => exact same.symm
    · cases found
  pending n operation found := by cases found
  closed waiting := by cases waiting
  ended finished := by cases finished

theorem Scoped.no_scope (sound : Scoped s) (finished : s.finished.isSome = true) (key : JsString) :
    lookup s.scopes key = none := by
  obtain ⟨settled, closed, _⟩ := sound.ended finished
  by_contra some
  obtain ⟨scope, found⟩ := Option.ne_none_iff_exists'.mp some
  rcases sound.scopes key scope found with rfl | ⟨n, operation, here, _, unsettled⟩
  · rw [closed] at found
    cases found
  · exact unsettled (settled n operation here)

theorem Scoped.unfinished (sound : Scoped s) (here : s.operations[n]? = some operation) (unsettled : operation.stage ≠ .settled) :
    s.finished.isSome = false := by
  by_contra finished
  exact unsettled ((sound.ended (Bool.not_eq_false _ ▸ finished)).1 n operation here)

/-- A key of a scope is as long as that of the root at least. -/
theorem Scoped.length_le (sound : Scoped s) {key : JsString} {scope : Scope} (found : lookup s.scopes key = some scope) :
    s.id.length ≤ key.length := by
  rcases sound.scopes key scope found with rfl | ⟨n, operation, here, rfl, _⟩
  · exact le_refl _
  · exact (sound.names n operation here).le

theorem Scoped.withStage (sound : Scoped s) (here : s.operations[n]? = some operation) (unsettled : operation.stage ≠ .settled)
    {stage : Stage} (open_ : stage ≠ .settled) : Scoped (s.withStage n stage) where
  names m after found := by
    rcases of_withStage here found with ⟨rfl, rfl⟩ | ⟨_, found⟩
    · exact sound.names m operation here
    · exact sound.names m after found
  scopes key scope found := by
    refine (sound.scopes key scope found).imp id ?_
    rintro ⟨m, other, there, named, still⟩
    by_cases same : n = m
    · subst same
      rw [here] at there
      obtain rfl := Option.some.inj there
      refine ⟨n, { operation with stage }, ?_, named, open_⟩
      rw [operations_withStage, if_pos rfl, here]
      rfl
    · exact ⟨m, other, by rw [operations_withStage, if_neg same, there], named, still⟩
  pending m after found still := by
    rcases of_withStage here found with ⟨rfl, rfl⟩ | ⟨_, found⟩
    · exact sound.pending m operation here unsettled
    · exact sound.pending m after found still
  closed := sound.closed
  ended finished := by
    have unfinished := sound.unfinished here unsettled
    change s.finished.isSome = true at finished
    rw [finished] at unfinished
    cases unfinished

theorem Scoped.openNested (sound : Scoped s) (here : s.operations[n]? = some operation) (unsettled : operation.stage ≠ .settled) :
    Scoped (s.openNested operation.toolCall.id) := by
  have apart : operation.toolCall.id ≠ s.id := by
    intro same
    have longer := sound.names n operation here
    rw [same] at longer
    exact lt_irrefl _ longer
  have other : lookup (s.openNested operation.toolCall.id).scopes s.id = lookup s.scopes s.id :=
    Assoc.lookup_set_of_ne _ _ apart
  refine ⟨sound.names, ?_, sound.pending, ?_, ?_⟩
  · intro key scope found
    change lookup (Assoc.set s.scopes _ _) key = _ at found
    rw [Assoc.lookup_set] at found
    split at found
    · next same => exact .inr ⟨n, operation, here, same, unsettled⟩
    · exact sound.scopes key scope found
  · intro waiting scope found
    exact sound.closed waiting scope (other.symm.trans found)
  · intro finished
    have unfinished := sound.unfinished here unsettled
    change s.finished.isSome = true at finished
    rw [finished] at unfinished
    cases unfinished

theorem Scoped.settle (sound : Scoped s) (here : s.operations[n]? = some operation) (unsettled : operation.stage ≠ .settled) :
    Scoped (s.settle n operation) := by
  have found_ {m : ℕ} {after : Operation} (found : (s.settle n operation).operations[m]? = some after) :
      (m = n ∧ after = { operation with stage := .settled }) ∨ (m ≠ n ∧ s.operations[m]? = some after) := of_withStage here found
  refine ⟨?_, ?_, ?_, ?_, ?_⟩
  · intro m after found
    rcases found_ found with ⟨rfl, rfl⟩ | ⟨_, found⟩
    · exact sound.names m operation here
    · exact sound.names m after found
  · intro key scope found
    change lookup (Assoc.erase s.scopes operation.toolCall.id) key = _ at found
    rw [Assoc.lookup_erase] at found
    split at found
    · cases found
    · next other =>
      refine (sound.scopes key scope found).imp id ?_
      rintro ⟨m, another, there, named, still⟩
      have apart : n ≠ m := by
        rintro rfl
        rw [here] at there
        obtain rfl := Option.some.inj there
        exact other named
      refine ⟨m, another, ?_, named, still⟩
      exact (operations_withStage _ n m .settled).trans ((if_neg apart).trans there)
  · intro m after found still
    rcases found_ found with ⟨rfl, rfl⟩ | ⟨_, found⟩
    · exact absurd rfl still
    · exact sound.pending m after found still
  · intro waiting scope found
    change lookup (Assoc.erase s.scopes operation.toolCall.id) s.id = _ at found
    rw [Assoc.lookup_erase] at found
    split at found
    · cases found
    · exact sound.closed waiting scope found
  · intro finished
    have unfinished := sound.unfinished here unsettled
    change s.finished.isSome = true at finished
    rw [finished] at unfinished
    cases unfinished

/-- The next number of a scope changes nothing else. -/
theorem of_renumber {callerId key : JsString} {scope value : Scope} (found : lookup s.scopes callerId = some scope)
    (held : lookup (s.renumber callerId scope) key = some value) :
    ∃ before, lookup s.scopes key = some before ∧ value.accepting = before.accepting := by
  unfold State.renumber at held
  rw [Assoc.lookup_set] at held
  split at held
  · next same =>
    rw [← Option.some.inj held, ← same]
    exact ⟨scope, found, rfl⟩
  · exact ⟨value, held, rfl⟩

theorem Scoped.added (sound : Scoped s) (added : Operation) (longer : s.id.length < added.toolCall.id.length)
    (running : s.finished.isSome = false) (sameId : t.id = s.id) (operations : t.operations = s.operations ++ [added])
    (pending : t.root.pending = s.root.pending ++ [s.operations.length]) (draining : t.draining = s.draining)
    (finished : t.finished = s.finished)
    (scopes : ∀ key value, lookup t.scopes key = some value → (key = added.toolCall.id ∧ added.stage ≠ .settled)
      ∨ ∃ before, lookup s.scopes key = some before ∧ value.accepting = before.accepting) : Scoped t := by
  have apart : added.toolCall.id ≠ s.id := by
    intro same
    rw [same] at longer
    omega
  refine ⟨?_, ?_, ?_, ?_, ?_⟩
  · intro m after there
    rw [sameId]
    rw [operations] at there
    rcases of_concat there with before | ⟨rfl, rfl⟩
    · exact sound.names m after before
    · exact longer
  · intro key value held
    rw [sameId, operations]
    rcases scopes key value held with ⟨rfl, open_⟩ | ⟨before, found, _⟩
    · exact .inr ⟨s.operations.length, added, List.getElem?_concat_length, rfl, open_⟩
    · refine (sound.scopes key before found).imp id ?_
      rintro ⟨m, other, there, named, still⟩
      exact ⟨m, other, concat_of there, named, still⟩
  · intro m after there still
    rw [pending, List.mem_append, List.mem_singleton]
    rw [operations] at there
    rcases of_concat there with before | ⟨rfl, rfl⟩
    · exact .inl (sound.pending m after before still)
    · exact .inr rfl
  · intro waiting value held
    rw [draining] at waiting
    rw [sameId] at held
    rcases scopes s.id value held with ⟨same, _⟩ | ⟨before, found, same⟩
    · exact absurd same.symm apart
    · rw [same]
      exact sound.closed waiting before found
  · intro ended
    rw [finished, running] at ended
    cases ended

theorem pending_recorded {root after : Root υ} {toolCall : ToolCall} {record : Option ℕ}
    (taken : State.recorded root toolCall = some (record, after)) : after.pending = root.pending := by
  unfold State.recorded at taken
  split at taken
  · obtain ⟨arguments, _, taken⟩ := Option.map_eq_some_iff.mp taken
    dsimp only at taken
    split at taken
    · rw [← (Prod.mk.inj taken).2]
    · rw [← (Prod.mk.inj taken).2]
  · rw [← (Prod.mk.inj (Option.some.inj taken)).2]

theorem Scoped.accept (sound : Scoped s) {callerId : JsString} {scope : Scope} (toolCall : ToolCall)
    (found : lookup s.scopes callerId = some scope) (longer : callerId.length < toolCall.id.length) :
    Scoped (s.accept callerId scope toolCall) := by
  have unfinished : s.finished.isSome = false := by
    by_contra finished
    rw [sound.no_scope (Bool.not_eq_false _ ▸ finished) callerId] at found
    cases found
  have beyond : s.id.length < toolCall.id.length := lt_of_le_of_lt (sound.length_le found) longer
  unfold State.accept
  split
  · next record root taken =>
    refine sound.added _ beyond unfinished rfl rfl ?_ rfl rfl ?_
    · exact congrArg (· ++ [s.operations.length]) (pending_recorded taken)
    · intro key value held
      unfold State.admitted at held
      dsimp only at held
      have open_ : (if scope.holdsQueue = true then Stage.starting else .queued) ≠ .settled := by
        split
        · exact Stage.noConfusion
        · exact Stage.noConfusion
      split at held
      · rw [Assoc.lookup_set] at held
        split at held
        · next same => exact .inl ⟨same.symm, open_⟩
        · exact .inr (of_renumber found held)
      · exact .inr (of_renumber found held)
  · refine sound.added _ beyond unfinished rfl rfl rfl rfl rfl ?_
    intro key value held
    exact .inr (of_renumber found held)

theorem Scoped.drain (sound : Scoped s) (unfinished : s.finished.isSome = false)
    (closed : ∀ scope, lookup s.scopes s.id = some scope → scope.accepting = false) : Scoped s.drain := by
  unfold State.drain
  split
  · next empty =>
    have settled (m : ℕ) (other : Operation) (there : s.operations[m]? = some other) : other.stage = .settled := by
      by_contra still
      have member := sound.pending m other there still
      rw [empty] at member
      cases member
    refine ⟨sound.names, ?_, sound.pending, ?_, ?_⟩
    · intro key scope found
      change lookup (Assoc.erase s.scopes s.id) key = _ at found
      rw [Assoc.lookup_erase] at found
      split at found
      · cases found
      · exact sound.scopes key scope found
    · intro waiting
      cases waiting
    · intro _
      refine ⟨settled, ?_, rfl⟩
      change lookup (Assoc.erase s.scopes s.id) s.id = none
      rw [Assoc.lookup_erase, if_pos rfl]
  · next some =>
    refine ⟨sound.names, sound.scopes, sound.pending, fun _ => closed, ?_⟩
    intro finished
    change s.finished.isSome = true at finished
    rw [finished] at unfinished
    cases unfinished

/-- Operations, scopes and the set of the root stay consistent. -/
theorem Scoped.move (sound : Scoped s) (moved : Move addToolUsage s t) : Scoped t := by
  cases moved with
  | accept toolCall found accepting longer => exact sound.accept toolCall found longer
  | proceed here queued =>
    have unsettled : _ ≠ Stage.settled := queued.trans_ne Stage.noConfusion
    exact (sound.openNested here unsettled).withStage here unsettled Stage.noConfusion
  | started here starting => exact sound.withStage here (starting.trans_ne Stage.noConfusion) Stage.noConfusion
  | ran outcome here running =>
    have moved : Scoped (s.withStage _ .ending) :=
      sound.withStage here (running.trans_ne Stage.noConfusion) Stage.noConfusion
    exact ⟨moved.names, moved.scopes, moved.pending, moved.closed, moved.ended⟩
  | settle here open_ =>
    refine sound.settle here ?_
    rcases open_ with stage | stage | stage
    · exact stage.trans_ne Stage.noConfusion
    · exact stage.trans_ne Stage.noConfusion
    · exact stage.trans_ne Stage.noConfusion
  | forget settled =>
    refine ⟨sound.names, sound.scopes, fun m other there still => ?_, sound.closed, sound.ended⟩
    refine (List.mem_erase_of_ne ?_).mpr (sound.pending m other there still)
    rintro rfl
    rw [State.isSettled, there] at settled
    exact still (of_decide_eq_true settled)
  | foreign => exact ⟨sound.names, sound.scopes, sound.pending, sound.closed, sound.ended⟩
  | finish found =>
    have unfinished : s.finished.isSome = false := by
      by_contra finished
      rw [sound.no_scope (Bool.not_eq_false _ ▸ finished) s.id] at found
      cases found
    rename_i scope
    have own (value : Scope) (held : lookup (s.close scope).scopes s.id = some value) : value.accepting = false := by
      change lookup (Assoc.set s.scopes s.id _) s.id = _ at held
      rw [Assoc.lookup_set, if_pos rfl] at held
      rw [← Option.some.inj held]
    have closing : Scoped (s.close scope) := by
      refine ⟨sound.names, ?_, sound.pending, fun _ => own, ?_⟩
      · intro key value held
        change lookup (Assoc.set s.scopes s.id _) key = _ at held
        rw [Assoc.lookup_set] at held
        split at held
        · next same => exact .inl same.symm
        · exact sound.scopes key value held
      · intro finished
        change s.finished.isSome = true at finished
        rw [finished] at unfinished
        cases unfinished
    exact closing.drain unfinished own
  | drained waiting =>
    have unfinished : s.finished.isSome = false := by
      by_contra finished
      rw [(sound.ended (Bool.not_eq_false _ ▸ finished)).2.2] at waiting
      cases waiting
    exact sound.drain unfinished (sound.closed (by rw [waiting]; rfl))

end Scopes

section Limits

def argumentSize (record : Record) : ℕ := (record.arguments.map State.jsonBytes).getD 0

/-- The list of the root and what it keeps are within the limits. -/
structure Root.Limited (root : Root υ) : Prop where
  count : root.calls.length ≤ maxCalls
  each : ∀ record ∈ root.calls, argumentSize record ≤ maxArgumentBytes
  total : (root.calls.map argumentSize).sum = root.argumentBytes
  bounded : root.argumentBytes ≤ maxTotalArgumentBytes

/-- The copy of the arguments is their JSON data, and as long. -/
theorem parse_arguments (arguments : Arguments) :
    Json.parse (Json.stringify arguments.value) = some (Json.readBack arguments.value)
      ∧ State.jsonBytes (Json.readBack arguments.value) = State.jsonBytes arguments.value := by
  refine ⟨Json.parse_stringify_readBack arguments.defined, ?_⟩
  unfold State.jsonBytes Json.stringify
  rw [Json.stringify?_readBack _ arguments.distinct arguments.defined]

variable {root : Root υ} (toolCall : ToolCall)

theorem Root.Limited.recorded (limited : root.Limited) {record : Option ℕ} {after : Root υ}
    (taken : State.recorded root toolCall = some (record, after)) : after.Limited := by
  unfold State.recorded at taken
  split at taken
  · next room =>
    obtain ⟨arguments, _, taken⟩ := Option.map_eq_some_iff.mp taken
    have count (record : Record) : (root.calls ++ [record]).length ≤ maxCalls := by
      rw [List.length_append, List.length_singleton]
      omega
    have sum (record : Record) :
        ((root.calls ++ [record]).map argumentSize).sum = root.argumentBytes + argumentSize record := by
      rw [List.map_append, List.sum_append, limited.total, List.map_singleton, List.sum_singleton]
    have each (record : Record) (fits : argumentSize record ≤ maxArgumentBytes) :
        ∀ other ∈ root.calls ++ [record], argumentSize other ≤ maxArgumentBytes := by
      intro other member
      rcases List.mem_append.mp member with before | last
      · exact limited.each other before
      · rw [List.mem_singleton.mp last]
        exact fits
    dsimp only at taken
    split at taken
    · next fits =>
      obtain rfl := (Prod.mk.inj taken).2
      obtain ⟨parsed, same⟩ := parse_arguments arguments
      have size : argumentSize (State.recordOf toolCall (Json.parse (Json.stringify arguments.value)) none)
          = State.jsonBytes arguments.value := by
        rw [parsed]
        exact same
      refine ⟨count _, each _ ?_, ?_, fits.2⟩
      · rw [size]
        exact fits.1
      · rw [← size]
        exact sum _
    · obtain rfl := (Prod.mk.inj taken).2
      exact ⟨count _, each _ (Nat.zero_le _), sum _, limited.bounded⟩
  · obtain rfl := (Prod.mk.inj (Option.some.inj taken)).2
    exact ⟨limited.count, limited.each, limited.total, limited.bounded⟩

theorem Root.Limited.modify (limited : root.Limited) (i : ℕ) {change : Record → Record}
    (keeps : ∀ record, (change record).arguments = record.arguments) (usage : Option υ) :
    Root.Limited { root with calls := root.calls.modify i change, usage } := by
  have sizes : (root.calls.modify i change).map argumentSize = root.calls.map argumentSize := by
    have same (record : Record) : argumentSize (change record) = argumentSize record := by
      rw [argumentSize, keeps, argumentSize]
    apply List.ext_getElem?
    intro k
    rw [List.getElem?_map, List.getElem?_map, List.getElem?_modify]
    cases root.calls[k]? with
    | none => rfl
    | some record =>
      change some (argumentSize (if i = k then change record else record)) = _
      split
      · rw [same]
        rfl
      · rfl
  refine ⟨?_, ?_, ?_, limited.bounded⟩
  · change (root.calls.modify i change).length ≤ _
    rw [List.length_modify]
    exact limited.count
  · intro record member
    have size : argumentSize record ∈ root.calls.map argumentSize := by
      rw [← sizes]
      exact List.mem_map_of_mem member
    obtain ⟨other, there, same⟩ := List.mem_map.mp size
    rw [← same]
    exact limited.each other there
  · change ((root.calls.modify i change).map argumentSize).sum = _
    rw [sizes, limited.total]

theorem limited_move (limited : s.root.Limited) (moved : Move addToolUsage s t) : t.root.Limited := by
  cases moved with
  | accept toolCall found accepting longer =>
    unfold State.accept
    split
    · next record root taken =>
      have recorded := limited.recorded toolCall taken
      exact ⟨recorded.count, recorded.each, recorded.total, recorded.bounded⟩
    · exact ⟨limited.count, limited.each, limited.total, limited.bounded⟩
  | proceed here queued => exact limited
  | started here starting => exact limited
  | ran outcome here running =>
    rename_i operation
    unfold State.ran
    cases operation.record with
    | none => exact ⟨limited.count, limited.each, limited.total, limited.bounded⟩
    | some i =>
      have keeps (record : Record) : (State.endedRecord outcome record).arguments = record.arguments := rfl
      exact limited.modify i keeps _
  | settle here open_ => exact ⟨limited.count, limited.each, limited.total, limited.bounded⟩
  | forget settled => exact ⟨limited.count, limited.each, limited.total, limited.bounded⟩
  | foreign => exact limited
  | finish found =>
    unfold State.drain
    split
    · exact limited
    · exact limited
  | drained waiting =>
    unfold State.drain
    split
    · exact limited
    · exact limited

end Limits

section Records

def RecordOf (calls : List Record) (operation : Operation) (record : Record) : Prop :=
  ∃ i, operation.record = some i ∧ calls[i]? = some record

/-- The record of an operation keeps its arguments, and says how it ended once it has settled. -/
def Accounted (calls : List Record) (operation : Operation) : Prop :=
  ∃ record, RecordOf calls operation record ∧ record.arguments.isSome = true
    ∧ (operation.stage = .settled → record.status ≠ .unfinished)

/-- An operation has no record, or one without arguments or without an end. -/
def Unaccounted (calls : List Record) (operation : Operation) : Prop :=
  operation.record = none ∨ ∃ record, RecordOf calls operation record
    ∧ (record.arguments = none ∨ operation.stage = .settled ∧ record.status = .unfinished)

/-- Each operation has a record of its own at most, and the root is complete if all are accounted for. -/
structure Kept (s : State υ) : Prop where
  rejected : ∀ (n : ℕ) (operation : Operation), s.operations[n]? = some operation → operation.rejected = true →
    operation.stage = .settled
  own : ∀ (n : ℕ) (operation : Operation) (i : ℕ), s.operations[n]? = some operation → operation.record = some i →
    ∃ record : Record, s.root.calls[i]? = some record ∧ record.id = operation.toolCall.id
      ∧ ∀ value ∈ record.arguments,
        ∃ arguments, operation.toolCall.arguments = some arguments ∧ value = Json.readBack arguments.value
  apart : ∀ (n m : ℕ) (first second : Operation) (i : ℕ), s.operations[n]? = some first → s.operations[m]? = some second →
    first.record = some i → second.record = some i → n = m
  complete : s.root.complete = true → ∀ (n : ℕ) (operation : Operation), s.operations[n]? = some operation →
    operation.rejected = false → Accounted s.root.calls operation
  incomplete : s.root.complete = false → ∃ (n : ℕ) (operation : Operation), s.operations[n]? = some operation
    ∧ operation.rejected = false ∧ Unaccounted s.root.calls operation

variable {calls : List Record}

theorem Unaccounted.settled (unaccounted : Unaccounted calls operation) :
    Unaccounted calls { operation with stage := .settled } := by
  rcases unaccounted with none | ⟨record, of, without | ⟨_, unfinished⟩⟩
  · exact .inl none
  · exact .inr ⟨record, of, .inl without⟩
  · exact .inr ⟨record, of, .inr ⟨rfl, unfinished⟩⟩

theorem apart_of {operations : List Operation}
    (apart : ∀ (n m : ℕ) (first second : Operation) (i : ℕ), s.operations[n]? = some first → s.operations[m]? = some second →
      first.record = some i → second.record = some i → n = m)
    (before : ∀ (n : ℕ) (after : Operation), operations[n]? = some after →
      ∃ operation, s.operations[n]? = some operation ∧ operation.record = after.record)
    (n m : ℕ) (first second : Operation) (i : ℕ) (firstFound : operations[n]? = some first)
    (secondFound : operations[m]? = some second) (firstHeld : first.record = some i) (secondHeld : second.record = some i) :
    n = m := by
  obtain ⟨one, oneFound, oneHeld⟩ := before n first firstFound
  obtain ⟨two, twoFound, twoHeld⟩ := before m second secondFound
  exact apart n m one two i oneFound twoFound (oneHeld.trans firstHeld) (twoHeld.trans secondHeld)

theorem record_withStage {m : ℕ} {stage : Stage} {after : Operation} (here : s.operations[n]? = some operation)
    (found : (s.withStage n stage).operations[m]? = some after) :
    ∃ operation, s.operations[m]? = some operation ∧ operation.record = after.record := by
  rcases of_withStage here found with ⟨rfl, rfl⟩ | ⟨_, before⟩
  · exact ⟨operation, here, rfl⟩
  · exact ⟨after, before, rfl⟩

theorem Kept.withStage (kept : Kept s) (here : s.operations[n]? = some operation) (unsettled : operation.stage ≠ .settled)
    {stage : Stage} (open_ : stage ≠ .settled) : Kept (s.withStage n stage) where
  rejected m after found failed := by
    rcases of_withStage here found with ⟨rfl, rfl⟩ | ⟨_, found⟩
    · exact absurd (kept.rejected m operation here failed) unsettled
    · exact kept.rejected m after found failed
  own m after i found held := by
    rcases of_withStage here found with ⟨rfl, rfl⟩ | ⟨_, found⟩
    · exact kept.own m operation i here held
    · exact kept.own m after i found held
  apart := apart_of kept.apart fun _ _ => record_withStage here
  complete whole m after found accepted := by
    rcases of_withStage here found with ⟨rfl, rfl⟩ | ⟨_, found⟩
    · obtain ⟨record, of, arguments, _⟩ := kept.complete whole m operation here accepted
      exact ⟨record, of, arguments, fun settled => absurd settled open_⟩
    · exact kept.complete whole m after found accepted
  incomplete broken := by
    obtain ⟨m, other, there, accepted, unaccounted⟩ := kept.incomplete broken
    by_cases same : n = m
    · subst same
      rw [here] at there
      obtain rfl := Option.some.inj there
      refine ⟨n, { operation with stage }, ?_, accepted, ?_⟩
      · rw [operations_withStage, if_pos rfl, here]
        rfl
      · rcases unaccounted with none | ⟨record, of, without | ⟨settled, _⟩⟩
        · exact .inl none
        · exact .inr ⟨record, of, .inl without⟩
        · exact absurd settled unsettled
    · exact ⟨m, other, by rw [operations_withStage, if_neg same, there], accepted, unaccounted⟩

theorem Kept.settle (kept : Kept s) (here : s.operations[n]? = some operation) (accepted : operation.rejected = false) :
    Kept (s.settle n operation) := by
  have found_ {m : ℕ} {after : Operation} (found : (s.settle n operation).operations[m]? = some after) :
      (m = n ∧ after = { operation with stage := .settled }) ∨ (m ≠ n ∧ s.operations[m]? = some after) := of_withStage here found
  have settled : (s.settle n operation).operations[n]? = some { operation with stage := .settled } := by
    refine (operations_withStage _ n n .settled).trans ?_
    rw [if_pos rfl]
    exact congrArg (Option.map fun operation : Operation => { operation with stage := .settled }) here
  refine ⟨?_, ?_, apart_of kept.apart fun m after found => record_withStage here found, ?_, ?_⟩
  · intro m after found failed
    rcases found_ found with ⟨_, rfl⟩ | ⟨_, found⟩
    · rfl
    · exact kept.rejected m after found failed
  · intro m after i found held
    rcases found_ found with ⟨rfl, rfl⟩ | ⟨_, found⟩
    · exact kept.own m operation i here held
    · exact kept.own m after i found held
  · intro whole m after found rejected
    obtain ⟨before, finished⟩ := Bool.and_eq_true_iff.mp whole
    rcases found_ found with ⟨rfl, rfl⟩ | ⟨_, found⟩
    · obtain ⟨record, ⟨i, held, there⟩, arguments, _⟩ := kept.complete before m operation here rejected
      refine ⟨record, ⟨i, held, there⟩, arguments, fun _ unfinished => ?_⟩
      rw [held, Option.bind_some, there, Option.any_some, unfinished] at finished
      cases finished
    · exact kept.complete before m after found rejected
  · intro broken
    rcases Bool.and_eq_false_iff.mp broken with broken | unfinished
    · obtain ⟨m, other, there, other_, unaccounted⟩ := kept.incomplete broken
      by_cases same : n = m
      · subst same
        rw [here] at there
        obtain rfl := Option.some.inj there
        exact ⟨n, _, settled, accepted, unaccounted.settled⟩
      · exact ⟨m, other, (operations_withStage _ n m .settled).trans ((if_neg same).trans there), other_, unaccounted⟩
    · refine ⟨n, _, settled, accepted, .inr ?_⟩
      rw [Bool.not_eq_false', Option.any_eq_true] at unfinished
      obtain ⟨record, there, unfinished⟩ := unfinished
      obtain ⟨i, held, there⟩ := Option.bind_eq_some_iff.mp there
      exact ⟨record, ⟨i, held, there⟩, .inr ⟨rfl, of_decide_eq_true unfinished⟩⟩

theorem Kept.ran (kept : Kept s) (outcome : Outcome υ) (here : s.operations[n]? = some operation)
    (running : operation.stage = .running) : Kept (s.ran addToolUsage n operation outcome) := by
  have moved : Kept (s.withStage n .ending) := kept.withStage here (running.trans_ne Stage.noConfusion) Stage.noConfusion
  have found_ {m : ℕ} {after : Operation} (found : (s.ran addToolUsage n operation outcome).operations[m]? = some after) :
      (s.withStage n .ending).operations[m]? = some after := found
  cases held : operation.record with
  | none =>
    have same : (s.ran addToolUsage n operation outcome).root.calls = s.root.calls := by
      unfold State.ran
      rw [held]
      rfl
    refine ⟨moved.rejected, ?_, moved.apart, ?_, ?_⟩
    · rw [same]
      exact moved.own
    · rw [same]
      exact moved.complete
    · rw [same]
      exact moved.incomplete
  | some i =>
    have changed (k : ℕ) : (s.ran addToolUsage n operation outcome).root.calls[k]?
        = if i = k then (s.root.calls[k]?).map (State.endedRecord outcome) else s.root.calls[k]? := by
      unfold State.ran
      rw [held]
      change (s.root.calls.modify i (State.endedRecord outcome))[k]? = _
      rw [List.getElem?_modify]
      split
      · rfl
      · exact Option.map_id'
    -- a record after the change has the arguments it had, and an end if it had one
    have recordAfter {k : ℕ} {record : Record} (there : s.root.calls[k]? = some record) :
        ∃ after : Record, (s.ran addToolUsage n operation outcome).root.calls[k]? = some after ∧ after.id = record.id
          ∧ after.arguments = record.arguments ∧ (record.status ≠ .unfinished → after.status ≠ .unfinished)
          ∧ (k ≠ i → after.status = record.status) := by
      rw [changed, there]
      split
      · next same =>
        refine ⟨State.endedRecord outcome record, rfl, rfl, rfl, fun _ => ?_, fun other => absurd same.symm other⟩
        unfold State.endedRecord
        dsimp only
        split
        · exact Status.noConfusion
        · exact Status.noConfusion
      · exact ⟨record, rfl, rfl, rfl, id, fun _ => rfl⟩
    refine ⟨moved.rejected, ?_, moved.apart, ?_, ?_⟩
    · intro m after k found owned
      obtain ⟨record, there, named, copied⟩ := moved.own m after k (found_ found) owned
      obtain ⟨changed, there, sameId, sameArguments, _⟩ := recordAfter there
      refine ⟨changed, there, sameId.trans named, ?_⟩
      rw [sameArguments]
      exact copied
    · intro whole m after found accepted
      obtain ⟨record, ⟨k, owned, there⟩, arguments, ended⟩ := moved.complete whole m after (found_ found) accepted
      obtain ⟨changed, there, _, sameArguments, keptEnd, _⟩ := recordAfter there
      refine ⟨changed, ⟨k, owned, there⟩, ?_, fun settled => keptEnd (ended settled)⟩
      rw [sameArguments]
      exact arguments
    · intro broken
      obtain ⟨m, other, there, accepted, unaccounted⟩ := moved.incomplete broken
      refine ⟨m, other, there, accepted, ?_⟩
      rcases unaccounted with none | ⟨record, ⟨k, owned, found⟩, without⟩
      · exact .inl none
      · obtain ⟨changed, after, _, sameArguments, _, sameStatus⟩ := recordAfter found
        refine .inr ⟨changed, ⟨k, owned, after⟩, ?_⟩
        rcases without with without | ⟨settled, unfinished⟩
        · exact .inl (sameArguments.trans without)
        · have other : k ≠ i := by
            rintro rfl
            have own : (s.withStage n .ending).operations[n]? = some { operation with stage := .ending } := by
              rw [operations_withStage, if_pos rfl, here]
              rfl
            obtain rfl := moved.apart m n other _ k there own owned held
            rw [own] at there
            obtain rfl := Option.some.inj there
            cases settled
          exact .inr ⟨settled, (sameStatus other).trans unfinished⟩

theorem Kept.added (kept : Kept s) (added : Operation) (operations : t.operations = s.operations ++ [added])
    (rejected : added.rejected = true → added.stage = .settled)
    (calls : t.root.calls = s.root.calls ∧ added.record = none
      ∨ ∃ record : Record, t.root.calls = s.root.calls ++ [record] ∧ added.record = some s.root.calls.length
        ∧ record.id = added.toolCall.id ∧ ∀ value ∈ record.arguments,
          ∃ arguments, added.toolCall.arguments = some arguments ∧ value = Json.readBack arguments.value)
    (complete : t.root.complete = true → s.root.complete = true ∧ (added.rejected = false → Accounted t.root.calls added))
    (incomplete : t.root.complete = false → s.root.complete = false
      ∨ added.rejected = false ∧ Unaccounted t.root.calls added) : Kept t := by
  have there {m : ℕ} {after : Operation} (found : t.operations[m]? = some after) :
      s.operations[m]? = some after ∨ (m = s.operations.length ∧ after = added) := by
    rw [operations] at found
    exact of_concat found
  -- the records of the operations before are where they were
  have before {i : ℕ} {record : Record} (found : s.root.calls[i]? = some record) : t.root.calls[i]? = some record := by
    rcases calls with ⟨same, _⟩ | ⟨last, longer, _⟩
    · rw [same, found]
    · rw [longer, List.getElem?_append_left (List.getElem?_eq_some_iff.mp found).1, found]
  have of_before {operation : Operation} {record : Record} (of : RecordOf s.root.calls operation record) :
      RecordOf t.root.calls operation record := by
    obtain ⟨i, held, found⟩ := of
    exact ⟨i, held, before found⟩
  -- and none of them is that of the new one
  have other {m i : ℕ} {operation : Operation} (found : s.operations[m]? = some operation) (held : operation.record = some i) :
      added.record ≠ some i := by
    obtain ⟨record, within, _⟩ := kept.own m operation i found held
    rcases calls with ⟨_, without⟩ | ⟨last, _, index, _⟩
    · rw [without]
      exact (Option.some_ne_none i).symm
    · intro same
      obtain rfl := Option.some.inj (index.symm.trans same)
      exact lt_irrefl _ (List.getElem?_eq_some_iff.mp within).1
  refine ⟨?_, ?_, ?_, ?_, ?_⟩
  · intro m after found failed
    rcases there found with found | ⟨_, rfl⟩
    · exact kept.rejected m after found failed
    · exact rejected failed
  · intro m after i found held
    rcases there found with found | ⟨_, rfl⟩
    · obtain ⟨record, within, rest⟩ := kept.own m after i found held
      exact ⟨record, before within, rest⟩
    · rcases calls with ⟨_, without⟩ | ⟨last, longer, index, named, copied⟩
      · rw [held] at without
        cases without
      · obtain rfl := Option.some.inj (index.symm.trans held)
        exact ⟨last, by rw [longer, List.getElem?_concat_length], named, copied⟩
  · intro m k first second i firstFound secondFound firstHeld secondHeld
    rcases there firstFound with firstBefore | ⟨rfl, rfl⟩
    · rcases there secondFound with secondBefore | ⟨rfl, rfl⟩
      · exact kept.apart m k first second i firstBefore secondBefore firstHeld secondHeld
      · exact absurd secondHeld (other firstBefore firstHeld)
    · rcases there secondFound with secondBefore | ⟨rfl, _⟩
      · exact absurd firstHeld (other secondBefore secondHeld)
      · rfl
  · intro whole m after found accepted
    obtain ⟨wholeBefore, last⟩ := complete whole
    rcases there found with found | ⟨_, rfl⟩
    · obtain ⟨record, of, rest⟩ := kept.complete wholeBefore m after found accepted
      exact ⟨record, of_before of, rest⟩
    · exact last accepted
  · intro broken
    rcases incomplete broken with brokenBefore | ⟨accepted, unaccounted⟩
    · obtain ⟨m, operation, found, accepted, unaccounted⟩ := kept.incomplete brokenBefore
      refine ⟨m, operation, ?_, accepted, ?_⟩
      · rw [operations]
        exact concat_of found
      · rcases unaccounted with none | ⟨record, of, rest⟩
        · exact .inl none
        · exact .inr ⟨record, of_before of, rest⟩
    · refine ⟨s.operations.length, added, ?_, accepted, unaccounted⟩
      rw [operations, List.getElem?_concat_length]

/-- An accepted call gets a record of its own, or the root is not complete. -/
theorem Kept.accept (kept : Kept s) {callerId : JsString} {scope : Scope} (toolCall : ToolCall) :
    Kept (s.accept callerId scope toolCall) := by
  have open_ : (if scope.holdsQueue = true then Stage.starting else .queued) ≠ .settled := by
    split
    · exact Stage.noConfusion
    · exact Stage.noConfusion
  unfold State.accept
  split
  · next record root taken =>
    unfold State.recorded at taken
    split at taken
    · obtain ⟨arguments, given, taken⟩ := Option.map_eq_some_iff.mp taken
      dsimp only at taken
      split at taken
      · -- the arguments fit
        obtain ⟨rfl, rfl⟩ := Prod.mk.inj taken
        have copied : Json.parse (Json.stringify arguments.value) = some (Json.readBack arguments.value) :=
          (parse_arguments arguments).1
        refine kept.added _ rfl Bool.noConfusion (.inr ⟨_, rfl, rfl, rfl, ?_⟩) ?_ .inl
        · rintro value held
          rw [Option.mem_def] at held
          exact ⟨arguments, given, Option.some.inj (held.symm.trans copied)⟩
        · refine fun whole => ⟨whole, fun _ => ⟨_, ⟨_, rfl, List.getElem?_concat_length⟩, ?_, fun settled => absurd settled open_⟩⟩
          change (Json.parse (Json.stringify arguments.value)).isSome = true
          rw [copied]
          rfl
      · -- they are only counted
        obtain ⟨rfl, rfl⟩ := Prod.mk.inj taken
        refine kept.added _ rfl Bool.noConfusion (.inr ⟨_, rfl, rfl, rfl, ?_⟩) ?_ ?_
        · rintro value held
          cases held
        · intro whole
          cases whole
        · exact fun _ => .inr ⟨rfl, .inr ⟨_, ⟨_, rfl, List.getElem?_concat_length⟩, .inl rfl⟩⟩
    · -- there is no room
      obtain ⟨rfl, rfl⟩ := Prod.mk.inj (Option.some.inj taken)
      refine kept.added _ rfl Bool.noConfusion (.inl ⟨rfl, rfl⟩) ?_ ?_
      · intro whole
        cases whole
      · exact fun _ => .inr ⟨rfl, .inl rfl⟩
  · exact kept.added _ rfl (fun _ => rfl) (.inl ⟨rfl, rfl⟩) (fun whole => ⟨whole, fun accepted => Bool.noConfusion accepted⟩) .inl

theorem Kept.move (kept : Kept s) (moved : Move addToolUsage s t) : Kept t := by
  cases moved with
  | accept toolCall found accepting longer => exact kept.accept toolCall
  | proceed here queued =>
    have moved : Kept (s.withStage _ .starting) :=
      kept.withStage here (queued.trans_ne Stage.noConfusion) Stage.noConfusion
    exact ⟨moved.rejected, moved.own, moved.apart, moved.complete, moved.incomplete⟩
  | started here starting => exact kept.withStage here (starting.trans_ne Stage.noConfusion) Stage.noConfusion
  | ran outcome here running => exact kept.ran outcome here running
  | settle here open_ =>
    refine kept.settle here (Bool.eq_false_of_not_eq_true fun failed => ?_)
    rw [kept.rejected _ _ here failed] at open_
    rcases open_ with stage | stage | stage
    · cases stage
    · cases stage
    · cases stage
  | forget settled => exact ⟨kept.rejected, kept.own, kept.apart, kept.complete, kept.incomplete⟩
  | foreign => exact ⟨kept.rejected, kept.own, kept.apart, kept.complete, kept.incomplete⟩
  | finish found =>
    unfold State.drain
    split
    · exact ⟨kept.rejected, kept.own, kept.apart, kept.complete, kept.incomplete⟩
    · exact ⟨kept.rejected, kept.own, kept.apart, kept.complete, kept.incomplete⟩
  | drained waiting =>
    unfold State.drain
    split
    · exact ⟨kept.rejected, kept.own, kept.apart, kept.complete, kept.incomplete⟩
    · exact ⟨kept.rejected, kept.own, kept.apart, kept.complete, kept.incomplete⟩

end Records

section Finished

/-- A call is in the list with its arguments, and has ended. -/
def Listed (calls : List Record) (operation : Operation) : Prop :=
  ∃ record arguments, RecordOf calls operation record ∧ record.id = operation.toolCall.id
    ∧ operation.toolCall.arguments = some arguments ∧ record.arguments = some (Json.readBack arguments.value)
    ∧ (record.status = .ok ∨ record.status = .error)

theorem Kept.listed (kept : Kept s) (here : s.operations[n]? = some operation) (settled : operation.stage = .settled)
    (accounted : Accounted s.root.calls operation) : Listed s.root.calls operation := by
  obtain ⟨record, ⟨i, held, found⟩, written, ended⟩ := accounted
  obtain ⟨own, there, named, copied⟩ := kept.own n operation i here held
  obtain rfl := Option.some.inj (found.symm.trans there)
  obtain ⟨value, stored⟩ := Option.isSome_iff_exists.mp written
  obtain ⟨arguments, given, rfl⟩ := copied value stored
  refine ⟨record, arguments, ⟨i, held, found⟩, named, given, stored, ?_⟩
  have finished := ended settled
  cases status : record.status with
  | unfinished => exact absurd status finished
  | ok => exact .inl rfl
  | error => exact .inr rfl

theorem not_listed (calls : List Record) (unaccounted : Unaccounted calls operation) : ¬ Listed calls operation := by
  rintro ⟨record, arguments, ⟨i, held, found⟩, _, _, stored, ended⟩
  rcases unaccounted with none | ⟨other, ⟨k, same, there⟩, without⟩
  · rw [held] at none
    cases none
  · obtain rfl := Option.some.inj (held.symm.trans same)
    obtain rfl := Option.some.inj (found.symm.trans there)
    rcases without with without | ⟨_, unfinished⟩
    · rw [stored] at without
      cases without
    · rw [unfinished] at ended
      rcases ended with ended | ended
      · cases ended
      · cases ended

/-- Nothing of a root that is finished changes, but the set of what it waited for. -/
theorem finished_move (sound : Scoped s) (finished : s.finished.isSome = true) (moved : Move addToolUsage s t) :
    t.operations = s.operations ∧ t.root.calls = s.root.calls ∧ t.root.complete = s.root.complete
      ∧ t.finished = s.finished := by
  obtain ⟨settled, _, waiting⟩ := sound.ended finished
  cases moved with
  | accept toolCall found accepting longer =>
    rw [sound.no_scope finished] at found
    cases found
  | proceed here queued =>
    have stage := settled _ _ here
    rw [queued] at stage
    cases stage
  | started here starting =>
    have stage := settled _ _ here
    rw [starting] at stage
    cases stage
  | ran outcome here running =>
    have stage := settled _ _ here
    rw [running] at stage
    cases stage
  | settle here open_ =>
    rw [settled _ _ here] at open_
    rcases open_ with stage | stage | stage
    · cases stage
    · cases stage
    · cases stage
  | forget settled => exact ⟨rfl, rfl, rfl, rfl⟩
  | foreign => exact ⟨rfl, rfl, rfl, rfl⟩
  | finish found =>
    rw [sound.no_scope finished] at found
    cases found
  | drained draining =>
    rw [waiting] at draining
    cases draining

/-- The result of a root that is finished is what its records say. -/
def Reported (s : State υ) : Prop :=
  ∀ result ∈ s.finished, result.calls = s.root.calls ∧ result.complete = s.root.complete

theorem reported_drain (unfinished : s.finished.isSome = false) : Reported s.drain := by
  unfold State.drain
  split
  · intro result reported
    obtain rfl := Option.some.inj reported
    unfold Result.calls Result.complete State.conclude
    dsimp only
    split
    · exact ⟨rfl, rfl⟩
    · next nothing =>
      rw [not_or, not_not, Bool.not_eq_false] at nothing
      exact ⟨nothing.1.symm, nothing.2.symm⟩
  · intro result reported
    change s.finished = some result at reported
    rw [reported] at unfinished
    cases unfinished

/-- What holds of a root after every run. -/
structure Sound (s : State υ) : Prop where
  owned : Scoped s
  limited : s.root.Limited
  kept : Kept s
  reported : Reported s

theorem sound_opened (id : JsString) : Sound (State.opened id : State υ) where
  owned := scoped_opened id
  limited := ⟨Nat.zero_le _, List.forall_mem_nil _, rfl, Nat.zero_le _⟩
  kept := by
    refine ⟨?_, ?_, ?_, ?_, ?_⟩
    · rintro n operation ⟨⟩
    · rintro n operation i ⟨⟩
    · rintro n m first second i ⟨⟩
    · rintro _ n operation ⟨⟩
    · rintro ⟨⟩
  reported := by rintro result ⟨⟩

theorem Sound.move (sound : Sound s) (moved : Move addToolUsage s t) : Sound t := by
  refine ⟨sound.owned.move moved, limited_move sound.limited moved, sound.kept.move moved, ?_⟩
  cases ended : s.finished.isSome with
  | true =>
    obtain ⟨_, calls, complete, finished⟩ := finished_move sound.owned ended moved
    unfold Reported
    rw [calls, complete, finished]
    exact sound.reported
  | false =>
    -- only the end of `finish` makes a result
    have unfinished (same : t.finished = s.finished) : Reported t := by
      intro result reported
      rw [same.symm.trans reported] at ended
      cases ended
    cases moved with
    | accept toolCall found accepting longer =>
      apply unfinished
      unfold State.accept
      split
      · rfl
      · rfl
    | proceed here queued => exact unfinished rfl
    | started here starting => exact unfinished rfl
    | ran outcome here running => exact unfinished rfl
    | settle here open_ => exact unfinished rfl
    | forget settled => exact unfinished rfl
    | foreign => exact unfinished rfl
    | finish found => exact reported_drain ended
    | drained waiting => exact reported_drain ended

theorem sound_run (addToolUsage : υ → υ → υ) (id : JsString) (events : List (Event υ)) :
    Sound ((State.opened id).run addToolUsage events) :=
  run_keeps (fun _ _ sound moved => sound.move moved) (sound_opened id) events

/-- Once a root is finished, nothing is accepted and its result stays. -/
theorem run_finished (sound : Sound s) (finished : s.finished.isSome = true) (later : List (Event υ)) :
    (s.run addToolUsage later).operations = s.operations ∧ (s.run addToolUsage later).finished = s.finished := by
  have keeps (t u : State υ) (before : Sound t ∧ t.operations = s.operations ∧ t.finished = s.finished)
      (moved : Move addToolUsage t u) : Sound u ∧ u.operations = s.operations ∧ u.finished = s.finished := by
    obtain ⟨soundBefore, operations, same⟩ := before
    rw [← same] at finished
    obtain ⟨sameOperations, _, _, sameFinished⟩ := finished_move soundBefore.owned finished moved
    exact ⟨soundBefore.move moved, sameOperations.trans operations, sameFinished.trans same⟩
  exact (run_keeps keeps ⟨sound, rfl, rfl⟩ later).2

/-- When `finish` is over, all operations of the root have settled and none is accepted any more. Its list is within the limits,
and it is complete exactly if each call that was started is in it with its arguments and its end. -/
theorem finish_accounts (addToolUsage : υ → υ → υ) (id : JsString) (events : List (Event υ)) {result : Result υ}
    (finished : ((State.opened id).run addToolUsage events).finished = some result) :
    (∀ operation ∈ ((State.opened id).run addToolUsage events).operations, operation.stage = .settled)
      ∧ (∀ later, (((State.opened id).run addToolUsage events).run addToolUsage later).operations
          = ((State.opened id).run addToolUsage events).operations
        ∧ (((State.opened id).run addToolUsage events).run addToolUsage later).finished = some result)
      ∧ result.calls.length ≤ maxCalls
      ∧ (∀ record ∈ result.calls, argumentSize record ≤ maxArgumentBytes)
      ∧ (result.calls.map argumentSize).sum ≤ maxTotalArgumentBytes
      ∧ (result.complete = true ↔ ∀ operation ∈ ((State.opened id).run addToolUsage events).operations,
          operation.started → Listed result.calls operation) := by
  have sound := sound_run addToolUsage id events
  generalize (State.opened id).run addToolUsage events = s at finished sound ⊢
  have ended : s.finished.isSome = true := by
    rw [finished]
    rfl
  have settled (n : ℕ) (operation : Operation) (here : s.operations[n]? = some operation) : operation.stage = .settled :=
    (sound.owned.ended ended).1 n operation here
  obtain ⟨calls, complete⟩ := sound.reported result finished
  rw [calls, complete]
  refine ⟨?_, ?_, sound.limited.count, sound.limited.each, ?_, ?_, ?_⟩
  · intro operation member
    obtain ⟨n, here⟩ := List.mem_iff_getElem?.mp member
    exact settled n operation here
  · intro later
    rw [← finished]
    exact run_finished sound ended later
  · rw [sound.limited.total]
    exact sound.limited.bounded
  · intro whole operation member started
    obtain ⟨n, here⟩ := List.mem_iff_getElem?.mp member
    exact sound.kept.listed here (settled n operation here) (sound.kept.complete whole n operation here started.1)
  · intro listed
    by_contra broken
    obtain ⟨n, operation, here, accepted, unaccounted⟩ := sound.kept.incomplete (Bool.eq_false_of_not_eq_true broken)
    have started : operation.started := by
      refine ⟨accepted, ?_⟩
      rw [settled n operation here]
      exact Stage.noConfusion
    exact not_listed _ unaccounted (listed operation (List.mem_iff_getElem?.mpr ⟨n, here⟩) started)

/-- A tool that is called by the root calls another one; both end before `finish` does. -/
def nestedRun : List (Event ℕ) :=
  [.execute (js "a") (js "outer") .undefined trivial, .proceed 0, .started 0 true,
    .execute (js "a/1") (js "inner") .undefined trivial, .finish, .started 1 true,
    .ran 1 (some { isError := false, texts := [], usage := none }), .ended 1 true, .forget 1,
    .ran 0 (some { isError := true, texts := [js "no"], usage := some 3 }), .ended 0 true, .forget 0, .drained]

theorem finish_accounts_nested : ∃ result : Result ℕ,
    ((State.opened (js "a")).run (· + ·) nestedRun).finished = some result ∧ result.calls.length ≤ maxCalls := by
  have finished : ((State.opened (js "a")).run (· + ·) nestedRun).finished = some
      { nestedCalls := some ([
          { id := js "a/1", name := js "outer", status := .error, arguments := some (.obj []), argumentsBytes := none,
            error := some (js "no") },
          { id := js "a/1/1", name := js "inner", status := .ok, arguments := some (.obj []), argumentsBytes := none,
            error := none }], true)
        usage := some 3 } := by decide +kernel
  exact ⟨_, finished, (finish_accounts (· + ·) (js "a") nestedRun finished).2.2.1⟩

end Finished

end PersistentHarness.ToolDispatch
