import Mathlib.Data.List.Induction
import PersistentHarness.Soundness.Cron.Ticks

/-! # Runs of the scheduler

Every step is a sequence of moves, so what each move preserves holds after every run. A condition on
steps is asked of each step of a run in the state that the step meets.
-/

namespace PersistentHarness.Cron

variable {env : Env}

section Steps

variable {origin : Scheduler} {now : ℤ} {op : Op}

theorem request_moves {α : Type} {x : CronResult (Store × α)} (free : RunFree x)
    (move : ∀ store a, x = .ok (store, a) → store = origin.store ∨ Move env origin now op origin [] { origin with store }) :
    Moves env origin now op origin (request origin x).2.emitted (request origin x).1
      ∧ ∀ thrown, (request origin x).2.thrown = some thrown → Throws env origin now op (request origin x).1 thrown := by
  cases x with
  | error e =>
    refine ⟨.nil origin, ?_⟩
    rintro thrown ⟨⟩
    exact throws_of_runFree free rfl
  | ok result =>
    obtain ⟨store, a⟩ := result
    refine ⟨?_, ?_⟩
    · rcases move store a rfl with rfl | moved
      · exact .nil origin
      · exact .single moved
    · rintro thrown ⟨⟩

theorem runNow_moves (s : Scheduler) (now : ℤ) (selector : JsString) :
    Moves env s now (.runNow selector) s (step env s now (.runNow selector)).2.emitted (step env s now (.runNow selector)).1
      ∧ ∀ thrown, (step env s now (.runNow selector)).2.thrown = some thrown →
        Throws env s now (.runNow selector) (step env s now (.runNow selector)).1 thrown := by
  simp only [step]
  unfold runNow
  by_cases room : s.store.countActiveRuns < env.maxParallel
  · rw [Checked.require_of room, Checked.ok_bind]
    cases named : s.store.resolveJob selector false with
    | error e =>
      refine ⟨.nil s, ?_⟩
      rintro thrown ⟨⟩
      exact throws_of_runFree (runFree_resolveJob ..) named
    | ok row =>
      obtain ⟨jobId, job⟩ := row
      obtain ⟨found, live⟩ := resolveJob_eq_ok named
      rw [Checked.ok_bind]
      unfold Store.claimManualRun
      simp only
      rw [found, Option.filter_some, if_pos (by simp [live])]
      simp only
      cases active : s.store.activeRun? jobId with
      | some other =>
        refine ⟨.nil s, ?_⟩
        rintro thrown ⟨⟩
        exact throws_of_runFree (runFree_error (α := Unit) _) rfl
      | none =>
        have idle : s.store.hasActiveRun jobId = false := by
          rw [Store.hasActiveRun, active]
          rfl
        have claim : Claim env s now (.runNow selector) s jobId job (.manual jobId now s.draws) _ _ := .manual rfl live idle room
        simp only
        cases outcome : s.store.insertRun (.manual jobId now s.draws) (Run.claim jobId .manual now now job none) with
        | error e =>
          refine ⟨.nil s, ?_⟩
          rintro thrown ⟨⟩
          exact .refused found claim outcome
        | ok inserted =>
          refine ⟨?_, ?_⟩
          · have moves := Moves.single (.claimed found claim outcome (Store.fresh_of_insertRun outcome))
            have draws : max s.draws (RunId.manual jobId now s.draws).draws = s.draws + 1 := Nat.max_eq_right (Nat.le_succ _)
            rw [draws] at moves
            exact moves
          · rintro thrown ⟨⟩
  · have refused : Checked.require (s.store.countActiveRuns < env.maxParallel)
        (CronError.error (js "cron parallel-run limit is reached")) =
        .error (.error (js "cron parallel-run limit is reached")) := if_neg room
    rw [refused]
    refine ⟨.nil s, ?_⟩
    rintro thrown ⟨⟩
    exact throws_of_runFree (runFree_error (α := Unit) _) rfl

theorem markRunRunning_moves (s : Scheduler) (now : ℤ) (runId : RunId) (dispatch : Store.Dispatch) :
    ∀ store run, s.store.markRunRunning runId dispatch now = .ok (store, run) →
      store = s.store ∨ Move env s now (.markRunRunning runId dispatch) s [] { s with store } := by
  intro store run success
  unfold Store.markRunRunning at success
  split at success
  · cases success
  · next before found =>
    cases success
    obtain ⟨found, claimed⟩ := Option.filter_eq_some_iff.mp found
    exact .inr (.rewritten found (.running (of_decide_eq_true claimed)) ⟨_, _, _, rfl⟩)

theorem finishRun_moves (s : Scheduler) (now : ℤ) (runId : RunId) (status : RunStatus) (output error : Option JsString) :
    ∀ store run, s.store.finishRun runId status output error now = .ok (store, run) →
      store = s.store ∨ Move env s now (.finishRun runId status output error) s [] { s with store } := by
  intro store run success
  obtain ⟨_, terminal, success⟩ := Checked.bind_eq_ok.mp success
  have terminal := Checked.require_eq_ok.mp terminal
  split at success
  · cases success
    exact .inl rfl
  · next before found =>
    cases success
    obtain ⟨found, active⟩ := Option.filter_eq_some_iff.mp found
    exact .inr (.rewritten found (.finished active terminal.1) ⟨_, _, _, rfl⟩)

theorem reportNotification_moves (s : Scheduler) (now : ℤ) (op : Op) (runId : RunId) (sessionId : JsString)
    (disposition : Disposition) (body : Option JsString) :
    ∀ store run, s.store.reportNotification runId sessionId disposition body now = .ok (store, run) →
      store = s.store ∨ Move env s now op s [] { s with store } := by
  intro store run success
  obtain ⟨_, _, success⟩ := Checked.bind_eq_ok.mp success
  split at success
  · cases success
  · obtain ⟨_, _, success⟩ := Checked.bind_eq_ok.mp success
    split at success
    · obtain ⟨_, _, done⟩ := Checked.bind_eq_ok.mp success
      cases done
      exact .inl rfl
    · obtain ⟨_, _, done⟩ := Checked.bind_eq_ok.mp success
      cases done
      exact .inr (.noted fun _ => rfl)

theorem runFree_reportNotification (store : Store) (runId : RunId) (sessionId : JsString) (disposition : Disposition)
    (body : Option JsString) (now : ℤ) : RunFree (store.reportNotification runId sessionId disposition body now) := by
  unfold Store.reportNotification
  refine .bind (.require (runFree_error _)) fun _ => ?_
  split
  · exact runFree_error _
  · refine .bind (.require (runFree_error _)) fun _ => ?_
    split
    · exact .bind (.require (runFree_error _)) fun _ => runFree_pure _
    · exact .bind (.require (runFree_error _)) fun _ => runFree_pure _

theorem runFree_finishRun (store : Store) (runId : RunId) (status : RunStatus) (output error : Option JsString) (now : ℤ) :
    RunFree (store.finishRun runId status output error now) := by
  unfold Store.finishRun
  refine .bind (.require (runFree_error _)) fun _ => ?_
  split <;> simp

theorem runFree_markRunRunning (store : Store) (runId : RunId) (dispatch : Store.Dispatch) (now : ℤ) :
    RunFree (store.markRunRunning runId dispatch now) := by
  unfold Store.markRunRunning
  split <;> simp

/-- A step that threw nothing needs no reason. -/
private theorem calm {s : Scheduler} : ∀ thrown, Effect.quiet.thrown = some thrown → Throws env origin now op s thrown := by
  rintro thrown ⟨⟩

theorem step_moves (env : Env) (s : Scheduler) (now : ℤ) (op : Op) :
    Moves env s now op s (step env s now op).2.emitted (step env s now op).1
      ∧ ∀ thrown, (step env s now op).2.thrown = some thrown → Throws env s now op (step env s now op).1 thrown := by
  cases op with
  | create origin originSessionId params jobId initiallyPaused draw =>
    refine request_moves (runFree_create ..) fun store job success => ?_
    rcases create_eq_ok success with same | ⟨newId, jobs, inserted, fresh, rfl⟩
    · exact .inl same
    · exact .inr (.created inserted fresh)
  | update selector patch =>
    refine request_moves (runFree_update ..) fun store job success => ?_
    obtain ⟨jobId, current, new, columns, named, computed, rfl⟩ := update_eq_ok success
    obtain ⟨found, live⟩ := resolveJob_eq_ok named
    exact .inr (.changed found (.edited rfl named live computed ⟨_, success⟩) rfl)
  | pause selector =>
    refine request_moves (.bind (runFree_resolveJob ..) fun _ => runFree_changeJob ..) fun store job success => ?_
    obtain ⟨⟨jobId, _⟩, _, success⟩ := Checked.bind_eq_ok.mp success
    obtain ⟨before, found, scheduled, rfl⟩ := changeJob_eq_ok success
    exact .inr (.changed found (.paused rfl (of_decide_eq_true scheduled)) rfl)
  | resume selector expectedJob =>
    refine request_moves (runFree_resume ..) fun store job success => ?_
    obtain ⟨jobId, current, time, named, paused, computed, rfl⟩ := resume_eq_ok success
    exact .inr (.changed (resolveJob_eq_ok named).1 (.resumed rfl named paused computed) rfl)
  | remove selector =>
    refine request_moves (.bind (runFree_resolveJob ..) fun _ => runFree_changeJob ..) fun store job success => ?_
    obtain ⟨⟨jobId, _⟩, _, success⟩ := Checked.bind_eq_ok.mp success
    obtain ⟨before, found, _, rfl⟩ := changeJob_eq_ok success
    exact .inr (.changed found (.removed rfl) rfl)
  | runNow selector => exact runNow_moves s now selector
  | tick => exact tick_moves env s now
  | checkFinished jobId result =>
    simp only [step]
    split
    · next check found =>
      have holds := List.find?_some found
      simp only [decide_eq_true_eq] at holds
      obtain ⟨rfl, unfinished⟩ := holds
      refine ⟨.single (.checkFinished rfl (List.mem_of_find?_eq_some found) unfinished rfl), ?_⟩
      rintro thrown ⟨⟩
    · exact ⟨.nil s, calm⟩
  | checkSettled jobId => exact ⟨.single (.idle List.filter_sublist), calm⟩
  | markRunRunning runId dispatch => exact request_moves (runFree_markRunRunning ..) (markRunRunning_moves s now runId dispatch)
  | finishRun runId status output error =>
    exact request_moves (runFree_finishRun ..) (finishRun_moves s now runId status output error)
  | reportNotification runId sessionId disposition body =>
    exact request_moves (runFree_reportNotification ..) (reportNotification_moves s now _ runId sessionId disposition body)
  | notificationRecorded runId => exact ⟨.single (.noted fun _ => rfl), calm⟩
  | start =>
    simp only [step]
    split
    · exact ⟨.single (.reconciled rfl), calm⟩
    · exact ⟨.nil s, calm⟩
  | stop => exact ⟨.single (.idle (List.Sublist.refl _)), calm⟩
  | restart => exact ⟨.single (.idle (List.nil_sublist _)), calm⟩

end Steps

section Runs

theorem run_concat (env : Env) (events : List (ℤ × Op)) (event : ℤ × Op) :
    run env (events ++ [event]) = (step env (run env events) event.1 event.2).1 := List.foldl_concat ..

/-- Every step of a run meets a condition in the state before it. -/
def Meets (env : Env) (condition : Scheduler → ℤ → Op → Prop) (events : List (ℤ × Op)) : Prop :=
  ∀ first now op later, events = first ++ (now, op) :: later → condition (run env first) now op

variable {condition : Scheduler → ℤ → Op → Prop}

theorem meets_nil : Meets env condition [] := by
  intro first now op later split
  simp at split

theorem meets_concat {events : List (ℤ × Op)} {event : ℤ × Op} :
    Meets env condition (events ++ [event]) ↔ Meets env condition events ∧ condition (run env events) event.1 event.2 := by
  constructor
  · intro meets
    refine ⟨fun first now op later split => ?_, meets events event.1 event.2 [] rfl⟩
    exact meets first now op (later ++ [event]) (by rw [split, List.append_assoc, List.cons_append])
  · rintro ⟨meets, last⟩ first now op later split
    rcases List.eq_nil_or_concat later with rfl | ⟨later, final, rfl⟩
    · obtain ⟨rfl, same⟩ := List.append_inj' split rfl
      cases same
      exact last
    · rw [List.concat_eq_append, ← List.cons_append, ← List.append_assoc] at split
      obtain ⟨rfl, _⟩ := List.append_inj' split rfl
      exact meets first now op later rfl

theorem Meets.initial {first later : List (ℤ × Op)} (meets : Meets env condition (first ++ later)) :
    Meets env condition first := by
  intro early now op rest split
  exact meets early now op (rest ++ later) (by rw [split, List.append_assoc, List.cons_append])

/-- The invariant rule: what every move of an admissible step preserves holds after every admissible run. -/
theorem run_invariant {P : Scheduler → Prop} (start : P .initial)
    (keeps : ∀ origin now op, condition origin now op → P origin → ∀ s emitted t, Move env origin now op s emitted t → P s → P t)
    {events : List (ℤ × Op)} (meets : Meets env condition events) : P (run env events) := by
  induction events using List.reverseRec with
  | nil => exact start
  | append_singleton events event ih =>
    obtain ⟨earlier, last⟩ := meets_concat.mp meets
    have before := ih earlier
    rw [run_concat]
    exact (step_moves env (run env events) event.1 event.2).1.preserves (keeps _ _ _ last before) before

end Runs

end PersistentHarness.Cron
