import Mathlib.Data.List.Induction
import PersistentHarness.Soundness.SkillGrants.Moves

/-! # Grants and their files

A reconciliation that returns leaves the stored grant and two files that list it, unless an earlier one was cut off
after it had stored a grant: the later one finds the grant unchanged and does not write the capabilities.
-/

namespace PersistentHarness.SkillGrants

variable {resolve : JsString → JsString}

/-! ## Steps -/

section Steps

variable {s : System resolve} {n : ℕ} {run : Reconciliation resolve} {rest : List (Reconciliation resolve)}

theorem setSessionSkillGrant_eq {t : System resolve} {id : JsString} {skills : List (Skill resolve)}
    (stored : s.setSessionSkillGrant id skills = .ok t) :
    t = { s with grants := s.grants.upsert id skills fun _ => skills } := by
  unfold System.setSessionSkillGrant at stored
  split at stored
  · cases stored
  obtain ⟨_, _, stored⟩ := Checked.bind_eq_ok.mp stored
  obtain ⟨_, _, stored⟩ := Checked.bind_eq_ok.mp stored
  obtain ⟨_, _, stored⟩ := Checked.bind_eq_ok.mp stored
  exact (Except.ok.inj stored).symm

theorem get?_granted {α : Type*} (grants : Table JsString α) (id other : JsString) (skills : α) :
    (grants.upsert id skills fun _ => skills).get? other = if id = other then some skills else grants.get? other := by
  rw [Table.get?_upsert]
  simp only [eq_comm (a := other)]
  cases grants.get? id <;> rfl

/-- A reconciliation that learns its skills stores them, finds them stored, or is over. -/
inductive Settling (s : System resolve) (n : ℕ) (run : Reconciliation resolve) (rest : List (Reconciliation resolve))
    (skills : List (Skill resolve)) : System resolve → Prop
  | refused : Settling s n run rest skills (s.drop n)
  | settled {changed : Bool} (grants : Table JsString (List (Skill resolve)))
      (stored : ∀ id, grants.get? id = if run.sessionId = id then some skills else s.grants.get? id)
      (kept : changed = false → s.grants.get? run.sessionId = some skills) :
      Settling s n run rest skills ({ s with grants }.setCall n ({ run with stage := .reading skills changed } :: rest))

theorem settle_cases (skills : List (Skill resolve)) (known : run.previous = s.grants.get? run.sessionId) :
    Settling s n run rest skills (s.settle n run rest skills) := by
  unfold System.settle
  dsimp only
  split
  · split
    next stored =>
      obtain rfl := setSessionSkillGrant_eq stored
      exact .settled _ (get?_granted _ _ · _) nofun
    next => exact .refused
  next unchanged =>
    have found : s.grants.get? run.sessionId = some skills := by
      rw [known] at unchanged
      cases before : s.grants.get? run.sessionId with
      | none => simp [before] at unchanged
      | some previous =>
        simp only [before, Option.all_some, decide_eq_true_eq, Bool.not_eq_false] at unchanged
        rw [sameSkillCatalog_iff.mp unchanged]
    refine .settled s.grants (fun id => ?_) fun _ => found
    split
    next same => rw [← same, found]
    next => rfl

theorem not_behind_of_unchanged (unchanged : run.stage.changed = none) : ¬ Behind s run := by
  rintro ⟨skills, changed, -⟩
  rw [unchanged] at changed
  cases changed

/-- A call is over when its first reconciliation is; the others have not settled. -/
theorem Sound.dropped (sound : Sound s) (found : s.calls[n]? = some (run :: rest)) (done : ¬ Behind s run) :
    Move s (s.drop n) := by
  refine .dropped found fun other within => ?_
  rcases List.mem_cons.mp within with rfl | later
  · exact done
  · obtain ⟨parentId, waits⟩ := sound.waiting found later
    exact not_behind_of_waiting waits

theorem Settling.move {skills : List (Skill resolve)} {t : System resolve} (settling : Settling s n run rest skills t)
    (sound : Sound s) (found : s.calls[n]? = some (run :: rest)) (waits : run.stage.skills = none) : Move s t := by
  cases settling with
  | refused => exact sound.dropped found (not_behind_of_unchanged (Stage.changed_of_skills waits))
  | settled _ stored kept => exact .settled found waits stored kept

/-- The first of a call is over: the next one goes on, or the call is over too. -/
theorem finish_moves {skills : List (Skill resolve)} (changed valid : Bool) (sound : Sound s)
    (found : s.calls[n]? = some (run :: rest)) (done : ¬ Behind s run) :
    Relation.ReflTransGen Move s (s.finish n run rest skills changed valid).1 := by
  have gone := sound.dropped found done
  cases rest with
  | nil => exact .single gone
  | cons waiting rest =>
    cases valid with
    | false => exact .single gone
    | true =>
      have returned : Move s (s.setCall n (waiting :: rest)) := .returned found done
      have popped : (s.setCall n (waiting :: rest)).calls[n]? = some (waiting :: rest) :=
        List.getElem?_set_self (List.getElem?_eq_some_iff.mp found).1
      obtain ⟨parentId, waits⟩ := sound.waiting found List.mem_cons_self
      have unsettled : waiting.stage.skills = none := by rw [waits]; rfl
      have sound' : Sound (s.setCall n (waiting :: rest)) := returned.sound sound
      have settling : Settling (s.setCall n (waiting :: rest)) n waiting rest skills
          (s.finish n run (waiting :: rest) skills changed true).1 :=
        settle_cases skills ((sound'.head popped).previous unsettled)
      exact .tail (.single returned) (settling.move sound' popped unsettled)

/-- A fault does not cut off a reconciliation whose changed grant the capabilities sidecar does not list yet. -/
def Finishes (s : System resolve) : Event resolve → Prop
  | .fail n => ∀ run rest, s.calls[n]? = some (run :: rest) → ¬ Behind s run
  | .crash => ∀ run ∈ s.calls.flatten, ¬ Behind s run
  | _ => True

theorem drop_none (outside : s.calls[n]? = none) : s.drop n = s := by
  unfold System.drop
  rw [List.eraseIdx_of_length_le (List.getElem?_eq_none_iff.mp outside)]

theorem fail_moves (sound : Sound s) (finishes : Finishes s (.fail n)) :
    Relation.ReflTransGen Move s (s.drop n) := by
  cases found : s.calls[n]? with
  | none => rw [drop_none found]
  | some call =>
    cases call with
    | nil => exact .single (.dropped found nofun)
    | cons run rest => exact .single (sound.dropped found (finishes run rest found))

theorem start_id {sessionId : JsString} (begins : s.start sessionId = .ok run) : run.sessionId = sessionId :=
  (Held.starts begins).1

theorem step_moves (event : Event resolve) (sound : Sound s) (finishes : Finishes s event) :
    Relation.ReflTransGen Move s (step s event).1 := by
  cases event with
  | store env now observer op => exact .single (.store _)
  | reconcile sessionId =>
    simp only [step]
    split
    · exact .refl
    next fresh =>
      split
      next run begins =>
        obtain rfl := start_id begins
        exact .single (.opened (Bool.eq_false_iff.mpr fresh) begins)
      · exact .refl
  | inherit n =>
    simp only [step]
    split
    next run rest found =>
      split
      next parentId waits =>
        have gone := sound.dropped found (not_behind_of_waiting waits)
        split
        · exact .single gone
        · split
          · exact .refl
          next fresh =>
            split
            next parent begins =>
              obtain rfl := start_id begins
              exact .single (.pushed found waits (Bool.eq_false_iff.mpr fresh) begins)
            · exact .single gone
      · exact .refl
    · exact .refl
  | select n disk =>
    simp only [step]
    split
    next run rest found =>
      split
      next selects =>
        have waits : run.stage.skills = none := by rw [selects]; rfl
        have known := (sound.head found).previous waits
        split
        next skills _ => exact .single ((settle_cases skills known).move sound found waits)
        · exact .single ((Settling.refused : Settling s n _ rest [] _).move sound found waits)
      · exact .refl
    · exact .refl
  | read n readable valid =>
    simp only [step]
    split
    next run rest found =>
      split
      next skills changed reads =>
        split
        · exact .single (.looked found reads)
        next current =>
          have unchanged : changed = false := by
            cases changed
            · rfl
            · simp at current
          refine finish_moves false valid sound found (not_behind_of_unchanged ?_)
          rw [reads, unchanged]
          rfl
      · exact .refl
    · exact .refl
  | write n valid =>
    simp only [step]
    split
    next run rest found =>
      split
      next skills changed writes =>
        have wrote := Move.granted found writes (some ⟨1, skills, some (executableCapabilities skills)⟩)
        split
        next is_changed =>
          rw [is_changed] at writes
          exact .tail (.single wrote) (.advanced found writes (Function.update_self _ _ _))
        next unchanged =>
          refine .head wrote (finish_moves false valid (wrote.sound sound) found (not_behind_of_unchanged ?_))
          rw [writes, Bool.eq_false_iff.mpr unchanged]
          rfl
      next skills writes =>
        have wrote := Move.enabled found writes
        refine .head wrote (finish_moves true valid (wrote.sound sound) found ?_)
        rintro ⟨skills', changed, missing⟩
        rw [writes] at changed
        cases changed
        exact missing (Function.update_self _ _ _)
      · exact .refl
    · exact .refl
  | fail n => exact fail_moves sound finishes
  | crash => exact .single (.crashed finishes)

/-- The grant a reconciliation has settled is its parent's at that moment, or the catalog that a root selects. -/
structure Taken (t : System resolve) (event : Event resolve) (run : Reconciliation resolve)
    (skills : List (Skill resolve)) : Prop where
  stored : t.grants.get? run.sessionId = some skills
  inherited : ∀ parentId, run.parentId = some parentId → t.grants.get? parentId = some skills
  selected : run.parentId = none →
    ∃ n disk, event = .select n disk ∧ rootSkillCatalog run.previous disk = some skills

/-- Every reconciliation that has settled had settled before the step, or the step has settled it. -/
def Settles (s t : System resolve) (event : Event resolve) : Prop :=
  ∀ run ∈ t.calls.flatten, ∀ skills, run.stage.skills = some skills →
    (∃ before ∈ s.calls.flatten,
        before.sessionId = run.sessionId ∧ before.parentId = run.parentId ∧ before.stage.skills = some skills)
      ∨ Taken t event run skills

section Settled

variable {t u : System resolve} {event : Event resolve}

theorem Settles.of_calls (calls : ∀ run ∈ t.calls.flatten, run.stage.skills ≠ none →
    ∃ before ∈ s.calls.flatten,
      before.sessionId = run.sessionId ∧ before.parentId = run.parentId ∧ before.stage.skills = run.stage.skills) :
    Settles s t event := by
  intro run within skills settled
  have some_skills : run.stage.skills ≠ none := by rw [settled]; nofun
  obtain ⟨before, before_mem, same, parent, kept⟩ := calls run within some_skills
  exact .inl ⟨before, before_mem, same, parent, kept.trans settled⟩

theorem Settles.dropped : Settles s (s.drop n) event :=
  .of_calls fun run within _ => by
    obtain ⟨call, call_mem, run_mem⟩ := List.mem_flatten.mp within
    exact ⟨run, List.mem_flatten.mpr ⟨call, List.mem_of_mem_eraseIdx call_mem, run_mem⟩, rfl, rfl, rfl⟩

theorem Settles.proceeds {next : Reconciliation resolve} (found : s.calls[n]? = some (run :: rest))
    (same : next.sessionId = run.sessionId) (parent : next.parentId = run.parentId)
    (kept : next.stage.skills = run.stage.skills) : Settles s (s.setCall n (next :: rest)) event :=
  .of_calls fun other within _ => by
    rcases (mem_setCall found).mp within with here | elsewhere
    · rcases List.mem_cons.mp here with rfl | later
      · exact ⟨run, (mem_calls found).mpr (.inl List.mem_cons_self), same.symm, parent.symm, kept.symm⟩
      · exact ⟨other, (mem_calls found).mpr (.inl (List.mem_cons_of_mem _ later)), rfl, rfl, rfl⟩
    · exact ⟨other, (mem_calls found).mpr (.inr elsewhere), rfl, rfl, rfl⟩

theorem Settling.settles {skills : List (Skill resolve)} (settling : Settling s n run rest skills t)
    (found : s.calls[n]? = some (run :: rest))
    (inherited : ∀ parentId, run.parentId = some parentId →
      parentId ≠ run.sessionId ∧ s.grants.get? parentId = some skills)
    (selected : run.parentId = none →
      ∃ n disk, event = .select n disk ∧ rootSkillCatalog run.previous disk = some skills) :
    Settles s t event := by
  cases settling with
  | refused => exact .dropped
  | @settled changed grants stored kept =>
    intro other within skills' settled
    rcases (mem_setCall (s := { s with grants }) found).mp within with here | elsewhere
    · rcases List.mem_cons.mp here with rfl | later
      · cases settled
        refine .inr ⟨(stored run.sessionId).trans (if_pos rfl), fun parentId parent => ?_, selected⟩
        obtain ⟨different, held⟩ := inherited parentId parent
        exact (stored parentId).trans ((if_neg (Ne.symm different)).trans held)
      · exact .inl ⟨other, (mem_calls found).mpr (.inl (List.mem_cons_of_mem _ later)), rfl, rfl, settled⟩
    · exact .inl ⟨other, (mem_calls found).mpr (.inr elsewhere), rfl, rfl, settled⟩

theorem finish_settles {skills : List (Skill resolve)} (changed valid : Bool) (sound : Sound s)
    (found : s.calls[n]? = some (run :: rest)) (settled : run.stage.skills = some skills) :
    Settles s (s.finish n run rest skills changed valid).1 event := by
  cases rest with
  | nil => exact .dropped
  | cons waiting rest =>
    cases valid with
    | false => exact .dropped
    | true =>
      have popped : (s.setCall n (waiting :: rest)).calls[n]? = some (waiting :: rest) :=
        List.getElem?_set_self (List.getElem?_eq_some_iff.mp found).1
      have waits : waiting.stage = .inheriting run.sessionId := (List.isChain_cons_cons.mp (sound.chain found)).1
      have held : Held s waiting := sound.held waiting ((mem_calls found).mpr (.inl (by simp)))
      have parent := held.child run.sessionId waits
      have stored := (sound.head found).stored skills settled
      have different := sound.alone found (.inl List.mem_cons_self)
      have unsettled : waiting.stage.skills = none := by rw [waits]; rfl
      have settling : Settling (s.setCall n (waiting :: rest)) n waiting rest skills
          (s.finish n run (waiting :: rest) skills changed true).1 :=
        settle_cases skills (held.previous unsettled)
      have settles : Settles (s.setCall n (waiting :: rest)) (s.finish n run (waiting :: rest) skills changed true).1
          event := by
        refine settling.settles popped (fun parentId same => ?_) fun orphan => ?_
        · rw [parent] at same
          cases same
          exact ⟨Ne.symm different, stored⟩
        · rw [parent] at orphan
          cases orphan
      intro other within skills' settled'
      rcases settles other within skills' settled' with ⟨before, before_mem, same⟩ | taken
      · refine .inl ⟨before, (mem_calls found).mpr ?_, same⟩
        exact ((mem_setCall found).mp before_mem).imp (List.mem_cons_of_mem _) id
      · exact .inr taken

theorem Settles.refl : Settles s s event := .of_calls fun run within _ => ⟨run, within, rfl, rfl, rfl⟩

theorem step_settles (event : Event resolve) (sound : Sound s) : Settles s (step s event).1 event := by
  cases event with
  | store env now observer op => exact .of_calls fun run within _ => ⟨run, within, rfl, rfl, rfl⟩
  | reconcile sessionId =>
    simp only [step]
    split
    · exact .refl
    · split
      next run begins =>
        refine .of_calls fun other within settled => ?_
        simp only [List.flatten_append, List.flatten_singleton, List.mem_append, List.mem_singleton] at within
        rcases within with earlier | rfl
        · exact ⟨other, earlier, rfl, rfl, rfl⟩
        · exact absurd (Held.starts begins).2.1 settled
      · exact .refl
  | inherit n =>
    simp only [step]
    split
    next run rest found =>
      split
      · split
        · exact .dropped
        · split
          · exact .refl
          · split
            next parent begins =>
              refine .of_calls fun other within settled => ?_
              rcases (mem_setCall found).mp within with here | elsewhere
              · rcases List.mem_cons.mp here with rfl | later
                · exact absurd (Held.starts begins).2.1 settled
                · exact ⟨other, (mem_calls found).mpr (.inl later), rfl, rfl, rfl⟩
              · exact ⟨other, (mem_calls found).mpr (.inr elsewhere), rfl, rfl, rfl⟩
            · exact .dropped
      · exact .refl
    · exact .refl
  | select n disk =>
    simp only [step]
    split
    next run rest found =>
      split
      next selects =>
        have held := sound.head found
        have waits : run.stage.skills = none := by rw [selects]; rfl
        split
        next skills catalog =>
          refine (settle_cases skills (held.previous waits)).settles found (fun parentId same => ?_) fun _ => ?_
          · rw [held.root selects] at same
            cases same
          · exact ⟨n, disk, rfl, catalog⟩
        · exact .dropped
      · exact .refl
    · exact .refl
  | read n readable valid =>
    simp only [step]
    split
    next run rest found =>
      split
      next skills changed reads =>
        have settled : run.stage.skills = some skills := by rw [reads]; rfl
        split
        · exact .proceeds found rfl rfl (by rw [settled]; rfl)
        · exact finish_settles false valid sound found settled
      · exact .refl
    · exact .refl
  | write n valid =>
    simp only [step]
    split
    next run rest found =>
      split
      next skills changed writes =>
        have settled : run.stage.skills = some skills := by rw [writes]; rfl
        have wrote := Move.granted found writes (some ⟨1, skills, some (executableCapabilities skills)⟩)
        split
        · exact .proceeds found rfl rfl (by rw [settled]; rfl)
        · exact finish_settles false valid (wrote.sound sound) found settled
      next skills writes =>
        have settled : run.stage.skills = some skills := by rw [writes]; rfl
        exact finish_settles true valid ((Move.enabled found writes).sound sound) found settled
      · exact .refl
    · exact .refl
  | fail n => exact .dropped
  | crash => exact .of_calls nofun

end Settled

/-! ## What a reconciliation returns -/

/-- The stored grant is what the reconciliation returns, and the two files list it. -/
structure Paired (t : System resolve) (result : Reconciled resolve) : Prop where
  stored : t.grants.get? result.sessionId = some result.skills
  granted : ∃ file, t.grantSidecars result.sessionId = some file ∧ file.version = 1 ∧ file.skills = result.skills
    ∧ file.capabilities.getD [] = executableCapabilities result.skills
  enabled : t.capabilitiesSidecars result.sessionId = some ⟨1, executableCapabilities result.skills⟩
  returned : result.capabilities = executableCapabilities result.skills

/-- The reconciliation that returns a result had settled before. -/
def Returned (s : System resolve) (result : Reconciled resolve) : Prop :=
  ∃ run ∈ s.calls.flatten, run.sessionId = result.sessionId ∧ run.parentId = result.parentId
    ∧ run.stage.skills = some result.skills

section Results

variable {t : System resolve} {skills : List (Skill resolve)} {result : Reconciled resolve}

theorem Settling.keeps {id : JsString} (settling : Settling s n run rest skills t) (different : run.sessionId ≠ id) :
    t.grants.get? id = s.grants.get? id ∧ t.grantSidecars = s.grantSidecars
      ∧ t.capabilitiesSidecars = s.capabilitiesSidecars := by
  cases settling with
  | refused => exact ⟨rfl, rfl, rfl⟩
  | settled _ stored kept => exact ⟨(stored id).trans (if_neg different), rfl, rfl⟩

/-- Whoever waits for a reconciliation settles without touching what that one has stored. -/
theorem finish_keeps (skills : List (Skill resolve)) (changed valid : Bool) (sound : Sound s) (found : s.calls[n]? = some (run :: rest)) :
    (s.finish n run rest skills changed valid).1.grants.get? run.sessionId = s.grants.get? run.sessionId
      ∧ (s.finish n run rest skills changed valid).1.grantSidecars = s.grantSidecars
      ∧ (s.finish n run rest skills changed valid).1.capabilitiesSidecars = s.capabilitiesSidecars := by
  cases rest with
  | nil => exact ⟨rfl, rfl, rfl⟩
  | cons waiting rest =>
    cases valid with
    | false => exact ⟨rfl, rfl, rfl⟩
    | true =>
      have held : Held s waiting := sound.held waiting ((mem_calls found).mpr (.inl (by simp)))
      obtain ⟨parentId, waits⟩ := sound.waiting found List.mem_cons_self
      have unsettled : waiting.stage.skills = none := by rw [waits]; rfl
      have different := sound.alone found (.inl List.mem_cons_self)
      have settling : Settling (s.setCall n (waiting :: rest)) n waiting rest skills
          (s.finish n run (waiting :: rest) skills changed true).1 :=
        settle_cases skills (held.previous unsettled)
      exact settling.keeps different

theorem finish_returns {changed valid : Bool} (returns : (s.finish n run rest skills changed valid).2 = some result) :
    result = ⟨run.sessionId, run.parentId, skills, executableCapabilities skills, changed⟩ := by
  cases rest <;> exact (Option.some.inj returns).symm

theorem finish_paired {changed valid : Bool} (sound : Sound s) (found : s.calls[n]? = some (run :: rest))
    (settled : run.stage.skills = some skills)
    (granted : ∃ file, s.grantSidecars run.sessionId = some file ∧ file.version = 1 ∧ file.skills = skills
      ∧ file.capabilities.getD [] = executableCapabilities skills)
    (enabled : s.capabilitiesSidecars run.sessionId = some ⟨1, executableCapabilities skills⟩)
    (returns : (s.finish n run rest skills changed valid).2 = some result) :
    Paired (s.finish n run rest skills changed valid).1 result ∧ Returned s result := by
  obtain rfl := finish_returns returns
  obtain ⟨grants, grantFiles, capabilityFiles⟩ := finish_keeps skills changed valid sound found
  refine ⟨?_, run, (mem_calls found).mpr (.inl List.mem_cons_self), rfl, rfl, settled⟩
  constructor
  · exact grants.trans ((sound.head found).stored skills settled)
  · rw [grantFiles]
    exact granted
  · rw [capabilityFiles]
    exact enabled
  · rfl

/-- A session's reconciliation that has changed nothing finds its capabilities listed. -/
theorem Enabled.unchanged (enabled : Enabled s) (sound : Sound s) (found : s.calls[n]? = some (run :: rest))
    (settled : run.stage.skills = some skills) (unchanged : run.stage.changed = none) :
    s.capabilitiesSidecars run.sessionId = some ⟨1, executableCapabilities skills⟩ := by
  have stored := (sound.head found).stored skills settled
  rcases enabled run.sessionId skills stored with listed | ⟨other, within, same, stage⟩
  · exact listed
  · rcases (mem_calls found).mp within with here | elsewhere
    · rcases List.mem_cons.mp here with rfl | later
      · rw [unchanged] at stage
        cases stage
      · exact absurd same (sound.alone found (.inl later))
    · exact absurd same (sound.alone found (.inr elsewhere))

theorem grantSidecarCurrent_iff {persisted : Option (GrantSidecar resolve)} :
    grantSidecarCurrent persisted skills = true ↔
      ∃ file, persisted = some file ∧ file.version = 1 ∧ file.skills = skills
        ∧ file.capabilities.getD [] = executableCapabilities skills := by
  simp only [grantSidecarCurrent, Option.any_eq_true, decide_eq_true_eq, sameSkillCatalog_iff,
    List.map_injective_iff.mpr backed_injective |>.eq_iff]

theorem step_paired {event : Event resolve} (sound : Sound s) (enabled : Enabled s) :
    (step s event).2 = some result → Paired (step s event).1 result ∧ Returned s result := by
  cases event with
  | store env now observer op => exact nofun
  | reconcile sessionId =>
    simp only [step]
    split
    · exact nofun
    · split <;> exact nofun
  | inherit n =>
    simp only [step]
    split
    · split
      · split
        · exact nofun
        · split
          · exact nofun
          · split <;> exact nofun
      · exact nofun
    · exact nofun
  | select n disk =>
    simp only [step]
    split
    · split
      · split <;> exact nofun
      · exact nofun
    · exact nofun
  | read n readable valid =>
    simp only [step]
    split
    next run rest found =>
      split
      next skills changed reads =>
        split
        · exact nofun
        next unneeded =>
          simp only [Bool.or_eq_true, Bool.not_eq_true', not_or, Bool.not_eq_false, Bool.and_eq_true] at unneeded
          obtain ⟨unchanged, -, current⟩ := unneeded
          rw [Bool.eq_false_iff.mpr unchanged] at reads
          have settled : run.stage.skills = some skills := by rw [reads]; rfl
          have listed := enabled.unchanged sound found settled (by rw [reads]; rfl)
          exact finish_paired sound found settled (grantSidecarCurrent_iff.mp current) listed
      · exact nofun
    · exact nofun
  | write n valid =>
    simp only [step]
    split
    next run rest found =>
      split
      next skills changed writes =>
        have settled : run.stage.skills = some skills := by rw [writes]; rfl
        have wrote := Move.granted found writes (some ⟨1, skills, some (executableCapabilities skills)⟩)
        split
        · exact nofun
        next unchanged =>
          rw [Bool.eq_false_iff.mpr unchanged] at writes
          have listed := enabled.unchanged sound found settled (by rw [writes]; rfl)
          refine finish_paired (wrote.sound sound) found settled
            ⟨⟨1, skills, some (executableCapabilities skills)⟩, ?_, rfl, rfl, rfl⟩ listed
          exact Function.update_self _ _ _
      next skills writes =>
        have settled : run.stage.skills = some skills := by rw [writes]; rfl
        refine finish_paired ((Move.enabled found writes).sound sound) found settled
          ⟨⟨1, skills, some (executableCapabilities skills)⟩, ?_, rfl, rfl, rfl⟩ ?_
        · exact (sound.head found).written skills writes
        · exact Function.update_self _ _ _
      · exact nofun
    · exact nofun
  | fail n => exact nofun
  | crash => exact nofun

end Results

end Steps

/-! ## Runs -/

/-- No step replaces a parent's stored grant while a reconciliation of its child has taken the old one and has not
returned. -/
def Undisturbed (s : System resolve) (event : Event resolve) : Prop :=
  ∀ run ∈ s.calls.flatten, run.stage.skills ≠ none → ∀ parentId, run.parentId = some parentId →
    (step s event).1.grants.get? parentId = s.grants.get? parentId

def Inherited (s : System resolve) : Prop :=
  ∀ run ∈ s.calls.flatten, ∀ skills, run.stage.skills = some skills →
    ∀ parentId, run.parentId = some parentId → s.grants.get? parentId = some skills

theorem Inherited.step {s : System resolve} {event : Event resolve} (inherited : Inherited s) (sound : Sound s)
    (undisturbed : Undisturbed s event) : Inherited (step s event).1 := by
  intro run within skills settled parentId parent
  have settles := step_settles event sound run within skills settled
  rcases settles with ⟨before, before_mem, -, sameParent, settled'⟩ | taken
  · have parent' : before.parentId = some parentId := sameParent.trans parent
    have some_skills : before.stage.skills ≠ none := by rw [settled']; nofun
    rw [undisturbed before before_mem some_skills parentId parent']
    exact inherited before before_mem skills settled' parentId parent'
  · exact taken.inherited parentId parent

section Runs

variable {grantSidecars : JsString → Option (GrantSidecar resolve)}
  {capabilitiesSidecars : JsString → Option (CapabilitiesSidecar resolve)}

theorem run_concat (initial : System resolve) (before : List (Event resolve)) (event : Event resolve) :
    run initial (before ++ [event]) = (step (run initial before) event).1 := by
  rw [run, run, List.foldl_append, List.foldl_cons, List.foldl_nil]

theorem run_induction {P : System resolve → Prop} {initial : System resolve} {history : List (Event resolve)}
    (starts : P initial)
    (keeps : ∀ before event, before ++ [event] <+: history → P (run initial before) →
      P (step (run initial before) event).1) :
    ∀ before, before <+: history → P (run initial before) := by
  intro before within
  induction before using List.reverseRecOn with
  | nil => exact starts
  | append_singleton before event ih =>
    rw [run_concat]
    exact keeps before event within (ih ((List.prefix_append before [event]).trans within))

theorem moves_keep {s t : System resolve} (moves : Relation.ReflTransGen Move s t) (holds : Sound s ∧ Enabled s) :
    Sound t ∧ Enabled t := by
  induction moves with
  | refl => exact holds
  | tail _ last ih => exact ⟨last.sound ih.1, last.keeps_enabled ih.1 ih.2⟩

theorem step_sound {s : System resolve} (event : Event resolve) (sound : Sound s) :
    Sound (step s event).1 := by
  have keeps {t : System resolve} (moves : Relation.ReflTransGen Move s t) : Sound t := by
    induction moves with
    | refl => exact sound
    | tail _ last ih => exact last.sound ih
  cases event with
  | fail n =>
    cases found : s.calls[n]? with
    | none =>
      change Sound (s.drop n)
      rwa [drop_none found]
    | some call =>
      exact sound.fewer (flatten_perm found)
        (fun call within => sound.waits call (List.mem_of_mem_eraseIdx within)) rfl rfl
  | crash =>
    have calls : s.calls.flatten.Perm (s.calls.flatten ++ [].flatten) := by rw [List.flatten_nil, List.append_nil]
    exact sound.fewer calls nofun rfl rfl
  | store env now observer op => exact keeps (step_moves (.store env now observer op) sound trivial)
  | reconcile sessionId => exact keeps (step_moves (.reconcile sessionId) sound trivial)
  | inherit n => exact keeps (step_moves (.inherit n) sound trivial)
  | select n disk => exact keeps (step_moves (.select n disk) sound trivial)
  | read n readable valid => exact keeps (step_moves (.read n readable valid) sound trivial)
  | write n valid => exact keeps (step_moves (.write n valid) sound trivial)

theorem run_sound (history : List (Event resolve)) :
    Sound (run (.initial grantSidecars capabilitiesSidecars) history) :=
  run_induction (.initial grantSidecars capabilitiesSidecars) (fun _ event _ sound => step_sound event sound) history
    (List.prefix_rfl)

/-- Unless a fault cuts off a reconciliation between its grant and its capabilities, every reconciliation that returns
leaves the stored grant with the two files that list it. It has settled on its parent's grant of that moment, which is
still the parent's when it returns if no other reconciliation of the parent has replaced it meanwhile. -/
theorem run_paired {history : List (Event resolve)}
    (finishes : ∀ before event, before ++ [event] <+: history →
      Finishes (run (.initial grantSidecars capabilitiesSidecars) before) event) :
    let reached := run (.initial grantSidecars capabilitiesSidecars)
    (∀ before event result, before ++ [event] <+: history → (step (reached before) event).2 = some result →
      Paired (reached (before ++ [event])) result)
    ∧ (∀ before event, before ++ [event] <+: history → Settles (reached before) (reached (before ++ [event])) event)
    ∧ ((∀ before event, before ++ [event] <+: history → Undisturbed (reached before) event) →
      ∀ before event result parentId, before ++ [event] <+: history → (step (reached before) event).2 = some result →
        result.parentId = some parentId → (reached (before ++ [event])).grants.get? parentId = some result.skills) := by
  intro reached
  have enabled : ∀ before, before <+: history → Sound (reached before) ∧ Enabled (reached before) :=
    run_induction (P := fun s => Sound s ∧ Enabled s) ⟨.initial grantSidecars capabilitiesSidecars, nofun⟩
      fun before event within holds => moves_keep (step_moves event holds.1 (finishes before event within)) holds
  have earlier {before : List (Event resolve)} {event : Event resolve} (within : before ++ [event] <+: history) :
      before <+: history := (List.prefix_append before [event]).trans within
  refine ⟨fun before event result within returns => ?_, fun before event within => ?_, fun undisturbed => ?_⟩
  · obtain ⟨sound, listed⟩ := enabled before (earlier within)
    rw [show reached (before ++ [event]) = (step (reached before) event).1 from run_concat _ before event]
    exact (step_paired sound listed returns).1
  · rw [show reached (before ++ [event]) = (step (reached before) event).1 from run_concat _ before event]
    exact step_settles event (run_sound before)
  · intro before event result parentId within returns parent
    have inherited : ∀ before, before <+: history → Inherited (reached before) :=
      run_induction (P := Inherited) nofun fun before event within holds =>
        holds.step (run_sound before) (undisturbed before event within)
    obtain ⟨sound, listed⟩ := enabled before (earlier within)
    obtain ⟨run, run_mem, -, sameParent, settled⟩ := (step_paired sound listed returns).2
    have parent' : run.parentId = some parentId := sameParent.trans parent
    have some_skills : run.stage.skills ≠ none := by rw [settled]; nofun
    rw [show reached (before ++ [event]) = (step (reached before) event).1 from run_concat _ before event,
      undisturbed before event within run run_mem some_skills parentId parent']
    exact inherited before (earlier within) run run_mem result.skills settled parentId parent'

end Runs

section Samples

def sampleSkill : Skill id := ⟨js "alpha", js "1", js "a", ⟨js "/skills/alpha/SKILL.md", rfl⟩, true⟩

def sampleDisk : Disk id := ⟨some [sampleSkill], true, true⟩

def sampleRoot : Event id :=
  .store ⟨id, fun _ => []⟩ 1 none
    (.createRoot ⟨js "root", some (js "/w/root.jsonl"), some (js "/w"), none, some (js "root"), js "token", .obj []⟩)

def sampleResult (changed : Bool) : Reconciled id :=
  ⟨js "root", none, [sampleSkill], executableCapabilities [sampleSkill], changed⟩

/-- The grant is stored, its file cannot be written, and the next reconciliation finds nothing changed. -/
def cutOff : List (Event id) :=
  [sampleRoot, .reconcile (js "root"), .select 0 sampleDisk, .read 0 true true, .fail 0,
    .reconcile (js "root"), .select 0 sampleDisk, .read 0 true true]

theorem cutOff_not_paired :
    (step (run (.initial (fun _ => none) (fun _ => none)) cutOff) (.write 0 true)).2 = some (sampleResult false)
      ∧ ¬ Paired (run (.initial (fun _ => none) (fun _ => none)) (cutOff ++ [.write 0 true])) (sampleResult false) := by
  refine ⟨by decide, fun paired => ?_⟩
  have missing : (run (.initial (fun _ => none) (fun _ => none)) (cutOff ++ [.write 0 true])).capabilitiesSidecars
      (js "root") = none := by decide
  have listed := paired.enabled
  rw [show (sampleResult false).sessionId = js "root" from rfl, missing] at listed
  cases listed

def letFinish : List (Event id) :=
  [sampleRoot, .reconcile (js "root"), .select 0 sampleDisk, .read 0 true true, .write 0 true, .write 0 true]

theorem run_paired_sample :
    Paired (run (.initial (fun _ => none) (fun _ => none)) letFinish) (sampleResult true) := by
  have finishes : ∀ before event, before ++ [event] <+: letFinish →
      Finishes (run (.initial (fun _ => none) (fun _ => none)) before) event := by
    intro before event within
    have event_mem : event ∈ letFinish := within.subset (List.mem_append_right _ (List.mem_singleton_self event))
    simp only [letFinish, List.mem_cons, List.not_mem_nil, or_false] at event_mem
    rcases event_mem with rfl | rfl | rfl | rfl | rfl | rfl <;> trivial
  exact (run_paired finishes).1 letFinish.dropLast (.write 0 true) (sampleResult true) (List.prefix_rfl) (by decide)

end Samples


end PersistentHarness.SkillGrants
