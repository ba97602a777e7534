import Mathlib.Data.List.Perm.Basic
import PersistentHarness.Model.SkillGrants

/-! # Moves of reconciliations

Each session has at most one reconciliation at a time, which alone writes the session's grant and files, so what it
has stored and written is still there when it returns. The capabilities file is written only by the reconciliation
that has changed the grant.
-/

namespace PersistentHarness.SkillGrants

open SessionStore (Store)

variable {resolve : JsString → JsString}

section Catalogs

theorem sameSkill_iff {skill other : Skill resolve} : sameSkill skill other = true ↔ skill = other := by
  obtain ⟨id, version, contentHash, ⟨path, resolved⟩, backed⟩ := skill
  obtain ⟨id', version', contentHash', ⟨path', resolved'⟩, backed'⟩ := other
  simp only [sameSkill, decide_eq_true_eq, Skill.mk.injEq, Subtype.mk.injEq, resolved, resolved']

/-- Catalogs are compared by all that they say, since their paths are resolved. -/
theorem sameSkillCatalog_iff {left right : List (Skill resolve)} :
    sameSkillCatalog left right = true ↔ left = right := by
  induction left generalizing right with
  | nil => cases right <;> simp [sameSkillCatalog]
  | cons skill left ih =>
    cases right with
    | nil => simp [sameSkillCatalog]
    | cons other right =>
      have rest := @ih right
      simp only [sameSkillCatalog, decide_eq_true_eq] at rest
      simp only [sameSkillCatalog, decide_eq_true_eq, List.length_cons, Nat.add_right_cancel_iff, List.zip_cons_cons,
        List.all_cons, Bool.and_eq_true, sameSkill_iff, List.cons.injEq, ← rest]
      tauto

theorem backed_injective : Function.Injective (@Capability.backed resolve) := by
  rintro ⟨id, version, contentHash, skillPath⟩ ⟨id', version', contentHash', skillPath'⟩ same
  simp only [Capability.backed, Skill.mk.injEq, and_true] at same
  obtain ⟨rfl, rfl, rfl, rfl⟩ := same
  rfl

end Catalogs

section Stages

def Stage.skills : Stage resolve → Option (List (Skill resolve))
  | .selecting | .inheriting _ => none
  | .reading skills _ | .granting skills _ | .enabling skills => some skills

/-- The grant that a reconciliation has stored, as long as it has not written the capabilities. -/
def Stage.changed : Stage resolve → Option (List (Skill resolve))
  | .reading skills true | .granting skills true | .enabling skills => some skills
  | _ => none

/-- The reconciliation has changed the grant, and the capabilities sidecar does not yet list the capabilities. -/
def Behind (s : System resolve) (run : Reconciliation resolve) : Prop :=
  ∃ skills, run.stage.changed = some skills
    ∧ s.capabilitiesSidecars run.sessionId ≠ some ⟨1, executableCapabilities skills⟩

end Stages

/-! ## Moves -/

/-- The small moves of a step. -/
inductive Move (s : System resolve) : System resolve → Prop
  | store (store : Store) : Move s { s with store }
  | opened {run : Reconciliation resolve} (fresh : s.reconciling run.sessionId = false)
      (begins : s.start run.sessionId = .ok run) : Move s { s with calls := s.calls ++ [[run]] }
  | pushed {n : ℕ} {run parent : Reconciliation resolve} {rest : List (Reconciliation resolve)}
      (found : s.calls[n]? = some (run :: rest)) (waits : run.stage = .inheriting parent.sessionId)
      (fresh : s.reconciling parent.sessionId = false) (begins : s.start parent.sessionId = .ok parent) :
      Move s (s.setCall n (parent :: run :: rest))
  | dropped {n : ℕ} {call : List (Reconciliation resolve)} (found : s.calls[n]? = some call)
      (done : ∀ run ∈ call, ¬ Behind s run) : Move s (s.drop n)
  | crashed (done : ∀ run ∈ s.calls.flatten, ¬ Behind s run) : Move s { s with calls := [] }
  | settled {n : ℕ} {run : Reconciliation resolve} {rest : List (Reconciliation resolve)} {changed : Bool}
      {skills : List (Skill resolve)} {grants : Table JsString (List (Skill resolve))}
      (found : s.calls[n]? = some (run :: rest)) (waits : run.stage.skills = none)
      (stored : ∀ id, grants.get? id = if run.sessionId = id then some skills else s.grants.get? id)
      (kept : changed = false → s.grants.get? run.sessionId = some skills) :
      Move s ({ s with grants }.setCall n ({ run with stage := .reading skills changed } :: rest))
  | looked {n : ℕ} {run : Reconciliation resolve} {rest : List (Reconciliation resolve)} {changed : Bool}
      {skills : List (Skill resolve)} (found : s.calls[n]? = some (run :: rest))
      (reads : run.stage = .reading skills changed) :
      Move s (s.setCall n ({ run with stage := .granting skills changed } :: rest))
  | granted {n : ℕ} {run : Reconciliation resolve} {rest : List (Reconciliation resolve)} {changed : Bool}
      {skills : List (Skill resolve)} (found : s.calls[n]? = some (run :: rest))
      (writes : run.stage = .granting skills changed) (file : Option (GrantSidecar resolve)) :
      Move s { s with grantSidecars := Function.update s.grantSidecars run.sessionId file }
  | advanced {n : ℕ} {run : Reconciliation resolve} {rest : List (Reconciliation resolve)}
      {skills : List (Skill resolve)} (found : s.calls[n]? = some (run :: rest))
      (writes : run.stage = .granting skills true)
      (written : s.grantSidecars run.sessionId = some ⟨1, skills, some (executableCapabilities skills)⟩) :
      Move s (s.setCall n ({ run with stage := .enabling skills } :: rest))
  | enabled {n : ℕ} {run : Reconciliation resolve} {rest : List (Reconciliation resolve)}
      {skills : List (Skill resolve)} (found : s.calls[n]? = some (run :: rest))
      (writes : run.stage = .enabling skills) :
      Move s { s with
        capabilitiesSidecars :=
          Function.update s.capabilitiesSidecars run.sessionId (some ⟨1, executableCapabilities skills⟩) }
  | returned {n : ℕ} {run waiting : Reconciliation resolve} {rest : List (Reconciliation resolve)}
      (found : s.calls[n]? = some (run :: waiting :: rest)) (done : ¬ Behind s run) :
      Move s (s.setCall n (waiting :: rest))

section Calls

variable {s : System resolve} {n : ℕ} {call next : List (Reconciliation resolve)}

theorem flatten_perm (found : s.calls[n]? = some call) :
    s.calls.flatten.Perm (call ++ (s.calls.eraseIdx n).flatten) := by
  obtain ⟨within, rfl⟩ := List.getElem?_eq_some_iff.mp found
  exact (List.getElem_cons_eraseIdx_perm within).symm.flatten

theorem setCall_perm (next : List (Reconciliation resolve)) (found : s.calls[n]? = some call) :
    (s.setCall n next).calls.flatten.Perm (next ++ (s.calls.eraseIdx n).flatten) := by
  obtain ⟨within, rfl⟩ := List.getElem?_eq_some_iff.mp found
  exact (List.set_perm_cons_eraseIdx within next).flatten

theorem mem_setCall (found : s.calls[n]? = some call) {run : Reconciliation resolve} :
    run ∈ (s.setCall n next).calls.flatten ↔ run ∈ next ∨ run ∈ (s.calls.eraseIdx n).flatten := by
  rw [(setCall_perm _ found).mem_iff, List.mem_append]

theorem mem_calls (found : s.calls[n]? = some call) {run : Reconciliation resolve} :
    run ∈ s.calls.flatten ↔ run ∈ call ∨ run ∈ (s.calls.eraseIdx n).flatten := by
  rw [(flatten_perm found).mem_iff, List.mem_append]

theorem setCall_cases (within : next ∈ (s.setCall n call).calls) : next = call ∨ next ∈ s.calls :=
  (List.mem_or_eq_of_mem_set within).symm

theorem not_reconciling {sessionId : JsString} (fresh : s.reconciling sessionId = false) {run : Reconciliation resolve}
    (within : run ∈ s.calls.flatten) : run.sessionId ≠ sessionId := by
  rintro rfl
  obtain ⟨call, call_mem, run_mem⟩ := List.mem_flatten.mp within
  have reconciling : s.reconciling run.sessionId = true := by
    simp only [System.reconciling, List.any_eq_true, decide_eq_true_eq]
    exact ⟨call, call_mem, run, run_mem, rfl⟩
  rw [reconciling] at fresh
  cases fresh

theorem setCall_self (found : s.calls[n]? = some call) : s.calls.set n call = s.calls := by
  obtain ⟨within, rfl⟩ := List.getElem?_eq_some_iff.mp found
  exact List.set_getElem_self within

end Calls

/-! ## The invariant -/

/-- A reconciliation knows the stored grant before it settles, and has stored its own after. -/
structure Held (s : System resolve) (run : Reconciliation resolve) : Prop where
  root : run.stage = .selecting → run.parentId = none
  child : ∀ parentId, run.stage = .inheriting parentId → run.parentId = some parentId
  previous : run.stage.skills = none → run.previous = s.grants.get? run.sessionId
  stored : ∀ skills, run.stage.skills = some skills → s.grants.get? run.sessionId = some skills
  written : ∀ skills, run.stage = .enabling skills →
    s.grantSidecars run.sessionId = some ⟨1, skills, some (executableCapabilities skills)⟩

def Waits (run waiting : Reconciliation resolve) : Prop := waiting.stage = .inheriting run.sessionId

structure Sound (s : System resolve) : Prop where
  single : (s.calls.flatten.map Reconciliation.sessionId).Nodup
  waits : ∀ call ∈ s.calls, call.IsChain Waits
  held : ∀ run ∈ s.calls.flatten, Held s run

/-- Two states tell the same of every other session. -/
def Agrees (s t : System resolve) (id : JsString) : Prop :=
  ∀ other, other ≠ id → t.grants.get? other = s.grants.get? other ∧ t.grantSidecars other = s.grantSidecars other

theorem Held.elsewhere {s t : System resolve} {run : Reconciliation resolve} {id : JsString} (held : Held s run)
    (agrees : Agrees s t id) (other : run.sessionId ≠ id) : Held t run where
  root := held.root
  child := held.child
  previous waiting := by rw [(agrees _ other).1, held.previous waiting]
  stored skills settled := by rw [(agrees _ other).1, held.stored skills settled]
  written skills writes := by rw [(agrees _ other).2, held.written skills writes]

theorem Held.same {s t : System resolve} {run : Reconciliation resolve} (held : Held s run)
    (grants : t.grants = s.grants) (files : t.grantSidecars = s.grantSidecars) : Held t run where
  root := held.root
  child := held.child
  previous waiting := by rw [grants, held.previous waiting]
  stored skills settled := by rw [grants, held.stored skills settled]
  written skills writes := by rw [files, held.written skills writes]

/-- Only the first of a call has settled. -/
theorem waiting_of_chain {run waiting : Reconciliation resolve} {rest : List (Reconciliation resolve)}
    (chain : (run :: rest).IsChain Waits) (within : waiting ∈ rest) :
    ∃ parentId, waiting.stage = .inheriting parentId := by
  induction rest generalizing run with
  | nil => cases within
  | cons next rest ih =>
    rw [List.isChain_cons_cons] at chain
    rcases List.mem_cons.mp within with rfl | later
    · exact ⟨run.sessionId, chain.1⟩
    · exact ih chain.2 later

theorem not_behind_of_waiting {s : System resolve} {run : Reconciliation resolve} {parentId : JsString}
    (waits : run.stage = .inheriting parentId) : ¬ Behind s run := by
  rintro ⟨skills, changed, -⟩
  rw [waits] at changed
  cases changed

theorem chain_head {run next : Reconciliation resolve} {rest : List (Reconciliation resolve)}
    (chain : (run :: rest).IsChain Waits) (same : next.sessionId = run.sessionId) : (next :: rest).IsChain Waits := by
  cases rest with
  | nil => exact .singleton _
  | cons waiting rest =>
    rw [List.isChain_cons_cons] at chain ⊢
    refine ⟨?_, chain.2⟩
    unfold Waits
    rw [same]
    exact chain.1

theorem Held.starts {s : System resolve} {sessionId : JsString} {run : Reconciliation resolve}
    (begins : s.start sessionId = .ok run) : run.sessionId = sessionId ∧ run.stage.skills = none ∧ Held s run := by
  unfold System.start at begins
  split at begins
  · cases begins
  next row found =>
    obtain ⟨_, _, begins⟩ := Checked.bind_eq_ok.mp begins
    dsimp only at begins
    split at begins <;> cases begins
    · exact ⟨rfl, rfl, fun _ => rfl, nofun, fun _ => rfl, nofun, nofun⟩
    · exact ⟨rfl, rfl, nofun, fun _ same => by cases same; rfl, fun _ => rfl, nofun, nofun⟩

namespace Sound

variable {s t : System resolve} {n : ℕ} {call next : List (Reconciliation resolve)}
  {run u : Reconciliation resolve} {rest : List (Reconciliation resolve)}

theorem initial (grantSidecars : JsString → Option (GrantSidecar resolve))
    (capabilitiesSidecars : JsString → Option (CapabilitiesSidecar resolve)) :
    Sound (System.initial grantSidecars capabilitiesSidecars) where
  single := List.nodup_nil
  waits := nofun
  held := nofun

theorem chain (sound : Sound s) (found : s.calls[n]? = some call) : call.IsChain Waits :=
  sound.waits call (List.mem_of_getElem? found)

theorem head (sound : Sound s) (found : s.calls[n]? = some (run :: rest)) : Held s run :=
  sound.held run ((mem_calls found).mpr (.inl List.mem_cons_self))

theorem waiting (sound : Sound s) (found : s.calls[n]? = some (run :: rest)) {other : Reconciliation resolve}
    (within : other ∈ rest) : ∃ parentId, other.stage = .inheriting parentId :=
  waiting_of_chain (sound.chain found) within

theorem alone (sound : Sound s) (found : s.calls[n]? = some (run :: rest)) {other : Reconciliation resolve}
    (within : other ∈ rest ∨ other ∈ (s.calls.eraseIdx n).flatten) : other.sessionId ≠ run.sessionId := by
  have single := ((flatten_perm found).map Reconciliation.sessionId).nodup_iff.mp sound.single
  rw [List.cons_append, List.map_cons, List.nodup_cons] at single
  intro same
  apply single.1
  rw [← same]
  apply List.mem_map_of_mem
  rw [List.mem_append]
  exact within

theorem proceeds (sound : Sound s) (found : s.calls[n]? = some (run :: rest))
    (calls : t.calls = s.calls.set n (u :: rest)) (same : u.sessionId = run.sessionId)
    (agrees : Agrees s t run.sessionId) (held : Held t u) : Sound t where
  single := by
    rw [calls]
    have single := ((flatten_perm found).map Reconciliation.sessionId).nodup_iff.mp sound.single
    have after := (setCall_perm (u :: rest) found).map Reconciliation.sessionId
    rw [List.cons_append, List.map_cons, ← same, ← List.map_cons, ← List.cons_append] at single
    exact after.nodup_iff.mpr single
  waits other within := by
    rw [calls] at within
    rcases List.mem_or_eq_of_mem_set within with earlier | rfl
    · exact sound.waits other earlier
    · exact chain_head (sound.chain found) same
  held other within := by
    rw [calls] at within
    rcases (mem_setCall found).mp within with here | elsewhere
    · rcases List.mem_cons.mp here with rfl | waits
      · exact held
      · have before : Held s other := sound.held other ((mem_calls found).mpr (.inl (List.mem_cons_of_mem _ waits)))
        exact before.elsewhere agrees (sound.alone found (.inl waits))
    · have before : Held s other := sound.held other ((mem_calls found).mpr (.inr elsewhere))
      exact before.elsewhere agrees (sound.alone found (.inr elsewhere))

theorem fewer (sound : Sound s) {gone : List (Reconciliation resolve)}
    (calls : s.calls.flatten.Perm (gone ++ t.calls.flatten)) (waits : ∀ call ∈ t.calls, call.IsChain Waits)
    (grants : t.grants = s.grants) (files : t.grantSidecars = s.grantSidecars) : Sound t where
  single := by
    have single := (calls.map Reconciliation.sessionId).nodup_iff.mp sound.single
    rw [List.map_append] at single
    exact (List.nodup_append.mp single).2.1
  waits := waits
  held other within := (sound.held other (calls.mem_iff.mpr (List.mem_append_right _ within))).same grants files

theorem opened (sound : Sound s) (fresh : s.reconciling run.sessionId = false)
    (begins : s.start run.sessionId = .ok run) : Sound { s with calls := s.calls ++ [[run]] } where
  single := by
    simp only [List.flatten_append, List.flatten_singleton, List.map_append, List.map_singleton]
    rw [List.nodup_append]
    refine ⟨sound.single, List.nodup_singleton _, ?_⟩
    intro id within other only same
    obtain ⟨earlier, earlier_mem, rfl⟩ := List.mem_map.mp within
    obtain rfl := List.mem_singleton.mp only
    exact not_reconciling fresh earlier_mem same
  waits call within := by
    rcases List.mem_append.mp within with earlier | only
    · exact sound.waits call earlier
    · obtain rfl := List.mem_singleton.mp only
      exact .singleton _
  held other within := by
    simp only [List.flatten_append, List.flatten_singleton, List.mem_append, List.mem_singleton] at within
    rcases within with earlier | rfl
    · exact (sound.held other earlier).same rfl rfl
    · exact (Held.starts begins).2.2.same rfl rfl

theorem pushed (sound : Sound s) {parent : Reconciliation resolve} (found : s.calls[n]? = some (run :: rest))
    (waits : run.stage = .inheriting parent.sessionId) (fresh : s.reconciling parent.sessionId = false)
    (begins : s.start parent.sessionId = .ok parent) : Sound (s.setCall n (parent :: run :: rest)) where
  single := by
    have single := ((flatten_perm found).map Reconciliation.sessionId).nodup_iff.mp sound.single
    apply ((setCall_perm _ found).map Reconciliation.sessionId).nodup_iff.mpr
    rw [List.cons_append, List.map_cons, List.nodup_cons]
    refine ⟨?_, single⟩
    intro within
    obtain ⟨other, other_mem, same⟩ := List.mem_map.mp within
    exact not_reconciling fresh ((flatten_perm found).mem_iff.mpr other_mem) same
  waits call within := by
    rcases setCall_cases within with rfl | earlier
    · exact List.isChain_cons_cons.mpr ⟨waits, sound.chain found⟩
    · exact sound.waits call earlier
  held other within := by
    rcases (mem_setCall found).mp within with here | elsewhere
    · rcases List.mem_cons.mp here with rfl | earlier
      · exact (Held.starts begins).2.2.same rfl rfl
      · exact (sound.held other ((mem_calls found).mpr (.inl earlier))).same rfl rfl
    · exact (sound.held other ((mem_calls found).mpr (.inr elsewhere))).same rfl rfl

end Sound

theorem agrees_update {s : System resolve} {id : JsString} (file : Option (GrantSidecar resolve)) :
    Agrees s { s with grantSidecars := Function.update s.grantSidecars id file } id :=
  fun _ other => ⟨rfl, Function.update_of_ne other _ _⟩

theorem Move.sound {s t : System resolve} (move : Move s t) (sound : Sound s) : Sound t := by
  cases move with
  | store store => exact ⟨sound.single, sound.waits, fun run within => (sound.held run within).same rfl rfl⟩
  | opened fresh begins => exact sound.opened fresh begins
  | pushed found waits fresh begins => exact sound.pushed found waits fresh begins
  | @dropped n call found done =>
    exact sound.fewer (flatten_perm found)
      (fun call within => sound.waits call (List.mem_of_mem_eraseIdx within)) rfl rfl
  | crashed done =>
    have calls : s.calls.flatten.Perm (s.calls.flatten ++ [].flatten) := by rw [List.flatten_nil, List.append_nil]
    exact sound.fewer calls nofun rfl rfl
  | @settled n run rest changed skills grants found waits stored kept =>
    refine sound.proceeds (u := { run with stage := .reading skills changed }) found rfl rfl ?_ ?_
    · intro other elsewhere
      refine ⟨?_, rfl⟩
      change grants.get? other = s.grants.get? other
      rw [stored, if_neg (Ne.symm elsewhere)]
    · refine ⟨nofun, nofun, nofun, fun skills' same => ?_, nofun⟩
      cases same
      change grants.get? run.sessionId = some skills
      rw [stored, if_pos rfl]
  | @looked n run rest changed skills found reads =>
    refine sound.proceeds (u := { run with stage := .granting skills changed }) found rfl rfl ?_ ?_
    · exact fun _ _ => ⟨rfl, rfl⟩
    have held := sound.head found
    refine ⟨nofun, nofun, nofun, fun skills' same => ?_, nofun⟩
    cases same
    exact held.stored skills (by rw [reads]; rfl)
  | @granted n run rest changed skills found writes file =>
    refine Sound.proceeds (u := run)
      (t := { s with grantSidecars := Function.update s.grantSidecars run.sessionId file }) sound found
      (setCall_self found).symm rfl (agrees_update file) ?_
    have held := sound.head found
    refine ⟨held.root, held.child, held.previous, held.stored, fun skills' same => ?_⟩
    rw [writes] at same
    cases same
  | @advanced n run rest skills found writes written =>
    refine sound.proceeds (u := { run with stage := .enabling skills }) found rfl rfl (fun _ _ => ⟨rfl, rfl⟩) ?_
    have held := sound.head found
    refine ⟨nofun, nofun, nofun, fun skills' same => ?_, fun skills' same => ?_⟩
    · cases same
      exact held.stored skills (by rw [writes]; rfl)
    · cases same
      exact written
  | @enabled n run rest skills found writes =>
    exact ⟨sound.single, sound.waits, fun run within => (sound.held run within).same rfl rfl⟩
  | @returned n run waiting rest found done =>
    have calls : s.calls.flatten.Perm ([run] ++ (s.setCall n (waiting :: rest)).calls.flatten) :=
      (flatten_perm found).trans ((setCall_perm _ found).symm.cons run)
    refine sound.fewer calls (fun call within => ?_) rfl rfl
    rcases setCall_cases within with rfl | earlier
    · exact (List.isChain_cons_cons.mp (sound.chain found)).2
    · exact sound.waits call earlier

/-! ## Capabilities -/

/-- The capabilities sidecar of every session with a grant lists what the grant makes executable, unless the
reconciliation that has changed the grant is still to write it. -/
def Enabled (s : System resolve) : Prop :=
  ∀ id skills, s.grants.get? id = some skills →
    s.capabilitiesSidecars id = some ⟨1, executableCapabilities skills⟩
      ∨ ∃ run ∈ s.calls.flatten, run.sessionId = id ∧ run.stage.changed = some skills

section Capabilities

variable {s t : System resolve}

theorem Enabled.keeps (enabled : Enabled s) (grants : t.grants = s.grants)
    (files : t.capabilitiesSidecars = s.capabilitiesSidecars)
    (goes : ∀ run ∈ s.calls.flatten, Behind s run →
      ∃ next ∈ t.calls.flatten, next.sessionId = run.sessionId ∧ next.stage.changed = run.stage.changed) :
    Enabled t := by
  intro id skills stored
  rw [grants] at stored
  rw [files]
  by_cases listed : s.capabilitiesSidecars id = some ⟨1, executableCapabilities skills⟩
  · exact .inl listed
  · rcases enabled id skills stored with listed' | ⟨run, within, rfl, changed⟩
    · exact absurd listed' listed
    · obtain ⟨next, next_mem, same, stage⟩ := goes run within ⟨skills, changed, listed⟩
      exact .inr ⟨next, next_mem, same, stage.trans changed⟩

theorem Enabled.proceeds (enabled : Enabled s) {n : ℕ} {run next : Reconciliation resolve}
    {rest : List (Reconciliation resolve)} (found : s.calls[n]? = some (run :: rest))
    (same : next.sessionId = run.sessionId) (stage : next.stage.changed = run.stage.changed) :
    Enabled (s.setCall n (next :: rest)) := by
  refine enabled.keeps rfl rfl fun other within _ => ?_
  rcases (mem_calls found).mp within with here | elsewhere
  · rcases List.mem_cons.mp here with rfl | waits
    · exact ⟨next, (mem_setCall found).mpr (.inl List.mem_cons_self), same, stage⟩
    · exact ⟨other, (mem_setCall found).mpr (.inl (List.mem_cons_of_mem _ waits)), rfl, rfl⟩
  · exact ⟨other, (mem_setCall found).mpr (.inr elsewhere), rfl, rfl⟩

theorem Stage.changed_of_skills {stage : Stage resolve} (waits : stage.skills = none) : stage.changed = none := by
  cases stage with
  | selecting => rfl
  | inheriting parentId => rfl
  | reading skills changed => cases waits
  | granting skills changed => cases waits
  | enabling skills => cases waits

theorem Move.keeps_enabled (move : Move s t) (sound : Sound s) (enabled : Enabled s) : Enabled t := by
  cases move with
  | store store => exact enabled
  | opened fresh begins =>
    refine enabled.keeps rfl rfl fun run within _ => ⟨run, ?_, rfl, rfl⟩
    simp only [List.flatten_append, List.mem_append]
    exact .inl within
  | @pushed n run parent rest found waits fresh begins =>
    refine enabled.keeps rfl rfl fun other within _ => ⟨other, (mem_setCall found).mpr ?_, rfl, rfl⟩
    exact ((mem_calls found).mp within).imp (List.mem_cons_of_mem _) id
  | @dropped n call found done =>
    refine enabled.keeps rfl rfl fun run within behind => ⟨run, ?_, rfl, rfl⟩
    rcases (mem_calls found).mp within with here | elsewhere
    · exact absurd behind (done run here)
    · exact elsewhere
  | crashed done => exact enabled.keeps rfl rfl fun run within behind => absurd behind (done run within)
  | @settled n run rest changed skills grants found waits stored kept =>
    intro id skills' held
    change grants.get? id = some skills' at held
    change s.capabilitiesSidecars id = _ ∨ _
    rw [stored] at held
    split at held
    next same =>
      subst same
      cases held
      cases changed with
      | true => exact .inr ⟨_, (mem_setCall (s := { s with grants }) found).mpr (.inl List.mem_cons_self), rfl, rfl⟩
      | false =>
        rcases enabled run.sessionId skills (kept rfl) with listed | ⟨other, within, same, stage⟩
        · exact .inl listed
        · rcases (mem_calls found).mp within with here | elsewhere
          · rcases List.mem_cons.mp here with rfl | later
            · rw [Stage.changed_of_skills waits] at stage
              cases stage
            · exact absurd same (sound.alone found (.inl later))
          · exact absurd same (sound.alone found (.inr elsewhere))
    next different =>
      rcases enabled id skills' held with listed | ⟨other, within, rfl, stage⟩
      · exact .inl listed
      · refine .inr ⟨other, (mem_setCall (s := { s with grants }) found).mpr ?_, rfl, stage⟩
        rcases (mem_calls found).mp within with here | elsewhere
        · rcases List.mem_cons.mp here with rfl | later
          · exact absurd rfl different
          · exact .inl (List.mem_cons_of_mem _ later)
        · exact .inr elsewhere
  | @looked n run rest changed skills found reads =>
    refine enabled.proceeds found rfl ?_
    rw [reads]
    cases changed <;> rfl
  | granted found writes file => exact enabled
  | @advanced n run rest skills found writes written =>
    refine enabled.proceeds found rfl ?_
    rw [writes]
    rfl
  | @enabled n run rest skills found writes =>
    intro id skills' held
    change s.grants.get? id = some skills' at held
    change Function.update s.capabilitiesSidecars run.sessionId _ id = _ ∨ _
    by_cases same : id = run.sessionId
    · subst same
      rw [(sound.head found).stored skills (by rw [writes]; rfl)] at held
      cases held
      exact .inl (Function.update_self _ _ _)
    · rw [Function.update_of_ne same]
      exact enabled id skills' held
  | @returned n run waiting rest found done =>
    refine enabled.keeps rfl rfl fun other within behind => ⟨other, (mem_setCall found).mpr ?_, rfl, rfl⟩
    rcases (mem_calls found).mp within with here | elsewhere
    · rcases List.mem_cons.mp here with rfl | later
      · exact absurd behind done
      · exact .inl later
    · exact .inr elsewhere

end Capabilities

end PersistentHarness.SkillGrants
