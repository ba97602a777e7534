import PersistentHarness.Model.ColdResidency

/-! # Bounded advice

A pass goes through its plan once, and each mapping from its start. What the pass has advised is no more than the mappings
behind it and the part of the one it is in, so it stays within the plan, which fits the budget.
-/

namespace PersistentHarness.ColdResidency

variable {Token : Type*} {s : State Token} {l : Loop Token} {log more : List Advised} {call : Advised}
  {mapping : Mapping} {regions : List Region} {answers : ℕ → Answer} {probes : Probes}

section Logs

/-- The bytes that have been advised so. -/
def adviceSum (advice : Advice) (log : List Advised) : ℕ := ((log.filter fun call => call.advice = advice).map Advised.count).sum

def Advised.Inside (call : Advised) : Prop := call.mapping.1 ≤ call.start ∧ call.start + call.count ≤ call.mapping.2

def ColdUpTo (log : List Advised) (mapping : Mapping) (offset : ℕ) : Prop :=
  ∀ byte, mapping.1 ≤ byte → byte < mapping.1 + offset →
    ∃ call ∈ log, call.advice = .cold ∧ call.ok = true ∧ call.start ≤ byte ∧ byte < call.start + call.count

/-- A mapping that is paged out was cold as a whole. -/
def Ordered (log : List Advised) : Prop :=
  ∀ front call back, log = front ++ call :: back → call.advice = .pageout → ColdUpTo front call.mapping (size call.mapping)

theorem adviceSum_append (advice : Advice) (log : List Advised) (call : Advised) :
    adviceSum advice (log ++ [call]) = adviceSum advice log + if call.advice = advice then call.count else 0 := by
  unfold adviceSum
  rw [List.filter_append, List.map_append, List.sum_append, List.filter_singleton]
  split
  · next same => simp_all
  · next other => simp_all

theorem ColdUpTo.mono {offset : ℕ} (cold : ColdUpTo log mapping offset) (more : List Advised) : ColdUpTo (log ++ more) mapping offset := by
  intro byte above below
  obtain ⟨call, member, rest⟩ := cold byte above below
  exact ⟨call, List.mem_append_left more member, rest⟩

theorem ColdUpTo.zero (log : List Advised) (mapping : Mapping) : ColdUpTo log mapping 0 := by
  intro byte above below
  omega

theorem ColdUpTo.extend {offset : ℕ} (cold : ColdUpTo log mapping offset) (advice : call.advice = .cold) (ok : call.ok = true)
    (here : call.start = mapping.1 + offset) : ColdUpTo (log ++ [call]) mapping (offset + call.count) := by
  intro byte above below
  rcases lt_or_ge byte (mapping.1 + offset) with before | behind
  · exact cold.mono [call] byte above before
  · exact ⟨call, List.mem_append_right _ (List.mem_singleton_self _), advice, ok, by omega, by omega⟩

theorem ordered_nil : Ordered [] := by
  intro front call back split_
  exact absurd split_.symm (by simp)

theorem Ordered.append (ordered : Ordered log) (cold : call.advice = .pageout → ColdUpTo log call.mapping (size call.mapping)) :
    Ordered (log ++ [call]) := by
  intro front other back split_ advice
  rcases List.eq_nil_or_concat back with rfl | ⟨initial, last, rfl⟩
  · obtain ⟨rfl, same⟩ := List.append_inj' split_ rfl
    obtain rfl := List.head_eq_of_cons_eq same
    exact cold advice
  · rw [List.concat_eq_append, ← List.cons_append, ← List.append_assoc] at split_
    obtain ⟨same, -⟩ := List.append_inj' split_ rfl
    exact ordered front other initial same advice

end Logs

section Plans

theorem fill_subset (budget total : ℕ) (mappings : List Mapping) : ∀ mapping ∈ fill budget total mappings, mapping ∈ mappings := by
  induction mappings generalizing total with
  | nil =>
    intro mapping member
    exact member
  | cons first rest ih =>
    intro mapping member
    rw [fill] at member
    split at member
    · rcases List.mem_cons.mp member with rfl | there
      · exact List.mem_cons_self ..
      · exact List.mem_cons_of_mem _ (ih _ mapping there)
    · exact List.mem_cons_of_mem _ (ih _ mapping member)

theorem fill_fits {budget total : ℕ} (mappings : List Mapping) (room : total ≤ budget) :
    total + ((fill budget total mappings).map size).sum ≤ budget := by
  induction mappings generalizing total with
  | nil => exact room
  | cons first rest ih =>
    rw [fill]
    split
    · next fits =>
      rw [List.map_cons, List.sum_cons, ← Nat.add_assoc]
      exact ih fits
    · exact ih room

/-- The bytes of the mappings that a pass has behind it. -/
def State.behind (s : State Token) : ℕ := ((s.plan.take s.index).map size).sum

theorem behind_succ (s : State Token) (found : s.plan[s.index]? = some mapping) :
    ((s.plan.take (s.index + 1)).map size).sum = s.behind + size mapping := by
  unfold State.behind
  rw [List.take_add_one, found, Option.toList_some, List.map_append, List.sum_append, List.map_singleton, List.sum_singleton]

theorem behind_le (plan : List Mapping) (index : ℕ) : ((plan.take index).map size).sum ≤ (plan.map size).sum := by
  conv_rhs => rw [← List.take_append_drop index plan, List.map_append, List.sum_append]
  exact Nat.le_add_right _ _

structure Pass (advice : Advice) (budget : ℕ) (s : State Token) : Prop where
  proper : ∀ mapping ∈ s.plan, 0 < size mapping
  within : ∀ mapping, s.plan[s.index]? = some mapping → s.offset < size mapping
  fits : (s.plan.map size).sum ≤ budget
  spent : adviceSum advice s.advised ≤ s.behind + s.offset
  atStart : s.plan.length ≤ s.index → s.offset = 0

end Plans

section Invariant

structure Inv (s : State Token) : Prop where
  ordered : Ordered s.advised
  inside : ∀ call ∈ s.advised, call.Inside
  proper : ∀ mapping ∈ s.markedPlan, 0 < size mapping
  marked : ∀ mapping ∈ s.markedPlan, ColdUpTo s.advised mapping (size mapping)
  markBudget : adviceSum .cold s.advised ≤ s.markBudget
  pageBudget : adviceSum .pageout s.advised ≤ s.pageBudget
  marking : s.phase = .mark → Pass .cold s.markBudget s ∧ adviceSum .pageout s.advised = 0
    ∧ ∀ mapping, s.plan[s.index]? = some mapping → ColdUpTo s.advised mapping s.offset
  waiting : s.phase = .waiting → adviceSum .pageout s.advised = 0
    ∧ ∀ mapping ∈ s.plan, 0 < size mapping ∧ ColdUpTo s.advised mapping (size mapping)
  paging : s.phase = .pageout → Pass .pageout s.pageBudget s ∧ ∀ mapping ∈ s.plan, ColdUpTo s.advised mapping (size mapping)

theorem initial_inv (token : Option Token) (phase : Phase) (before : Option Memory) (idle : phase.terminal = true) :
    Inv { (State.initial : State Token) with token, phase, before } := by
  have quiet : phase ≠ .mark ∧ phase ≠ .waiting ∧ phase ≠ .pageout := of_decide_eq_true idle
  constructor
  · exact ordered_nil
  · exact fun call member => absurd member List.not_mem_nil
  · exact fun mapping member => absurd member List.not_mem_nil
  · exact fun mapping member => absurd member List.not_mem_nil
  · exact le_refl 0
  · exact le_refl 0
  · exact fun here => absurd here quiet.1
  · exact fun here => absurd here quiet.2.1
  · exact fun here => absurd here quiet.2.2

/-- Nothing is promised of a phase that no work is left in. -/
theorem Inv.rest (inv : Inv s) {t : State Token} (advised : t.advised = s.advised) (markedPlan : ∀ mapping ∈ t.markedPlan, mapping ∈ s.markedPlan)
    (markBudget : t.markBudget = s.markBudget) (pageBudget : t.pageBudget = s.pageBudget) (idle : t.phase.terminal = true) : Inv t := by
  have quiet : t.phase ≠ .mark ∧ t.phase ≠ .waiting ∧ t.phase ≠ .pageout := of_decide_eq_true idle
  constructor
  · exact advised ▸ inv.ordered
  · exact advised ▸ inv.inside
  · exact fun mapping member => inv.proper mapping (markedPlan mapping member)
  · exact fun mapping member => advised ▸ inv.marked mapping (markedPlan mapping member)
  · rw [advised, markBudget]
    exact inv.markBudget
  · rw [advised, pageBudget]
    exact inv.pageBudget
  · exact fun here => absurd here quiet.1
  · exact fun here => absurd here quiet.2.1
  · exact fun here => absurd here quiet.2.2

theorem Pass.room {advice : Advice} {budget count : ℕ} (pass : Pass advice budget s) (found : s.plan[s.index]? = some mapping)
    (part : count ≤ size mapping - s.offset) : adviceSum advice s.advised + count ≤ budget := by
  have spent := pass.spent
  have fits := pass.fits
  have within := pass.within mapping found
  have behind := behind_succ s found
  have whole := behind_le s.plan (s.index + 1)
  omega

theorem Pass.next {advice : Advice} {budget : ℕ} (pass : Pass advice budget s) {t : State Token} (plan : t.plan = s.plan)
    (index : t.index = s.index + 1) (offset : t.offset = 0) (spent : adviceSum advice t.advised ≤ ((s.plan.take (s.index + 1)).map size).sum) :
    Pass advice budget t where
  proper := plan ▸ pass.proper
  within mapping found := by
    rw [offset]
    rw [plan] at found
    exact pass.proper mapping (List.mem_of_getElem? found)
  fits := plan ▸ pass.fits
  spent := by
    unfold State.behind
    rw [plan, index, offset]
    exact spent
  atStart _ := offset

/-- The call of one round of the loop. -/
def callOf (s : State Token) (mapping : Mapping) (ok : Bool) : Advised :=
  ⟨if s.phase = .mark then .cold else .pageout, mapping, mapping.1 + s.offset, min CHUNK_BYTES (size mapping - s.offset), ok⟩

theorem callOf_inside (s : State Token) (mapping : Mapping) (ok : Bool) (within : s.offset < size mapping) :
    (callOf s mapping ok).Inside := by
  unfold Advised.Inside callOf
  unfold size at within ⊢
  dsimp only
  omega

structure Logged (s : State Token) (call : Advised) : Prop where
  ordered : Ordered (s.advised ++ [call])
  inside : ∀ other ∈ s.advised ++ [call], other.Inside
  marked : ∀ mapping ∈ s.markedPlan, ColdUpTo (s.advised ++ [call]) mapping (size mapping)
  markBudget : adviceSum .cold (s.advised ++ [call]) ≤ s.markBudget
  pageBudget : adviceSum .pageout (s.advised ++ [call]) ≤ s.pageBudget

theorem callOf_mark (marking : s.phase = .mark) (mapping : Mapping) (ok : Bool) : (callOf s mapping ok).advice = .cold := by
  unfold callOf
  rw [if_pos marking]

theorem callOf_pageout (paging : s.phase = .pageout) (mapping : Mapping) (ok : Bool) : (callOf s mapping ok).advice = .pageout := by
  unfold callOf
  rw [if_neg (by rw [paging]; decide)]

theorem callOf_count (s : State Token) (mapping : Mapping) (ok : Bool) :
    (callOf s mapping ok).count = min CHUNK_BYTES (size mapping - s.offset) := rfl

theorem sum_same {advice : Advice} (log : List Advised) (same : call.advice = advice) :
    adviceSum advice (log ++ [call]) = adviceSum advice log + call.count := by
  rw [adviceSum_append, if_pos same]

theorem sum_other {advice : Advice} (log : List Advised) (other : call.advice ≠ advice) :
    adviceSum advice (log ++ [call]) = adviceSum advice log := by
  rw [adviceSum_append, if_neg other, Nat.add_zero]

theorem logged (inv : Inv s) (active : s.phase.active = true) (found : s.plan[s.index]? = some mapping) (ok : Bool) :
    Logged s (callOf s mapping ok) := by
  have part : (callOf s mapping ok).count ≤ size mapping - s.offset := Nat.min_le_right _ _
  have marked : ∀ other ∈ s.markedPlan, ColdUpTo (s.advised ++ [callOf s mapping ok]) other (size other) := fun other member =>
    (inv.marked other member).mono _
  have inside (within : s.offset < size mapping) : ∀ other ∈ s.advised ++ [callOf s mapping ok], other.Inside := by
    intro other member
    rcases List.mem_append.mp member with before | new
    · exact inv.inside other before
    · rw [List.mem_singleton.mp new]
      exact callOf_inside s mapping ok within
  have kinds : s.phase = .mark ∨ s.phase = .pageout := of_decide_eq_true active
  rcases kinds with marking | paging
  · obtain ⟨pass, unpaged, -⟩ := inv.marking marking
    have advice := callOf_mark marking mapping ok
    constructor
    · refine inv.ordered.append fun paged => ?_
      rw [advice] at paged
      cases paged
    · exact inside (pass.within mapping found)
    · exact marked
    · rw [sum_same _ advice]
      exact pass.room found part
    · rw [sum_other _ (by rw [advice]; decide)]
      exact inv.pageBudget
  · obtain ⟨pass, cold⟩ := inv.paging paging
    have advice := callOf_pageout paging mapping ok
    constructor
    · exact inv.ordered.append fun _ => cold mapping (List.mem_of_getElem? found)
    · exact inside (pass.within mapping found)
    · exact marked
    · rw [sum_other _ (by rw [advice]; decide)]
      exact inv.markBudget
    · rw [sum_same _ advice]
      exact pass.room found part

theorem Logged.refused (logged : Logged s call) {t : State Token} (advised : t.advised = s.advised ++ [call])
    (markedPlan : t.markedPlan = s.markedPlan) (proper : ∀ mapping ∈ s.markedPlan, 0 < size mapping) (markBudget : t.markBudget = s.markBudget)
    (pageBudget : t.pageBudget = s.pageBudget) (idle : t.phase.terminal = true) : Inv t := by
  have quiet : t.phase ≠ .mark ∧ t.phase ≠ .waiting ∧ t.phase ≠ .pageout := of_decide_eq_true idle
  constructor
  · exact advised ▸ logged.ordered
  · exact advised ▸ logged.inside
  · exact markedPlan ▸ proper
  · rw [advised, markedPlan]
    exact logged.marked
  · rw [advised, markBudget]
    exact logged.markBudget
  · rw [advised, pageBudget]
    exact logged.pageBudget
  · exact fun here => absurd here quiet.1
  · exact fun here => absurd here quiet.2.1
  · exact fun here => absurd here quiet.2.2

def obeyed (s : State Token) (mapping : Mapping) : State Token :=
  let call := callOf s mapping true
  let s := { s with advised := s.advised ++ [call], fresh := s.fresh ++ [call] }
  let s := if call.advice = .cold then { s with marked := s.marked + call.count } else { s with paged := s.paged + call.count }
  if mapping.1 + (s.offset + call.count) = mapping.2 then
    { s with markedPlan := if s.phase = .mark then s.markedPlan ++ [mapping] else s.markedPlan, index := s.index + 1, offset := 0 }
  else { s with offset := s.offset + call.count }

theorem obeyed_marking (inv : Inv s) (marking : s.phase = .mark) (found : s.plan[s.index]? = some mapping) : Inv (obeyed s mapping) := by
  obtain ⟨pass, unpaged, cold⟩ := inv.marking marking
  have active : s.phase.active = true := decide_eq_true (.inl marking)
  have logged := logged inv active found true
  have advice := callOf_mark marking mapping true
  have within := pass.within mapping found
  have part : (callOf s mapping true).count ≤ size mapping - s.offset := Nat.min_le_right _ _
  have spent := pass.spent
  have sum := sum_same s.advised advice
  have more := (cold mapping found).extend advice rfl rfl
  have unpagedToo : adviceSum .pageout (s.advised ++ [callOf s mapping true]) = 0 := by
    rw [sum_other _ (by rw [advice]; decide)]
    exact unpaged
  unfold obeyed
  dsimp only
  rw [if_pos advice]
  split
  · next whole =>
    have full : s.offset + (callOf s mapping true).count = size mapping := by
      unfold size at within part ⊢
      dsimp only at whole
      omega
    rw [full] at more
    constructor
    · exact logged.ordered
    · exact logged.inside
    · intro other member
      dsimp only at member
      rcases List.mem_append.mp member with before | new
      · exact inv.proper other before
      · rw [List.mem_singleton.mp new]
        omega
    · intro other member
      dsimp only at member
      rcases List.mem_append.mp member with before | new
      · exact logged.marked other before
      · rw [List.mem_singleton.mp new]
        exact more
    · exact logged.markBudget
    · exact logged.pageBudget
    · refine fun _ => ⟨pass.next rfl rfl rfl ?_, unpagedToo, fun other _ => ColdUpTo.zero _ other⟩
      rw [behind_succ s found]
      dsimp only
      omega
    · exact fun here => absurd (marking.symm.trans here) (by decide)
    · exact fun here => absurd (marking.symm.trans here) (by decide)
  · next partly =>
    constructor
    · exact logged.ordered
    · exact logged.inside
    · exact inv.proper
    · exact logged.marked
    · exact logged.markBudget
    · exact logged.pageBudget
    · refine fun _ => ⟨⟨pass.proper, ?_, pass.fits, ?_, ?_⟩, unpagedToo, ?_⟩
      · intro other foundToo
        obtain rfl := Option.some.inj (found.symm.trans foundToo)
        unfold size at within part ⊢
        dsimp only at partly ⊢
        omega
      · change _ ≤ s.behind + (s.offset + _)
        dsimp only
        omega
      · intro past
        rw [List.getElem?_eq_none past] at found
        cases found
      · intro other foundToo
        obtain rfl := Option.some.inj (found.symm.trans foundToo)
        exact more
    · exact fun here => absurd (marking.symm.trans here) (by decide)
    · exact fun here => absurd (marking.symm.trans here) (by decide)

theorem obeyed_paging (inv : Inv s) (paging : s.phase = .pageout) (found : s.plan[s.index]? = some mapping) : Inv (obeyed s mapping) := by
  obtain ⟨pass, cold⟩ := inv.paging paging
  have active : s.phase.active = true := decide_eq_true (.inr paging)
  have logged := logged inv active found true
  have advice := callOf_pageout paging mapping true
  have unmarked : (callOf s mapping true).advice ≠ .cold := by
    rw [advice]
    decide
  have within := pass.within mapping found
  have part : (callOf s mapping true).count ≤ size mapping - s.offset := Nat.min_le_right _ _
  have spent := pass.spent
  have sum := sum_same s.advised advice
  have coldToo : ∀ other ∈ s.plan, ColdUpTo (s.advised ++ [callOf s mapping true]) other (size other) := fun other member =>
    (cold other member).mono _
  have unmarking : s.phase ≠ .mark := by
    rw [paging]
    decide
  unfold obeyed
  dsimp only
  rw [if_neg unmarked]
  split
  · next whole =>
    have full : s.offset + (callOf s mapping true).count = size mapping := by
      unfold size at within part ⊢
      dsimp only at whole
      omega
    constructor
    · exact logged.ordered
    · exact logged.inside
    · exact inv.proper
    · exact logged.marked
    · exact logged.markBudget
    · exact logged.pageBudget
    · exact fun here => absurd here unmarking
    · exact fun here => absurd (paging.symm.trans here) (by decide)
    · refine fun _ => ⟨pass.next rfl rfl rfl ?_, coldToo⟩
      rw [behind_succ s found]
      dsimp only
      omega
  · next partly =>
    constructor
    · exact logged.ordered
    · exact logged.inside
    · exact inv.proper
    · exact logged.marked
    · exact logged.markBudget
    · exact logged.pageBudget
    · exact fun here => absurd here unmarking
    · exact fun here => absurd (paging.symm.trans here) (by decide)
    · refine fun _ => ⟨⟨pass.proper, ?_, pass.fits, ?_, ?_⟩, coldToo⟩
      · intro other foundToo
        obtain rfl := Option.some.inj (found.symm.trans foundToo)
        unfold size at within part ⊢
        dsimp only at partly ⊢
        omega
      · change _ ≤ s.behind + (s.offset + _)
        dsimp only
        omega
      · intro past
        rw [List.getElem?_eq_none past] at found
        cases found

/-- A mapping that is not usable now is passed over for good. -/
theorem skipped_inv (inv : Inv s) (active : s.phase.active = true) (found : s.plan[s.index]? = some mapping) :
    Inv { s with index := s.index + 1, offset := 0 } := by
  have next {advice : Advice} {budget : ℕ} (pass : Pass advice budget s) : Pass advice budget { s with index := s.index + 1, offset := 0 } := by
    refine pass.next rfl rfl rfl ?_
    have spent := pass.spent
    have within := pass.within mapping found
    rw [behind_succ s found]
    dsimp only
    omega
  constructor
  · exact inv.ordered
  · exact inv.inside
  · exact inv.proper
  · exact inv.marked
  · exact inv.markBudget
  · exact inv.pageBudget
  · intro marking
    obtain ⟨pass, unpaged, -⟩ := inv.marking marking
    exact ⟨next pass, unpaged, fun other _ => ColdUpTo.zero _ other⟩
  · intro waiting
    dsimp only at waiting
    rw [waiting] at active
    cases active
  · intro paging
    obtain ⟨pass, cold⟩ := inv.paging paging
    exact ⟨next pass, cold⟩

end Invariant

section Rounds

def freshSum (s : State Token) : ℕ := (s.fresh.map Advised.count).sum

/-- What a step's loop keeps: besides the invariant, how much it has advised, and that it has inspected what it pages out. -/
structure LoopInv (regions : List Region) (base : List Advised) (l : Loop Token) : Prop where
  inv : Inv l.state
  running : l.halted = false → freshSum l.state = l.done ∧ l.done < STEP_BYTES
  bounded : freshSum l.state < STEP_BYTES + CHUNK_BYTES
  inspected : ∀ call ∈ l.state.fresh, call.advice = .pageout →
    ∃ region, regionAt regions call.mapping = some region ∧ region.usable .pageout = true
  kept : l.state.advised = base ++ l.state.fresh

theorem advise_ok {answer : Answer} (ok : answer.errno = none) : (advise l mapping answer).state = obeyed l.state mapping := by
  unfold advise obeyed
  dsimp only
  rw [ok]
  rfl

theorem advise_refused {answer : Answer} {number : ℕ} (refused : answer.errno = some number) (inv : Inv l.state)
    (active : l.state.phase.active = true) (found : l.state.plan[l.state.index]? = some mapping) : Inv (advise l mapping answer).state := by
  unfold advise
  dsimp only
  rw [refused]
  dsimp only
  refine (logged inv active found false).refused rfl rfl inv.proper rfl rfl ?_
  dsimp only
  split
  · rfl
  · rfl

theorem obeyed_fresh (s : State Token) (mapping : Mapping) :
    (obeyed s mapping).fresh = s.fresh ++ [callOf s mapping true] ∧ (obeyed s mapping).advised = s.advised ++ [callOf s mapping true] := by
  unfold obeyed
  dsimp only
  split
  · split
    · exact ⟨rfl, rfl⟩
    · exact ⟨rfl, rfl⟩
  · split
    · exact ⟨rfl, rfl⟩
    · exact ⟨rfl, rfl⟩

theorem advise_inv {base : List Advised} (kept : LoopInv regions base l) (answer : Answer) (unhalted : l.halted = false)
    (active : l.state.phase.active = true) (found : l.state.plan[l.state.index]? = some mapping)
    {region : Region} (seen : regionAt regions mapping = some region) (usable : region.usable l.state.phase = true) :
    LoopInv regions base (advise l mapping answer) := by
  obtain ⟨sum, below⟩ := kept.running unhalted
  have chunk : min CHUNK_BYTES (size mapping - l.state.offset) ≤ CHUNK_BYTES := Nat.min_le_left _ _
  have inspected (ok : Bool) : ∀ call ∈ l.state.fresh ++ [callOf l.state mapping ok], call.advice = .pageout →
      ∃ region, regionAt regions call.mapping = some region ∧ region.usable .pageout = true := by
    intro call member advice
    rcases List.mem_append.mp member with before | new
    · exact kept.inspected call before advice
    · obtain rfl := List.mem_singleton.mp new
      have kinds : l.state.phase = .mark ∨ l.state.phase = .pageout := of_decide_eq_true active
      rcases kinds with marking | paging
      · rw [callOf_mark marking] at advice
        cases advice
      · exact ⟨region, seen, paging ▸ usable⟩
  have total (ok : Bool) : ((l.state.fresh ++ [callOf l.state mapping ok]).map Advised.count).sum =
      l.done + min CHUNK_BYTES (size mapping - l.state.offset) := by
    rw [List.map_append, List.sum_append, List.map_singleton, List.sum_singleton, callOf_count]
    exact congrArg (· + _) sum
  cases answered : answer.errno with
  | some number =>
    have inv := advise_refused answered kept.inv active found
    unfold advise at inv ⊢
    rw [answered] at inv ⊢
    constructor
    · exact inv
    · exact fun running => Bool.noConfusion running
    · refine lt_of_eq_of_lt (total false) ?_
      omega
    · exact inspected false
    · change l.state.advised ++ _ = base ++ (l.state.fresh ++ _)
      rw [kept.kept, List.append_assoc]
  | none =>
    have state := @advise_ok _ l mapping _ answered
    obtain ⟨fresh, advised⟩ := obeyed_fresh l.state mapping
    have inv : Inv (obeyed l.state mapping) := by
      have kinds : l.state.phase = .mark ∨ l.state.phase = .pageout := of_decide_eq_true active
      rcases kinds with marking | paging
      · exact obeyed_marking kept.inv marking found
      · exact obeyed_paging kept.inv paging found
    have sumToo : freshSum (advise l mapping answer).state = l.done + min CHUNK_BYTES (size mapping - l.state.offset) := by
      unfold freshSum
      rw [state, fresh, total true]
    constructor
    · rw [state]
      exact inv
    · intro running
      rw [sumToo]
      unfold advise at running ⊢
      rw [answered] at running ⊢
      have early := of_decide_eq_false running
      exact ⟨rfl, by dsimp only; omega⟩
    · rw [sumToo]
      omega
    · rw [state, fresh]
      exact inspected true
    · rw [state, fresh, advised, kept.kept, List.append_assoc]

theorem of_runs (runs : l.runs = true) : l.halted = false ∧ l.state.phase.active = true
    ∧ ∃ mapping, l.state.plan[l.state.index]? = some mapping := by
  unfold Loop.runs at runs
  obtain ⟨unhalted, inside⟩ := Bool.and_eq_true_iff.mp runs
  obtain ⟨running, active⟩ := Bool.and_eq_true_iff.mp unhalted
  exact ⟨by simpa using running, active, _, List.getElem?_eq_getElem (of_decide_eq_true inside)⟩

theorem iterate_inv {base : List Advised} (kept : LoopInv regions base l) (answers : ℕ → Answer) (runs : l.runs = true) :
    LoopInv regions base (iterate regions answers l) := by
  obtain ⟨going, active, -⟩ := of_runs runs
  unfold iterate
  split
  · exact kept
  · next mapping found =>
    split
    · refine ⟨skipped_inv kept.inv active found, kept.running, kept.bounded, kept.inspected, kept.kept⟩
    · next region seen =>
      obtain ⟨seen, usable⟩ := Option.filter_eq_some_iff.mp seen
      exact advise_inv kept (answers l.calls) going active found seen usable

theorem loop_inv {base : List Advised} (fuel : ℕ) (kept : LoopInv regions base l) (answers : ℕ → Answer) :
    LoopInv regions base (loop regions answers fuel l) := by
  induction fuel generalizing l with
  | zero => exact kept
  | succ fuel ih =>
    rw [loop]
    split
    · next runs => exact ih (iterate_inv kept answers runs)
    · exact kept

end Rounds

section Stages

variable {base : List Advised}

/-- A step that has not advised anything yet. -/
structure Ready (base : List Advised) (s : State Token) : Prop where
  inv : Inv s
  fresh : s.fresh = []
  advised : s.advised = base

structure Stepped (probes : Probes) (base : List Advised) (s : State Token) : Prop where
  inv : Inv s
  bounded : freshSum s < STEP_BYTES + CHUNK_BYTES
  inspected : ∀ call ∈ s.fresh, call.advice = .pageout → ∃ regions, probes.current = some regions
    ∧ ∃ region, regionAt regions call.mapping = some region ∧ region.usable .pageout = true
  kept : s.advised = base ++ s.fresh

theorem Ready.stepped (ready : Ready base s) (probes : Probes) : Stepped probes base s where
  inv := ready.inv
  bounded := by
    unfold freshSum
    rw [ready.fresh]
    decide
  inspected call member := by
    rw [ready.fresh] at member
    cases member
  kept := by rw [ready.fresh, ready.advised, List.append_nil]

/-- A stage leaves such a state, also where it ends with an exception. -/
def Both (P : State Token → Prop) : Except (State Token) (State Token) → Prop
  | .ok s => P s
  | .error s => P s

theorem proper_of_eligible (member : mapping ∈ (regions.filter fun region =>
    region.locked = 0 ∧ region.rss ≠ 0 ∧ region.start < region.end_).map Region.mapping) : 0 < size mapping := by
  obtain ⟨region, eligible, rfl⟩ := List.mem_map.mp member
  obtain ⟨-, -, room⟩ := of_decide_eq_true (List.mem_filter.mp eligible).2
  exact Nat.sub_pos_of_lt room

theorem Ready.rest (ready : Ready base s) {t : State Token} (advised : t.advised = s.advised) (fresh : t.fresh = s.fresh)
    (markedPlan : t.markedPlan = s.markedPlan) (markBudget : t.markBudget = s.markBudget) (pageBudget : t.pageBudget = s.pageBudget)
    (idle : t.phase.terminal = true) : Ready base t :=
  ⟨ready.inv.rest advised (fun _ member => markedPlan ▸ member) markBudget pageBudget idle, fresh.trans ready.fresh,
    advised.trans ready.advised⟩

theorem pressureBudget_idle {sample : PressureSample} {reason : Phase} {budget : ℕ}
    (refused : pressureBudget sample = (some reason, budget)) : reason.terminal = true := by
  unfold pressureBudget at refused
  repeat' split at refused
  all_goals
    obtain ⟨same, -⟩ := Prod.mk.inj refused
    cases same <;> rfl

theorem start_ready (token : Option Token) (probes : Probes) : Both (Ready []) (start token probes) := by
  have idle (phase : Phase) (before : Option Memory) (terminal : phase.terminal = true) :
      Ready [] { (State.initial : State Token) with token, phase, before } := ⟨initial_inv token phase before terminal, rfl, rfl⟩
  unfold start
  dsimp only
  split
  · next sample memory _ _ =>
    split
    · next reason budget refused => exact idle reason (some memory) (pressureBudget_idle refused)
    · next budget _ =>
      split
      · exact idle .small (some memory) rfl
      · split
        · exact idle .none_ (some memory) rfl
        · split
          · exact idle .none_ (some memory) rfl
          · next regions _ =>
            refine ⟨?_, rfl, rfl⟩
            have quiet := initial_inv token .none_ (some memory) rfl
            constructor
            · exact quiet.ordered
            · exact quiet.inside
            · exact quiet.proper
            · exact quiet.marked
            · exact Nat.zero_le _
            · exact quiet.pageBudget
            · intro marking
              refine ⟨⟨?_, ?_, ?_, Nat.zero_le _, fun _ => rfl⟩, rfl, fun mapping _ => ColdUpTo.zero _ mapping⟩
              · exact fun mapping member => proper_of_eligible (fill_subset _ _ _ mapping member)
              · exact fun mapping found => proper_of_eligible (fill_subset _ _ _ mapping (List.mem_of_getElem? found))
              · have fits := @fill_fits budget 0 ((regions.filter fun region =>
                  region.locked = 0 ∧ region.rss ≠ 0 ∧ region.start < region.end_).map Region.mapping) (Nat.zero_le _)
                rwa [Nat.zero_add] at fits
            · intro waiting
              dsimp only at waiting
              split at waiting
              · cases waiting
              · cases waiting
            · intro paging
              dsimp only at paging
              split at paging
              · cases paging
              · cases paging
  · next missing =>
    cases probes.startMemory with
    | none => exact idle .none_ none rfl
    | some memory => exact idle .none_ none rfl

theorem beginPageout_ready (ready : Ready base s) (waiting : s.phase = .waiting) (probes : Probes) :
    Both (Ready base) (beginPageout s probes) := by
  obtain ⟨unpaged, cold⟩ := ready.inv.waiting waiting
  unfold beginPageout
  split
  · exact ready
  · split
    · next refused => exact ready.rest rfl rfl rfl rfl rfl (pressureBudget_idle refused)
    · next budget _ =>
      split
      · exact ready
      · next regions _ =>
        have inside : ∀ mapping ∈ fill budget 0 (s.plan.filter fun mapping =>
            (regionAt regions mapping).any fun region => region.locked = 0 ∧ region.referenced = 0 ∧ region.rss ≠ 0),
            0 < size mapping ∧ ColdUpTo s.advised mapping (size mapping) := fun mapping member =>
          cold mapping (List.mem_of_mem_filter (fill_subset _ _ _ mapping member))
        refine ⟨?_, ready.fresh, ready.advised⟩
        constructor
        · exact ready.inv.ordered
        · exact ready.inv.inside
        · exact ready.inv.proper
        · exact ready.inv.marked
        · exact ready.inv.markBudget
        · rw [unpaged]
          exact Nat.zero_le _
        · intro marking
          dsimp only at marking
          split at marking
          · cases marking
          · cases marking
        · intro still
          dsimp only at still
          split at still
          · cases still
          · cases still
        · intro _
          refine ⟨⟨fun mapping member => (inside mapping member).1, ?_, ?_, ?_, fun _ => rfl⟩, fun mapping member => (inside mapping member).2⟩
          · exact fun mapping found => (inside mapping (List.mem_of_getElem? found)).1
          · have fits := @fill_fits budget 0 (s.plan.filter fun mapping =>
              (regionAt regions mapping).any fun region => region.locked = 0 ∧ region.referenced = 0 ∧ region.rss ≠ 0) (Nat.zero_le _)
            rwa [Nat.zero_add] at fits
          · rw [unpaged]
            exact Nat.zero_le _

theorem recheck_ready (ready : Ready base s) (probes : Probes) : Both (Ready base) (recheck s probes) := by
  unfold recheck
  split
  · split
    · exact ready
    · split
      · next refused => exact ready.rest rfl rfl rfl rfl rfl (pressureBudget_idle refused)
      · next budget _ =>
        change Ready base (if budget < CHUNK_BYTES then { s with phase := .noSwap } else s)
        split
        · exact ready.rest rfl rfl rfl rfl rfl rfl
        · exact ready
  · exact ready

theorem advisePlan_stepped (ready : Ready base s) (probes : Probes) : Both (Stepped probes base) (advisePlan s probes) := by
  unfold advisePlan
  split
  · split
    · exact ready.stepped probes
    · next regions found =>
      have opening : LoopInv regions base ⟨s, 0, 0, false⟩ := by
        have stepped := ready.stepped probes
        refine ⟨ready.inv, fun _ => ⟨?_, (by decide : 0 < STEP_BYTES)⟩, stepped.bounded, ?_, stepped.kept⟩
        · unfold freshSum
          rw [ready.fresh]
          rfl
        · intro call member
          dsimp only at member
          rw [ready.fresh] at member
          cases member
      have closing := loop_inv s.work opening probes.advice
      exact ⟨closing.inv, closing.bounded, fun call member advice => ⟨regions, found, closing.inspected call member advice⟩, closing.kept⟩
  · exact ready.stepped probes

theorem Stepped.rest (stepped : Stepped probes base s) {t : State Token} (advised : t.advised = s.advised) (fresh : t.fresh = s.fresh)
    (markedPlan : ∀ mapping ∈ t.markedPlan, mapping ∈ s.markedPlan) (markBudget : t.markBudget = s.markBudget)
    (pageBudget : t.pageBudget = s.pageBudget) (idle : t.phase.terminal = true) : Stepped probes base t where
  inv := stepped.inv.rest advised markedPlan markBudget pageBudget idle
  bounded := by
    unfold freshSum
    rw [fresh]
    exact stepped.bounded
  inspected := fresh ▸ stepped.inspected
  kept := by rw [advised, fresh, stepped.kept]

theorem Stepped.failed (stepped : Stepped probes base s) : Stepped probes base s.failed :=
  stepped.rest rfl rfl (fun _ member => absurd member List.not_mem_nil) rfl rfl rfl

theorem endPass_stepped (stepped : Stepped probes base s) : Stepped probes base (endPass s) := by
  unfold endPass
  split
  · split
    · next marking =>
      obtain ⟨-, unpaged, -⟩ := stepped.inv.marking marking
      refine ⟨?_, stepped.bounded, stepped.inspected, stepped.kept⟩
      constructor
      · exact stepped.inv.ordered
      · exact stepped.inv.inside
      · exact stepped.inv.proper
      · exact stepped.inv.marked
      · exact stepped.inv.markBudget
      · exact stepped.inv.pageBudget
      · intro still
        dsimp only at still
        split at still
        · cases still
        · cases still
      · exact fun _ => ⟨unpaged, fun mapping member => ⟨stepped.inv.proper mapping member, stepped.inv.marked mapping member⟩⟩
      · intro paging
        dsimp only at paging
        split at paging
        · cases paging
        · cases paging
    · exact stepped.rest rfl rfl (fun _ member => member) rfl rfl rfl
  · exact stepped

/-- What a step leaves, also where an exception ends it. -/
def Leaves (P : State Token → Prop) : Except (State Token) (State Token × Reply) → Prop
  | .ok result => P result.1
  | .error s => P s.failed

theorem settle_leaves {P : State Token → Prop} {result : Except (State Token) (State Token × Reply)} (leaves : Leaves P result) :
    P (settle result).1 := by
  cases result with
  | ok result => exact leaves
  | error s => exact leaves

theorem conclude_leaves (stepped : Stepped probes base s) : Leaves (Stepped probes base) (conclude s probes) := by
  unfold conclude
  split
  · next idle =>
    split
    · exact stepped.rest rfl rfl (fun _ member => absurd member List.not_mem_nil) rfl rfl idle
    · exact stepped.failed
  · exact stepped

theorem proceed_leaves (ready : Ready base s) (request : Request) (probes : Probes) :
    Leaves (Stepped probes base) (proceed s request probes) := by
  have begun : Both (Ready base) (enterPageout s request probes) := by
    unfold enterPageout
    split
    · next asked => exact beginPageout_ready ready asked.2 probes
    · exact ready
  unfold proceed
  change Leaves _ ((enterPageout s request probes).bind _)
  cases first : enterPageout s request probes with
  | error t =>
    rw [first] at begun
    exact (begun.stepped probes).failed
  | ok t =>
    rw [first] at begun
    have checked := recheck_ready begun probes
    change Leaves _ ((recheck t probes).bind _)
    cases second : recheck t probes with
    | error u =>
      rw [second] at checked
      exact (checked.stepped probes).failed
    | ok u =>
      rw [second] at checked
      have advised := advisePlan_stepped checked probes
      change Leaves _ ((advisePlan u probes).bind _)
      cases third : advisePlan u probes with
      | error v =>
        rw [third] at advised
        exact advised.failed
      | ok v =>
        rw [third] at advised
        exact conclude_leaves (endPass_stepped advised)

end Stages

section Runs

theorem Inv.ready (inv : Inv s) : Ready s.advised { s with fresh := [] } :=
  ⟨⟨inv.ordered, inv.inside, inv.proper, inv.marked, inv.markBudget, inv.pageBudget,
    fun marking => by
      obtain ⟨pass, rest⟩ := inv.marking marking
      exact ⟨⟨pass.proper, pass.within, pass.fits, pass.spent, pass.atStart⟩, rest⟩,
    inv.waiting,
    fun paging => by
      obtain ⟨pass, rest⟩ := inv.paging paging
      exact ⟨⟨pass.proper, pass.within, pass.fits, pass.spent, pass.atStart⟩, rest⟩⟩, rfl, rfl⟩

variable [DecidableEq Token]

/-- What a step starts from: nothing for a new token, else what has been advised so far. -/
def carried (s : State Token) (token : Option Token) (request : Request) : List Advised :=
  if request = .mark ∧ s.token ≠ token then [] else s.advised

theorem step_stepped (inv : Inv s) (token : Option Token) (request : Request) (probes : Probes) :
    Stepped probes (carried s token request) (step s token request probes).1 := by
  unfold step carried
  split
  · apply settle_leaves
    have begun := start_ready token probes
    cases started : start token probes with
    | error t =>
      rw [started] at begun
      exact (begun.stepped probes).failed
    | ok t =>
      rw [started] at begun
      exact proceed_leaves begun request probes
  · split
    · exact inv.ready.stepped probes
    · exact settle_leaves (proceed_leaves inv.ready request probes)

theorem run_inv (steps : List (Option Token × Request × Probes)) : Inv (run steps) := by
  unfold run
  induction steps using List.reverseRecOn with
  | nil => exact initial_inv none .none_ none rfl
  | append_singleton steps each ih =>
    rw [List.foldl_append]
    exact (step_stepped ih each.1 each.2.1 each.2.2).inv

/-- A token without work left stays so, and nothing more is advised for it; only a failed probe changes its phase. -/
theorem terminal_step (idle : s.phase.terminal = true) (token : Option Token) (request : Request) (probes : Probes)
    (same : ¬(request = .mark ∧ s.token ≠ token)) :
    (step s token request probes).1.phase.terminal = true
      ∧ ((step s token request probes).1.phase = s.phase ∨ (step s token request probes).1.phase = .unavailable)
      ∧ (step s token request probes).1.advised = s.advised ∧ (step s token request probes).1.fresh = [] := by
  have quiet : s.phase ≠ .mark ∧ s.phase ≠ .waiting ∧ s.phase ≠ .pageout := of_decide_eq_true idle
  have inactive : ¬s.phase.active = true := by
    intro active
    rcases (of_decide_eq_true active : s.phase = .mark ∨ s.phase = .pageout) with marking | paging
    · exact quiet.1 marking
    · exact quiet.2.2 paging
  unfold step
  rw [if_neg same]
  split
  · exact ⟨idle, .inl rfl, rfl, rfl⟩
  · have through : proceed { s with fresh := [] } request probes = conclude { s with fresh := [] } probes := by
      unfold proceed enterPageout
      rw [if_neg fun asked => quiet.2.1 asked.2]
      change (recheck { s with fresh := [] } probes).bind _ = _
      unfold recheck
      rw [if_neg quiet.2.2]
      change (advisePlan { s with fresh := [] } probes).bind _ = _
      unfold advisePlan
      rw [if_neg inactive]
      change conclude (endPass { s with fresh := [] }) probes = _
      unfold endPass
      rw [if_neg fun active => inactive active.1]
    rw [through]
    unfold conclude
    rw [if_pos idle]
    split
    · exact ⟨idle, .inl rfl, rfl, rfl⟩
    · exact ⟨rfl, .inr rfl, rfl, rfl⟩

def plenty : PressureSample := ⟨some (4 * 2 ^ 30), some (4 * 2 ^ 30), some (2 ^ 30), some 0, some true, none, false⟩

def scarce : PressureSample := { plenty with available := some 0 }

/-- A step that finds no pressure, and whose last probe fails or not. -/
def idleProbes (after : Option Memory) : Probes :=
  ⟨some plenty, some ⟨0, 2 ^ 28, 0⟩, true, some [], some plenty, some [], some plenty, some [], fun _ => ⟨none, false⟩, after⟩

/-- A step that finds a mapping to mark, and time for one chunk. -/
def markProbes : Probes :=
  { idleProbes none with
    startPressure := some scarce, startRegions := some [⟨0, 2 ^ 21, 4096, 0, 0⟩], current := some [⟨0, 2 ^ 21, 4096, 0, 0⟩]
    advice := fun _ => ⟨none, true⟩ }

end Runs

end PersistentHarness.ColdResidency
