import PersistentHarness.Data.JsonRoundTrip
import PersistentHarness.Model.Session.Views

/-! # The lifetime summary is what a fresh load would read

A summary in memory is current for a list of entries when its totals are their sums and its models are their
groups, each under its own key. A load is current for the table, and every insert that changed a row keeps a
summary current. Two current summaries list the same models, so they sort to one report.
-/

namespace PersistentHarness.SessionStore

/-! ## Names and their keys -/

theorem modelKey_inj {provider model otherProvider otherModel : JsString} :
    modelKey provider model = modelKey otherProvider otherModel ↔ provider = otherProvider ∧ model = otherModel := by
  constructor
  · intro same
    have read : ∀ names others : JsString, Json.parse (modelKey names others) =
        some (Json.readBack (.arr [.str names, .str others])) :=
      fun names others => Json.parse_stringify_readBack (by simp)
    have parsed := read provider model
    rw [same, read] at parsed
    simpa [Json.readBack, Json.readBackItems, eq_comm] using parsed
  · rintro ⟨rfl, rfl⟩
    rfl

/-! ## Groups of entries -/

abbrev UsageEntry.named (row : UsageEntry) (provider model : JsString) : Prop :=
  row.provider = provider ∧ row.model = model

theorem groupRow_concat (rows : List UsageEntry) (row : UsageEntry) :
    groupRow (rows ++ [row]) row.provider row.model =
      { groupRow rows row.provider row.model with
        entries := (groupRow rows row.provider row.model).entries + 1
        totalTokens := (groupRow rows row.provider row.model).totalTokens + row.totalTokens
        costTotal := (groupRow rows row.provider row.model).costTotal + row.costTotal } := by
  simp [groupRow, List.filter_append]

theorem groupRow_concat_of_ne {rows : List UsageEntry} {row : UsageEntry} {provider model : JsString}
    (other : ¬row.named provider model) : groupRow (rows ++ [row]) provider model = groupRow rows provider model := by
  have apart : ¬(row.provider = provider ∧ row.model = model) := other
  simp [groupRow, List.filter_append, apart]

/-- A model without an entry has used nothing. -/
theorem groupRow_of_absent {rows : List UsageEntry} {provider model : JsString}
    (absent : ∀ row ∈ rows, ¬row.named provider model) : groupRow rows provider model = ⟨provider, model, 0, 0, 0⟩ := by
  have nothing : (rows.filter fun row => row.provider = provider ∧ row.model = model) = [] := by
    rw [List.filter_eq_nil_iff]
    intro row member named
    exact absent row member (of_decide_eq_true named)
  simp only [groupRow, nothing, List.length_nil, List.map_nil, List.sum_nil]

/-! ## Current summaries -/

/-- The models of a summary are the groups of these entries, each under its own key. -/
structure Groups (models : List (JsString × ModelUsage)) (rows : List UsageEntry) : Prop where
  unique : (Assoc.keys models).Nodup
  entry : ∀ key usage, Assoc.lookup models key = some usage ↔
    ∃ row ∈ rows, key = modelKey row.provider row.model ∧ usage = groupRow rows row.provider row.model

theorem Groups.before {models : List (JsString × ModelUsage)} {rows : List UsageEntry} (groups : Groups models rows)
    (provider model : JsString) :
    (Assoc.lookup models (modelKey provider model)).getD ⟨provider, model, 0, 0, 0⟩ = groupRow rows provider model := by
  cases found : Assoc.lookup models (modelKey provider model) with
  | some usage =>
    obtain ⟨row, -, sameKey, rfl⟩ := (groups.entry _ _).mp found
    obtain ⟨rfl, rfl⟩ := modelKey_inj.mp sameKey
    rfl
  | none =>
    rw [Option.getD_none, groupRow_of_absent]
    rintro row member ⟨rfl, rfl⟩
    have present := (groups.entry _ _).mpr ⟨row, member, rfl, rfl⟩
    rw [found] at present
    contradiction

theorem Groups.add {models : List (JsString × ModelUsage)} {rows : List UsageEntry} (groups : Groups models rows)
    (row : UsageEntry) :
    Groups (Assoc.set models (modelKey row.provider row.model) (groupRow (rows ++ [row]) row.provider row.model))
      (rows ++ [row]) := by
  refine ⟨Assoc.keys_nodup_set groups.unique _ _, fun key usage => ?_⟩
  rw [Assoc.lookup_set]
  split
  · next same =>
    subst same
    constructor
    · intro stored
      obtain rfl := Option.some.inj stored
      exact ⟨row, by simp, rfl, rfl⟩
    · rintro ⟨entry, -, sameKey, rfl⟩
      obtain ⟨sameProvider, sameModel⟩ := modelKey_inj.mp sameKey
      rw [sameProvider, sameModel]
  · next other =>
    rw [groups.entry]
    have kept : ∀ entry : UsageEntry, key = modelKey entry.provider entry.model →
        groupRow (rows ++ [row]) entry.provider entry.model = groupRow rows entry.provider entry.model := by
      rintro entry rfl
      exact groupRow_concat_of_ne fun named => other (modelKey_inj.mpr named)
    constructor
    · rintro ⟨entry, member, named, rfl⟩
      exact ⟨entry, List.mem_append_left _ member, named, (kept entry named).symm⟩
    · rintro ⟨entry, member, named, rfl⟩
      rcases List.mem_append.mp member with before | last
      · exact ⟨entry, before, named, kept entry named⟩
      · obtain rfl := List.mem_singleton.mp last
        exact absurd named.symm other

/-- The groups of the same entries are listed under the same keys. -/
theorem Groups.perm {models others : List (JsString × ModelUsage)} {rows : List UsageEntry}
    (groups : Groups models rows) (same : Groups others rows) : models.Perm others := by
  rw [List.perm_ext_iff_of_nodup (List.Nodup.of_map _ groups.unique) (List.Nodup.of_map _ same.unique)]
  rintro ⟨key, usage⟩
  constructor
  · intro member
    exact Assoc.mem_of_lookup ((same.entry _ _).mpr ((groups.entry _ _).mp (Assoc.lookup_of_mem groups.unique member)))
  · intro member
    exact Assoc.mem_of_lookup ((groups.entry _ _).mpr ((same.entry _ _).mp (Assoc.lookup_of_mem same.unique member)))

/-- A summary shows what these entries add up to. -/
structure UsageSummary.Current (summary : UsageSummary) (rows : List UsageEntry) : Prop where
  totals : summary.totals = usageTotals rows
  models : Groups summary.models rows

/-! ## Loading -/

/-- Writing rows under new keys lists them in their order. -/
theorem foldl_set_groups (rows : List ModelUsage) (models : List (JsString × ModelUsage))
    (unique : (Assoc.keys models ++ rows.map fun row => modelKey row.provider row.model).Nodup) :
    rows.foldl (fun models row => Assoc.set models (modelKey row.provider row.model) row) models =
      models ++ rows.map fun row => (modelKey row.provider row.model, row) := by
  induction rows generalizing models with
  | nil => rw [List.foldl_nil, List.map_nil, List.append_nil]
  | cons row rest ih =>
    have fresh : Assoc.lookup models (modelKey row.provider row.model) = none := by
      refine Assoc.lookup_eq_none_iff.mpr fun known => ?_
      exact (List.nodup_append.mp unique).2.2 _ known _ (List.mem_cons_self ..) rfl
    rw [List.foldl_cons, Assoc.set_of_lookup_none fresh, ih]
    · rw [List.map_cons, List.append_assoc, List.singleton_append]
    · rw [Assoc.keys_append, List.append_assoc]
      exact unique

theorem mem_groupRows {rows : List UsageEntry} {usage : ModelUsage} :
    usage ∈ groupRows rows ↔ ∃ row ∈ rows, usage = groupRow rows row.provider row.model := by
  simp only [groupRows, List.mem_map, List.mem_dedup]
  constructor
  · rintro ⟨pair, ⟨row, member, rfl⟩, rfl⟩
    exact ⟨row, member, rfl⟩
  · rintro ⟨row, member, rfl⟩
    exact ⟨(row.provider, row.model), ⟨row, member, rfl⟩, rfl⟩

theorem groupRows_keys_nodup (rows : List UsageEntry) :
    ((groupRows rows).map fun row => modelKey row.provider row.model).Nodup := by
  rw [groupRows, List.map_map]
  refine (List.nodup_dedup _).map fun pair other same => ?_
  obtain ⟨sameProvider, sameModel⟩ := modelKey_inj.mp same
  exact Prod.ext sameProvider sameModel

/-- A load is current for the table it reads, whatever order its groups come in. -/
theorem loadUsageSummary_current (arrangement : Arrangement) (entries : UsageEntries) :
    (loadUsageSummary arrangement entries).Current entries.all := by
  have arranged := arrangement.perm (groupRows entries.all)
  have unique : ((arrangement.arrange (groupRows entries.all)).map fun row =>
      modelKey row.provider row.model).Nodup :=
    (arranged.map _).nodup_iff.mpr (groupRows_keys_nodup entries.all)
  have listed := foldl_set_groups (arrangement.arrange (groupRows entries.all)) [] (by simpa [Assoc.keys] using unique)
  have keysUnique : (Assoc.keys (loadUsageSummary arrangement entries).models).Nodup := by
    rw [loadUsageSummary, listed]
    simpa [Assoc.keys, Function.comp_def] using unique
  refine ⟨rfl, keysUnique, fun key usage => ?_⟩
  have stored : Assoc.lookup (loadUsageSummary arrangement entries).models key = some usage ↔
      (key, usage) ∈ (loadUsageSummary arrangement entries).models :=
    ⟨Assoc.mem_of_lookup, Assoc.lookup_of_mem keysUnique⟩
  rw [stored, loadUsageSummary, listed]
  simp only [List.nil_append, List.mem_map, Prod.mk.injEq, arranged.mem_iff, mem_groupRows]
  constructor
  · rintro ⟨_, ⟨row, member, rfl⟩, rfl, rfl⟩
    exact ⟨row, member, rfl, rfl⟩
  · rintro ⟨row, member, rfl, rfl⟩
    exact ⟨_, ⟨row, member, rfl⟩, rfl, rfl⟩

/-! ## Recording -/

/-- What a recorded row keeps of the report of its turn. -/
structure Usage.Recorded (usage : Usage) (row : UsageEntry) : Prop where
  provider : usage.provider = some row.provider
  model : usage.model = some row.model
  input : usage.input = some row.inputTokens
  output : usage.output = some row.outputTokens
  cacheRead : usage.cacheRead = some row.cacheReadTokens
  cacheWrite : usage.cacheWrite = some row.cacheWriteTokens
  reasoning : usage.reasoning = row.reasoningTokens
  totalTokens : usage.totalTokens = some row.totalTokens
  costTotal : usage.costTotal = some row.costTotal

theorem count?_eq_some {value : Option ℤ} {n : ℤ} (counted : count? value = some n) : value = some n :=
  (Option.filter_eq_some_iff.mp counted).1

theorem row?_recorded {usage : Usage} {now : ℤ} {entryId : JsString} {row : UsageEntry}
    (written : usage.row? now = some (entryId, row)) : usage.Recorded row := by
  simp only [Usage.row?, Option.bind_eq_bind, Option.bind_eq_some_iff, Option.pure_def] at written
  obtain ⟨_, -, provider, named, model, ofModel, input, inputs, output, outputs, cacheRead, reads, cacheWrite, writes,
    written⟩ := written
  split at written
  · contradiction
  · simp only [Option.bind_eq_some_iff, Option.some.injEq, Prod.mk.injEq] at written
    obtain ⟨total, totals, cost, costs, -, rfl⟩ := written
    exact ⟨named, ofModel, count?_eq_some inputs, count?_eq_some outputs, count?_eq_some reads, count?_eq_some writes, rfl,
      count?_eq_some totals, (Option.filter_eq_some_iff.mp costs).1⟩

theorem add_usageTotals {usage : Usage} {row : UsageEntry} (recorded : usage.Recorded row) (rows : List UsageEntry) :
    (usageTotals rows).add usage = usageTotals (rows ++ [row]) := by
  have reasoning : ([row].filterMap (·.reasoningTokens)).sum = row.reasoningTokens.getD 0 := by
    cases counted : row.reasoningTokens <;> simp [counted]
  simp [UsageTotals.add, usageTotals, fieldValue, recorded.input, recorded.output, recorded.cacheRead,
    recorded.cacheWrite, recorded.reasoning, recorded.totalTokens, recorded.costTotal, reasoning]

theorem UsageSummary.Current.add {summary : UsageSummary} {rows : List UsageEntry} (current : summary.Current rows)
    {usage : Usage} {row : UsageEntry} (recorded : usage.Recorded row) :
    (addUsage summary usage).Current (rows ++ [row]) := by
  constructor
  · rw [addUsage, current.totals, add_usageTotals recorded]
  · have added := current.models.add row
    rw [groupRow_concat] at added
    simpa only [addUsage, recorded.provider, recorded.model, Option.getD_some, current.models.before, fieldValue,
      recorded.totalTokens, recorded.costTotal] using added

/-- An insert changes nothing, or appends the row of its usage. -/
theorem insertUsage_cases (entries : UsageEntries) (sessionId : JsString) (usage : Usage) (now : ℤ) :
    insertUsage entries sessionId usage now = (entries, false) ∨
      ∃ inserted row, insertUsage entries sessionId usage now = (inserted, true) ∧ usage.Recorded row ∧
        inserted.all = entries.all ++ [row] := by
  unfold insertUsage
  split
  · next inserted stored =>
    obtain ⟨⟨entryId, row⟩, written, stored⟩ := Option.bind_eq_some_iff.mp stored
    obtain ⟨-, rows⟩ := Table.insert?_eq_some.mp stored
    refine .inr ⟨inserted, row, rfl, row?_recorded written, ?_⟩
    rw [UsageEntries.all, rows, List.map_append]
    rfl
  · exact .inl rfl

/-! ## One step and a run -/

/-- The summary in memory, if there is one, is current for the table. -/
def UsageStore.Current (store : UsageStore) : Prop :=
  ∀ summary, store.usageSummary = some summary → summary.Current store.usageEntries.all

theorem UsageStore.Current.recordUsage {store next : UsageStore} (current : store.Current) {sessions : Sessions}
    {sessionId : JsString} {usage : Usage} {now : ℤ} {recorded : Bool}
    (done : SessionStore.recordUsage store sessions sessionId usage now = .ok (next, recorded)) : next.Current := by
  obtain ⟨_, -, done⟩ := Checked.bind_eq_ok.mp done
  rcases insertUsage_cases store.usageEntries sessionId usage now with ignored | ⟨inserted, row, stored, kept, rows⟩
  · simp only [ignored] at done
    cases done
    exact current
  · simp only [stored] at done
    cases done
    intro summary held
    obtain ⟨before, found, rfl⟩ := Option.map_eq_some_iff.mp held
    rw [rows]
    exact (current before found).add kept

theorem UsageStore.Current.getUsageSummary {store : UsageStore} (current : store.Current) (arrangement : Arrangement) :
    (SessionStore.getUsageSummary arrangement store).1.Current := by
  rintro _ ⟨⟩
  cases held : store.usageSummary with
  | none => exact loadUsageSummary_current arrangement store.usageEntries
  | some summary => exact current summary held

theorem UsageStore.Current.step {store : UsageStore} (current : store.Current) (call : UsageCall) :
    (store.step call).Current := by
  cases call with
  | recordUsage sessions sessionId usage now =>
    rw [UsageStore.step]
    cases done : SessionStore.recordUsage store sessions sessionId usage now with
    | ok result => exact current.recordUsage done
    | error _ => exact current
  | getUsageSummary arrangement => exact current.getUsageSummary arrangement
  | reopen =>
    intro summary held
    contradiction

theorem UsageStore.Current.run {store : UsageStore} (current : store.Current) (calls : List UsageCall) :
    (store.run calls).Current := by
  induction calls generalizing store with
  | nil => exact current
  | cons call rest ih => exact ih (current.step call)

/-! ## The report -/

/-- The comparator puts a model before or beside another. -/
theorem modelOrder_le_iff {a b : ModelUsage} : modelOrder a b ≤ 0 ↔
    b.totalTokens < a.totalTokens ∨ a.totalTokens = b.totalTokens ∧
      (Value.keyLt a.provider b.provider ∨ a.provider = b.provider ∧ ¬Value.keyLt b.model a.model) := by
  have same : ∀ {x y : JsString}, ¬Value.keyLt x y → ¬Value.keyLt y x → x = y := fun {x y} notLess notMore => by
    rcases trichotomous_of Value.keyLt x y with less | same | more
    · exact absurd less notLess
    · exact same
    · exact absurd more notMore
  have irrefl : ∀ x, ¬Value.keyLt x x := irrefl_of Value.keyLt
  have asymm : ∀ {x y : JsString}, Value.keyLt x y → ¬Value.keyLt y x := asymm_of Value.keyLt
  unfold modelOrder order
  grind

theorem modelOrder_total (a b : ModelUsage) : modelOrder a b ≤ 0 ∨ modelOrder b a ≤ 0 := by
  rw [modelOrder_le_iff, modelOrder_le_iff]
  have asymm : ∀ {x y : JsString}, Value.keyLt x y → ¬Value.keyLt y x := asymm_of Value.keyLt
  have tri := trichotomous_of Value.keyLt a.provider b.provider
  grind

theorem modelOrder_trans {a b c : ModelUsage} (ab : modelOrder a b ≤ 0) (bc : modelOrder b c ≤ 0) : modelOrder a c ≤ 0 := by
  rw [modelOrder_le_iff] at ab bc ⊢
  have trans : ∀ {x y z : JsString}, Value.keyLt x y → Value.keyLt y z → Value.keyLt x z := trans_of Value.keyLt
  have tri := trichotomous_of Value.keyLt a.model b.model
  grind

/-- Two models that the comparator cannot tell apart have one name. -/
theorem modelOrder_antisymm {a b : ModelUsage} (ab : modelOrder a b ≤ 0) (ba : modelOrder b a ≤ 0) :
    a.provider = b.provider ∧ a.model = b.model := by
  rw [modelOrder_le_iff] at ab ba
  have asymm : ∀ {x y : JsString}, Value.keyLt x y → ¬Value.keyLt y x := asymm_of Value.keyLt
  have tri := trichotomous_of Value.keyLt a.model b.model
  grind

theorem UsageSummary.Current.report_eq {summary other : UsageSummary} {rows : List UsageEntry}
    (current : summary.Current rows) (same : other.Current rows) : summary.report = other.report := by
  have listed : (summary.models.map Prod.snd).Perm (other.models.map Prod.snd) :=
    (current.models.perm same.models).map _
  have grouped : ∀ usage ∈ summary.models.map Prod.snd, usage = groupRow rows usage.provider usage.model := by
    intro usage member
    obtain ⟨⟨key, _⟩, stored, rfl⟩ := List.mem_map.mp member
    obtain ⟨row, -, -, rfl⟩ := (current.models.entry _ _).mp (Assoc.lookup_of_mem current.models.unique stored)
    rfl
  have trans : ∀ a b c : ModelUsage, decide (modelOrder a b ≤ 0) = true → decide (modelOrder b c ≤ 0) = true →
      decide (modelOrder a c ≤ 0) = true :=
    fun a b c ab bc => decide_eq_true (modelOrder_trans (of_decide_eq_true ab) (of_decide_eq_true bc))
  have total : ∀ a b : ModelUsage, (decide (modelOrder a b ≤ 0) || decide (modelOrder b a ≤ 0)) = true := by
    intro a b
    simpa using modelOrder_total a b
  have sorted : ∀ models : List ModelUsage,
      (models.mergeSort fun a b => modelOrder a b ≤ 0).Pairwise fun a b => decide (modelOrder a b ≤ 0) = true :=
    List.pairwise_mergeSort trans total
  have order : (summary.models.map Prod.snd).mergeSort (fun a b => modelOrder a b ≤ 0) =
      (other.models.map Prod.snd).mergeSort fun a b => modelOrder a b ≤ 0 := by
    refine List.Perm.eq_of_pairwise ?_ (sorted _) (sorted _)
      ((List.mergeSort_perm _ _).trans (listed.trans (List.mergeSort_perm _ _).symm))
    intro a b left right ab ba
    -- a model is known by its names, so a tie is between a model and itself
    obtain ⟨sameProvider, sameModel⟩ := modelOrder_antisymm (of_decide_eq_true ab) (of_decide_eq_true ba)
    rw [grouped a (List.mem_mergeSort.mp left), grouped b (listed.mem_iff.mpr (List.mem_mergeSort.mp right)), sameProvider,
      sameModel]
  rw [UsageSummary.report, UsageSummary.report, current.totals, same.totals, order]

/-- Whatever calls came before on a store opened over any table, the summary it shows is the one that a load of its
table would show: the totals, and the listed models in their order. -/
theorem getUsageSummary_eq_load (entries : UsageEntries) (calls : List UsageCall) (kept fresh : Arrangement) :
    (getUsageSummary kept (UsageStore.run ⟨entries, none⟩ calls)).2 =
      (loadUsageSummary fresh (UsageStore.run ⟨entries, none⟩ calls).usageEntries).report := by
  have opened : UsageStore.Current ⟨entries, none⟩ := by
    intro summary held
    contradiction
  have current := opened.run calls
  exact (current.getUsageSummary kept _ rfl).report_eq (loadUsageSummary_current fresh _)

end PersistentHarness.SessionStore
