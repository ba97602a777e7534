import PersistentHarness.Soundness.Notification.Moves

/-! # Leases are issued and settled one at a time

An observer of one notification at one endpoint records the leases that claims return and the outcomes that
receipts record. Whatever the order of calls, and whatever the clock does, the row of the delivery agrees with
this ledger: its attempts are the leases, its current lease is the last one, and only an accepted row has an
accepted outcome.
-/

namespace PersistentHarness.Notifications

/-- What an observer of a delivery knows: its leases with their ends, whether the last one has an outcome,
and the number of accepted outcomes. -/
structure Ledger where
  leases : List (ℕ × ℤ)
  settled : Bool
  accepted : ℕ

namespace Ledger

def initial : Ledger := ⟨[], true, 0⟩

def observe (key : JsString × JsString) (now : ℤ) (ledger : Ledger) : Emission → Ledger
  | .leased claim =>
    if (claim.notificationId, claim.endpointId) = key then
      { ledger with leases := ledger.leases ++ [(claim.leaseId, now + leaseMs)], settled := false }
    else ledger
  | .recorded other _ outcome _ =>
    if other = key then
      { ledger with settled := true, accepted := ledger.accepted + if outcome = .accepted then 1 else 0 }
    else ledger

/-- The last lease has no outcome yet and has not run out. -/
def Outstanding (ledger : Ledger) (now : ℤ) : Prop :=
  ledger.settled = false ∧ ∃ lease, ledger.leases.getLast? = some lease ∧ now < lease.2

end Ledger

/-- The store after a sequence of calls, and what the observer of a delivery recorded. -/
def tally (env : Env) (key : JsString × JsString) (events : List Event) : Store × Ledger :=
  events.foldl (fun progress event =>
    let (next, output) := step env event.world progress.1 event.now event.op
    (next, (emissions event.op output).foldl (Ledger.observe key event.now) progress.2)) (.empty, .initial)

section Agreement

variable {s t : Store} {key : JsString × JsString} {now : ℤ} {ledger : Ledger}

structure RowAgrees (row : Delivery) (ledger : Ledger) : Prop where
  attempts : ledger.leases.length = row.attempts
  bounded : row.attempts ≤ retryMs.length
  pending : row.state = .pending → ledger.settled = true
  inflight : row.state = .inflight → ∃ leaseId ends, row.leaseId = some leaseId ∧ row.leaseUntil = some ends ∧
    ledger.leases.getLast? = some (leaseId, ends)
  accepted : ledger.accepted = if row.state = .accepted then 1 else 0

/-- The row of a delivery agrees with the ledger of its observer. -/
structure Agrees (key : JsString × JsString) (s : Store) (ledger : Ledger) : Prop where
  absent : s.deliveries.get? key = none → ledger = .initial
  row : ∀ row, s.deliveries.get? key = some row → RowAgrees row ledger
  distinct : (ledger.leases.map Prod.fst).Nodup
  drawn : ∀ lease ∈ ledger.leases, lease.1 < s.draws

theorem agrees_empty (key : JsString × JsString) : Agrees key .empty .initial :=
  ⟨fun _ => rfl, (by rintro row ⟨⟩), List.nodup_nil, (by rintro lease ⟨⟩)⟩

/-- Moves that leave the delivery and the draws alone. -/
theorem Agrees.frame (agrees : Agrees key s ledger) (same : t.deliveries.get? key = s.deliveries.get? key)
    (draws : s.draws ≤ t.draws) : Agrees key t ledger :=
  ⟨fun absent => agrees.absent (same ▸ absent), fun row found => agrees.row row (same ▸ found), agrees.distinct,
    fun lease member => (agrees.drawn lease member).trans_le draws⟩

theorem Agrees.rewrite {next : Delivery} {after : Ledger} (found : t.deliveries.get? key = some next)
    (agrees : RowAgrees next after) (distinct : (after.leases.map Prod.fst).Nodup)
    (drawn : ∀ lease ∈ after.leases, lease.1 < t.draws) : Agrees key t after := by
  refine ⟨fun absent => ?_, fun row stored => ?_, distinct, drawn⟩
  · rw [found] at absent
    cases absent
  · rw [found] at stored
    cases stored
    exact agrees

theorem rowAgrees_offered (now : ℤ) : RowAgrees (.offered now) .initial :=
  ⟨rfl, Nat.zero_le _, fun _ => rfl, (by rintro ⟨⟩), rfl⟩

theorem unaccepted_of_isOpen {state : DeliveryState} (opened : state.isOpen = true) : state ≠ .accepted := by
  rintro rfl
  cases opened

theorem RowAgrees.closes {row next : Delivery} (agrees : RowAgrees row ledger) (closes : Closes row next) :
    RowAgrees next ledger := by
  cases closes with
  | same state attempts leaseId leaseUntil =>
    refine ⟨agrees.attempts.trans attempts.symm, attempts ▸ agrees.bounded, ?_, ?_, ?_⟩
    · rw [state]
      exact agrees.pending
    · rw [state, leaseId, leaseUntil]
      exact agrees.inflight
    · rw [state]
      exact agrees.accepted
  | closed opened state attempts =>
    have count := agrees.accepted
    rw [if_neg (unaccepted_of_isOpen opened)] at count
    refine ⟨agrees.attempts.trans attempts.symm, attempts ▸ agrees.bounded, ?_, ?_, ?_⟩
    · intro pending
      rcases state with state | state <;> rw [pending] at state <;> cases state
    · intro inflight
      rcases state with state | state <;> rw [inflight] at state <;> cases state
    · rcases state with state | state <;> rw [count, state] <;> rfl

theorem RowAgrees.idle {row : Delivery} (agrees : RowAgrees row ledger) (due : row.due now = true) :
    ¬ledger.Outstanding now := by
  rintro ⟨unsettled, lease, last, running⟩
  obtain ⟨-, ⟨pending, -⟩ | lapsed⟩ := of_decide_eq_true due
  · rw [agrees.pending pending] at unsettled
    cases unsettled
  · obtain ⟨inflight, ended⟩ := of_decide_eq_true lapsed
    obtain ⟨leaseId, ends, -, until_, current⟩ := agrees.inflight inflight
    rw [last] at current
    cases current
    rw [until_, Option.any_some, decide_eq_true_eq] at ended
    omega

theorem RowAgrees.leased {row : Delivery} (agrees : RowAgrees row ledger) (due : row.due now = true) (leaseId : ℕ) (ends : ℤ) :
    RowAgrees { row with state := .inflight, attempts := row.attempts + 1, leaseId := some leaseId, leaseUntil := some ends }
      { ledger with leases := ledger.leases ++ [(leaseId, ends)], settled := false } := by
  refine ⟨?_, (of_decide_eq_true due).1, (by rintro ⟨⟩), fun _ => ⟨leaseId, ends, rfl, rfl, List.getLast?_concat⟩, ?_⟩
  · rw [List.length_append, agrees.attempts, List.length_singleton]
  · have count := agrees.accepted
    rwa [if_neg (unaccepted_of_isOpen (Delivery.isOpen_of_due due))] at count

theorem RowAgrees.settled {row : Delivery} (agrees : RowAgrees row ledger) (inflight : row.state = .inflight)
    (outcome : Status) (code : JsString) (dueAt : ℤ) (acceptedAt : Option ℤ) :
    RowAgrees
      { row with
        state := outcomeState outcome row.attempts, code := some code, dueAt, leaseId := none, leaseUntil := none, acceptedAt }
      { ledger with settled := true, accepted := ledger.accepted + if outcome = .accepted then 1 else 0 } := by
  have count := agrees.accepted
  rw [inflight, if_neg (by decide)] at count
  refine ⟨agrees.attempts, agrees.bounded, fun _ => rfl, fun again => ?_, ?_⟩
  · unfold outcomeState at again
    split_ifs at again
  · rw [count, Nat.zero_add]
    unfold outcomeState
    split_ifs <;> simp_all

theorem issued_nodup (agrees : Agrees key s ledger) (ends : ℤ) :
    ((ledger.leases ++ [(s.draws, ends)]).map Prod.fst).Nodup := by
  rw [List.map_append]
  refine List.nodup_append.mpr ⟨agrees.distinct, List.nodup_singleton _, ?_⟩
  rintro leaseId member other drawn rfl
  obtain ⟨lease, earlier, same⟩ := List.mem_map.mp member
  have below := agrees.drawn lease earlier
  rw [same, List.mem_singleton.mp drawn] at below
  exact lt_irrefl _ below

theorem Agrees.issued {row : Delivery} (agrees : Agrees key s ledger) (found : s.deliveries.get? key = some row)
    (due : row.due now = true) : Agrees key (issueLease s key now)
      { ledger with leases := ledger.leases ++ [(s.draws, now + leaseMs)], settled := false } := by
  refine .rewrite ((Table.get?_update_of found _ _).trans (if_pos rfl)) ((agrees.row row found).leased due _ _)
    (issued_nodup agrees _) fun lease member => ?_
  rcases List.mem_append.mp member with earlier | new
  · exact Nat.lt_succ_of_lt (agrees.drawn lease earlier)
  · rw [List.mem_singleton.mp new]
    exact Nat.lt_succ_self _

theorem Move.agrees {emission : Option Emission} (move : Move now s emission t) (agrees : Agrees key s ledger) :
    Agrees key t (emission.toList.foldl (Ledger.observe key now) ledger) := by
  cases move with
  | notices notices => exact agrees.frame (by rw [notices.deliveries]) notices.draws
  | @offered other known =>
    by_cases here : key = other
    · subst here
      cases before : s.deliveries.get? key with
      | none =>
        obtain rfl := agrees.absent before
        refine .rewrite ?_ (rowAgrees_offered now) agrees.distinct agrees.drawn
        rw [Table.get?_insertOrIgnore, if_pos rfl, before, Option.getD_none]
      | some row =>
        refine agrees.frame ?_ (le_refl _)
        rw [Table.get?_insertOrIgnore, if_pos rfl, before, Option.getD_some]
    · refine agrees.frame ?_ (le_refl _)
      rw [Table.get?_insertOrIgnore, if_neg here]
  | @rewritten f closes =>
    cases before : s.deliveries.get? key with
    | none =>
      refine agrees.frame ?_ (le_refl _)
      rw [Table.get?_modify, before, Option.map_none]
    | some row =>
      refine .rewrite ?_ ((agrees.row row before).closes (closes key row before)) agrees.distinct agrees.drawn
      rw [Table.get?_modify, before, Option.map_some]
  | @leased other row notification found due present live =>
    by_cases here : other = key
    · subst here
      have observed := agrees.issued found due
      rwa [Option.toList_some, List.foldl_cons, List.foldl_nil, Ledger.observe, if_pos rfl]
    · rw [Option.toList_some, List.foldl_cons, List.foldl_nil, Ledger.observe, if_neg here]
      refine agrees.frame ?_ (Nat.le_succ _)
      exact (Table.get?_update_of found _ _).trans (if_neg (Ne.symm here))
  | @settled other row leaseId outcome code dueAt acceptedAt found current inflight =>
    by_cases here : other = key
    · subst here
      rw [Option.toList_some, List.foldl_cons, List.foldl_nil, Ledger.observe, if_pos rfl]
      exact .rewrite ((Table.get?_update_of found _ _).trans (if_pos rfl))
        ((agrees.row row found).settled inflight outcome code dueAt acceptedAt) agrees.distinct agrees.drawn
    · rw [Option.toList_some, List.foldl_cons, List.foldl_nil, Ledger.observe, if_neg here]
      refine agrees.frame ?_ (le_refl _)
      exact (Table.get?_update_of found _ _).trans (if_neg (Ne.symm here))

theorem Move.keepsClosed {emission : Option Emission} {state : DeliveryState} (closed : state.isOpen = false)
    (move : Move now s emission t) (stored : ∃ row, s.deliveries.get? key = some row ∧ row.state = state) :
    ∃ row, t.deliveries.get? key = some row ∧ row.state = state := by
  obtain ⟨row, found, same⟩ := stored
  cases move with
  | notices notices => exact ⟨row, by rw [notices.deliveries, found], same⟩
  | @offered other known =>
    refine ⟨row, ?_, same⟩
    rw [Table.get?_insertOrIgnore]
    split
    · next here => rw [← here, found, Option.getD_some]
    · exact found
  | @rewritten f closes =>
    refine ⟨f key row, by rw [Table.get?_modify, found, Option.map_some], ?_⟩
    cases closes key row found with
    | same state => exact state.trans same
    | closed opened =>
      rw [same, closed] at opened
      cases opened
  | @leased other leased _ present due =>
    have apart : key ≠ other := by
      rintro rfl
      rw [found] at present
      cases present
      have opened := Delivery.isOpen_of_due due
      rw [same, closed] at opened
      cases opened
    exact ⟨row, (Table.get?_update_of present _ _).trans ((if_neg apart).trans found), same⟩
  | @settled other settled leaseId outcome code dueAt acceptedAt present current inflight =>
    have apart : key ≠ other := by
      rintro rfl
      rw [found] at present
      cases present
      rw [← same, inflight] at closed
      cases closed
    exact ⟨row, (Table.get?_update_of present _ _).trans ((if_neg apart).trans found), same⟩

end Agreement

section Runs

variable {env : Env} {key : JsString × JsString}

theorem tally_concat (events : List Event) (event : Event) :
    tally env key (events ++ [event]) =
      ((step env event.world (tally env key events).1 event.now event.op).1,
        (emissions event.op (step env event.world (tally env key events).1 event.now event.op).2).foldl
          (Ledger.observe key event.now) (tally env key events).2) := List.foldl_concat ..

theorem tally_store (events : List Event) : (tally env key events).1 = run env events := by
  induction events using List.reverseRecOn with
  | nil => rfl
  | append_singleton events event ih => rw [tally_concat, run_concat, ih]

theorem tally_agrees (events : List Event) : Agrees key (run env events) (tally env key events).2 := by
  induction events using List.reverseRecOn with
  | nil => exact agrees_empty key
  | append_singleton events event ih =>
    rw [tally_concat, run_concat, tally_store]
    exact (step_trace env event.world (run_known env events) event.op).observes
      (fun _ _ _ _ move agrees => move.agrees agrees) ih

theorem recorded_of_receipt {s : Store} {leaseId : ℕ} {status : JsString} {now : ℤ} {next : Store} {state : DeliveryState}
    (done : receipt s key.1 key.2 leaseId status now = .ok (next, some state)) :
    ∃ row, s.deliveries.get? key = some row ∧ row.leaseId = some leaseId ∧ row.state = .inflight := by
  unfold receipt at done
  split at done
  · cases done
  · split at done
    · cases done
    · next row current =>
      obtain ⟨found, holds⟩ := Option.filter_eq_some_iff.mp current
      exact ⟨row, found, of_decide_eq_true holds⟩

theorem emissions_of_claims (op : Op) {output : Output} {before after : List Claim} {claim : Claim}
    (claims : output.claims = before ++ claim :: after) :
    emissions op output =
      before.map .leased ++ .leased claim :: (after.map .leased ++ (output.recorded.bind op.recorded).toList) := by
  rw [emissions, claims, List.map_append, List.map_cons, List.append_assoc, List.cons_append]

/-- The leases of a delivery are its attempts, at most as many as there are waits; a lease is issued only when
none is outstanding, for a notification that may be shown; an outcome is recorded for the last lease of an
inflight delivery only, and accepted at most once; a closed delivery stays as it is. -/
theorem run_leases (env : Env) (events : List Event) (key : JsString × JsString) :
    (tally env key events).2.leases.length = ((run env events).deliveries.get? key).elim 0 Delivery.attempts
      ∧ (tally env key events).2.leases.length ≤ retryMs.length ∧ ((tally env key events).2.leases.map Prod.fst).Nodup
      ∧ (tally env key events).2.accepted ≤ 1
      ∧ ∀ event : Event,
        (∀ before claim after, (step env event.world (run env events) event.now event.op).2.claims = before ++ claim :: after →
          (claim.notificationId, claim.endpointId) = key →
          ¬((before.map .leased).foldl (Ledger.observe key event.now) (tally env key events).2).Outstanding event.now
            ∧ ∃ notification, claim.notification = some notification ∧ Live notification event.now)
        ∧ (∀ leaseId status state, event.op = .receipt key.1 key.2 leaseId status →
          (step env event.world (run env events) event.now event.op).2.recorded = some state →
          ∃ row ends, (run env events).deliveries.get? key = some row ∧ row.state = .inflight
            ∧ (tally env key events).2.leases.getLast? = some (leaseId, ends))
        ∧ ∀ row, (run env events).deliveries.get? key = some row → row.state.isOpen = false →
          ∃ next, (step env event.world (run env events) event.now event.op).1.deliveries.get? key = some next
            ∧ next.state = row.state := by
  have agrees : Agrees key (run env events) (tally env key events).2 := tally_agrees events
  refine ⟨?_, ?_, agrees.distinct, ?_, fun event => ?_⟩
  · cases found : (run env events).deliveries.get? key with
    | none => rw [agrees.absent found]; rfl
    | some row => exact (agrees.row row found).attempts
  · cases found : (run env events).deliveries.get? key with
    | none => rw [agrees.absent found]; exact Nat.zero_le _
    | some row => exact (agrees.row row found).attempts.trans_le (agrees.row row found).bounded
  · cases found : (run env events).deliveries.get? key with
    | none => rw [agrees.absent found]; exact Nat.zero_le _
    | some row =>
      rw [(agrees.row row found).accepted]
      split <;> omega
  have trace := @step_trace _ event.now env event.world (run_known env events) event.op
  refine ⟨fun before claim after claims same => ?_, fun leaseId status state is recorded => ?_, fun row found closed => ?_⟩
  · obtain ⟨u, v, earlier, issue⟩ := trace.emission (emissions_of_claims event.op claims)
    have then_ := earlier.observes (fun _ _ _ _ move agrees => Move.agrees move agrees) agrees
    cases issue with
    | leased found due present live =>
      refine ⟨?_, _, rfl, live⟩
      subst same
      exact (then_.row _ found).idle due
  · rw [is] at recorded
    cases done : receipt (run env events) key.1 key.2 leaseId status event.now with
    | error thrown =>
      simp only [step, done, Except.map, checked] at recorded
      cases recorded
    | ok result =>
      simp only [step, done, Except.map, checked] at recorded
      have outcome : receipt (run env events) key.1 key.2 leaseId status event.now = .ok (result.1, some state) := by
        rw [done, ← recorded]
      obtain ⟨row, found, current, inflight⟩ := recorded_of_receipt outcome
      obtain ⟨_, ends, same, -, last⟩ := (agrees.row row found).inflight inflight
      rw [current] at same
      cases same
      exact ⟨row, ends, found, inflight, last⟩
  · exact trace.preserves (fun _ _ _ move stored => move.keepsClosed closed stored) ⟨row, found, rfl⟩

end Runs

end PersistentHarness.Notifications
