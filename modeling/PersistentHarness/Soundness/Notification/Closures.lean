import PersistentHarness.Soundness.Notification.Leases

/-! # Closes are told once

A close of a request goes to each endpoint that accepted it. One call tells at most eight of them and marks each in its
transaction, so no pair is told twice, and calls that are repeated tell every pair in the end.
-/

namespace PersistentHarness.Notifications

section Calls

variable {s t u : Store} {now : ℤ} {keys told : List (JsString × JsString)} {key : JsString × JsString}

def Settled (now : ℤ) (s : Store) : Prop :=
  ∀ id row, s.notifications.get? id = some row → ¬(row.state = .pending ∧ row.expiresAt ≤ now)

theorem settled_expire (s : Store) (now : ℤ) : Settled now (expire s now) := by
  intro id row found overdue
  rw [expire, Table.get?_modify] at found
  obtain ⟨before, _, rfl⟩ := Option.map_eq_some_iff.mp found
  split at overdue
  · cases overdue.1
  · next live => exact live overdue

theorem Settled.get?_expire (settled : Settled now s) (id : JsString) :
    (expire s now).notifications.get? id = s.notifications.get? id := by
  rw [expire, Table.get?_modify]
  cases found : s.notifications.get? id with
  | none => rfl
  | some row => rw [Option.map_some, if_neg (settled id row found)]

/-- These pairs are marked as told, and nothing else changes. -/
structure Told (now : ℤ) (s t : Store) (keys : List (JsString × JsString)) : Prop where
  notifications : ∀ id, t.notifications.get? id = s.notifications.get? id
  deliveries : ∀ key, t.deliveries.get? key = (s.deliveries.get? key).map fun row =>
    if key ∈ keys then { row with closeClaimedAt := some now } else row
  size : t.deliveries.rows.length = s.deliveries.rows.length

theorem Told.refl (s : Store) : Told now s s [] := by
  refine ⟨fun _ => rfl, fun key => ?_, rfl⟩
  cases s.deliveries.get? key with
  | none => rfl
  | some row => rw [Option.map_some, if_neg List.not_mem_nil]

theorem Told.trans (first : Told now s t keys) (second : Told now t u told) : Told now s u (keys ++ told) := by
  refine ⟨fun id => (second.notifications id).trans (first.notifications id), fun key => ?_, second.size.trans first.size⟩
  rw [second.deliveries, first.deliveries, Option.map_map]
  refine congrArg (fun f => (s.deliveries.get? key).map f) (funext fun row => ?_)
  simp only [Function.comp_apply, List.mem_append]
  by_cases earlier : key ∈ keys
  · by_cases later : key ∈ told
    · rw [if_pos later, if_pos earlier, if_pos (.inl earlier)]
    · rw [if_neg later, if_pos earlier, if_pos (.inl earlier)]
  · by_cases later : key ∈ told
    · rw [if_pos later, if_neg earlier, if_pos (.inr later)]
    · rw [if_neg later, if_neg earlier, if_neg (by rintro (member | member); exacts [earlier member, later member])]

theorem Told.settled (told : Told now s t keys) (settled : Settled now s) : Settled now t := by
  intro id row found
  rw [told.notifications] at found
  exact settled id row found

def Closure.pair (closure : Closure) : JsString × JsString := (closure.notificationId, closure.endpointId)

theorem claimClosure_told (settled : Settled now s) (collected : List Closure) (row : (JsString × JsString) × Delivery) :
    Told now s (claimClosure now (s, collected) row).1 [row.1]
      ∧ (claimClosure now (s, collected) row).2 = collected ++ [⟨row.1.1, row.1.2, s.notifications.get? row.1.1⟩] := by
  refine ⟨⟨fun id => settled.get?_expire id, fun key => ?_, ?_⟩, ?_⟩
  · change (s.deliveries.update row.1 _).get? key = _
    rw [Table.get?_update]
    split
    · next here => simp only [List.mem_singleton, if_pos here]
    · next other => simp only [List.mem_singleton, if_neg other, Option.map_id']
  · exact List.length_map ..
  · exact congrArg (fun found => collected ++ [⟨row.1.1, row.1.2, found⟩]) (settled.get?_expire row.1.1)

theorem claimClosure_foldl (rows : List ((JsString × JsString) × Delivery)) (settled : Settled now s) (collected : List Closure) :
    Told now s (rows.foldl (claimClosure now) (s, collected)).1 (rows.map Prod.fst)
      ∧ (rows.foldl (claimClosure now) (s, collected)).2
        = collected ++ rows.map fun row => ⟨row.1.1, row.1.2, s.notifications.get? row.1.1⟩ := by
  induction rows generalizing s collected with
  | nil => exact ⟨.refl s, (List.append_nil _).symm⟩
  | cons row rest ih =>
    obtain ⟨first, shown⟩ := claimClosure_told settled collected row
    obtain ⟨others, more⟩ := ih (first.settled settled) (collected ++ [⟨row.1.1, row.1.2, s.notifications.get? row.1.1⟩])
    have step : claimClosure now (s, collected) row = ((claimClosure now (s, collected) row).1,
      collected ++ [⟨row.1.1, row.1.2, s.notifications.get? row.1.1⟩]) := Prod.ext rfl shown
    rw [List.foldl_cons, step]
    refine ⟨first.trans others, ?_⟩
    rw [more, List.append_assoc, List.map_cons, List.singleton_append]
    congr 2
    exact List.map_congr_left fun other _ => congrArg (Closure.mk other.1.1 other.1.2) (first.notifications other.1.1)

/-- A request that the endpoint accepted, that is closed now, and that it has not been told of. -/
def Tellable (s : Store) (key : JsString × JsString) : Prop :=
  ∃ row, s.deliveries.get? key = some row ∧ closable s key.2 key row = true

/-- The pairs of a call: each can be closed, none twice, and there are as many as there can be unless all are there. -/
structure Picked (s : Store) (endpoints : List JsString) (room : ℕ) (keys : List (JsString × JsString)) : Prop where
  distinct : keys.Nodup
  closes : ∀ key ∈ keys, key.2 ∈ endpoints ∧ Tellable s key
  within : keys.length ≤ room
  full : ∀ key, key.2 ∈ endpoints → Tellable s key → key ∈ keys ∨ keys.length = room

theorem picked_select (s : Store) (endpoint : JsString) (room : ℕ) :
    Picked s [endpoint] room ((s.deliveries.select (closable s endpoint) (closedBefore s) room).map Prod.fst) := by
  refine ⟨Table.select_nodup .., ?_, ?_, ?_⟩
  · intro key member
    obtain ⟨row, listed, rfl⟩ := List.mem_map.mp member
    obtain ⟨stored, holds⟩ := Table.mem_of_mem_select listed
    have own : row.1.2 = endpoint := (of_decide_eq_true holds).1
    refine ⟨List.mem_singleton.mpr own, row.2, stored, ?_⟩
    rw [own]
    exact holds
  · rw [List.length_map]
    exact List.length_take_le ..
  · intro key member closes
    obtain ⟨row, stored, holds⟩ := closes
    rw [List.mem_singleton.mp member] at holds
    rw [List.length_map]
    by_cases listed : (key, row) ∈ s.deliveries.select (closable s endpoint) (closedBefore s) room
    · exact .inl (List.mem_map.mpr ⟨(key, row), listed, rfl⟩)
    · exact .inr (Table.length_select_of_not_mem stored holds listed)

theorem Told.closes (told : Told now s t keys) : Tellable t key ↔ key ∉ keys ∧ Tellable s key := by
  have same (row : Delivery) : closable t key.2 key row = closable s key.2 key row := by
    unfold closable
    rw [told.notifications]
  constructor
  · rintro ⟨row, stored, holds⟩
    rw [told.deliveries] at stored
    obtain ⟨before, found, rfl⟩ := Option.map_eq_some_iff.mp stored
    rw [same] at holds
    by_cases member : key ∈ keys
    · rw [if_pos member] at holds
      cases (of_decide_eq_true holds).2.2.1
    · rw [if_neg member] at holds
      exact ⟨member, before, found, holds⟩
  · rintro ⟨unmarked, row, found, holds⟩
    refine ⟨row, ?_, (same row).trans holds⟩
    rw [told.deliveries, found, Option.map_some, if_neg unmarked]

theorem Picked.append {endpoint : JsString} {endpoints : List JsString} {room : ℕ} (first : Picked s [endpoint] room keys)
    (marks : Told now s t keys) (rest : Picked t endpoints (room - keys.length) told) :
    Picked s (endpoint :: endpoints) room (keys ++ told) := by
  have within := first.within
  have later := rest.within
  refine ⟨List.nodup_append.mpr ⟨first.distinct, rest.distinct, ?_⟩, ?_, ?_, ?_⟩
  · rintro key member _ again rfl
    exact (marks.closes.mp (rest.closes key again).2).1 member
  · intro key member
    rcases List.mem_append.mp member with member | member
    · obtain ⟨own, closes⟩ := first.closes key member
      exact ⟨List.mem_cons.mpr (.inl (List.mem_singleton.mp own)), closes⟩
    · obtain ⟨own, closes⟩ := rest.closes key member
      exact ⟨List.mem_cons_of_mem _ own, (marks.closes.mp closes).2⟩
  · rw [List.length_append]
    omega
  · intro key own closes
    rw [List.mem_append, List.length_append]
    by_cases member : key ∈ keys
    · exact .inl (.inl member)
    rcases List.mem_cons.mp own with here | there
    · rcases first.full key (List.mem_singleton.mpr here) closes with listed | full
      · exact .inl (.inl listed)
      · right
        omega
    · rcases rest.full key there (marks.closes.mpr ⟨member, closes⟩) with listed | full
      · exact .inl (.inr listed)
      · right
        omega

theorem claimClosures_foldl (endpoints : List JsString) (settled : Settled now s) (collected : List Closure) :
    ∃ closures, (endpoints.foldl (claimClosuresOf now) (s, collected)).2 = collected ++ closures
      ∧ Told now s (endpoints.foldl (claimClosuresOf now) (s, collected)).1 (closures.map Closure.pair)
      ∧ Picked s endpoints (claimLimit - collected.length) (closures.map Closure.pair)
      ∧ ∀ closure ∈ closures, closure.notification = s.notifications.get? closure.notificationId := by
  induction endpoints generalizing s collected with
  | nil =>
    refine ⟨[], (List.append_nil _).symm, .refl s, ⟨List.nodup_nil, ?_, Nat.zero_le _, ?_⟩, ?_⟩
    · rintro key ⟨⟩
    · rintro key ⟨⟩
    · rintro closure ⟨⟩
  | cons endpoint rest ih =>
    have rows := claimClosure_foldl
      (s.deliveries.select (closable s endpoint) (closedBefore s) (claimLimit - collected.length)) settled collected
    have picked := picked_select s endpoint (claimLimit - collected.length)
    rw [List.foldl_cons]
    cases progress : claimClosuresOf now (s, collected) endpoint with
    | mk next shown =>
      have folded : (s.deliveries.select (closable s endpoint) (closedBefore s) (claimLimit - collected.length)).foldl
        (claimClosure now) (s, collected) = (next, shown) := progress
      rw [folded] at rows
      obtain ⟨told, rfl⟩ := rows
      obtain ⟨closures, more, later, others, own⟩ := ih (told.settled settled) (collected ++
        (s.deliveries.select (closable s endpoint) (closedBefore s) (claimLimit - collected.length)).map fun row =>
          ⟨row.1.1, row.1.2, s.notifications.get? row.1.1⟩)
      have pairs : ((s.deliveries.select (closable s endpoint) (closedBefore s) (claimLimit - collected.length)).map fun row =>
            (⟨row.1.1, row.1.2, s.notifications.get? row.1.1⟩ : Closure)).map Closure.pair
          = (s.deliveries.select (closable s endpoint) (closedBefore s) (claimLimit - collected.length)).map Prod.fst := by
        rw [List.map_map]
        rfl
      refine ⟨_ ++ closures, more.trans (List.append_assoc ..), ?_, ?_, ?_⟩
      · rw [List.map_append, pairs]
        exact told.trans later
      · rw [List.map_append, pairs]
        refine picked.append told ?_
        rw [List.length_append, List.length_map, ← Nat.sub_sub] at others
        rw [List.length_map]
        exact others
      · intro closure member
        rcases List.mem_append.mp member with member | member
        · obtain ⟨row, _, rfl⟩ := List.mem_map.mp member
          rfl
        · exact (own closure member).trans (told.notifications _)

end Calls

section Marks

variable {s t : Store} {now : ℤ} {key : JsString × JsString}

/-- When the endpoint was told that the request is closed. -/
def markedAt (s : Store) (key : JsString × JsString) : Option ℤ := (s.deliveries.get? key).bind Delivery.closeClaimedAt

theorem markedAt_modify {f : JsString × JsString → Delivery → Delivery}
    (rewritten : t.deliveries = s.deliveries.modify f) (keeps : ∀ key row, (f key row).closeClaimedAt = row.closeClaimedAt) :
    markedAt t = markedAt s := by
  funext key
  unfold markedAt
  rw [rewritten, Table.get?_modify]
  cases s.deliveries.get? key with
  | none => rfl
  | some row => exact keeps key row

theorem markedAt_update {other : JsString × JsString} {f : Delivery → Delivery}
    (rewritten : t.deliveries = s.deliveries.update other f) (keeps : ∀ row, (f row).closeClaimedAt = row.closeClaimedAt) :
    markedAt t = markedAt s := by
  refine markedAt_modify rewritten fun key row => ?_
  split
  · exact keeps row
  · rfl

theorem markedAt_insertOrIgnore {other : JsString × JsString} {row : Delivery}
    (inserted : t.deliveries = s.deliveries.insertOrIgnore other row) (unmarked : row.closeClaimedAt = none) :
    markedAt t = markedAt s := by
  funext key
  unfold markedAt
  rw [inserted, Table.get?_insertOrIgnore]
  split
  · next here =>
    subst here
    cases s.deliveries.get? key with
    | none => exact unmarked
    | some row => rfl
  · rfl

theorem Notices.markedAt (notices : Notices s t) : markedAt t = markedAt s := by
  funext key
  rw [Notifications.markedAt, Notifications.markedAt, notices.deliveries]

theorem markedAt_offer (s : Store) (endpoint : JsString) : markedAt (offer now s endpoint) = markedAt s := by
  refine foldl_keeps (fun deliveries => markedAt { s with deliveries }) _ (fun deliveries row => ?_) _ s.deliveries
  split
  · exact markedAt_insertOrIgnore (s := { s with deliveries }) rfl rfl
  · rfl

theorem markedAt_lease (progress : Store × List Claim) (row : (JsString × JsString) × Delivery) :
    markedAt (lease now progress row).1 = markedAt progress.1 :=
  (notices_get _ row.1.1 now).markedAt.trans (markedAt_update rfl fun _ => rfl)

theorem markedAt_claim (s : Store) (endpoints : List JsString) : markedAt (claim s endpoints now).1 = markedAt s := by
  have leases := foldl_keeps (fun progress : Store × List Claim => markedAt progress.1) (claimEndpoint now)
    (fun progress endpoint => by
      unfold claimEndpoint
      split
      · rfl
      · exact foldl_keeps (fun progress : Store × List Claim => markedAt progress.1) (lease now) markedAt_lease _ progress)
    endpoints (exhaust (sweep (endpoints.foldl (offer now) (expire s now))) now, [])
  have exhausted : markedAt (exhaust (sweep (endpoints.foldl (offer now) (expire s now))) now)
      = markedAt (sweep (endpoints.foldl (offer now) (expire s now))) := by
    refine markedAt_modify rfl fun key row => ?_
    split
    · rfl
    · rfl
  have swept : markedAt (sweep (endpoints.foldl (offer now) (expire s now))) = markedAt (endpoints.foldl (offer now) (expire s now)) := by
    refine markedAt_modify rfl fun key row => ?_
    split
    · rfl
    · rfl
  have offered := foldl_keeps markedAt (offer now) markedAt_offer endpoints (expire s now)
  exact leases.trans (exhausted.trans (swept.trans (offered.trans (notices_expire s now).markedAt)))

theorem markedAt_receipt {id endpointId status : JsString} {leaseId : ℕ} {result : Store × Option DeliveryState}
    (done : receipt s id endpointId leaseId status now = .ok result) : markedAt result.1 = markedAt s := by
  unfold receipt at done
  split at done
  · cases done
  split at done
  · cases done
    rfl
  · cases done
    exact markedAt_update rfl fun _ => rfl

/-- A call that may throw marks nothing if its results do not. -/
theorem checked_marks {α : Type} {result : Except JsString α} {f : α → Store × Output}
    (done : ∀ a, result = .ok a → markedAt (f a).1 = markedAt s ∧ (f a).2.closures = []) :
    markedAt (checked s (result.map f)).1 = markedAt s ∧ (checked s (result.map f)).2.closures = [] := by
  cases result with
  | error thrown => exact ⟨rfl, rfl⟩
  | ok a => exact done a rfl

theorem step_marks (env : Env) (world : World) (s : Store) (now : ℤ) {op : Op} (other : ∀ endpoints, op ≠ .claimClosures endpoints) :
    markedAt (step env world s now op).1 = markedAt s ∧ (step env world s now op).2.closures = [] := by
  have frame {t : Store} (notices : Notices s t) : markedAt t = markedAt s := notices.markedAt
  cases op with
  | noteUserInput sessionId => exact ⟨frame (notices_noteUserInput world s sessionId now), rfl⟩
  | bindOrigin sessionId key createdAt => exact ⟨frame (notices_bindOrigin env world s sessionId key createdAt), rfl⟩
  | noteContinuation sessionId key createdAt =>
    exact ⟨frame (notices_noteContinuation env world s sessionId key createdAt now), rfl⟩
  | observe sessionId options => exact ⟨frame (notices_observe env world s sessionId options now _), rfl⟩
  | create params => exact ⟨frame (notices_create env world s params now), rfl⟩
  | request sessionId params actorGeneration => exact ⟨frame (notices_create env world s _ now), rfl⟩
  | resolveKey sessionId key => exact checked_marks fun result done => ⟨frame (notices_transition done), rfl⟩
  | get id => exact ⟨frame (notices_get s id now), rfl⟩
  | expire => exact ⟨frame (notices_expire s now), rfl⟩
  | read id => exact ⟨frame (notices_read s id now), rfl⟩
  | transition id state closedBy => exact checked_marks fun result done => ⟨frame (notices_transition done), rfl⟩
  | cancelSession id => exact ⟨frame (notices_cancelSession s id now), rfl⟩
  | cancelDialogs => exact ⟨frame (notices_cancelDialogs s now), rfl⟩
  | claim endpoints => exact ⟨markedAt_claim s endpoints, rfl⟩
  | claimClosures endpoints => exact (other endpoints rfl).elim
  | receipt id endpointId leaseId status => exact checked_marks fun result done => ⟨markedAt_receipt done, rfl⟩

end Marks

section Runs

variable {env : Env} {s : Store} {now : ℤ} {key : JsString × JsString}

/-- The store after a sequence of calls, and the pairs that they told. -/
def tellings (env : Env) (events : List Event) : Store × List (JsString × JsString) :=
  events.foldl (fun progress event =>
    let (next, output) := step env event.world progress.1 event.now event.op
    (next, progress.2 ++ output.closures.map Closure.pair)) (.empty, [])

theorem tellings_concat (events : List Event) (event : Event) : tellings env (events ++ [event]) =
    ((step env event.world (tellings env events).1 event.now event.op).1, (tellings env events).2
      ++ (step env event.world (tellings env events).1 event.now event.op).2.closures.map Closure.pair) := List.foldl_concat ..

theorem tellings_store (events : List Event) : (tellings env events).1 = run env events := by
  induction events using List.reverseRecOn with
  | nil => rfl
  | append_singleton events event ih => rw [tellings_concat, run_concat, ih]

theorem claimClosures_spec (s : Store) (endpoints : List JsString) (now : ℤ) :
    Told now (expire s now) (claimClosures s endpoints now).1 ((claimClosures s endpoints now).2.map Closure.pair)
      ∧ Picked (expire s now) endpoints claimLimit ((claimClosures s endpoints now).2.map Closure.pair)
      ∧ ∀ closure ∈ (claimClosures s endpoints now).2,
        closure.notification = (claimClosures s endpoints now).1.notifications.get? closure.notificationId := by
  obtain ⟨closures, shown, told, picked, own⟩ := claimClosures_foldl endpoints (settled_expire s now) []
  unfold claimClosures
  rw [List.nil_append] at shown
  rw [shown]
  exact ⟨told, picked, fun closure member => (own closure member).trans (told.notifications _).symm⟩

theorem Told.markedAt {t : Store} {keys : List (JsString × JsString)} (told : Told now s t keys)
    (stored : ∀ key ∈ keys, s.deliveries.get? key ≠ none) (key : JsString × JsString) :
    markedAt t key = if key ∈ keys then some now else markedAt s key := by
  unfold Notifications.markedAt
  rw [told.deliveries]
  split
  · next member =>
    obtain ⟨row, found⟩ := Option.ne_none_iff_exists'.mp (stored key member)
    rw [found]
    rfl
  · simp only [Option.map_id']

/-- The pairs that were told are those that are marked. -/
structure Recorded (s : Store) (told : List (JsString × JsString)) : Prop where
  distinct : told.Nodup
  marked : ∀ key, key ∈ told ↔ markedAt s key ≠ none

theorem Picked.stored {endpoints : List JsString} {room : ℕ} {keys : List (JsString × JsString)} (picked : Picked s endpoints room keys)
    (member : key ∈ keys) : s.deliveries.get? key ≠ none ∧ markedAt s key = none := by
  obtain ⟨_, row, found, holds⟩ := picked.closes key member
  refine ⟨?_, ?_⟩
  · rw [found]
    exact Option.some_ne_none row
  · unfold markedAt
    rw [found]
    exact (of_decide_eq_true holds).2.2.1

theorem Recorded.step {told : List (JsString × JsString)} (recorded : Recorded s told) (event : Event) :
    Recorded (step env event.world s event.now event.op).1
      (told ++ (step env event.world s event.now event.op).2.closures.map Closure.pair) := by
  by_cases closes : ∃ endpoints, event.op = .claimClosures endpoints
  · obtain ⟨endpoints, is⟩ := closes
    obtain ⟨marks, picked, _⟩ := claimClosures_spec s endpoints event.now
    rw [is]
    have before : markedAt (expire s event.now) = markedAt s := (notices_expire s event.now).markedAt
    have after := marks.markedAt fun key member => (picked.stored member).1
    refine ⟨List.nodup_append.mpr ⟨recorded.distinct, picked.distinct, ?_⟩, fun key => ?_⟩
    · rintro key member _ again rfl
      have unmarked := (picked.stored again).2
      rw [before] at unmarked
      exact (recorded.marked key).mp member unmarked
    · change _ ↔ markedAt (claimClosures s endpoints event.now).1 key ≠ none
      rw [after key, before, List.mem_append, recorded.marked]
      split
      · next member => exact ⟨fun _ => Option.some_ne_none _, fun _ => .inr member⟩
      · next unmarked => exact ⟨fun either => either.resolve_right unmarked, .inl⟩
  · obtain ⟨same, none_⟩ := step_marks env event.world s event.now fun endpoints is => closes ⟨endpoints, is⟩
    rw [none_, List.map_nil, List.append_nil]
    refine ⟨recorded.distinct, fun key => ?_⟩
    rw [same]
    exact recorded.marked key

theorem run_recorded (events : List Event) : Recorded (run env events) (tellings env events).2 := by
  induction events using List.reverseRecOn with
  | nil =>
    refine ⟨List.nodup_nil, fun key => ⟨?_, fun marked => (marked rfl).elim⟩⟩
    rintro ⟨⟩
  | append_singleton events event ih =>
    rw [tellings_concat, run_concat, tellings_store]
    exact ih.step event

/-- An attention request that is no longer pending. -/
def Left (s : Store) (id : JsString) : Prop :=
  ∃ notification, s.notifications.get? id = some notification ∧ notification.kind = .attention ∧ notification.state ≠ .pending

theorem Left.expire {id : JsString} (left : Left s id) : Left (expire s now) id := by
  obtain ⟨notification, found, attention, closed⟩ := left
  refine ⟨notification, ?_, attention, closed⟩
  rw [Notifications.expire, Table.get?_modify, found, Option.map_some, if_neg fun overdue => closed overdue.1]

theorem tellable_iff : Tellable s key ↔ Left s key.1 ∧ ∃ row, s.deliveries.get? key = some row ∧ row.state = .accepted
    ∧ row.closeClaimedAt = none := by
  constructor
  · rintro ⟨row, found, holds⟩
    obtain ⟨_, accepted, unmarked, closed⟩ := of_decide_eq_true holds
    obtain ⟨notification, stored, closed⟩ := (Option.any_eq_true _ _).mp closed
    exact ⟨⟨notification, stored, of_decide_eq_true closed⟩, row, found, accepted, unmarked⟩
  · rintro ⟨⟨notification, stored, closed⟩, row, found, accepted, unmarked⟩
    refine ⟨row, found, decide_eq_true ⟨rfl, accepted, unmarked, ?_⟩⟩
    rw [stored]
    exact decide_eq_true closed

/-- The delivery of the pair was recorded as accepted. -/
theorem accepted_iff (events : List Event) :
    (tally env key events).2.accepted = 1 ↔ ∃ row, (run env events).deliveries.get? key = some row ∧ row.state = .accepted := by
  have agrees : Agrees key (run env events) (tally env key events).2 := tally_agrees events
  cases found : (run env events).deliveries.get? key with
  | none =>
    rw [agrees.absent found]
    constructor
    · rintro ⟨⟩
    · rintro ⟨_, ⟨⟩, _⟩
  | some row =>
    rw [(agrees.row row found).accepted]
    constructor
    · intro once
      split at once
      · next accepted => exact ⟨row, rfl, accepted⟩
      · cases once
    · rintro ⟨_, ⟨⟩, accepted⟩
      rw [if_pos accepted]

/-- A call leaves out a pair that it could tell only if it tells as many as there may be. -/
theorem claimClosures_full {endpoints : List JsString} (own : key.2 ∈ endpoints) (left : Left s key.1) {row : Delivery}
    (found : s.deliveries.get? key = some row) (accepted : row.state = .accepted) (unmarked : markedAt s key = none) (now : ℤ) :
    key ∈ (claimClosures s endpoints now).2.map Closure.pair ∨ (claimClosures s endpoints now).2.length = claimLimit := by
  obtain ⟨_, picked, _⟩ := claimClosures_spec s endpoints now
  have free : row.closeClaimedAt = none := by
    unfold markedAt at unmarked
    rwa [found] at unmarked
  have full := picked.full key own (tellable_iff.mpr ⟨left.expire, row, found, accepted, free⟩)
  rwa [List.length_map] at full

/-- After repeated calls a pair is told, or every call told as many as there may be. -/
theorem tellings_repeated (events : List Event) (accepted : (tally env key events).2.accepted = 1) (left : Left (run env events) key.1)
    (calls : List Event) (repeats : ∀ call ∈ calls, ∃ endpoints, call.op = .claimClosures endpoints ∧ key.2 ∈ endpoints) :
    (run env (events ++ calls)).deliveries.rows.length = (run env events).deliveries.rows.length
      ∧ (tally env key (events ++ calls)).2.accepted = 1 ∧ Left (run env (events ++ calls)) key.1
      ∧ (key ∈ (tellings env (events ++ calls)).2 ∨ claimLimit * calls.length ≤ (tellings env (events ++ calls)).2.length) := by
  induction calls using List.reverseRecOn with
  | nil =>
    rw [List.append_nil]
    exact ⟨rfl, accepted, left, .inr (Nat.zero_le _)⟩
  | append_singleton calls call ih =>
    obtain ⟨size, still, leaves, tells⟩ := ih fun other member => repeats other (List.mem_append_left _ member)
    obtain ⟨endpoints, is, own⟩ := repeats call (List.mem_append_right _ (List.mem_singleton.mpr rfl))
    obtain ⟨row, found, isAccepted⟩ := (accepted_iff (events ++ calls)).mp still
    obtain ⟨marks, _, _⟩ := claimClosures_spec (run env (events ++ calls)) endpoints call.now
    have after : run env (events ++ (calls ++ [call])) = (claimClosures (run env (events ++ calls)) endpoints call.now).1 := by
      rw [← List.append_assoc, run_concat, is]
      rfl
    have told : (tellings env (events ++ (calls ++ [call]))).2 = (tellings env (events ++ calls)).2
        ++ (claimClosures (run env (events ++ calls)) endpoints call.now).2.map Closure.pair := by
      rw [← List.append_assoc, tellings_concat, tellings_store, is]
      rfl
    refine ⟨?_, ?_, ?_, ?_⟩
    · rw [after]
      exact marks.size.trans size
    · rw [accepted_iff, after]
      refine ⟨_, (marks.deliveries key).trans (congrArg _ found), ?_⟩
      split
      · exact isAccepted
      · exact isAccepted
    · rw [after]
      obtain ⟨notification, stored, closed⟩ := leaves.expire
      exact ⟨notification, (marks.notifications key.1).trans stored, closed⟩
    · rw [told, List.mem_append, List.length_append, List.length_append, List.length_singleton, List.length_map]
      rcases tells with earlier | many
      · exact .inl (.inl earlier)
      by_cases earlier : key ∈ (tellings env (events ++ calls)).2
      · exact .inl (.inl earlier)
      have unmarked : markedAt (run env (events ++ calls)) key = none := by
        by_contra marked
        exact earlier (((run_recorded (events ++ calls)).marked key).mpr marked)
      rcases claimClosures_full own leaves found isAccepted unmarked call.now with now_ | full
      · exact .inl (.inr now_)
      · right
        rw [full, Nat.mul_add]
        omega

/-- No pair is told twice. A call tells at most eight, each an attention request that has left the pending state and that the
endpoint accepted. Calls that are repeated with the endpoint tell every such pair once they are more than an eighth of the
deliveries. -/
theorem run_tells_closures (env : Env) (events : List Event) :
    (tellings env events).2.Nodup
      ∧ (∀ (event : Event) (endpoints : List JsString), event.op = .claimClosures endpoints →
        (step env event.world (run env events) event.now event.op).2.closures.length ≤ claimLimit
        ∧ ∀ closure ∈ (step env event.world (run env events) event.now event.op).2.closures,
          closure.pair ∉ (tellings env events).2 ∧ closure.endpointId ∈ endpoints
            ∧ (tally env closure.pair events).2.accepted = 1
            ∧ ∃ notification, closure.notification = some notification
              ∧ (step env event.world (run env events) event.now event.op).1.notifications.get? closure.notificationId
                = some notification
              ∧ notification.kind = .attention ∧ notification.state ≠ .pending)
      ∧ ∀ key, (tally env key events).2.accepted = 1 → Left (run env events) key.1 → ∀ calls : List Event,
        (∀ call ∈ calls, ∃ endpoints, call.op = .claimClosures endpoints ∧ key.2 ∈ endpoints) →
        (run env events).deliveries.rows.length < claimLimit * calls.length → key ∈ (tellings env (events ++ calls)).2 := by
  have recorded : Recorded (run env events) (tellings env events).2 := run_recorded events
  refine ⟨recorded.distinct, fun event endpoints is => ?_, fun key accepted left calls repeats long => ?_⟩
  · rw [is]
    obtain ⟨marks, picked, own⟩ := claimClosures_spec (run env events) endpoints event.now
    have within := picked.within
    rw [List.length_map] at within
    refine ⟨within, fun closure member => ?_⟩
    have listed : closure.pair ∈ (claimClosures (run env events) endpoints event.now).2.map Closure.pair :=
      List.mem_map.mpr ⟨closure, member, rfl⟩
    obtain ⟨known, closes⟩ := picked.closes closure.pair listed
    obtain ⟨⟨notification, stored, attention, closed⟩, row, found, accepted, unmarked⟩ := tellable_iff.mp closes
    refine ⟨fun earlier => ?_, known, (accepted_iff events).mpr ⟨row, found, accepted⟩, notification, ?_, ?_, attention, closed⟩
    · refine (recorded.marked closure.pair).mp earlier ?_
      have same : markedAt (expire (run env events) event.now) = markedAt (run env events) := (notices_expire _ _).markedAt
      rw [← same]
      exact (picked.stored listed).2
    · exact (own closure member).trans ((marks.notifications _).trans stored)
    · exact (marks.notifications _).trans stored
  · obtain ⟨size, _, _, told | many⟩ := tellings_repeated events accepted left calls repeats
    · exact told
    · have all : Recorded (run env (events ++ calls)) (tellings env (events ++ calls)).2 := run_recorded (events ++ calls)
      have keys : (tellings env (events ++ calls)).2 ⊆ Assoc.keys (run env (events ++ calls)).deliveries.rows := by
        intro other member
        have marked := (all.marked other).mp member
        by_contra absent
        rw [← Assoc.lookup_eq_none_iff] at absent
        refine marked ?_
        unfold markedAt
        rw [show (run env (events ++ calls)).deliveries.get? other = none from absent]
        rfl
      have bound := (all.distinct.subperm keys).length_le
      rw [Assoc.keys, List.length_map, size] at bound
      omega

end Runs

end PersistentHarness.Notifications
