import PersistentHarness.Lib.Trace
import PersistentHarness.Model.Notification.Delivery

/-! # What a call does to deliveries

Most calls leave the deliveries alone. A claim offers, closes and leases deliveries one by one, and a receipt
settles one. Every call is a trace of these moves, and emits the leases and outcomes that it returns.
-/

namespace PersistentHarness.Notifications

/-- The notification may be shown now. -/
structure Live (notification : Notification) (now : ℤ) : Prop where
  pending : notification.state = .pending
  unread : notification.readAt = none
  unexpired : now < notification.expiresAt

inductive Emission where
  | leased (claim : Claim)
  | recorded (key : JsString × JsString) (leaseId : ℕ) (outcome : Status) (state : DeliveryState)

/-- The outcome that a call records. -/
def Op.recorded (op : Op) (state : DeliveryState) : Option Emission :=
  match op with
  | .receipt id endpointId leaseId status => (Status.ofText status).map (.recorded (id, endpointId) leaseId · state)
  | _ => none

/-- What a call shows of leases: those that it issued, and the outcome that it recorded. -/
def emissions (op : Op) (output : Output) : List Emission :=
  output.claims.map .leased ++ (output.recorded.bind op.recorded).toList

section Relations

/-- What touches no delivery and forgets no notification. -/
structure Notices (s t : Store) : Prop where
  deliveries : t.deliveries = s.deliveries
  kept : ∀ id, s.notifications.get? id ≠ none → t.notifications.get? id ≠ none
  draws : s.draws ≤ t.draws

/-- A delivery keeps its lease, or closes. -/
inductive Closes (row : Delivery) : Delivery → Prop
  | same {next : Delivery} (state : next.state = row.state) (attempts : next.attempts = row.attempts)
      (leaseId : next.leaseId = row.leaseId) (leaseUntil : next.leaseUntil = row.leaseUntil) : Closes row next
  | closed {next : Delivery} (opened : row.state.isOpen = true) (state : next.state = .expired ∨ next.state = .failed)
      (attempts : next.attempts = row.attempts) : Closes row next

def issueLease (s : Store) (key : JsString × JsString) (now : ℤ) : Store :=
  { s with
    draws := s.draws + 1
    deliveries := s.deliveries.update key fun delivery =>
      { delivery with
        state := .inflight, attempts := delivery.attempts + 1, leaseId := some s.draws, leaseUntil := some (now + leaseMs) } }

def recordOutcome (s : Store) (key : JsString × JsString) (state : DeliveryState) (code : JsString) (dueAt : ℤ)
    (acceptedAt : Option ℤ) : Store :=
  { s with deliveries := s.deliveries.update key fun delivery =>
      { delivery with state, code := some code, dueAt, leaseId := none, leaseUntil := none, acceptedAt } }

inductive Move (now : ℤ) : Store → Option Emission → Store → Prop
  | notices {s t : Store} (notices : Notices s t) : Move now s none t
  | offered {s : Store} {key : JsString × JsString} (known : s.notifications.get? key.1 ≠ none) :
      Move now s none { s with deliveries := s.deliveries.insertOrIgnore key (.offered now) }
  | rewritten {s : Store} {f : JsString × JsString → Delivery → Delivery}
      (closes : ∀ key row, s.deliveries.get? key = some row → Closes row (f key row)) :
      Move now s none { s with deliveries := s.deliveries.modify f }
  | leased {s : Store} {key : JsString × JsString} {row : Delivery} {notification : Notification}
      (found : s.deliveries.get? key = some row) (due : row.due now = true)
      (present : s.notifications.get? key.1 = some notification) (live : Live notification now) :
      Move now s (some (.leased ⟨key.1, key.2, s.draws, row.attempts + 1, some notification⟩)) (issueLease s key now)
  | settled {s : Store} {key : JsString × JsString} {row : Delivery} {leaseId : ℕ} {outcome : Status} {code : JsString}
      {dueAt : ℤ} {acceptedAt : Option ℤ} (found : s.deliveries.get? key = some row) (current : row.leaseId = some leaseId)
      (inflight : row.state = .inflight) :
      Move now s (some (.recorded key leaseId outcome (outcomeState outcome row.attempts)))
        (recordOutcome s key (outcomeState outcome row.attempts) code dueAt acceptedAt)

end Relations

section Frames

variable {s t : Store}

theorem Notices.refl (s : Store) : Notices s s := ⟨rfl, fun _ => id, le_refl _⟩

theorem Notices.trans {u : Store} (first : Notices s t) (second : Notices t u) : Notices s u :=
  ⟨second.deliveries.trans first.deliveries, fun id present => second.kept id (first.kept id present),
    first.draws.trans second.draws⟩

theorem Notices.of_modify {f : JsString → Notification → Notification} (deliveries : t.deliveries = s.deliveries)
    (rewritten : t.notifications = s.notifications.modify f) (draws : s.draws ≤ t.draws) : Notices s t := by
  refine ⟨deliveries, fun id present => ?_, draws⟩
  obtain ⟨row, found⟩ := Option.ne_none_iff_exists'.mp present
  rw [rewritten, Table.get?_modify, found]
  exact Option.some_ne_none _

theorem notices_expire (s : Store) (now : ℤ) : Notices s (expire s now) := .of_modify rfl rfl (le_refl _)

theorem notices_get (s : Store) (id : JsString) (now : ℤ) : Notices s (get s id now).1 := notices_expire s now

theorem notices_create (env : Env) (world : World) (s : Store) (params : NewNotification) (now : ℤ) :
    Notices s (create env world s params now).1 := by
  unfold create
  split
  · dsimp only
    refine Notices.trans ?_ (notices_get _ _ now)
    refine ⟨rfl, fun id present => ?_, le_refl _⟩
    rw [Table.get?_insertOrIgnore]
    split
    · exact Option.some_ne_none _
    · exact present
  · exact .refl s

theorem notices_checkpoint (s : Store) (rootId : JsString) (owner : Owner) (now : ℤ) :
    Notices s (checkpoint s rootId owner now) := by
  unfold checkpoint
  split
  · exact .refl s
  · exact ⟨rfl, fun _ => id, le_refl _⟩

theorem notices_noteUserInput (world : World) (s : Store) (sessionId : JsString) (now : ℤ) :
    Notices s (noteUserInput world s sessionId now) := by
  unfold noteUserInput
  split
  · exact .refl s
  · dsimp only
    refine Notices.trans ?_ (notices_checkpoint _ _ _ now)
    exact ⟨rfl, fun _ => id, le_refl _⟩

theorem notices_bindOrigin (env : Env) (world : World) (s : Store) (sessionId key : JsString) (createdAt : Value) :
    Notices s (bindOrigin env world s sessionId key createdAt).1 := by
  unfold bindOrigin
  split
  · exact .refl s
  · split
    · exact .refl s
    · exact ⟨rfl, fun _ => id, le_refl _⟩

theorem notices_noteContinuation (env : Env) (world : World) (s : Store) (sessionId key : JsString) (createdAt : Value)
    (now : ℤ) : Notices s (noteContinuation env world s sessionId key createdAt now) := by
  have bound := notices_bindOrigin env world s sessionId key createdAt
  unfold noteContinuation
  split
  · next same => rwa [same] at bound
  · next bound' origin same =>
    rw [same] at bound
    split
    · exact bound
    · have admitted : Notices bound' (admitOrigin bound' key origin) := ⟨rfl, fun _ => id, le_refl _⟩
      apply (bound.trans admitted).trans
      split
      · exact notices_checkpoint _ _ _ now
      · exact .refl _

theorem notices_openEpisode (s : Store) (rootId : JsString) (options : Observation) (now : ℤ) :
    Notices s (openEpisode s rootId options now) := by
  unfold openEpisode
  dsimp only
  refine Notices.trans ?_ (notices_checkpoint _ _ _ now)
  exact .of_modify rfl rfl (Nat.le_succ _)

theorem notices_closeEpisode (env : Env) (world : World) (s : Store) (family : Family) (episode : Episode) (episodeId : ℕ)
    (now : ℤ) : Notices s (closeEpisode env world s family episode episodeId now).1 := by
  unfold closeEpisode
  dsimp only
  split
  · exact ⟨rfl, fun _ => id, le_refl _⟩
  · refine Notices.trans ?_ (notices_create ..)
    exact ⟨rfl, fun _ => id, le_refl _⟩

theorem notices_cancelSession (s : Store) (id : JsString) (now : ℤ) : Notices s (cancelSession s id now) :=
  .of_modify rfl rfl (le_refl _)

theorem notices_setQuiet (s : Store) (rootId : JsString) (quietSince : Option ℤ) : Notices s (setQuiet s rootId quietSince) :=
  ⟨rfl, fun _ => id, le_refl _⟩

theorem notices_observe (env : Env) (world : World) (s : Store) (sessionId : JsString) (options : Observation) (now : ℤ)
    (family : Option Family) : Notices s (observe env world s sessionId options now family).1 := by
  unfold observe
  split
  · exact notices_cancelSession s sessionId now
  · dsimp only
    split
    · split
      · exact notices_openEpisode ..
      · exact notices_setQuiet ..
    · split
      · exact .refl s
      · split
        · exact notices_setQuiet ..
        · split
          · split
            · exact .refl s
            · exact notices_closeEpisode ..
          · exact notices_setQuiet ..

theorem notices_transition {id state : JsString} {now : ℤ} {closedBy : Option JsString}
    {result : Store × Option Notification} (done : transition s id state now closedBy = .ok result) : Notices s result.1 := by
  unfold transition at done
  split at done
  · cases done
  · cases done
  · cases done
    refine Notices.trans ?_ (notices_get _ id now)
    exact (notices_expire s now).trans (.of_modify rfl rfl (le_refl _))

theorem notices_read (s : Store) (id : JsString) (now : ℤ) : Notices s (read s id now).1 := by
  refine Notices.trans ?_ (notices_get _ id now)
  exact .of_modify rfl rfl (le_refl _)

theorem notices_cancelDialogs (s : Store) (now : ℤ) : Notices s (cancelDialogs s now) := .of_modify rfl rfl (le_refl _)

end Frames

section Claims

variable {s : Store} {now : ℤ}

def Known (s : Store) : Prop := ∀ key row, s.deliveries.get? key = some row → s.notifications.get? key.1 ≠ none

/-- Every open delivery is of a notification that may be shown. -/
def Ready (now : ℤ) (s : Store) : Prop :=
  ∀ key row, s.deliveries.get? key = some row → row.state.isOpen = true →
    ∃ notification, s.notifications.get? key.1 = some notification ∧ Live notification now

theorem Move.known {t : Store} {emission : Option Emission} (move : Move now s emission t) (known : Known s) : Known t := by
  intro key row found
  cases move with
  | notices notices =>
    rw [notices.deliveries] at found
    exact notices.kept key.1 (known key row found)
  | @offered other present =>
    rw [Table.get?_insertOrIgnore] at found
    split at found
    · next here => exact here ▸ present
    · exact known key row found
  | rewritten closes =>
    rw [Table.get?_modify] at found
    obtain ⟨before, was, -⟩ := Option.map_eq_some_iff.mp found
    exact known key before was
  | leased =>
    rw [issueLease, Table.update, Table.get?_modify] at found
    obtain ⟨before, was, -⟩ := Option.map_eq_some_iff.mp found
    exact known key before was
  | settled =>
    rw [recordOutcome, Table.update, Table.get?_modify] at found
    obtain ⟨before, was, -⟩ := Option.map_eq_some_iff.mp found
    exact known key before was

theorem Delivery.isOpen_of_due {row : Delivery} (due : row.due now = true) : row.state.isOpen = true := by
  obtain ⟨-, ⟨pending, -⟩ | lapsed⟩ := of_decide_eq_true due
  · simp [DeliveryState.isOpen, pending]
  · have inflight := (of_decide_eq_true lapsed).1
    simp [DeliveryState.isOpen, inflight]

theorem get?_expire_of_live {id : JsString} {notification : Notification}
    (found : s.notifications.get? id = some notification) (live : Live notification now) :
    (expire s now).notifications.get? id = some notification := by
  have later : ¬notification.expiresAt ≤ now := not_le.mpr live.unexpired
  rw [expire, Table.get?_modify, found, Option.map_some, if_neg (fun expires => later expires.2)]

theorem Ready.expire (ready : Ready now s) : Ready now (expire s now) := by
  intro key row found opened
  obtain ⟨notification, present, live⟩ := ready key row found opened
  exact ⟨notification, get?_expire_of_live present live, live⟩

theorem offer_trace (s : Store) (endpoint : JsString) : Trace (Move now) s [] (offer now s endpoint) := by
  refine Trace.foldl_silent (fun deliveries => { s with deliveries }) (fun deliveries row member => ?_) s.deliveries
  split
  · refine .silent (@Move.offered now { s with deliveries } (row.1, endpoint) ?_)
    rw [Table.mem_rows.mp member]
    exact Option.some_ne_none _
  · exact .nil _

theorem notifications_offers (endpoints : List JsString) (s : Store) :
    (endpoints.foldl (offer now) s).notifications = s.notifications :=
  foldl_keeps Store.notifications (offer now) (fun _ _ => rfl) endpoints s

/-- After the sweep an open delivery is of a notification that may be shown. -/
theorem ready_sweep (known : Known s) (fresh : ∀ id row, s.notifications.get? id = some row → row.state = .pending →
    now < row.expiresAt) : Ready now (sweep s) := by
  intro key row found opened
  rw [sweep, Table.get?_modify] at found
  obtain ⟨before, was, swept⟩ := Option.map_eq_some_iff.mp found
  obtain ⟨notification, present⟩ := Option.ne_none_iff_exists'.mp (known key before was)
  refine ⟨notification, present, ?_⟩
  rw [present] at swept
  split at swept
  · subst swept
    cases opened
  · next keeps =>
    subst swept
    have stays : ¬(notification.state ≠ .pending ∨ notification.readAt ≠ none) := fun closed =>
      keeps ⟨opened, decide_eq_true closed⟩
    push Not at stays
    exact ⟨stays.1, stays.2, fresh key.1 notification present stays.1⟩

theorem sweep_trace (s : Store) : Trace (Move now) s [] (sweep s) := by
  refine .silent (.rewritten fun key row _ => ?_)
  split
  · next closes => exact .closed closes.1 (.inl rfl) rfl
  · exact .same rfl rfl rfl rfl

theorem isOpen_of_lapsed {row : Delivery} (lapsed : row.lapsed now = true) : row.state.isOpen = true := by
  have inflight := (of_decide_eq_true lapsed).1
  simp [DeliveryState.isOpen, inflight]

theorem exhaust_trace (s : Store) : Trace (Move now) s [] (exhaust s now) := by
  refine .silent (.rewritten fun key row _ => ?_)
  split
  · next fails => exact .closed (isOpen_of_lapsed fails.1) (.inr rfl) rfl
  · exact .same rfl rfl rfl rfl

theorem Ready.exhaust (ready : Ready now s) : Ready now (exhaust s now) := by
  intro key row found opened
  rw [Notifications.exhaust, Table.get?_modify] at found
  obtain ⟨before, was, failed⟩ := Option.map_eq_some_iff.mp found
  split at failed
  · subst failed
    cases opened
  · subst failed
    exact ready key before was opened

/-- The rows that a claim is about to lease. -/
structure Listed (now : ℤ) (s : Store) (rows : List ((JsString × JsString) × Delivery)) : Prop where
  ready : Ready now s
  distinct : (Assoc.keys rows).Nodup
  stored : ∀ row ∈ rows, s.deliveries.get? row.1 = some row.2 ∧ row.2.due now = true

theorem Ready.issueLease {key : JsString × JsString} {row : Delivery} (ready : Ready now s)
    (found : s.deliveries.get? key = some row) (due : row.due now = true) : Ready now (issueLease s key now) := by
  intro other next stored opened
  rw [Notifications.issueLease, Table.get?_update_of found] at stored
  split at stored
  · next here =>
    rw [here]
    exact ready key row found (Delivery.isOpen_of_due due)
  · exact ready other next stored opened

theorem lease_trace {collected : List Claim} {row : (JsString × JsString) × Delivery}
    {rest : List ((JsString × JsString) × Delivery)} (listed : Listed now s (row :: rest)) :
    ∃ more, (lease now (s, collected) row).2 = collected ++ more
      ∧ Trace (Move now) s (more.map .leased) (lease now (s, collected) row).1 ∧ Listed now (lease now (s, collected) row).1 rest := by
  obtain ⟨ready, distinct, stored⟩ := listed
  obtain ⟨found, due⟩ := stored row (List.mem_cons_self ..)
  obtain ⟨notification, present, live⟩ := ready row.1 row.2 found (Delivery.isOpen_of_due due)
  have returned : (expire (issueLease s row.1 now) now).notifications.get? row.1.1 = some notification :=
    get?_expire_of_live present live
  refine ⟨[⟨row.1.1, row.1.2, s.draws, row.2.attempts + 1, some notification⟩], ?_, ?_, ?_, ?_, fun other member => ?_⟩
  · change collected ++ [_] = collected ++ [_]
    rw [← returned]
    rfl
  · have issued : Trace (Move now) s [.leased _] (issueLease s row.1 now) := .emits (.leased found due present live)
    exact issued.append_silent (.silent (.notices (notices_expire _ now)))
  · exact (ready.issueLease found due).expire
  · exact (List.nodup_cons.mp distinct).2
  · have apart : other.1 ≠ row.1 := by
      intro same
      apply (List.nodup_cons.mp distinct).1
      exact same ▸ List.mem_map_of_mem member
    obtain ⟨kept, later⟩ := stored other (List.mem_cons_of_mem _ member)
    refine ⟨?_, later⟩
    change (issueLease s row.1 now).deliveries.get? other.1 = some other.2
    rw [issueLease, Table.get?_update_of found, if_neg apart, kept]

theorem claimEndpoint_trace (endpoint : JsString) {collected : List Claim} (ready : Ready now s) :
    ∃ more, (claimEndpoint now (s, collected) endpoint).2 = collected ++ more
      ∧ Trace (Move now) s (more.map .leased) (claimEndpoint now (s, collected) endpoint).1
      ∧ Ready now (claimEndpoint now (s, collected) endpoint).1 := by
  unfold claimEndpoint
  split
  · exact ⟨[], (List.append_nil _).symm, .nil s, ready⟩
  · have listed : Listed now s (s.deliveries.select (fun key row => key.2 = endpoint ∧ row.due now = true) dueBefore
        (claimLimit - collected.length)) := by
      refine ⟨ready, Table.select_nodup .., fun row member => ?_⟩
      obtain ⟨stored, selected⟩ := Table.mem_of_mem_select member
      exact ⟨stored, (of_decide_eq_true selected).2⟩
    obtain ⟨more, collects, trace, final⟩ := Trace.foldl_collect Emission.leased collected listed
      (fun s collected row rest => lease_trace)
    exact ⟨more, collects, trace, final.ready⟩

/-- A claim returns the leases that it issues, each for a notification that may be shown. -/
theorem claim_trace (known : Known s) (endpoints : List JsString) :
    Trace (Move now) s ((claim s endpoints now).2.map .leased) (claim s endpoints now).1 := by
  have expired : Trace (Move now) s [] (expire s now) := .silent (.notices (notices_expire s now))
  have offered : Trace (Move now) s [] (endpoints.foldl (offer now) (expire s now)) :=
    expired.silent_append (Trace.foldl_silent id (fun s endpoint _ => offer_trace s endpoint) (expire s now))
  have fresh : ∀ id row, (endpoints.foldl (offer now) (expire s now)).notifications.get? id = some row →
      row.state = .pending → now < row.expiresAt := by
    intro id row found pending
    rw [notifications_offers, expire, Table.get?_modify] at found
    obtain ⟨before, -, expires⟩ := Option.map_eq_some_iff.mp found
    split at expires
    · subst expires
      cases pending
    · next stays =>
      subst expires
      exact not_le.mp fun due => stays ⟨pending, due⟩
  have ready := (ready_sweep (offered.preserves (fun _ _ _ move => move.known) known) fresh).exhaust
  obtain ⟨more, collects, trace, -⟩ := Trace.foldl_collect (P := fun s (_ : List JsString) => Ready now s)
    Emission.leased [] ready (fun s collected endpoint _ ready => claimEndpoint_trace endpoint ready)
  rw [List.nil_append] at collects
  have prepared := (offered.silent_append (sweep_trace _)).silent_append (exhaust_trace _)
  unfold claim
  rw [collects]
  exact prepared.silent_append trace

end Claims

section Steps

variable {s : Store} {now : ℤ}

theorem claimClosures_trace (s : Store) (endpoints : List JsString) :
    Trace (Move now) s [] (claimClosures s endpoints now).1 := by
  have expired : Trace (Move now) s [] (expire s now) := .silent (.notices (notices_expire s now))
  refine expired.silent_append (Trace.foldl_silent Prod.fst (fun progress endpoint _ => ?_) (expire s now, []))
  refine Trace.foldl_silent Prod.fst (fun progress row _ => ?_) progress
  refine Trace.silent_append (.silent (.rewritten fun key delivery _ => ?_)) (.silent (.notices (notices_get _ row.1.1 now)))
  split
  · exact .same rfl rfl rfl rfl
  · exact .same rfl rfl rfl rfl

theorem receipt_trace {id endpointId status : JsString} {leaseId : ℕ} {next : Store} {recorded : Option DeliveryState}
    (done : receipt s id endpointId leaseId status now = .ok (next, recorded)) :
    Trace (Move now) s (emissions (.receipt id endpointId leaseId status) { Output.quiet with recorded }) next := by
  unfold receipt at done
  split at done
  · cases done
  · next outcome known =>
    split at done
    · cases done
      exact .nil s
    · next row current =>
      cases done
      obtain ⟨found, holds⟩ := Option.filter_eq_some_iff.mp current
      obtain ⟨lease, inflight⟩ := of_decide_eq_true holds
      have emits : emissions (.receipt id endpointId leaseId status)
          { Output.quiet with recorded := some (outcomeState outcome row.attempts) }
          = [.recorded (id, endpointId) leaseId outcome (outcomeState outcome row.attempts)] := by
        simp [emissions, Op.recorded, known, Output.quiet]
      rw [emits]
      exact .emits (.settled found lease inflight)

/-- A call that throws changes nothing. -/
theorem checked_trace {α : Type} {op : Op} {result : Except JsString α} {f : α → Store × Output}
    (done : ∀ a, result = .ok a → Trace (Move now) s (emissions op (f a).2) (f a).1) :
    Trace (Move now) s (emissions op (checked s (result.map f)).2) (checked s (result.map f)).1 := by
  cases result with
  | error thrown => exact .nil s
  | ok a => exact done a rfl

/-- Every call is a trace of moves that emits the leases and the outcome which the call returns. -/
theorem step_trace (env : Env) (world : World) (known : Known s) (op : Op) :
    Trace (Move now) s (emissions op (step env world s now op).2) (step env world s now op).1 := by
  have frame : ∀ {t : Store}, Notices s t → Trace (Move now) s [] t := fun notices => .silent (.notices notices)
  cases op with
  | noteUserInput sessionId => exact frame (notices_noteUserInput world s sessionId now)
  | bindOrigin sessionId key createdAt => exact frame (notices_bindOrigin env world s sessionId key createdAt)
  | noteContinuation sessionId key createdAt => exact frame (notices_noteContinuation env world s sessionId key createdAt now)
  | observe sessionId options => exact frame (notices_observe env world s sessionId options now _)
  | create params => exact frame (notices_create env world s params now)
  | request sessionId params actorGeneration => exact frame (notices_create env world s _ now)
  | resolveKey sessionId key => exact checked_trace fun result done => frame (notices_transition done)
  | get id => exact frame (notices_get s id now)
  | expire => exact frame (notices_expire s now)
  | read id => exact frame (notices_read s id now)
  | transition id state closedBy => exact checked_trace fun result done => frame (notices_transition done)
  | cancelSession id => exact frame (notices_cancelSession s id now)
  | cancelDialogs => exact frame (notices_cancelDialogs s now)
  | claim endpoints =>
    have claims : emissions (.claim endpoints) (step env world s now (.claim endpoints)).2
        = (claim s endpoints now).2.map .leased := List.append_nil _
    rw [claims]
    exact claim_trace known endpoints
  | claimClosures endpoints => exact claimClosures_trace s endpoints
  | receipt id endpointId leaseId status => exact checked_trace fun result done => receipt_trace done

theorem run_concat (env : Env) (events : List Event) (event : Event) :
    run env (events ++ [event]) = (step env event.world (run env events) event.now event.op).1 := List.foldl_concat ..

theorem run_known (env : Env) (events : List Event) : Known (run env events) := by
  induction events using List.reverseRecOn with
  | nil => rintro key row ⟨⟩
  | append_singleton events event ih =>
    rw [run_concat]
    exact (step_trace env event.world ih event.op).preserves (fun _ _ _ move => move.known) ih

end Steps

end PersistentHarness.Notifications
