import PersistentHarness.Soundness.Notification.Episodes

/-! # Where notifications come from

A stored notification keeps its kind, root and episode, and never becomes pending again. A new one is asked for,
or it is the idle notice of an episode that an observation closes; an opening supersedes the idle notices of its
root.
-/

namespace PersistentHarness.Notifications

structure Kept (before after : Notification) : Prop where
  kind : after.kind = before.kind
  root : after.rootId = before.rootId
  episode : after.episodeId = before.episodeId
  pending : after.state = .pending → before.state = .pending

/-- Every notification of the second store is one of the first. -/
def RowsKept (s t : Store) : Prop :=
  ∀ id row, t.notifications.get? id = some row → ∃ before, s.notifications.get? id = some before ∧ Kept before row

section Rows

variable {s t : Store} {now : ℤ}

theorem Kept.refl (row : Notification) : Kept row row := ⟨rfl, rfl, rfl, id⟩

theorem Kept.trans {a b c : Notification} (first : Kept a b) (second : Kept b c) : Kept a c :=
  ⟨second.kind.trans first.kind, second.root.trans first.root, second.episode.trans first.episode,
    fun pending => first.pending (second.pending pending)⟩

theorem RowsKept.of_eq (same : t.notifications = s.notifications) : RowsKept s t :=
  fun id row found => ⟨row, same ▸ found, .refl row⟩

theorem RowsKept.trans {u : Store} (first : RowsKept s t) (second : RowsKept t u) : RowsKept s u := by
  intro id row found
  obtain ⟨middle, there, later⟩ := second id row found
  obtain ⟨before, here, earlier⟩ := first id middle there
  exact ⟨before, here, earlier.trans later⟩

theorem RowsKept.of_modify {f : JsString → Notification → Notification} (rewritten : t.notifications = s.notifications.modify f)
    (keeps : ∀ id row, Kept row (f id row)) : RowsKept s t := by
  intro id row found
  rw [rewritten, Table.get?_modify] at found
  obtain ⟨before, was, rfl⟩ := Option.map_eq_some_iff.mp found
  exact ⟨before, was, keeps id before⟩

/-- A rewriting that moves notifications out of the pending state, or only touches their times. -/
theorem kept_ite {p : Prop} [Decidable p] {row next : Notification} (keeps : p → Kept row next) :
    Kept row (if p then next else row) := by
  split
  · next holds => exact keeps holds
  · exact .refl row

theorem rows_expire (s : Store) (now : ℤ) : RowsKept s (expire s now) :=
  .of_modify rfl fun _ _ => kept_ite fun _ => ⟨rfl, rfl, rfl, (by rintro ⟨⟩)⟩

theorem rows_read (s : Store) (id : JsString) (now : ℤ) : RowsKept s (read s id now).1 := by
  refine RowsKept.trans (.of_modify rfl fun other row => ?_) (rows_expire _ now)
  exact kept_ite fun _ => ⟨rfl, rfl, rfl, fun pending => pending⟩

theorem pending_of_transition {text : JsString} {state : State} (named : State.ofTransition text = some state) :
    state ≠ .pending := by
  unfold State.ofTransition at named
  obtain ⟨entry, found, rfl⟩ := Option.map_eq_some_iff.mp named
  have member := List.mem_of_find?_eq_some found
  simp only [List.mem_cons, List.not_mem_nil, or_false] at member
  rcases member with rfl | rfl | rfl <;> decide

theorem rows_transition {id state : JsString} {closedBy : Option JsString} {result : Store × Option Notification}
    (done : transition s id state now closedBy = .ok result) : RowsKept s result.1 := by
  unfold transition at done
  split at done
  · cases done
  · cases done
  · next state closer named closes =>
    cases done
    refine (rows_expire s now).trans (RowsKept.trans (.of_modify rfl fun other row => ?_) (rows_expire _ now))
    refine kept_ite fun _ => kept_ite fun _ => ⟨rfl, rfl, rfl, fun pending => ?_⟩
    exact (pending_of_transition named pending).elim

theorem rows_cancelSession (s : Store) (id : JsString) (now : ℤ) : RowsKept s (cancelSession s id now) :=
  .of_modify rfl fun _ _ => kept_ite fun _ => ⟨rfl, rfl, rfl, (by rintro ⟨⟩)⟩

theorem rows_cancelDialogs (s : Store) (now : ℤ) : RowsKept s (cancelDialogs s now) :=
  .of_modify rfl fun _ _ => kept_ite fun _ => ⟨rfl, rfl, rfl, (by rintro ⟨⟩)⟩

theorem notifications_checkpoint (s : Store) (rootId : JsString) (owner : Owner) (now : ℤ) :
    (checkpoint s rootId owner now).notifications = s.notifications := by
  unfold checkpoint
  split <;> rfl

theorem rows_openEpisode (s : Store) (rootId : JsString) (options : Observation) (now : ℤ) :
    RowsKept s (openEpisode s rootId options now) :=
  .of_modify (notifications_checkpoint ..) fun _ _ => kept_ite fun _ => ⟨rfl, rfl, rfl, (by rintro ⟨⟩)⟩

theorem notifications_bindOrigin (env : Env) (world : World) (s : Store) (sessionId key : JsString) (createdAt : Value) :
    (bindOrigin env world s sessionId key createdAt).1.notifications = s.notifications := by
  unfold bindOrigin
  split
  · rfl
  · split <;> rfl

theorem notifications_noteUserInput (world : World) (s : Store) (sessionId : JsString) (now : ℤ) :
    (noteUserInput world s sessionId now).notifications = s.notifications := by
  unfold noteUserInput
  split
  · rfl
  · exact notifications_checkpoint ..

theorem notifications_noteContinuation (env : Env) (world : World) (s : Store) (sessionId key : JsString) (createdAt : Value)
    (now : ℤ) : (noteContinuation env world s sessionId key createdAt now).notifications = s.notifications := by
  have bound := notifications_bindOrigin env world s sessionId key createdAt
  unfold noteContinuation
  split
  · next same => rwa [same] at bound
  · next same =>
    rw [same] at bound
    split
    · exact bound
    · split
      · exact (notifications_checkpoint ..).trans bound
      · exact bound

theorem rows_claim (s : Store) (endpoints : List JsString) (now : ℤ) : RowsKept s (claim s endpoints now).1 := by
  have refl : ∀ progress : Store × List Claim, RowsKept progress.1 progress.1 := fun _ => .of_eq rfl
  have trans : ∀ a b c : Store × List Claim, RowsKept a.1 b.1 → RowsKept b.1 c.1 → RowsKept a.1 c.1 :=
    fun _ _ _ first second => first.trans second
  have leases : ∀ progress endpoint, RowsKept progress.1 (claimEndpoint now progress endpoint).1 := by
    intro progress endpoint
    unfold claimEndpoint
    split
    · exact .of_eq rfl
    · exact foldl_relates refl trans (lease now) (fun _ _ => rows_expire _ now) _ progress
  have offered : RowsKept s (endpoints.foldl (offer now) (expire s now)) :=
    (rows_expire s now).trans (.of_eq (notifications_offers endpoints _))
  exact offered.trans (foldl_relates refl trans (claimEndpoint now) leases endpoints (exhaust (sweep _) now, []))

theorem rows_claimClosures (s : Store) (endpoints : List JsString) (now : ℤ) :
    RowsKept s (claimClosures s endpoints now).1 := by
  have refl : ∀ progress : Store × List Closure, RowsKept progress.1 progress.1 := fun _ => .of_eq rfl
  have trans : ∀ a b c : Store × List Closure, RowsKept a.1 b.1 → RowsKept b.1 c.1 → RowsKept a.1 c.1 :=
    fun _ _ _ first second => first.trans second
  have closures : ∀ progress endpoint, RowsKept progress.1 (claimClosuresOf now progress endpoint).1 := fun progress _ =>
    foldl_relates refl trans (claimClosure now) (fun _ _ => rows_expire _ now) _ progress
  exact (rows_expire s now).trans (foldl_relates refl trans (claimClosuresOf now) closures endpoints (expire s now, []))

theorem notifications_receipt {id endpointId status : JsString} {leaseId : ℕ} {result : Store × Option DeliveryState}
    (done : receipt s id endpointId leaseId status now = .ok result) : result.1.notifications = s.notifications := by
  unfold receipt at done
  split at done
  · cases done
  · split at done <;> cases done <;> rfl

/-- A creation adds the notification that was asked for, or nothing. -/
theorem rows_create (env : Env) (world : World) (s : Store) (params : NewNotification) (now : ℤ) (id : JsString)
    (row : Notification) (found : (create env world s params now).1.notifications.get? id = some row) :
    (∃ before, s.notifications.get? id = some before ∧ Kept before row)
      ∨ s.notifications.get? id = none ∧ id = env.notificationId params.key ∧ row.kind = params.kind
        ∧ row.rootId = params.rootId ∧ ∀ episodeId ∈ params.episodeId, row.episodeId = some episodeId := by
  unfold create at found
  split at found
  · obtain ⟨before, stored, kept⟩ := rows_expire _ now id row found
    rw [Table.get?_insertOrIgnore] at stored
    split at stored
    · next here =>
      subst here
      cases taken : s.notifications.get? (env.notificationId params.key) with
      | none =>
        rw [taken, Option.getD_none] at stored
        cases stored
        refine .inr ⟨rfl, rfl, kept.kind, kept.root, fun episodeId member => ?_⟩
        rw [kept.episode, Option.mem_def.mp member]
        rfl
      | some old =>
        rw [taken, Option.getD_some] at stored
        cases stored
        exact .inl ⟨_, rfl, kept⟩
    · exact .inl ⟨before, stored, kept⟩
  · exact .inl ⟨row, found, .refl row⟩

end Rows

end PersistentHarness.Notifications

/-! ## User ownership of an episode is not lost

An observer of one root records the user inputs and the owners of the continuations that were noted since its
last episode closed. The pending markers of a root without an open episode say the same, and an open episode is
the user's as soon as the observer has seen a user note.
-/

namespace PersistentHarness.Notifications

/-- What was noted for a root since its last episode closed. -/
structure Interest where
  inputs : Bool
  owners : List Owner

namespace Interest

def nothing : Interest := ⟨false, []⟩

def note (interest : Interest) : Option Note → Interest
  | none => interest
  | some .input => { interest with inputs := true }
  | some (.continuation owner) => { interest with owners := interest.owners ++ [owner] }

/-- The user wrote, or a continuation of the user was admitted. -/
def OfUser (interest : Interest) : Prop := interest.inputs = true ∨ .user ∈ interest.owners

/-- Continuations were admitted, all of them of cron jobs, and the user wrote nothing. -/
structure OfCron (interest : Interest) : Prop where
  silent : interest.inputs = false
  some : interest.owners ≠ []
  cron : ∀ owner ∈ interest.owners, owner = .cron

end Interest

instance (episode : Option Episode) : Decidable (IsOpen episode) := inferInstanceAs (Decidable (_ = true))

/-- The observer forgets when an episode closes. -/
def Interest.after (env : Env) (rootId : JsString) (s : Store) (event : Event) (interest : Interest) : Interest :=
  if IsOpen (s.families.get? rootId)
      ∧ ¬IsOpen ((step env event.world s event.now event.op).1.families.get? rootId) then .nothing
  else interest.note (noteOf env s event rootId)

/-- The store after a sequence of calls, and what the observer of a root recorded. -/
def attend (env : Env) (rootId : JsString) (events : List Event) : Store × Interest :=
  events.foldl (fun progress event =>
    ((step env event.world progress.1 event.now event.op).1, progress.2.after env rootId progress.1 event)) (.empty, .nothing)

/-- The pending owner that a sequence of continuations leaves. -/
def pendingOwner (owners : List Owner) : Option Owner :=
  owners.foldl (fun pending owner => if pending = some .user ∨ owner = .user then some .user else some owner) none

section Pending

theorem pendingOwner_concat (owners : List Owner) (owner : Owner) :
    pendingOwner (owners ++ [owner]) =
      if pendingOwner owners = some .user ∨ owner = .user then some .user else some owner := List.foldl_concat ..

theorem pendingOwner_of_user {owners : List Owner} (member : .user ∈ owners) : pendingOwner owners = some .user := by
  induction owners using List.reverseRecOn with
  | nil => cases member
  | append_singleton owners owner ih =>
    rw [pendingOwner_concat]
    apply if_pos
    rcases List.mem_append.mp member with earlier | last
    · exact .inl (ih earlier)
    · exact .inr (List.mem_singleton.mp last).symm

theorem pendingOwner_of_cron {owners : List Owner} (nonempty : owners ≠ []) (cron : ∀ owner ∈ owners, owner = .cron) :
    pendingOwner owners = some .cron := by
  induction owners using List.reverseRecOn with
  | nil => exact absurd rfl nonempty
  | append_singleton owners owner ih =>
    obtain rfl : owner = .cron := cron owner (List.mem_append_right _ (List.mem_singleton_self _))
    rw [pendingOwner_concat]
    apply if_neg
    rintro (user | ⟨⟨⟩⟩)
    by_cases empty : owners = []
    · rw [empty] at user
      cases user
    · rw [ih empty fun owner member => cron owner (List.mem_append_left _ member)] at user
      cases user

end Pending

section Invariant

variable {env : Env} {s : Store} {event : Event} {rootId : JsString} {interest : Interest}

/-- The row of a root says what the observer recorded. -/
structure Owned (episode : Option Episode) (interest : Interest) : Prop where
  opened : ∀ row, episode = some row → row.isOpen = true →
    row.pendingUser = false ∧ row.pendingOwner = none ∧ (interest.OfUser → row.owner = .user)
  pending : ¬IsOpen episode →
    episode.any Episode.pendingUser = interest.inputs ∧ episode.bind Episode.pendingOwner = pendingOwner interest.owners

theorem owned_nothing : Owned none .nothing := ⟨by rintro row ⟨⟩, fun _ => ⟨rfl, rfl⟩⟩

theorem owned_closed {row : Episode} (owned : Owned (some row) interest) (opened : row.isOpen = true) {next : Episode}
    (closed : next.isOpen = false) (user : next.pendingUser = row.pendingUser)
    (owner : next.pendingOwner = row.pendingOwner) : Owned (some next) .nothing := by
  obtain ⟨silent, unowned, -⟩ := owned.opened row rfl opened
  refine ⟨fun other same again => ?_, fun _ => ⟨?_, ?_⟩⟩
  · cases same
    rw [closed] at again
    cases again
  · exact user.trans silent
  · exact owner.trans unowned

/-- An open episode that changes nothing but its times. -/
theorem owned_same {row next : Episode} (owned : Owned (some row) interest) (opened : row.isOpen = true)
    (stays : next.isOpen = true) (user : next.pendingUser = row.pendingUser) (pending : next.pendingOwner = row.pendingOwner)
    (owner : next.owner = row.owner) : Owned (some next) interest := by
  obtain ⟨silent, unowned, mine⟩ := owned.opened row rfl opened
  refine ⟨fun other same _ => ?_, fun closed => (closed stays).elim⟩
  cases same
  exact ⟨user.trans silent, pending.trans unowned, fun ofUser => owner.trans (mine ofUser)⟩

/-- A note reaches the open episode, or its pending markers. -/
theorem owned_noted {episode : Option Episode} (owned : Owned episode interest) (note : Note) :
    Owned (some (afterNote note episode)) (interest.note (some note)) ∧ (IsOpen (some (afterNote note episode)) ↔ IsOpen episode) := by
  cases episode with
  | none =>
    obtain ⟨silent, unowned⟩ := owned.pending (by rintro ⟨⟩)
    cases note with
    | input =>
      refine ⟨⟨?_, fun _ => ⟨rfl, unowned⟩⟩, Iff.rfl⟩
      rintro row ⟨⟩ ⟨⟩
    | continuation owner =>
      refine ⟨⟨?_, fun _ => ⟨silent, ?_⟩⟩, Iff.rfl⟩
      · rintro row ⟨⟩ ⟨⟩
      · rw [Interest.note, pendingOwner_concat, ← unowned]
        cases owner <;> rfl
  | some row =>
    have same : (afterNote note (some row)).isOpen = row.isOpen := by cases note <;> rfl
    refine ⟨⟨?_, fun closed => ?_⟩, by rw [IsOpen, Option.any_some, same]; rfl⟩
    · rintro next ⟨⟩ opened
      rw [same] at opened
      obtain ⟨silent, unowned, mine⟩ := owned.opened row rfl opened
      cases note with
      | input =>
        refine ⟨?_, unowned, fun _ => if_pos opened⟩
        change (!row.isOpen) = false
        rw [opened]
        rfl
      | continuation owner =>
        refine ⟨silent, (if_pos opened).trans unowned, fun ofUser => ?_⟩
        change (if row.isOpen = true ∧ owner = .user then Owner.user else row.owner) = .user
        split
        · rfl
        · next other =>
          apply mine
          rcases ofUser with input | member
          · exact .inl input
          · rcases List.mem_append.mp member with earlier | last
            · exact .inr earlier
            · exact (other ⟨opened, (List.mem_singleton.mp last).symm⟩).elim
    · have shut : row.isOpen = false := by
        apply Bool.eq_false_iff.mpr
        intro opened
        exact closed (same.trans opened)
      obtain ⟨silent, unowned⟩ := owned.pending (by rw [IsOpen, Option.any_some, shut]; decide)
      cases note with
      | input =>
        refine ⟨?_, unowned⟩
        change (!row.isOpen) = true
        rw [shut]
        rfl
      | continuation owner =>
        refine ⟨silent, ?_⟩
        change (if row.isOpen = true then row.pendingOwner
          else if row.pendingOwner = some .user ∨ owner = .user then some .user else some owner) = _
        rw [if_neg (by rw [shut]; decide), Interest.note, pendingOwner_concat, ← unowned]
        rfl

theorem owned_opened {episode : Option Episode} (owned : Owned episode interest) (closed : ¬IsOpen episode)
    (options : Observation) (draw : ℕ) (now : ℤ) :
    Owned (some ⟨some draw, nextOwner options episode, some now, none, none, false, none⟩) interest := by
  obtain ⟨silent, unowned⟩ := owned.pending closed
  refine ⟨fun row same _ => ?_, fun shut => (shut rfl).elim⟩
  cases same
  refine ⟨rfl, rfl, fun ofUser => ?_⟩
  change nextOwner options episode = .user
  unfold nextOwner
  split
  · rfl
  · next noInput =>
    rcases ofUser with input | member
    · exact (noInput (silent.trans input)).elim
    · rw [unowned, pendingOwner_of_user member]
      rfl

theorem Turn.owned {before after : Option Episode} (turn : Turn env s event rootId before after)
    (owned : Owned before interest) :
    Owned after (if IsOpen before ∧ ¬IsOpen after then .nothing else interest.note (noteOf env s event rootId)) := by
  cases turn with
  | unseen unobserved unnoted =>
    rw [if_neg (fun closes => closes.2 closes.1), unnoted]
    exact owned
  | @noted _ note unobserved notes =>
    obtain ⟨noted, same⟩ := owned_noted owned note
    rw [if_neg (fun closes => closes.2 (same.mpr closes.1)), notes]
    exact noted
  | opened unnoted sees busy closed =>
    rw [if_neg (fun closes => closed closes.1), unnoted]
    exact owned_opened owned closed ..
  | held unnoted sees opened =>
    rw [if_neg (fun closes => closes.2 opened), unnoted]
    exact owned_same owned opened opened rfl rfl rfl
  | rested unnoted sees closed =>
    rw [if_neg (fun closes => closed closes.1), unnoted]
    exact owned
  | quieted unnoted sees quiet opened =>
    rw [if_neg (fun closes => closes.2 opened), unnoted]
    exact owned_same owned opened opened rfl rfl rfl
  | waiting unnoted sees quiet opened =>
    rw [if_neg (fun closes => closes.2 opened), unnoted]
    exact owned
  | @closed row _ _ unnoted sees opened =>
    have shut : ({ row with closedAt := some event.now } : Episode).isOpen = false := Bool.and_false _
    rw [if_pos ⟨opened, fun again => Bool.eq_false_iff.mp shut again⟩]
    exact owned_closed owned opened shut rfl rfl
  | @cancelled row unobserved unnoted =>
    by_cases unclosed : row.closedAt = none
    · rw [if_pos unclosed]
      have shut : ({ row with closedAt := some event.now } : Episode).isOpen = false := Bool.and_false _
      by_cases opened : row.isOpen = true
      · rw [if_pos ⟨opened, fun again => Bool.eq_false_iff.mp shut again⟩]
        exact owned_closed owned opened shut rfl rfl
      · rw [if_neg (fun closes => opened closes.1), unnoted]
        refine ⟨fun next same again => ?_, fun _ => owned.pending opened⟩
        cases same
        exact (Bool.eq_false_iff.mp shut again).elim
    · rw [if_neg unclosed, if_neg (fun closes => closes.2 closes.1), unnoted]
      exact owned

end Invariant

section Runs

variable {env : Env} {rootId : JsString}

theorem attend_concat (events : List Event) (event : Event) :
    attend env rootId (events ++ [event]) =
      ((step env event.world (attend env rootId events).1 event.now event.op).1,
        (attend env rootId events).2.after env rootId (attend env rootId events).1 event) := List.foldl_concat ..

theorem attend_store (events : List Event) : (attend env rootId events).1 = run env events := by
  induction events using List.reverseRecOn with
  | nil => rfl
  | append_singleton events event ih => rw [attend_concat, run_concat, ih]

theorem attend_owned (events : List Event) : Owned ((run env events).families.get? rootId) (attend env rootId events).2 := by
  induction events using List.reverseRecOn with
  | nil => exact owned_nothing
  | append_singleton events event ih =>
    rw [attend_concat, run_concat, attend_store]
    exact (step_turn env (run env events) event rootId).owned ih

/-- An open episode is the user's as soon as the user wrote, or a continuation of the user was admitted, since
the last one closed; an episode that opens on continuations of cron jobs alone is not. -/
theorem run_owned (env : Env) (events : List Event) (rootId : JsString) :
    (∀ episode, (run env events).families.get? rootId = some episode → episode.isOpen = true →
      (attend env rootId events).2.OfUser → episode.owner = .user)
      ∧ ∀ (event : Event) (episode : Episode), ¬IsOpen ((run env events).families.get? rootId) →
        (step env event.world (run env events) event.now event.op).1.families.get? rootId = some episode →
        episode.isOpen = true → (attend env rootId events).2.OfCron → episode.owner ≠ .user := by
  have owned : Owned ((run env events).families.get? rootId) (attend env rootId events).2 := attend_owned events
  refine ⟨fun episode found opened => (owned.opened episode found opened).2.2, fun event episode closed found opened cron => ?_⟩
  obtain ⟨silent, unowned⟩ := owned.pending closed
  have turn := step_turn env (run env events) event rootId
  rw [found] at turn
  generalize (run env events).families.get? rootId = before at turn closed silent unowned
  cases turn with
  | unseen | rested => exact (closed opened).elim
  | @noted _ note =>
    have same : (afterNote note before).isOpen = true → IsOpen before := by
      cases before with
      | none => cases note <;> rintro ⟨⟩
      | some row => cases note <;> exact id
    exact (closed (same opened)).elim
  | held _ _ earlier | quieted _ _ _ earlier | waiting _ _ _ earlier => exact (closed earlier).elim
  | @opened _ _ options =>
    change nextOwner options before ≠ .user
    unfold nextOwner
    rw [if_neg (by rw [silent, cron.silent]; decide), unowned, pendingOwner_of_cron cron.some cron.cron]
    exact Owner.noConfusion
  | closed => cases (Bool.and_eq_true_iff.mp opened).2
  | @cancelled row =>
    split at opened
    · cases (Bool.and_eq_true_iff.mp opened).2
    · exact (closed opened).elim

end Runs

end PersistentHarness.Notifications
