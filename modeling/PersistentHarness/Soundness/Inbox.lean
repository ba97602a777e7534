import Mathlib.Data.List.Perm.Basic
import PersistentHarness.Model.Inbox
import PersistentHarness.Soundness.Session.Inputs

/-! # What the inbox accepts

A message is recorded only when its delivery is over, so a check sees neither the requests in delivery nor their
message ids. Where it needs to see none of them, the rate holds in every hour; a message creates one input in a
session in any case, since the id of the input is made of the message and the session.
-/

namespace PersistentHarness.Inbox

open SessionStore (Store)

section Counts

def System.acceptedAfter (s : System) (sender : JsString) (start : ℤ) : ℕ :=
  s.accepted.countP fun message => message.sender = sender ∧ start < message.receivedAt

/-- The messages of a sender that are accepted in the hour after an instant. -/
def System.acceptedIn (s : System) (sender : JsString) (start : ℤ) : ℕ :=
  s.accepted.countP fun message => message.sender = sender ∧ start < message.receivedAt ∧ message.receivedAt ≤ start + hourMs

def System.recordedAfter (s : System) (sender : JsString) (start : ℤ) : ℕ :=
  s.inbox.messages.count fun key row => key.1 = sender ∧ start < row.receivedAt

def System.inDelivery (s : System) (sender : JsString) : ℕ := s.requests.countP fun request => request.sender.name = sender

def Request.key (request : Request) : JsString × JsString := (request.sender.name, request.messageId)

/-- The check of a message sees all that matters: with the requests in delivery its sender is below its rate, and
none of them is of the same message. -/
def spaced (config : Config) (s : System) : Event → Bool
  | .post key body =>
    match s.admission config key body with
    | .ok request =>
      recentCount s.inbox request.sender.name s.clock + s.inDelivery request.sender.name < request.sender.ratePerHour
        ∧ ∀ other ∈ s.requests, Request.key other ≠ Request.key request
    | .error _ => true
  | _ => true

/-- What a sender may rely on, and what it is held to. -/
structure Paced (senders : Table JsString SenderRow) (s : System) : Prop where
  rate : ∀ name row start, senders.get? name = some row → s.acceptedIn name start ≤ row.ratePerHour
  once : s.created.Nodup

end Counts

/-- The requests in delivery are of messages without a record, and of senders as they are registered. -/
structure Sound (senders : Table JsString SenderRow) (s : System) : Prop where
  registry : s.inbox.senders = senders
  keys : (s.requests.map Request.key).Nodup
  unrecorded : ∀ request ∈ s.requests, s.inbox.messages.get? (Request.key request) = none
  counted : ∀ name start, s.clock - messageRetentionMs ≤ start → s.acceptedAfter name start ≤ s.recordedAfter name start
  current : ∀ name row start, senders.get? name = some row → s.clock - hourMs ≤ start →
    s.acceptedAfter name start + s.inDelivery name ≤ row.ratePerHour
  rate : ∀ name row start, senders.get? name = some row → s.acceptedIn name start ≤ row.ratePerHour

section Requests

variable {config : Config} {senders : Table JsString SenderRow} {s : System}

theorem authenticate_registered {key : JsString} {sender : Sender} (known : authenticate config s.inbox key = some sender) :
    ∃ row, s.inbox.senders.get? sender.name = some row ∧ row.kind = sender.kind ∧ row.ratePerHour = sender.ratePerHour := by
  unfold authenticate at known
  dsimp only at known
  split at known
  · obtain ⟨name, row, found, owned⟩ := Table.mem_collect.mp (List.mem_of_head? known)
    split at owned
    · cases owned
      exact ⟨row, found, rfl, rfl⟩
    · cases owned
  · cases known

theorem admission_ok {key : JsString} {body : Body} {request : Request} (admitted : s.admission config key body = .ok request) :
    (∃ row, s.inbox.senders.get? request.sender.name = some row ∧ row.kind = request.sender.kind
        ∧ row.ratePerHour = request.sender.ratePerHour)
      ∧ s.inbox.messages.get? (Request.key request) = none := by
  rw [System.admission] at admitted
  split at admitted
  · cases admitted
  · next sender known =>
    obtain ⟨message, _, admitted⟩ := Checked.bind_eq_ok.mp admitted
    split at admitted
    · cases admitted
    · next unknown =>
      split at admitted
      · cases admitted
      · obtain ⟨_, _, admitted⟩ := Checked.bind_eq_ok.mp admitted
        obtain ⟨_, _, admitted⟩ := Checked.bind_eq_ok.mp admitted
        cases admitted
        exact ⟨authenticate_registered known, Option.map_eq_none_iff.mp unknown⟩

/-- The sender and the message of a request, which its delivery does not change. -/
def Request.ident (request : Request) : Sender × JsString := (request.sender, request.messageId)

theorem map_ident_set {n : ℕ} {request next : Request} (here : s.requests[n]? = some request)
    (same : Request.ident next = Request.ident request) :
    (s.requests.set n next).map Request.ident = s.requests.map Request.ident := by
  rw [List.map_set, same]
  apply List.ext_getElem?
  intro m
  rw [List.getElem?_set]
  split
  · next equal =>
    subst equal
    rw [List.getElem?_map, here, List.length_map, if_pos (List.getElem?_eq_some_iff.mp here).1]
    rfl
  · rfl

theorem Sound.requests (sound : Sound senders s) {t : System} (inbox : t.inbox = s.inbox) (clock : t.clock = s.clock)
    (accepted : t.accepted = s.accepted) (same : t.requests.map Request.ident = s.requests.map Request.ident) :
    Sound senders t := by
  have keys : t.requests.map Request.key = s.requests.map Request.key := by
    have through (requests : List Request) :
        requests.map Request.key = (requests.map Request.ident).map fun ident => (ident.1.name, ident.2) := by
      rw [List.map_map]
      rfl
    rw [through, through, same]
  have inDelivery (name : JsString) : t.inDelivery name = s.inDelivery name := by
    have through (u : System) : u.inDelivery name = (u.requests.map Request.ident).countP fun ident => ident.1.name = name := by
      rw [List.countP_map]
      rfl
    rw [through, through, same]
  refine ⟨inbox ▸ sound.registry, keys ▸ sound.keys, fun request member => ?_, ?_, ?_, ?_⟩
  · have key : Request.key request ∈ s.requests.map Request.key := keys ▸ List.mem_map_of_mem member
    obtain ⟨other, before, equal⟩ := List.mem_map.mp key
    rw [inbox, ← equal]
    exact sound.unrecorded other before
  · rw [clock]
    intro name start recent
    simpa only [System.acceptedAfter, System.recordedAfter, accepted, inbox] using sound.counted name start recent
  · rw [clock]
    intro name row start registered recent
    rw [inDelivery, System.acceptedAfter, accepted]
    exact sound.current name row start registered recent
  · intro name row start registered
    rw [System.acceptedIn, accepted]
    exact sound.rate name row start registered

/-- A request that ends without an answer of 202. -/
theorem Sound.drop (sound : Sound senders s) (n : ℕ) : Sound senders (s.drop n) := by
  have kept : (s.drop n).requests.Sublist s.requests := List.eraseIdx_sublist ..
  refine { sound with
    keys := (kept.map Request.key).nodup sound.keys
    unrecorded := fun request member => sound.unrecorded request (kept.subset member)
    current := fun name row start registered recent => ?_ }
  have fewer : (s.drop n).inDelivery name ≤ s.inDelivery name := kept.countP_le
  have := sound.current name row start registered recent
  simp only [System.drop, System.acceptedAfter] at this fewer ⊢
  omega

theorem acceptedAfter_mono (s : System) (name : JsString) {start later : ℤ} (after : start ≤ later) :
    s.acceptedAfter name later ≤ s.acceptedAfter name start := by
  apply List.countP_mono_left
  intro message _ counted
  have ⟨same, past⟩ := of_decide_eq_true counted
  exact decide_eq_true ⟨same, by omega⟩

theorem Sound.post (sound : Sound senders s) {key : JsString} {body : Body} {request : Request}
    (admitted : s.admission config key body = .ok request)
    (below : recentCount s.inbox request.sender.name s.clock + s.inDelivery request.sender.name < request.sender.ratePerHour)
    (apart : ∀ other ∈ s.requests, Request.key other ≠ Request.key request) :
    Sound senders { s with requests := s.requests ++ [request] } := by
  obtain ⟨⟨row, registered, _, rate⟩, fresh⟩ := admission_ok admitted
  refine { sound with keys := ?_, unrecorded := fun other member => ?_, current := fun name other start known recent => ?_ }
  · rw [List.map_append, List.nodup_append]
    refine ⟨sound.keys, List.pairwise_singleton .., fun taken member _ added same => ?_⟩
    obtain ⟨other, before, rfl⟩ := List.mem_map.mp member
    rw [List.mem_singleton.mp added] at same
    exact apart other before same
  · rcases List.mem_append.mp member with before | added
    · exact sound.unrecorded other before
    · rw [List.mem_singleton.mp added]
      exact fresh
  · have grown : { s with requests := s.requests ++ [request] }.inDelivery name
        = s.inDelivery name + if request.sender.name = name then 1 else 0 := by
      simp [System.inDelivery, List.countP_append, List.countP_singleton]
    rw [grown]
    split
    · next here =>
      subst here
      rw [sound.registry, known] at registered
      obtain rfl := Option.some.inj registered
      have recent : s.clock - hourMs ≤ start := recent
      have counted := sound.counted request.sender.name (s.clock - hourMs)
        (Int.sub_le_sub_left (by decide) _)
      have fewer := acceptedAfter_mono s request.sender.name recent
      have seen : s.recordedAfter request.sender.name (s.clock - hourMs) = recentCount s.inbox request.sender.name s.clock := rfl
      change s.acceptedAfter request.sender.name start + _ ≤ _
      omega
    · exact sound.current name other start known recent

/-- The request that is recorded, and those that stay in delivery. -/
theorem requests_perm {n : ℕ} {request : Request} (here : s.requests[n]? = some request) :
    (request :: s.requests.eraseIdx n).Perm s.requests := by
  obtain ⟨bound, rfl⟩ := List.getElem?_eq_some_iff.mp here
  exact List.getElem_cons_eraseIdx_perm bound

theorem unrecorded_insert (sound : Sound senders s) {n : ℕ} {request : Request} (here : s.requests[n]? = some request)
    (now : ℤ) {other : Request} (member : other ∈ s.requests.eraseIdx n) :
    (insertMessage s.inbox request.sender.name request.messageId request.route request.delivered now).messages.get?
      (Request.key other) = none := by
  have keys := ((requests_perm here).map Request.key).nodup_iff.mpr sound.keys
  have apart : Request.key other ≠ Request.key request := fun same =>
    (List.nodup_cons.mp keys).1 (List.mem_map.mpr ⟨other, member, same⟩)
  have fresh := sound.unrecorded other ((requests_perm here).subset (List.mem_cons_of_mem request member))
  rw [insertMessage, Table.get?_insertOrIgnore]
  exact (if_neg apart).trans fresh

theorem Sound.cut (sound : Sound senders s) {n : ℕ} {request : Request} (here : s.requests[n]? = some request) :
    Sound senders ({ s with
      inbox := insertMessage s.inbox request.sender.name request.messageId request.route request.delivered s.clock }.drop n) := by
  have dropped := sound.drop n
  refine { dropped with unrecorded := fun other member => unrecorded_insert sound here s.clock member, counted := ?_ }
  intro name start recent
  exact (sound.counted name start recent).trans (Table.count_le_insertOrIgnore ..)

theorem purge_count (store : InboxStore) (name : JsString) {now start : ℤ} (recent : now - messageRetentionMs ≤ start) :
    ((purgeMessages store now).messages.count fun key row => key.1 = name ∧ start < row.receivedAt)
      = store.messages.count fun key row => key.1 = name ∧ start < row.receivedAt := by
  change (store.messages.delete fun _ row => decide (row.receivedAt < now - messageRetentionMs)).count _ = _
  apply Table.count_delete_eq
  intro key row counted
  have ⟨_, past⟩ := of_decide_eq_true counted
  exact decide_eq_false (by omega)

theorem Sound.saved (sound : Sound senders s) {n : ℕ} {request : Request} (here : s.requests[n]? = some request) :
    Sound senders (s.record n request .saved) := by
  have member : request ∈ s.requests := List.mem_of_getElem? here
  have perm := requests_perm here
  have fresh := sound.unrecorded request member
  have after (name : JsString) (start : ℤ) : (s.record n request .saved).acceptedAfter name start
      = s.acceptedAfter name start + if request.sender.name = name ∧ start < s.clock then 1 else 0 := by
    simp [System.record, System.drop, System.acceptedAfter, List.countP_cons]
  have fewer (name : JsString) : (s.record n request .saved).inDelivery name + (if request.sender.name = name then 1 else 0)
      = s.inDelivery name := by
    have same := perm.countP_eq fun other : Request => decide (other.sender.name = name)
    rw [List.countP_cons] at same
    simpa [System.record, System.drop, System.inDelivery] using same
  have recorded (name : JsString) (start : ℤ) (recent : s.clock - messageRetentionMs ≤ start) :
      (s.record n request .saved).recordedAfter name start
        = s.recordedAfter name start + if request.sender.name = name ∧ start < s.clock then 1 else 0 := by
    have counted := Table.count_insertOrIgnore (t := s.inbox.messages) (k := Request.key request) fresh
      ⟨request.route, s.clock, request.delivered⟩ fun key row => decide (key.1 = name ∧ start < row.receivedAt)
    simp only [decide_eq_true_eq] at counted
    exact (purge_count _ name recent).trans counted
  have current (name : JsString) (row : SenderRow) (start : ℤ) (registered : senders.get? name = some row)
      (recent : s.clock - hourMs ≤ start) :
      (s.record n request .saved).acceptedAfter name start + (s.record n request .saved).inDelivery name ≤ row.ratePerHour := by
    have before := sound.current name row start registered recent
    have := fewer name
    rw [after]
    by_cases here : request.sender.name = name
    · rw [if_pos here] at this
      split <;> omega
    · rw [if_neg here] at this
      rw [if_neg fun both => here both.1]
      omega
  refine ⟨sound.registry, ?_, ?_, ?_, current, ?_⟩
  · exact (List.eraseIdx_sublist s.requests n |>.map Request.key).nodup sound.keys
  · intro other inside
    have unrecorded := unrecorded_insert sound here s.clock inside
    change (purgeMessages _ s.clock).messages.get? _ = none
    rw [purgeMessages, Table.get?_delete, unrecorded]
    rfl
  · intro name start recent
    have before := sound.counted name start recent
    rw [after, recorded name start recent]
    omega
  · intro name row start registered
    by_cases within : start < s.clock ∧ s.clock ≤ start + hourMs
    · -- an hour that has not ended is part of what the last check has seen
      have all : (s.record n request .saved).acceptedIn name start ≤ (s.record n request .saved).acceptedAfter name start := by
        apply List.countP_mono_left
        intro message _ counted
        have ⟨same, past, _⟩ := of_decide_eq_true counted
        exact decide_eq_true ⟨same, past⟩
      have := current name row start registered (by omega)
      omega
    · have same : (s.record n request .saved).acceptedIn name start = s.acceptedIn name start := by
        simp only [System.record, System.drop, System.acceptedIn, List.countP_cons]
        rw [if_neg]
        · rfl
        · rw [decide_eq_true_eq]
          exact fun counted => within counted.2
      rw [same]
      exact sound.rate name row start registered

end Requests

section Inputs

variable {config : Config} {senders : Table JsString SenderRow} {s : System}

theorem getActorInput_receipt {store : Store} {inputId sessionId : JsString} {view : SessionStore.InputView}
    (found : store.getActorInput inputId sessionId = some view) : store.receipts.get? inputId ≠ none := by
  obtain ⟨receipt, kept, _⟩ := Option.map_eq_some_iff.mp found
  rw [(Option.filter_eq_some_iff.mp kept).1]
  exact Option.some_ne_none receipt

theorem createActorInput_receipt {env : SessionStore.Env} {store next : Store} {sessionId id : JsString}
    {params : SessionStore.NewInput} {now : ℤ} {view : SessionStore.InputView} (given : params.inputId = some id)
    (done : SessionStore.createActorInput env store sessionId params now = .ok (next, some view)) :
    next.receipts.get? id ≠ none := by
  unfold SessionStore.createActorInput at done
  obtain ⟨_, _, done⟩ := Checked.bind_eq_ok.mp done
  obtain ⟨terms, _, done⟩ := Checked.bind_eq_ok.mp done
  rw [SessionStore.newInputId, given] at done
  dsimp only at done
  split at done
  · obtain ⟨_, _, done⟩ := Checked.bind_eq_ok.mp done
    have same := Checked.pure_eq_ok.mp done
    obtain ⟨rfl, found⟩ := Prod.mk.injEq .. ▸ same
    obtain ⟨read, stored, _⟩ := Option.map_eq_some_iff.mp found
    exact getActorInput_receipt stored
  · obtain ⟨_, _, done⟩ := Checked.bind_eq_ok.mp done
    obtain ⟨_, _, done⟩ := Checked.bind_eq_ok.mp done
    obtain ⟨_, _, done⟩ := Checked.bind_eq_ok.mp done
    split at done
    · obtain ⟨_, _, done⟩ := Checked.bind_eq_ok.mp done
      have same := Checked.pure_eq_ok.mp done
      obtain ⟨rfl, found⟩ := Prod.mk.injEq .. ▸ same
      exact getActorInput_receipt found
    · cases done
    · cases done

theorem create_receipt {request : Request} {sessionId : JsString} {store : Store} {view : SessionStore.InputView}
    (done : SessionStore.step config.env none s.store s.clock
      (.createActorInput sessionId (System.newInput config request sessionId)) = (store, .input (some view))) :
    store.receipts.get? (System.inputId config (System.Request.jobId request) sessionId) ≠ none := by
  rw [SessionStore.step] at done
  generalize created : SessionStore.createActorInput config.env s.store sessionId (System.newInput config request sessionId)
    s.clock = result at done
  cases result with
  | error failure => cases done
  | ok next =>
    obtain ⟨next, read⟩ := next
    cases done
    exact createActorInput_receipt rfl created

theorem step_receipts (config : Config) (observer : Option JsString) (store : Store) (now : ℤ) (op : SessionStore.Op) {id : JsString}
    (stored : store.receipts.get? id ≠ none) :
    (SessionStore.step config.env observer store now op).1.receipts.get? id ≠ none := by
  obtain ⟨receipt, found⟩ := Option.ne_none_iff_exists'.mp stored
  obtain ⟨later, kept, _⟩ := (SessionStore.step_acts op).receipts.kept id receipt found
  rw [kept]
  exact Option.some_ne_none later

/-- Every input that a message has created has the receipt of that message and session. -/
structure Made (config : Config) (senders : Table JsString SenderRow) (s : System) : Prop where
  registry : s.inbox.senders = senders
  known : ∀ request ∈ s.requests, ∃ row, senders.get? request.sender.name = some row ∧ row.kind = request.sender.kind
  made : ∀ created ∈ s.created, ∃ row, senders.get? created.sender = some row
    ∧ s.store.receipts.get? (System.inputId config (System.inboxOriginJobId row.kind created.sender created.messageId)
      created.sessionId) ≠ none
  once : s.created.Nodup

theorem Made.requests (made : Made config senders s) {t : System} (registry : t.inbox.senders = s.inbox.senders)
    (store : t.store = s.store) (created : t.created = s.created)
    (known : ∀ request ∈ t.requests, ∃ other ∈ s.requests, request.sender = other.sender) : Made config senders t where
  registry := registry.trans made.registry
  known request member := by
    obtain ⟨other, before, same⟩ := known request member
    exact same ▸ made.known other before
  made := by
    rw [created, store]
    exact made.made
  once := created ▸ made.once

theorem Made.drop (made : Made config senders s) (n : ℕ) : Made config senders (s.drop n) :=
  made.requests rfl rfl rfl fun request member => ⟨request, (List.eraseIdx_sublist ..).subset member, rfl⟩

theorem Made.setRequest (made : Made config senders s) {n : ℕ} {request next : Request} (here : s.requests[n]? = some request)
    (same : next.sender = request.sender) : Made config senders (s.setRequest n next) := by
  refine made.requests rfl rfl rfl fun other member => ?_
  rcases List.mem_or_eq_of_mem_set member with kept | rfl
  · exact ⟨other, kept, rfl⟩
  · exact ⟨request, List.mem_of_getElem? here, same⟩

theorem Made.store (made : Made config senders s) (observer : Option JsString) (now : ℤ) (op : SessionStore.Op) :
    Made config senders { s with store := (SessionStore.step config.env observer s.store now op).1 } := by
  refine { made with made := fun created member => ?_ }
  obtain ⟨row, registered, stored⟩ := made.made created member
  exact ⟨row, registered, step_receipts config observer s.store now op stored⟩

theorem Made.create (made : Made config senders s) {n : ℕ} {request : Request} (here : s.requests[n]? = some request)
    (sessionId : JsString) (remaining : List JsString) :
    Made config senders (s.create config n request sessionId remaining) := by
  have called := made.store none s.clock (.createActorInput sessionId (System.newInput config request sessionId))
  rw [System.create]
  split
  · next store view done =>
    rw [done] at called
    have receipt := create_receipt done
    obtain ⟨row, registered, kind⟩ := made.known request (List.mem_of_getElem? here)
    have grown : Made config senders { s with
        store, created :=
          if (s.store.receipts.get? (System.inputId config (System.Request.jobId request) sessionId)).isNone = true then
            ⟨request.sender.name, request.messageId, sessionId⟩ :: s.created
          else s.created } := by
      split
      · next fresh =>
        have unknown : (⟨request.sender.name, request.messageId, sessionId⟩ : Created) ∉ s.created := by
          intro member
          obtain ⟨other, known, stored⟩ := made.made _ member
          rw [registered] at known
          cases known
          rw [kind] at stored
          exact stored (Option.isNone_iff_eq_none.mp fresh)
        refine { called with made := fun created member => ?_, once := List.nodup_cons.mpr ⟨unknown, made.once⟩ }
        rcases List.mem_cons.mp member with rfl | before
        · exact ⟨row, registered, by rw [kind]; exact receipt⟩
        · exact called.made created before
      · exact called
    dsimp only
    split
    · exact grown.setRequest here rfl
    · exact grown.setRequest here rfl
  · next store output _ done =>
    rw [done] at called
    exact called.drop n

end Inputs

section Runs

variable {config : Config} {senders : Table JsString SenderRow} {s : System} {events : List Event}

theorem Sound.create (sound : Sound senders s) {n : ℕ} {request : Request} (here : s.requests[n]? = some request)
    (sessionId : JsString) (remaining : List JsString) : Sound senders (s.create config n request sessionId remaining) := by
  have set {t : System} {next : Request} (inbox : t.inbox = s.inbox) (clock : t.clock = s.clock)
      (accepted : t.accepted = s.accepted) (requests : t.requests = s.requests) (same : Request.ident next = Request.ident request) :
      Sound senders (t.setRequest n next) := by
    refine sound.requests inbox clock accepted ?_
    rw [System.setRequest, requests]
    exact map_ident_set here same
  rw [System.create]
  split
  · dsimp only
    split <;> exact set rfl rfl rfl rfl rfl
  · next store output _ _ => exact Sound.drop (s := { s with store }) { sound with } n

theorem step_sound (sound : Sound senders s) {event : Event} (calm : spaced config s event = true) :
    Sound senders (step config s event) := by
  cases event with
  | pass elapsed =>
    refine { sound with counted := fun name start recent => ?_, current := fun name row start registered recent => ?_ }
    · exact sound.counted name start (by simp only [step] at recent; omega)
    · exact sound.current name row start registered (by simp only [step] at recent; omega)
  | store now observer op => exact { sound with }
  | routes routes => exact { sound with }
  | post key body =>
    rw [spaced] at calm
    rw [step]
    split
    · next request admitted =>
      rw [admitted] at calm
      obtain ⟨below, apart⟩ := of_decide_eq_true calm
      exact sound.post admitted below apart
    · exact sound
  | create n =>
    rw [step]
    split
    · next request here =>
      split
      · exact sound.create here _ _
      · exact sound
    · exact sound
  | ready n =>
    rw [step]
    split
    · next request here =>
      split
      · exact sound.requests rfl rfl rfl (map_ident_set here rfl)
      · exact sound
    · exact sound
  | logged n =>
    rw [step]
    split
    · next request here =>
      split
      · exact sound.requests rfl rfl rfl (map_ident_set here rfl)
      · exact sound
    · exact sound
  | record n recording =>
    rw [step]
    split
    · next request here =>
      split
      · cases recording with
        | saved => exact sound.saved here
        | cut => exact sound.cut here
        | lost => exact sound.drop n
      · exact sound
    · exact sound
  | fail n => exact sound.drop n

theorem step_made (made : Made config senders s) (event : Event) : Made config senders (step config s event) := by
  cases event with
  | pass elapsed => exact { made with }
  | store now observer op => exact made.store observer now op
  | routes routes => exact { made with }
  | post key body =>
    rw [step]
    split
    · next request admitted =>
      obtain ⟨⟨row, registered, kind, _⟩, _⟩ := admission_ok admitted
      refine { made with known := fun other member => ?_ }
      rcases List.mem_append.mp member with before | added
      · exact made.known other before
      · rw [List.mem_singleton.mp added]
        exact ⟨row, made.registry ▸ registered, kind⟩
    · exact made
  | create n =>
    rw [step]
    split
    · next request here =>
      split
      · exact made.create here _ _
      · exact made
    · exact made
  | ready n =>
    rw [step]
    split
    · next request here =>
      split
      · exact made.setRequest here rfl
      · exact made
    · exact made
  | logged n =>
    rw [step]
    split
    · next request here =>
      split
      · exact made.setRequest here rfl
      · exact made
    · exact made
  | record n recording =>
    rw [step]
    split
    · split
      · cases recording with
        | saved =>
          refine Made.drop (s := { s with
            inbox := purgeMessages (insertMessage s.inbox _ _ _ _ s.clock) s.clock
            accepted := _ :: s.accepted }) { made with } n
        | cut => exact Made.drop (s := { s with inbox := insertMessage s.inbox _ _ _ _ s.clock }) { made with } n
        | lost => exact made.drop n
      · exact made
    · exact made
  | fail n => exact made.drop n

theorem initial_sound (senders : Table JsString SenderRow) : Sound senders (.initial senders) where
  registry := rfl
  keys := .nil
  unrecorded _ member := nomatch member
  counted _ _ _ := Nat.le_refl _
  current _ _ _ _ _ := Nat.zero_le _
  rate _ _ _ _ := Nat.zero_le _

theorem initial_made (config : Config) (senders : Table JsString SenderRow) : Made config senders (.initial senders) where
  registry := rfl
  known _ member := nomatch member
  made _ member := nomatch member
  once := .nil

theorem run_concat (before : List Event) (event : Event) :
    run config senders (before ++ [event]) = step config (run config senders before) event := by
  rw [run, List.foldl_append]
  rfl

theorem run_made (events : List Event) : Made config senders (run config senders events) := by
  induction events using List.reverseRecOn with
  | nil => exact initial_made config senders
  | append_singleton before event made =>
    rw [run_concat]
    exact step_made made event

/-- Every check of the run sees all that matters. -/
def Spaced (config : Config) (senders : Table JsString SenderRow) (events : List Event) : Prop :=
  ∀ before event, before ++ [event] <+: events → spaced config (run config senders before) event = true

theorem run_sound (calm : Spaced config senders events) : Sound senders (run config senders events) := by
  induction events using List.reverseRecOn with
  | nil => exact initial_sound senders
  | append_singleton before event ih =>
    rw [run_concat]
    refine step_sound (ih fun first next within => ?_) (calm before event (List.prefix_refl _))
    exact calm first next (within.trans (List.prefix_append ..))

/-- While no check misses a request in delivery, a sender has at most its rate of messages accepted in any hour. -/
theorem run_paced (calm : Spaced config senders events) :
    ∀ before, before <+: events → Paced senders (run config senders before) := by
  intro before within
  have sound : Sound senders (run config senders before) := run_sound fun first next inside => calm first next (inside.trans within)
  exact ⟨sound.rate, (run_made before).once⟩

end Runs

section Deliveries

variable {config : Config} {senders : Table JsString SenderRow} {s : System}

/-- A session has the receipt of the input that a message of a registered sender makes in it. -/
def Reached (config : Config) (senders : Table JsString SenderRow) (store : Store) (key : JsString × JsString)
    (sessionId : JsString) : Prop :=
  ∃ row, senders.get? key.1 = some row
    ∧ store.receipts.get? (System.inputId config (System.inboxOriginJobId row.kind key.1 key.2) sessionId) ≠ none

/-- A message has been admitted when its route meant these sessions. -/
def Meant (config : Config) (senders : Table JsString SenderRow) (events : List Event) (key : JsString × JsString)
    (sessions : List JsString) : Prop :=
  ∃ before senderKey body request, before ++ [.post senderKey body] <+: events
    ∧ (run config senders before).admission config senderKey body = .ok request
    ∧ Request.key request = key ∧ request.delivered = [] ∧ request.remaining = sessions

/-- A request has reached the sessions behind it, and it is over when none is left. -/
structure Going (config : Config) (senders : Table JsString SenderRow) (events : List Event) (store : Store)
    (request : Request) : Prop where
  sessions : Meant config senders events (Request.key request) (request.delivered ++ request.remaining)
  reached : ∀ sessionId ∈ request.delivered, Reached config senders store (Request.key request) sessionId
  readying : request.stage = .readying → ∀ sessionId ∈ request.remaining.head?,
    Reached config senders store (Request.key request) sessionId
  ended : request.stage = .logging ∨ request.stage = .recording → request.remaining = []

/-- What the inbox says of its deliveries, in a record, in an answer or in a request that goes on, is true. -/
structure Delivers (config : Config) (senders : Table JsString SenderRow) (events : List Event) (s : System) : Prop where
  going : ∀ request ∈ s.requests, Going config senders events s.store request
  recorded : ∀ key row, s.inbox.messages.get? key = some row →
    Meant config senders events key row.deliveredTo
      ∧ ∀ sessionId ∈ row.deliveredTo, Reached config senders s.store key sessionId

theorem Delivers.later {events : List Event} (delivers : Delivers config senders events s) (event : Event) {store : Store}
    (kept : ∀ id, s.store.receipts.get? id ≠ none → store.receipts.get? id ≠ none) :
    Delivers config senders (events ++ [event]) { s with store } := by
  have meant {key : JsString × JsString} {sessions : List JsString} :
      Meant config senders events key sessions → Meant config senders (events ++ [event]) key sessions :=
    fun ⟨before, senderKey, body, request, within, rest⟩ =>
      ⟨before, senderKey, body, request, within.trans (List.prefix_append ..), rest⟩
  have reached {key : JsString × JsString} {sessionId : JsString} :
      Reached config senders s.store key sessionId → Reached config senders store key sessionId :=
    fun ⟨row, known, stored⟩ => ⟨row, known, kept _ stored⟩
  refine ⟨fun request member => ?_, fun key row found => ?_⟩
  · have going := delivers.going request member
    exact ⟨meant going.sessions, fun sessionId member => reached (going.reached sessionId member),
      fun readying sessionId member => reached (going.readying readying sessionId member), going.ended⟩
  · obtain ⟨sessions, all⟩ := delivers.recorded key row found
    exact ⟨meant sessions, fun sessionId member => reached (all sessionId member)⟩

theorem Delivers.drop {events : List Event} (delivers : Delivers config senders events s) (n : ℕ) :
    Delivers config senders events (s.drop n) :=
  ⟨fun request member => delivers.going request ((List.eraseIdx_sublist ..).subset member), delivers.recorded⟩

theorem Delivers.set {events : List Event} (delivers : Delivers config senders events s) {n : ℕ} {request : Request}
    (going : Going config senders events s.store request) {t : System} (inbox : t.inbox = s.inbox) (store : t.store = s.store)
    (requests : t.requests = s.requests.set n request) : Delivers config senders events t := by
  refine ⟨fun other member => ?_, by rw [inbox, store]; exact delivers.recorded⟩
  rw [requests] at member
  rw [store]
  rcases List.mem_or_eq_of_mem_set member with before | rfl
  · exact delivers.going other before
  · exact going

theorem Going.reach {events : List Event} {store : Store} {request : Request} {sessionId : JsString}
    {remaining : List JsString} (going : Going config senders events store request)
    (next : request.remaining = sessionId :: remaining) (reached : Reached config senders store (Request.key request) sessionId) :
    Going config senders events store (System.Request.reach request sessionId remaining) where
  sessions := by simpa [System.Request.reach, Request.key, next] using going.sessions
  reached other member := by
    rcases List.mem_append.mp member with before | here
    · exact going.reached other before
    · exact List.mem_singleton.mp here ▸ reached
  readying stage := by
    simp only [System.Request.reach] at stage
    split at stage <;> cases stage
  ended stage := by
    by_contra left
    simp only [System.Request.reach, if_neg (show remaining ≠ [] from left)] at stage
    exact absurd stage (by decide)

theorem Delivers.create {events : List Event} (delivers : Delivers config senders events s) (made : Made config senders s)
    (event : Event) {n : ℕ} {request : Request} (here : s.requests[n]? = some request) {sessionId : JsString}
    {remaining : List JsString} (next : request.remaining = sessionId :: remaining) :
    Delivers config senders (events ++ [event]) (s.create config n request sessionId remaining) := by
  have called := delivers.later event fun _ stored => step_receipts config none s.store s.clock
    (.createActorInput sessionId (System.newInput config request sessionId)) stored
  rw [System.create]
  split
  · next store view done =>
    rw [done] at called
    obtain ⟨row, registered, kind⟩ := made.known request (List.mem_of_getElem? here)
    have reached : Reached config senders store (Request.key request) sessionId :=
      ⟨row, registered, by rw [kind]; exact create_receipt done⟩
    have going := called.going request (List.mem_of_getElem? here)
    dsimp only
    split
    · exact called.set (going.reach next reached) rfl rfl rfl
    · have waits : Going config senders (events ++ [event]) store { request with stage := .readying } := by
        refine ⟨going.sessions, going.reached, fun _ other member => ?_, fun stage => absurd stage (by dsimp only; decide)⟩
        rw [show ({ request with stage := .readying } : Request).remaining = _ from next] at member
        exact Option.mem_some.mp member ▸ reached
      exact called.set waits rfl rfl rfl
  · next store output _ done =>
    rw [done] at called
    exact called.drop n

theorem admission_new {key : JsString} {body : Body} {request : Request} (admitted : s.admission config key body = .ok request) :
    request.delivered = [] ∧ request.stage ≠ .readying
      ∧ (request.stage = .logging ∨ request.stage = .recording → request.remaining = []) := by
  rw [System.admission] at admitted
  split at admitted
  · cases admitted
  · obtain ⟨message, _, admitted⟩ := Checked.bind_eq_ok.mp admitted
    split at admitted
    · cases admitted
    · split at admitted
      · cases admitted
      · obtain ⟨_, _, admitted⟩ := Checked.bind_eq_ok.mp admitted
        obtain ⟨sessions, _, admitted⟩ := Checked.bind_eq_ok.mp admitted
        cases admitted
        refine ⟨rfl, ?_, fun stage => ?_⟩
        · dsimp only
          split <;> nofun
        · by_contra left
          simp only [if_neg (show sessions ≠ [] from left)] at stage
          exact absurd stage (by decide)

theorem step_delivers {before : List Event} (made : Made config senders (run config senders before))
    (delivers : Delivers config senders before (run config senders before)) (event : Event) :
    Delivers config senders (before ++ [event]) (step config (run config senders before) event) := by
  have kept := delivers.later event (fun _ => id)
  generalize ran : run config senders before = s at made delivers kept ⊢
  cases event with
  | pass elapsed => exact ⟨kept.going, kept.recorded⟩
  | store now observer op => exact delivers.later _ fun id => step_receipts config observer s.store now op
  | routes routes => exact ⟨kept.going, kept.recorded⟩
  | post key body =>
    rw [step]
    split
    · next request admitted =>
      refine ⟨fun other member => ?_, kept.recorded⟩
      rcases List.mem_append.mp member with earlier | added
      · exact kept.going other earlier
      · obtain rfl := List.mem_singleton.mp added
        obtain ⟨empty, quiet, ended⟩ := admission_new admitted
        refine ⟨⟨before, key, body, other, List.prefix_rfl, ran ▸ admitted, rfl, empty, by rw [empty, List.nil_append]⟩, ?_,
          fun readying => absurd readying quiet, ended⟩
        rw [empty]
        nofun
    · exact kept
  | create n =>
    rw [step]
    split
    · next request here =>
      split
      · next next => exact delivers.create made _ here next
      · exact kept
    · exact kept
  | ready n =>
    rw [step]
    split
    · next request here =>
      split
      · next stage next =>
        have going := kept.going request (List.mem_of_getElem? here)
        exact kept.set (going.reach next (going.readying stage _ (by rw [next]; rfl))) rfl rfl rfl
      · exact kept
    · exact kept
  | logged n =>
    rw [step]
    split
    · next request here =>
      split
      · next logging =>
        have going := kept.going request (List.mem_of_getElem? here)
        have logged : Going config senders (before ++ [.logged n]) s.store { request with stage := .recording } :=
          ⟨going.sessions, going.reached, fun stage => absurd stage (by dsimp only; decide), fun _ => going.ended (.inl logging)⟩
        exact kept.set logged rfl rfl rfl
      · exact kept
    · exact kept
  | record n recording =>
    rw [step]
    split
    · next request here =>
      split
      · next ended =>
        have going := kept.going request (List.mem_of_getElem? here)
        have whole := going.sessions
        rw [going.ended (.inr ended), List.append_nil] at whole
        have inserted : Delivers config senders (before ++ [.record n recording]) { s with
            inbox := insertMessage s.inbox request.sender.name request.messageId request.route request.delivered s.clock } := by
          refine ⟨kept.going, fun key row found => ?_⟩
          rw [insertMessage, Table.get?_insertOrIgnore] at found
          split at found
          · next same =>
            cases earlier : s.inbox.messages.get? key with
            | some other =>
              rw [← same, earlier, Option.getD_some] at found
              exact Option.some.inj found ▸ kept.recorded key other earlier
            | none =>
              rw [← same, earlier, Option.getD_none] at found
              cases found
              cases same
              exact ⟨whole, going.reached⟩
          · exact kept.recorded key row found
        cases recording with
        | saved =>
          refine Delivers.drop (s := { s with inbox := purgeMessages _ s.clock, accepted := _ :: s.accepted })
            ⟨inserted.going, fun key row found => ?_⟩ n
          rw [purgeMessages, Table.get?_delete] at found
          exact inserted.recorded key row (Option.filter_eq_some_iff.mp found).1
        | cut => exact inserted.drop n
        | lost => exact kept.drop n
      · exact kept
    · exact kept
  | fail n => exact kept.drop n

/-- Whatever fails and however requests overlap, a message that has a record, and with it every answer that names sessions,
has reached exactly the sessions that its route meant when it was admitted, each with its own input. -/
theorem run_truthful (config : Config) (senders : Table JsString SenderRow) (events : List Event) :
    Delivers config senders events (run config senders events) := by
  induction events using List.reverseRecOn with
  | nil => exact ⟨nofun, by rintro key row ⟨⟩⟩
  | append_singleton before event ih =>
    rw [run_concat]
    exact step_delivers (run_made before) ih event

end Deliveries

section Samples

/-- The hash of the key below. -/
def sampleConfig : Config where
  env := ⟨fun text =>
    if text = js "k-0123456789abcdef" then js "6b1ed3249bfeaf163cc86042729f1023caea2e1d2f3594407894563fdf054b42" else [],
    fun _ => []⟩
  pendingMessageLimit := 100

/-- A sender of one message an hour. -/
def sampleSenders : Table JsString SenderRow :=
  Table.empty.insertOrIgnore (js "noisy") ⟨js "6b1ed3249bfeaf163cc86042729f1023caea2e1d2f3594407894563fdf054b42", .news, 1⟩

def samplePost (id : String) : Event :=
  .post (js "k-0123456789abcdef")
    (.json (.record [("route", .text "everyone"), ("id", .text id), ("text", .text "hello")]))

def sampleRoutes : Event := .routes (Table.empty.insertOrIgnore (js "everyone") .workingRoots)

/-- Two messages that are checked before either is recorded. -/
def overlap : List Event :=
  [.pass 1000, sampleRoutes, samplePost "a", samplePost "b", .logged 0, .record 0 .saved, .logged 0, .record 0 .saved]

theorem overlap_not_paced : ¬Paced sampleSenders (run sampleConfig sampleSenders overlap) := by
  intro paced
  have rate := paced.rate (js "noisy")
    ⟨js "6b1ed3249bfeaf163cc86042729f1023caea2e1d2f3594407894563fdf054b42", .news, 1⟩ 0 (by decide)
  have both : (run sampleConfig sampleSenders overlap).acceptedIn (js "noisy") 0 = 2 := by decide
  rw [both] at rate
  exact absurd rate (by decide)

/-- Two messages an hour apart. -/
def turns : List Event :=
  [.pass 1000, sampleRoutes, samplePost "a", .logged 0, .record 0 .saved, samplePost "b", .pass 3600000, samplePost "b",
    .logged 0, .record 0 .saved]

theorem run_paced_sample : Paced sampleSenders (run sampleConfig sampleSenders turns) := by
  refine run_paced ?_ turns List.prefix_rfl
  have calm : ∀ n < turns.length,
      (turns[n]?).all (spaced sampleConfig (run sampleConfig sampleSenders (turns.take n))) = true := by decide
  rintro before event ⟨rest, whole⟩
  have here := calm before.length (by rw [← whole]; simp)
  rw [← whole] at here
  simpa using here

end Samples

end PersistentHarness.Inbox
