import PersistentHarness.Soundness.Notification.Moves

/-! # What a call does to the episode of a root

Each root has one row of attention. A call leaves it alone, notes an input or a continuation in it, or is an
observation of the family that opens, holds, quiets or closes its episode. The relation lists every way in
which a row changes, with what the call saw.
-/

namespace PersistentHarness.Notifications

/-- What a call notes for a root. -/
inductive Note where
  | input
  | continuation (owner : Owner)
deriving DecidableEq

/-- The family that a call observes for a root, and how. -/
def observationOf (event : Event) (rootId : JsString) : Option (Family × Observation) :=
  match event.op with
  | .observe sessionId options =>
    ((family event.world.sessions sessionId).filter fun family => family.rootId = rootId).map (·, options)
  | _ => none

/-- The user input or the newly admitted continuation that a call notes for a root. -/
def noteOf (env : Env) (s : Store) (event : Event) (rootId : JsString) : Option Note :=
  match event.op with
  | .noteUserInput sessionId =>
    ((family event.world.sessions sessionId).filter fun family => family.rootId = rootId).map fun _ => .input
  | .noteContinuation sessionId key createdAt =>
    ((bindOrigin env event.world s sessionId key createdAt).2.filter fun origin =>
      !origin.admitted && origin.rootId = rootId).map fun origin => .continuation origin.owner
  | _ => none

/-- The family has nothing to do: no active or starting member, no live actor, no background work. -/
structure Quiet (family : Family) (options : Observation) : Prop where
  idle : family.active = false
  settled : family.starting = false
  unattended : options.live family = false
  finished : options.backgroundCount = 0

/-- The row of a root after a note. -/
def afterNote (note : Note) (episode : Option Episode) : Episode :=
  match note with
  | .input => (episode.map fun episode =>
      { episode with
        pendingUser := !episode.isOpen
        owner := if episode.isOpen then .user else episode.owner }).getD { Episode.initial with pendingUser := true }
  | .continuation owner => (episode.map fun episode =>
      { episode with
        pendingOwner :=
          if episode.isOpen then episode.pendingOwner
          else if episode.pendingOwner = some .user ∨ owner = .user then some .user
          else some owner
        owner := if episode.isOpen ∧ owner = .user then .user else episode.owner }).getD
      { Episode.initial with pendingOwner := some owner }

/-- The row of a root in an open episode. -/
def IsOpen (episode : Option Episode) : Prop := episode.any Episode.isOpen = true

inductive Turn (env : Env) (s : Store) (event : Event) (rootId : JsString) : Option Episode → Option Episode → Prop
  | unseen {episode : Option Episode} (unobserved : observationOf event rootId = none)
      (unnoted : noteOf env s event rootId = none) : Turn env s event rootId episode episode
  | noted {episode : Option Episode} {note : Note} (unobserved : observationOf event rootId = none)
      (notes : noteOf env s event rootId = some note) : Turn env s event rootId episode (some (afterNote note episode))
  | opened {episode : Option Episode} {family : Family} {options : Observation}
      (unnoted : noteOf env s event rootId = none) (sees : observationOf event rootId = some (family, options))
      (busy : family.active || options.live family) (closed : ¬IsOpen episode) :
      Turn env s event rootId episode
        (some ⟨some s.draws, nextOwner options episode, some event.now, none, none, false, none⟩)
  | held {episode : Episode} {family : Family} {options : Observation} (unnoted : noteOf env s event rootId = none)
      (sees : observationOf event rootId = some (family, options)) (opened : episode.isOpen = true) :
      Turn env s event rootId (some episode) (some { episode with quietSince := none })
  | rested {episode : Option Episode} {family : Family} {options : Observation} (unnoted : noteOf env s event rootId = none)
      (sees : observationOf event rootId = some (family, options)) (closed : ¬IsOpen episode) :
      Turn env s event rootId episode episode
  | quieted {episode : Episode} {family : Family} {options : Observation} (unnoted : noteOf env s event rootId = none)
      (sees : observationOf event rootId = some (family, options)) (quiet : Quiet family options) (opened : episode.isOpen = true) :
      Turn env s event rootId (some episode) (some { episode with quietSince := some event.now })
  | waiting {episode : Episode} {family : Family} {options : Observation} (unnoted : noteOf env s event rootId = none)
      (sees : observationOf event rootId = some (family, options)) (quiet : Quiet family options) (opened : episode.isOpen = true) :
      Turn env s event rootId (some episode) (some episode)
  | closed {episode : Episode} {family : Family} {options : Observation} (unnoted : noteOf env s event rootId = none)
      (sees : observationOf event rootId = some (family, options)) (opened : episode.isOpen = true) :
      Turn env s event rootId (some episode) (some { episode with closedAt := some event.now })
  | cancelled {episode : Episode} (unobserved : observationOf event rootId = none) (unnoted : noteOf env s event rootId = none) :
      Turn env s event rootId (some episode)
        (some (if episode.closedAt = none then { episode with closedAt := some event.now } else episode))

section Families

variable {s : Store} {now : ℤ}

theorem families_checkpoint (s : Store) (rootId : JsString) (owner : Owner) (now : ℤ) :
    (checkpoint s rootId owner now).families = s.families := by
  unfold checkpoint
  split <;> rfl

theorem families_create (env : Env) (world : World) (s : Store) (params : NewNotification) (now : ℤ) :
    (create env world s params now).1.families = s.families := by
  unfold create
  split <;> rfl

theorem families_transition {id state : JsString} {closedBy : Option JsString} {result : Store × Option Notification}
    (done : transition s id state now closedBy = .ok result) : result.1.families = s.families := by
  unfold transition at done
  split at done <;> cases done
  rfl

theorem families_checked {α : Type} {result : Except JsString α} {f : α → Store × Output}
    (done : ∀ a, result = .ok a → (f a).1.families = s.families) : (checked s (result.map f)).1.families = s.families := by
  cases result with
  | error thrown => rfl
  | ok a => exact done a rfl

theorem families_bindOrigin (env : Env) (world : World) (s : Store) (sessionId key : JsString) (createdAt : Value) :
    (bindOrigin env world s sessionId key createdAt).1.families = s.families := by
  unfold bindOrigin
  split
  · rfl
  · split <;> rfl

theorem families_receipt {id endpointId status : JsString} {leaseId : ℕ} {result : Store × Option DeliveryState}
    (done : receipt s id endpointId leaseId status now = .ok result) : result.1.families = s.families := by
  unfold receipt at done
  split at done
  · cases done
  · split at done <;> cases done <;> rfl

theorem families_claim (s : Store) (endpoints : List JsString) (now : ℤ) :
    (claim s endpoints now).1.families = s.families := by
  have leases : ∀ progress endpoint, (claimEndpoint now progress endpoint).1.families = progress.1.families := by
    intro progress endpoint
    unfold claimEndpoint
    split
    · rfl
    · exact foldl_keeps (fun progress => progress.1.families) (lease now) (fun _ _ => rfl) _ progress
  have offers := foldl_keeps Store.families (offer now) (fun _ _ => rfl) endpoints (expire s now)
  unfold claim
  rw [foldl_keeps (fun progress => progress.1.families) (claimEndpoint now) leases endpoints]
  exact offers

theorem families_claimClosures (s : Store) (endpoints : List JsString) (now : ℤ) :
    (claimClosures s endpoints now).1.families = s.families := by
  refine foldl_keeps (fun progress => progress.1.families) (claimClosuresOf now) (fun progress endpoint => ?_) endpoints _
  exact foldl_keeps (fun progress => progress.1.families) (claimClosure now) (fun _ _ => rfl) _ progress

end Families

section Turns

variable {env : Env} {s : Store} {event : Event} {rootId : JsString}

theorem IsOpen.exists {episode : Option Episode} (opened : IsOpen episode) : ∃ row, episode = some row ∧ row.isOpen = true :=
  Option.any_eq_true .. |>.mp opened

theorem isOpen_afterNote (note : Note) (episode : Option Episode) :
    IsOpen (some (afterNote note episode)) ↔ IsOpen episode := by
  cases episode <;> cases note <;> exact Iff.rfl

/-- The filter by which `observe` reads the open episode. -/
theorem filter_isOpen_eq_none {episode : Option Episode} : episode.filter Episode.isOpen = none ↔ ¬IsOpen episode := by
  unfold IsOpen
  cases episode with
  | none => simp
  | some row => simp [Option.filter_some]

theorem Turn.of_input {sessionId : JsString} (is : event.op = .noteUserInput sessionId) :
    Turn env s event rootId (s.families.get? rootId)
      ((noteUserInput event.world s sessionId event.now).families.get? rootId) := by
  have unobserved : observationOf event rootId = none := by rw [observationOf, is]
  have notes : noteOf env s event rootId =
      ((family event.world.sessions sessionId).filter fun family => family.rootId = rootId).map fun _ => .input := by
    rw [noteOf, is]
  unfold noteUserInput
  cases seen : family event.world.sessions sessionId with
  | none => exact .unseen unobserved (by rw [notes, seen]; rfl)
  | some family =>
    dsimp only
    rw [families_checkpoint, Table.get?_upsert]
    rw [seen, Option.filter_some] at notes
    split
    · next here =>
      subst here
      exact .noted unobserved (by rw [notes, if_pos (by simp)]; rfl)
    · next other => exact .unseen unobserved (by rw [notes, if_neg (by simpa using Ne.symm other)]; rfl)

theorem get?_admit (s : Store) (key : JsString) (origin : Origin) (rootId : JsString) :
    (admitOrigin s key origin).families.get? rootId =
      if rootId = origin.rootId then some (afterNote (.continuation origin.owner) (s.families.get? origin.rootId))
      else s.families.get? rootId := Table.get?_upsert ..

theorem Turn.of_continuation {sessionId key : JsString} {createdAt : Value}
    (is : event.op = .noteContinuation sessionId key createdAt) :
    Turn env s event rootId (s.families.get? rootId)
      ((noteContinuation env event.world s sessionId key createdAt event.now).families.get? rootId) := by
  have unobserved : observationOf event rootId = none := by rw [observationOf, is]
  have notes : noteOf env s event rootId = ((bindOrigin env event.world s sessionId key createdAt).2.filter fun origin =>
      !origin.admitted && origin.rootId = rootId).map fun origin => .continuation origin.owner := by rw [noteOf, is]
  have bound := families_bindOrigin env event.world s sessionId key createdAt
  unfold noteContinuation
  split
  · next same =>
    rw [same] at notes bound
    rw [bound]
    exact .unseen unobserved notes
  · next before origin same =>
    rw [same] at notes bound
    dsimp only at bound
    split
    · next admitted =>
      rw [bound]
      exact .unseen unobserved (by rw [notes, Option.filter_some, if_neg (by simp [admitted])]; rfl)
    · next fresh =>
      have admitted := get?_admit before key origin rootId
      rw [bound] at admitted
      have turn : Turn env s event rootId (s.families.get? rootId) ((admitOrigin before key origin).families.get? rootId) := by
        rw [admitted]
        split
        · next here =>
          subst here
          exact .noted unobserved (by rw [notes, Option.filter_some, if_pos (by simp [fresh])]; rfl)
        · next other =>
          exact .unseen unobserved (by rw [notes, Option.filter_some, if_neg (by simpa [fresh] using Ne.symm other)]; rfl)
      split
      · rwa [families_checkpoint]
      · exact turn

theorem Turn.of_frame {t : Store} (unobserved : observationOf event rootId = none) (unnoted : noteOf env s event rootId = none)
    (families : t.families = s.families) : Turn env s event rootId (s.families.get? rootId) (t.families.get? rootId) := by
  rw [families]
  exact .unseen unobserved unnoted

theorem Turn.of_cancel (id : JsString) (unobserved : observationOf event rootId = none)
    (unnoted : noteOf env s event rootId = none) :
    Turn env s event rootId (s.families.get? rootId) ((cancelSession s id event.now).families.get? rootId) := by
  rw [cancelSession, Table.get?_update]
  split
  · cases found : s.families.get? rootId with
    | none => exact .unseen unobserved unnoted
    | some episode => exact .cancelled unobserved unnoted
  · exact .unseen unobserved unnoted

theorem get?_openEpisode (s : Store) (root : JsString) (options : Observation) (now : ℤ) (rootId : JsString) :
    (openEpisode s root options now).families.get? rootId =
      if rootId = root then some ⟨some s.draws, nextOwner options (s.families.get? root), some now, none, none, false, none⟩
      else s.families.get? rootId := by
  rw [openEpisode, families_checkpoint, Table.get?_upsert]
  split
  · cases s.families.get? root <;> rfl
  · rfl

theorem get?_closeEpisode (env : Env) (world : World) (family : Family) (episode : Episode) (episodeId : ℕ) (now : ℤ)
    (rootId : JsString) :
    (closeEpisode env world s family episode episodeId now).1.families.get? rootId =
      if rootId = family.rootId then (s.families.get? rootId).map fun row => { row with closedAt := some now }
      else s.families.get? rootId := by
  rw [← Table.get?_update]
  unfold closeEpisode
  dsimp only
  split
  · rfl
  · rw [families_create]

theorem Turn.of_observe {sessionId : JsString} {options : Observation} (is : event.op = .observe sessionId options) :
    Turn env s event rootId (s.families.get? rootId)
      ((observe env event.world s sessionId options event.now (family event.world.sessions sessionId)).1.families.get?
        rootId) := by
  have unnoted : noteOf env s event rootId = none := by rw [noteOf, is]
  have observes : observationOf event rootId = ((family event.world.sessions sessionId).filter fun family =>
      family.rootId = rootId).map (·, options) := by rw [observationOf, is]
  unfold observe
  cases seen : family event.world.sessions sessionId with
  | none => exact .of_cancel sessionId (by rw [observes, seen]; rfl) unnoted
  | some family =>
    rw [seen, Option.filter_some] at observes
    dsimp only
    by_cases here : rootId = family.rootId
    · subst here
      have sees : observationOf event family.rootId = some (family, options) := by rw [observes, if_pos (by simp)]; rfl
      split
      · split
        · next closed =>
          rw [get?_openEpisode, if_pos rfl]
          exact .opened unnoted sees ‹_› (filter_isOpen_eq_none.mp closed)
        · next episode opened =>
          obtain ⟨found, opened⟩ := Option.filter_eq_some_iff.mp opened
          rw [setQuiet, Table.get?_update_of found, if_pos rfl, found]
          exact .held unnoted sees opened
      · next busy =>
        obtain ⟨idle, unattended⟩ := Bool.or_eq_false_iff.mp (Bool.eq_false_iff.mpr busy)
        split
        · next closed => exact .rested unnoted sees (filter_isOpen_eq_none.mp closed)
        · next episode opened =>
          obtain ⟨found, opened⟩ := Option.filter_eq_some_iff.mp opened
          split
          · rw [setQuiet, Table.get?_update_of found, if_pos rfl, found]
            exact .held unnoted sees opened
          · next works =>
            obtain ⟨settled, finished⟩ := Bool.or_eq_false_iff.mp (Bool.eq_false_iff.mpr works)
            have quiet : Quiet family options := ⟨idle, settled, unattended, by simpa using finished⟩
            split
            · split
              · rw [found]
                exact .waiting unnoted sees quiet opened
              · rw [get?_closeEpisode, if_pos rfl, found, Option.map_some]
                exact .closed unnoted sees opened
            · rw [setQuiet, Table.get?_update_of found, if_pos rfl, found]
              exact .quieted unnoted sees quiet opened
    · have unobserved : observationOf event rootId = none := by
        rw [observes, if_neg (by simpa using Ne.symm here)]
        rfl
      have elsewhere : ∀ quietSince, Turn env s event rootId (s.families.get? rootId)
          ((setQuiet s family.rootId quietSince).families.get? rootId) := fun quietSince => by
        rw [setQuiet, Table.get?_update, if_neg here]
        exact .unseen unobserved unnoted
      split
      · split
        · rw [get?_openEpisode, if_neg here]
          exact .unseen unobserved unnoted
        · exact elsewhere none
      · split
        · exact .unseen unobserved unnoted
        · split
          · exact elsewhere none
          · split
            · split
              · exact .unseen unobserved unnoted
              · rw [get?_closeEpisode, if_neg here]
                exact .unseen unobserved unnoted
            · exact elsewhere _

/-- Every call turns the row of a root in one of the listed ways. -/
theorem step_turn (env : Env) (s : Store) (event : Event) (rootId : JsString) :
    Turn env s event rootId (s.families.get? rootId)
      ((step env event.world s event.now event.op).1.families.get? rootId) := by
  have frame : ∀ {t : Store}, observationOf event rootId = none → noteOf env s event rootId = none →
      t.families = s.families → Turn env s event rootId (s.families.get? rootId) (t.families.get? rootId) := Turn.of_frame
  cases is : event.op with
  | noteUserInput sessionId => exact .of_input is
  | noteContinuation sessionId key createdAt => exact .of_continuation is
  | observe sessionId options => exact .of_observe is
  | cancelSession id => exact .of_cancel id (by rw [observationOf, is]) (by rw [noteOf, is])
  | bindOrigin => exact frame (by rw [observationOf, is]) (by rw [noteOf, is]) (families_bindOrigin ..)
  | create => exact frame (by rw [observationOf, is]) (by rw [noteOf, is]) (families_create ..)
  | request => exact frame (by rw [observationOf, is]) (by rw [noteOf, is]) (families_create ..)
  | get | expire | read | cancelDialogs => exact frame (by rw [observationOf, is]) (by rw [noteOf, is]) rfl
  | claim => exact frame (by rw [observationOf, is]) (by rw [noteOf, is]) (families_claim ..)
  | claimClosures => exact frame (by rw [observationOf, is]) (by rw [noteOf, is]) (families_claimClosures ..)
  | resolveKey sessionId key =>
    refine frame (by rw [observationOf, is]) (by rw [noteOf, is]) ?_
    exact families_checked fun _ done => families_transition done
  | transition id state closedBy =>
    refine frame (by rw [observationOf, is]) (by rw [noteOf, is]) ?_
    exact families_checked fun _ done => families_transition done
  | receipt id endpointId leaseId status =>
    refine frame (by rw [observationOf, is]) (by rw [noteOf, is]) ?_
    exact families_checked fun _ done => families_receipt done

end Turns

end PersistentHarness.Notifications
