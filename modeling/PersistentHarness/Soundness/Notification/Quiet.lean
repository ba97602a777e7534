import PersistentHarness.Soundness.Notification.Ownership

/-! # Idle notices are raised once, after a quiet wait

An idle notice is raised by an observation only, when every observation of the family since a long enough time
found nothing to do and the episode is the user's. An episode has one idle notice at most, and a root one that
is pending.
-/

namespace PersistentHarness.Notifications

/-- The call creates no idle notice by itself. -/
def Unforged (event : Event) : Prop := ∀ params, event.op = .create params → params.kind ≠ .idle

/-- The idle notice of the episode that a call closes. -/
inductive IdleNotice (env : Env) (s : Store) (event : Event) (id : JsString) (row : Notification) : Prop
  | mk {family : Family} {options : Observation} {episode : Episode} {episodeId : ℕ} {since : ℤ}
      (sees : observationOf event row.rootId = some (family, options)) (quiet : Quiet family options)
      (found : s.families.get? row.rootId = some episode) (opened : episode.isOpen = true)
      (numbered : episode.episodeId = some episodeId) (rests : episode.quietSince = some since)
      (elapsed : since ≤ event.now - env.idleMs) (mine : episode.owner = .user)
      (unexplained : ∀ other notice, s.notifications.get? other = some notice → ¬(notice.rootId = row.rootId
        ∧ notice.kind = .attention ∧ notice.episodeId = some episodeId ∧ notice.state = .pending ∧ event.now < notice.expiresAt))
      (closes : ¬IsOpen ((step env event.world s event.now event.op).1.families.get? row.rootId))
      (names : id = env.notificationId (idleKey env episodeId)) (titles : row.episodeId = some episodeId)

/-- Every observation of a root, from one at an instant on, found nothing to do. -/
def RestsSince (rootId : JsString) (events : List Event) (since : ℤ) : Prop :=
  ∃ early start later, events = early ++ start :: later ∧ start.now = since ∧ observationOf start rootId ≠ none
    ∧ ∀ event ∈ start :: later, ∀ family options, observationOf event rootId = some (family, options) → Quiet family options

section Steps

variable {env : Env} {s : Store} {event : Event} {id : JsString} {row : Notification}

theorem closeEpisode_rows {family : Family} {options : Observation} {episode : Episode} {episodeId : ℕ} {since : ℤ}
    (sees : observationOf event family.rootId = some (family, options)) (quiet : Quiet family options)
    (opened : s.families.get? family.rootId = some episode ∧ episode.isOpen = true)
    (numbered : episode.episodeId = some episodeId) (rests : episode.quietSince = some since)
    (elapsed : since ≤ event.now - env.idleMs)
    (steps : (step env event.world s event.now event.op).1 =
      (closeEpisode env event.world s family episode episodeId event.now).1)
    (found : (closeEpisode env event.world s family episode episodeId event.now).1.notifications.get? id = some row) :
    (∃ before, s.notifications.get? id = some before ∧ Kept before row)
      ∨ s.notifications.get? id = none ∧ IdleNotice env s event id row := by
  have closes : ¬IsOpen ((step env event.world s event.now event.op).1.families.get? family.rootId) := by
    rw [steps, get?_closeEpisode, if_pos rfl, opened.1]
    exact Bool.eq_false_iff.mp (Bool.and_false _)
  unfold closeEpisode at found
  dsimp only at found
  split at found
  · exact .inl ⟨row, found, .refl row⟩
  · next holds =>
    push Not at holds
    rcases rows_create _ _ _ _ _ id row found with kept | ⟨fresh, names, -, root, titles⟩
    · exact .inl kept
    · dsimp only at root
      rw [← root] at sees closes opened
      refine .inr ⟨fresh, .mk sees quiet opened.1 opened.2 numbered rests elapsed holds.1 ?_ closes names (titles episodeId rfl)⟩
      intro other notice stored explains
      apply holds.2
      rw [root] at explains
      exact Table.any_eq_true.mpr ⟨other, notice, stored, decide_eq_true explains⟩

theorem observe_rows {sessionId : JsString} {options : Observation} (is : event.op = .observe sessionId options)
    (found : (step env event.world s event.now event.op).1.notifications.get? id = some row) :
    (∃ before, s.notifications.get? id = some before ∧ Kept before row)
      ∨ s.notifications.get? id = none ∧ IdleNotice env s event id row := by
  have steps : (step env event.world s event.now event.op).1 =
      (observe env event.world s sessionId options event.now (family event.world.sessions sessionId)).1 := by rw [is]; rfl
  have observes : observationOf event = fun rootId => ((family event.world.sessions sessionId).filter fun family =>
      family.rootId = rootId).map (·, options) := by
    funext rootId
    rw [observationOf, is]
  rw [steps] at found
  unfold observe at found steps
  cases seen : family event.world.sessions sessionId with
  | none =>
    rw [seen] at found
    exact .inl (rows_cancelSession s sessionId event.now id row found)
  | some family =>
    rw [seen] at found steps
    have sees : observationOf event family.rootId = some (family, options) := by
      rw [observes, seen]
      simp [Option.filter_some]
    dsimp only at found steps
    split at found
    · split at found
      · exact .inl (rows_openEpisode s family.rootId options event.now id row found)
      · exact .inl ⟨row, found, .refl row⟩
    · next busy =>
      rw [if_neg busy] at steps
      obtain ⟨idle, unattended⟩ := Bool.or_eq_false_iff.mp (Bool.eq_false_iff.mpr busy)
      split at found
      · exact .inl ⟨row, found, .refl row⟩
      · next episode opened =>
        rw [opened] at steps
        dsimp only at steps
        split at found
        · exact .inl ⟨row, found, .refl row⟩
        · next works =>
          rw [if_neg works] at steps
          obtain ⟨settled, finished⟩ := Bool.or_eq_false_iff.mp (Bool.eq_false_iff.mpr works)
          split at found
          · next since episodeId rests numbered =>
            rw [rests, numbered] at steps
            dsimp only at steps
            split at found
            · exact .inl ⟨row, found, .refl row⟩
            · next elapsed =>
              rw [if_neg elapsed] at steps
              exact closeEpisode_rows sees ⟨idle, settled, unattended, by simpa using finished⟩
                (Option.filter_eq_some_iff.mp opened) numbered rests (by omega) steps found
          · exact .inl ⟨row, found, .refl row⟩

/-- A stored notification was stored before, is not an idle notice, or is the idle notice of the episode that the
call closes. -/
theorem step_rows (unforged : Unforged event)
    (found : (step env event.world s event.now event.op).1.notifications.get? id = some row) :
    (∃ before, s.notifications.get? id = some before ∧ Kept before row)
      ∨ s.notifications.get? id = none ∧ (row.kind ≠ .idle ∨ IdleNotice env s event id row) := by
  have frame : ∀ {t : Store}, RowsKept s t → t.notifications.get? id = some row →
      (∃ before, s.notifications.get? id = some before ∧ Kept before row)
        ∨ s.notifications.get? id = none ∧ (row.kind ≠ .idle ∨ IdleNotice env s event id row) :=
    fun rows found => .inl (rows id row found)
  have creation : ∀ {params : NewNotification}, params.kind ≠ .idle →
      (create env event.world s params event.now).1.notifications.get? id = some row →
      (∃ before, s.notifications.get? id = some before ∧ Kept before row)
        ∨ s.notifications.get? id = none ∧ (row.kind ≠ .idle ∨ IdleNotice env s event id row) := by
    intro params kind found
    rcases rows_create _ _ _ _ _ id row found with kept | ⟨fresh, -, same, -, -⟩
    · exact .inl kept
    · exact .inr ⟨fresh, .inl (same ▸ kind)⟩
  have thrown : ∀ {α : Type} {result : Except JsString α} {f : α → Store × Output},
      (∀ a, result = .ok a → RowsKept s (f a).1) → RowsKept s (checked s (result.map f)).1 := by
    intro α result f done
    cases result with
    | error thrown => exact .of_eq rfl
    | ok a => exact done a rfl
  cases is : event.op with
  | observe sessionId options => exact (observe_rows is found).imp_right fun ⟨fresh, idle⟩ => ⟨fresh, .inr idle⟩
  | noteUserInput => rw [is] at found; exact frame (.of_eq (notifications_noteUserInput ..)) found
  | noteContinuation => rw [is] at found; exact frame (.of_eq (notifications_noteContinuation ..)) found
  | bindOrigin => rw [is] at found; exact frame (.of_eq (notifications_bindOrigin ..)) found
  | cancelSession => rw [is] at found; exact frame (rows_cancelSession _ _ _) found
  | cancelDialogs => rw [is] at found; exact frame (rows_cancelDialogs _ _) found
  | get => rw [is] at found; exact frame (rows_expire _ _) found
  | expire => rw [is] at found; exact frame (rows_expire _ _) found
  | read => rw [is] at found; exact frame (rows_read _ _ _) found
  | claim => rw [is] at found; exact frame (rows_claim _ _ _) found
  | claimClosures => rw [is] at found; exact frame (rows_claimClosures _ _ _) found
  | create params => rw [is] at found; exact creation (unforged params is) found
  | request => rw [is] at found; exact creation Kind.noConfusion found
  | resolveKey => rw [is] at found; exact frame (thrown fun _ done => rows_transition done) found
  | transition => rw [is] at found; exact frame (thrown fun _ done => rows_transition done) found
  | receipt => rw [is] at found; exact frame (thrown fun _ done => .of_eq (notifications_receipt done)) found

/-- A call that opens an episode leaves no pending idle notice of its root. -/
theorem step_superseded (closed : ¬IsOpen (s.families.get? row.rootId))
    (opens : IsOpen ((step env event.world s event.now event.op).1.families.get? row.rootId))
    (found : (step env event.world s event.now event.op).1.notifications.get? id = some row) (idle : row.kind = .idle) :
    row.state ≠ .pending := by
  have turn := step_turn env s event row.rootId
  generalize before : s.families.get? row.rootId = old at turn closed
  generalize after : (step env event.world s event.now event.op).1.families.get? row.rootId = new at turn opens
  cases turn with
  | unseen | rested => exact (closed opens).elim
  | @noted _ note => exact (closed ((isOpen_afterNote note old).mp opens)).elim
  | held _ _ earlier | quieted _ _ _ earlier | waiting _ _ _ earlier => exact (closed earlier).elim
  | closed => exact (Bool.eq_false_iff.mp (Bool.and_false _) opens).elim
  | @cancelled episode =>
    split at opens
    · exact (Bool.eq_false_iff.mp (Bool.and_false _) opens).elim
    · exact (closed opens).elim
  | @opened _ family options unnoted sees busy =>
    unfold observationOf at sees
    cases is : event.op with
    | observe sessionId wishes =>
      rw [is] at sees
      obtain ⟨seen, filtered, same⟩ := Option.map_eq_some_iff.mp sees
      cases same
      obtain ⟨member, root⟩ := Option.filter_eq_some_iff.mp filtered
      have here : family.rootId = row.rootId := of_decide_eq_true root
      have steps : (step env event.world s event.now event.op).1 = openEpisode s family.rootId options event.now := by
        have shut := filter_isOpen_eq_none.mpr closed
        rw [← before, ← here] at shut
        rw [is]
        simp only [step, returning, observe, member, busy, if_true, shut]
      rw [steps, openEpisode, notifications_checkpoint, Table.get?_modify] at found
      obtain ⟨prior, -, rewritten⟩ := Option.map_eq_some_iff.mp found
      split at rewritten
      · subst rewritten
        exact State.noConfusion
      · next stays =>
        subst rewritten
        exact fun pending => stays ⟨here.symm, idle, pending⟩
    | _ => rw [is] at sees; cases sees

end Steps

section Rests

variable {env : Env} {event : Event} {rootId : JsString} {events : List Event} {since : ℤ}

theorem RestsSince.concat (rests : RestsSince rootId events since)
    (quiet : ∀ family options, observationOf event rootId = some (family, options) → Quiet family options) :
    RestsSince rootId (events ++ [event]) since := by
  obtain ⟨early, start, later, rfl, starts, observes, quiets⟩ := rests
  refine ⟨early, start, later ++ [event], by simp, starts, observes, fun other member => ?_⟩
  rw [← List.cons_append] at member
  rcases List.mem_append.mp member with earlier | last
  · exact quiets other earlier
  · rw [List.mem_singleton.mp last]
    exact quiet

theorem RestsSince.start {family : Family} {options : Observation}
    (sees : observationOf event rootId = some (family, options)) (quiet : Quiet family options) :
    RestsSince rootId (events ++ [event]) event.now := by
  refine ⟨events, event, [], rfl, rfl, by rw [sees]; exact Option.some_ne_none _, fun other member family' options' sees' => ?_⟩
  rw [List.mem_singleton.mp member, sees] at sees'
  cases sees'
  exact quiet

theorem Turn.rests {s : Store} {before after : Option Episode} (turn : Turn env s event rootId before after)
    (rests : ∀ episode ∈ before, episode.isOpen = true → ∀ since ∈ episode.quietSince, RestsSince rootId events since) :
    ∀ episode ∈ after, episode.isOpen = true → ∀ since ∈ episode.quietSince, RestsSince rootId (events ++ [event]) since := by
  intro episode present opened since started
  have unseen : observationOf event rootId = none → ∀ family options,
      observationOf event rootId = some (family, options) → Quiet family options := by
    intro nothing family options sees
    rw [nothing] at sees
    cases sees
  cases turn with
  | unseen unobserved unnoted => exact (rests episode present opened since started).concat (unseen unobserved)
  | @noted _ note unobserved notes =>
    cases present
    obtain ⟨row, rfl, open_⟩ := ((isOpen_afterNote note before).mp opened).exists
    have same : (afterNote note (some row)).quietSince = row.quietSince := by cases note <;> rfl
    rw [same] at started
    exact (rests row rfl open_ since started).concat (unseen unobserved)
  | opened =>
    cases present
    cases started
  | held =>
    cases present
    cases started
  | rested unnoted sees closed => exact (closed (present ▸ opened)).elim
  | quieted unnoted sees quiet =>
    cases present
    cases started
    exact .start sees quiet
  | @waiting row family options unnoted sees quiet =>
    refine (rests episode present opened since started).concat fun family' options' sees' => ?_
    rw [sees] at sees'
    cases sees'
    exact quiet
  | closed =>
    cases present
    exact (Bool.eq_false_iff.mp (Bool.and_false _) opened).elim
  | @cancelled row =>
    cases present
    split at opened
    · exact (Bool.eq_false_iff.mp (Bool.and_false _) opened).elim
    · next kept =>
      have unclosed := (Bool.and_eq_true_iff.mp opened).2
      exact (kept (Option.isNone_iff_eq_none.mp unclosed)).elim

end Rests

section Runs

variable {env : Env} {s : Store} {event : Event}

/-- What holds of the idle notices of a store. -/
structure Idled (env : Env) (s : Store) : Prop where
  named : ∀ id row, s.notifications.get? id = some row → row.kind = .idle →
    ∃ episodeId, row.episodeId = some episodeId ∧ id = env.notificationId (idleKey env episodeId)
  silent : ∀ id row, s.notifications.get? id = some row → row.kind = .idle → row.state = .pending →
    ¬IsOpen (s.families.get? row.rootId)
  single : ∀ id row other notice, s.notifications.get? id = some row → s.notifications.get? other = some notice →
    row.kind = .idle → notice.kind = .idle → row.state = .pending → notice.state = .pending →
    row.rootId = notice.rootId → id = other

theorem Idled.empty (env : Env) : Idled env .empty := ⟨by rintro id row ⟨⟩, by rintro id row ⟨⟩, by rintro id row other notice ⟨⟩⟩

theorem Idled.step (idled : Idled env s) (unforged : Unforged event) :
    Idled env (step env event.world s event.now event.op).1 := by
  refine ⟨fun id row found idle => ?_, fun id row found idle pending opens => ?_,
    fun id row other notice found stored idle idle' pending pending' root => ?_⟩
  · rcases step_rows unforged found with ⟨before, was, kept⟩ | ⟨-, asked | notice⟩
    · rw [kept.episode]
      exact idled.named id before was (kept.kind ▸ idle)
    · exact (asked idle).elim
    · cases notice with
      | mk _ _ _ _ _ _ _ _ _ _ names titles => exact ⟨_, titles, names⟩
  · rcases step_rows unforged found with ⟨before, was, kept⟩ | ⟨-, asked | notice⟩
    · have closed := idled.silent id before was (kept.kind ▸ idle) (kept.pending pending)
      rw [← kept.root] at closed
      exact step_superseded closed opens found idle pending
    · exact asked idle
    · cases notice with
      | mk _ _ _ _ _ _ _ _ _ closes => exact closes opens
  · -- a notice that is new was raised for an open episode, which had no pending notice
    have apart : ∀ {id other row notice before}, row.rootId = notice.rootId → IdleNotice env s event id row →
        s.notifications.get? other = some before → Kept before notice → notice.kind = .idle → notice.state = .pending →
        id = other := by
      intro id other row notice before root raised was kept idle pending
      cases raised with
      | mk _ _ found opened =>
        have closed := idled.silent other before was (kept.kind ▸ idle) (kept.pending pending)
        rw [← kept.root, ← root, found] at closed
        exact (closed opened).elim
    rcases step_rows unforged found with ⟨before, was, kept⟩ | ⟨-, asked | raised⟩
    · rcases step_rows unforged stored with ⟨before', was', kept'⟩ | ⟨-, asked' | raised'⟩
      · exact idled.single id before other before' was was' (kept.kind ▸ idle) (kept'.kind ▸ idle') (kept.pending pending)
          (kept'.pending pending') (kept.root ▸ kept'.root ▸ root)
      · exact (asked' idle').elim
      · exact (apart root.symm raised' was kept idle pending).symm
    · exact (asked idle).elim
    · rcases step_rows unforged stored with ⟨before', was', kept'⟩ | ⟨-, asked' | raised'⟩
      · exact apart root raised was' kept' idle' pending'
      · exact (asked' idle').elim
      · cases raised with
        | mk _ _ here _ numbered _ _ _ _ _ names =>
          cases raised' with
          | mk _ _ there _ numbered' _ _ _ _ _ names' =>
            rw [root, there] at here
            cases here
            rw [numbered] at numbered'
            cases numbered'
            rw [names, names']

theorem run_idled (events : List Event) (unforged : ∀ event ∈ events, Unforged event) : Idled env (run env events) := by
  induction events using List.reverseRecOn with
  | nil => exact .empty env
  | append_singleton events event ih =>
    rw [run_concat]
    exact (ih fun event member => unforged event (List.mem_append_left _ member)).step
      (unforged event (List.mem_append_right _ (List.mem_singleton_self _)))

theorem run_rests (events : List Event) (rootId : JsString) :
    ∀ episode ∈ (run env events).families.get? rootId, episode.isOpen = true → ∀ since ∈ episode.quietSince,
      RestsSince rootId events since := by
  induction events using List.reverseRecOn with
  | nil => rintro episode ⟨⟩
  | append_singleton events event ih =>
    rw [run_concat]
    exact (step_turn env (run env events) event rootId).rests ih

/-- An idle notice is raised by an observation of its root that ends a quiet wait of the user's episode without a
pending request; an episode has one idle notice at most, and a root one pending idle notice at most. -/
theorem run_idleOnce (env : Env) (events : List Event) (unforged : ∀ event ∈ events, Unforged event) :
    (∀ event, Unforged event → ∀ id row, (run env events).notifications.get? id = none →
      (step env event.world (run env events) event.now event.op).1.notifications.get? id = some row → row.kind = .idle →
      observationOf event row.rootId ≠ none
        ∧ (∃ since, since ≤ event.now - env.idleMs ∧ RestsSince row.rootId (events ++ [event]) since)
        ∧ ∃ episode, (run env events).families.get? row.rootId = some episode ∧ episode.isOpen = true
          ∧ row.episodeId = episode.episodeId ∧ episode.owner = .user
          ∧ ∀ other notice, (run env events).notifications.get? other = some notice → ¬(notice.rootId = row.rootId
            ∧ notice.kind = .attention ∧ notice.episodeId = episode.episodeId ∧ notice.state = .pending
            ∧ event.now < notice.expiresAt))
      ∧ (∀ id row other notice, (run env events).notifications.get? id = some row →
        (run env events).notifications.get? other = some notice → row.kind = .idle → notice.kind = .idle →
        row.episodeId = notice.episodeId → id = other)
      ∧ ∀ id row other notice, (run env events).notifications.get? id = some row →
        (run env events).notifications.get? other = some notice → row.kind = .idle → notice.kind = .idle →
        row.state = .pending → notice.state = .pending → row.rootId = notice.rootId → id = other := by
  have idled : Idled env (run env events) := run_idled events unforged
  refine ⟨fun event honest id row fresh found idle => ?_, fun id row other notice found stored idle idle' same => ?_,
    idled.single⟩
  · rcases step_rows honest found with ⟨before, was, -⟩ | ⟨-, asked | notice⟩
    · rw [fresh] at was
      cases was
    · exact (asked idle).elim
    · cases notice with
      | @mk family options episode episodeId since sees quiet here opened numbered rests elapsed mine unexplained _ names titles =>
        refine ⟨by rw [sees]; exact Option.some_ne_none _, ⟨since, elapsed, ?_⟩, episode, here, opened, ?_, mine, ?_⟩
        · refine (run_rests events row.rootId episode here opened since rests).concat fun family' options' sees' => ?_
          rw [sees] at sees'
          cases sees'
          exact quiet
        · rw [titles, numbered]
        · rw [numbered]
          exact unexplained
  · obtain ⟨episodeId, titles, names⟩ := idled.named id row found idle
    obtain ⟨episodeId', titles', names'⟩ := idled.named other notice stored idle'
    rw [titles, titles'] at same
    cases same
    rw [names, names']

def sampleWorld (streaming : Bool) : World where
  sessions := Table.empty.insertOrIgnore (js "root")
    { shortId := js "root", sessionFile := none, cwd := js "/", repositoryRoot := none, displayName := js "Home", kind := .root
      familyId := js "roots", parentSessionId := none, depth := 0, activity := if streaming then .working else .idle, streaming
      lifecycle := .resident, actorToken := js "token", actorGeneration := 1, actorPid := none, actorIdentity := none
      launch := none, scratch := none, quietSince := none, lastError := none, createdAt := 0, updatedAt := 0
      lastActivityAt := none, startedAt := none, stoppedAt := none, deletedAt := none }
  notifiesRoot _ := true

def sampleEnv : Env := ⟨id, fun draw => [UInt16.ofNat draw], fun _ => none, 3000⟩

def sampleObserve (now : ℤ) (streaming : Bool) : Event :=
  ⟨now, sampleWorld streaming, .observe (js "root") ⟨none, 0, []⟩⟩

/-- The user writes, the root streams, and comes to rest. -/
def sampleWait : List Event :=
  [⟨0, sampleWorld true, .noteUserInput (js "root")⟩, sampleObserve 0 true, sampleObserve 1000 false]

theorem run_idleOnce_sample :
    ∃ id row, (run sampleEnv (sampleWait ++ [sampleObserve 4000 false])).notifications.get? id = some row ∧ row.kind = .idle
      ∧ ∃ since, since ≤ 1000 ∧ RestsSince row.rootId (sampleWait ++ [sampleObserve 4000 false]) since := by
  have shape : ((run sampleEnv (sampleWait ++ [sampleObserve 4000 false])).notifications.get?
      (idleKey sampleEnv 0)).map Notification.kind = some .idle := by decide +kernel
  obtain ⟨row, found, idle⟩ := Option.map_eq_some_iff.mp shape
  have fresh : (run sampleEnv sampleWait).notifications.get? (idleKey sampleEnv 0) = none := by decide +kernel
  have unforged : ∀ event ∈ sampleWait, Unforged event := by
    intro event member params is
    simp only [sampleWait, List.mem_cons, List.not_mem_nil, or_false] at member
    rcases member with rfl | rfl | rfl <;> cases is
  have raised := (run_idleOnce sampleEnv sampleWait unforged).1 (sampleObserve 4000 false) (by rintro params ⟨⟩) _ row fresh
    (by rw [← run_concat, found]) idle
  exact ⟨_, row, found, idle, raised.2.1⟩

end Runs

end PersistentHarness.Notifications
