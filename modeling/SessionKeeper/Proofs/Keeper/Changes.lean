import SessionKeeper.Proofs.Keeper.Shown

/-!
# Changes of the session

Making a session current first drops the one of another subject, so there is room for it in
the index when it is persisted. Dropping empties the index first of all. Wherever one of the
steps fails, the index shows one session or none.
-/
namespace SessionKeeper

variable [Runtime]

/-- Asking the keyserver changes nothing on the machine. -/
theorem Keyserver.Client.fetchPassphrase_passive (client : Keyserver.Client) (token : Option Text) :
    (client.fetchPassphrase token).IsPassive := by
  have giveUp (cause : KeyserverFault) : (giveUp cause : Action Text).IsPassive :=
    (Action.IsPassive.log _ _ _).bind fun _ => .throw _
  rw [fetchPassphrase]
  split
  · exact .throw _
  · dsimp only
    split
    · exact .throw _
    · refine (Action.IsPassive.post _).bind fun outcome => ?_
      split
      · exact giveUp _
      · split_ifs
        · exact giveUp _
        · split
          · exact .throw _
          · exact .pure _
          · exact (Action.IsPassive.log _ _ _).bind fun _ => .throw _

namespace Keeper

variable {keeper : Keeper} {folder : Path} {place : Location} {current : Option Session}
  {machine : Machine} {scene : Scene}

omit [Runtime] in
theorem client_exec_some (client : OAuth.Client) (machine : Machine) :
    keeper.client.exec (some client) machine = (.ok client, some client, machine) := rfl

omit [Runtime] in
theorem client_exec_none (machine : Machine) : keeper.client.exec none machine =
    match (keeper.factory keeper.stores).exec machine with
    | (.ok client, after) => (.ok client, some client, after)
    | (.error failure, after) => (.error failure, none, after) := by
  have h : keeper.client.exec none machine =
      ((liftM (keeper.factory keeper.stores) : SessionAction OAuth.Client) >>= fun client => do
        set (some client)
        return client).exec none machine := rfl
  rw [h, SessionAction.exec_bind, SessionAction.exec_lift]
  rcases (keeper.factory keeper.stores).exec machine with ⟨failure | client, after⟩ <;> rfl

omit [Runtime] in
theorem Kept.lift {α : Type} (h : Kept folder place current scene) {action : Action α}
    (spares : action.SparesIndex folder place) : (liftM action : SessionAction α).Ends scene
      fun _ after => Kept folder place current after :=
  .lift ⟨h.shows.spared spares, h.client⟩

omit [Runtime] in
theorem client_ends (kept : keeper.KeptIn folder place) (h : Kept folder place current scene) :
    keeper.client.Ends scene fun outcome after => Kept folder place current after ∧
      ∀ client, outcome = .ok client → client.IsApart folder place := by
  obtain ⟨client, machine⟩ := scene
  unfold SessionAction.Ends
  cases client with
  | some client =>
    rw [client_exec_some]
    refine ⟨h, ?_⟩
    rintro _ ⟨⟩
    exact h.client client rfl
  | none =>
    have spared := h.shows.spared (.of_confined kept.clients.makes)
    have made := kept.clients.made machine
    rw [client_exec_none]
    rcases he : (keeper.factory keeper.stores).exec machine with ⟨failure | client, after⟩ <;>
      rw [he] at spared
    · exact ⟨⟨spared, h.client⟩, nofun⟩
    · have apart := made client after h.shows.orderly.ground he
      refine ⟨⟨spared, ?_⟩, ?_⟩ <;> rintro _ ⟨⟩ <;> exact apart

theorem authorize_ends (kept : keeper.KeptIn folder place) (h : Kept folder place current scene)
    (handle : Text) : (keeper.authorize handle).Ends scene fun _ after =>
      Kept folder place current after := by
  refine .bind (client_ends kept h) (fun client between hb => ?_) fun _ _ hb => hb.1
  have apart := hb.2 client rfl
  refine .bind (hb.1.lift (.of_confined (apart.authorize handle))) (fun authorization later hl => ?_)
    fun _ _ hl => hl
  have fetch := Keyserver.Client.fetchPassphrase_passive keeper.keyserver authorization.accessToken?
  exact .bind (hl.lift (.of_passive fetch)) (fun passphrase last h => h) fun _ _ h => h

omit [Runtime] in
/-- Taking note that no client is configured. -/
theorem asked_ends (kept : keeper.KeptIn folder place) (h : Kept folder place current scene) :
    (tryCatchThe Failure (do return some (← keeper.client)) fun
      | .oauthUnavailable => pure none
      | failure => throw failure : SessionAction (Option OAuth.Client)).Ends scene
        fun outcome after => Kept folder place current after ∧
          ∀ client, outcome = .ok (some client) → client.IsApart folder place := by
  refine SessionAction.Ends.tryCatch (P := fun outcome after => Kept folder place current after ∧
    ∀ client, outcome = .ok (some client) → client.IsApart folder place) ?_ (fun _ _ h => h) ?_
  · refine .bind (client_ends kept h) (fun client after hc => ?_) fun _ _ hc => ⟨hc.1, nofun⟩
    exact .pure ⟨hc.1, fun other ho => by
      have he : client = other := Option.some.inj (Except.ok.inj ho)
      exact he ▸ hc.2 client rfl⟩
  · intro failure after hf
    split
    · exact .pure ⟨hf.1, nofun⟩
    · exact .throw ⟨hf.1, nofun⟩

/-- Whatever becomes of the tokens, the index shows what it showed. -/
theorem dropTokens_ends (kept : keeper.KeptIn folder place) (h : Kept folder place current scene)
    (subject : Text) : (keeper.dropTokens subject).Ends scene fun _ after =>
      Kept folder place current after := by
  refine .bind (asked_ends kept h) (fun made between hb => ?_) fun _ _ hb => hb.1
  cases made with
  | some client => exact hb.1.lift (.of_confined ((hb.2 client rfl).revoke subject))
  | none =>
    refine hb.1.lift (.of_confined ?_)
    rw [kept.tokens]
    exact (Record.Store.remove_confined ⟨by decide, by decide⟩ subject).mono not_isReserved_tokens

theorem lock_acquire_spares (kept : keeper.KeptIn folder place) :
    (keeper.lock.acquire lockKey).SparesIndex folder place :=
  .of_confined ((Lock.acquire_confined kept.lock rfl not_isReserved_marker.1).mono
    fun _ hn => hn ▸ not_isReserved_marker.2)

theorem lock_release_spares (kept : keeper.KeptIn folder place) {marker : Lock.Marker}
    (hk : marker.key = lockKey) : (keeper.lock.release marker).SparesIndex folder place := by
  have hf : Lock.fileName? marker.key = some "lock-cli-session.json" := by
    rw [hk]
    rfl
  exact .of_confined ((Lock.release_confined kept.lock hf not_isReserved_marker.1).mono
    fun _ hn => hn ▸ not_isReserved_marker.2)

/-- Dropping the session of the index empties the index, whatever else becomes of it. -/
theorem drop_ends (kept : keeper.KeptIn folder place) {session : Session}
    (h : Kept folder place (some session) scene) :
    (keeper.drop session.recalled).Ends scene fun _ after => Kept folder place none after := by
  obtain ⟨after, he, written⟩ := index_remove_exec kept.index h.shows session.subject.rejoin
  have gone : Kept folder place none ⟨scene.client, after⟩ := by
    have hs := written.shows
    rw [Option.filter_some_neg (by simp)] at hs
    exact ⟨hs, h.client⟩
  unfold drop
  rw [Session.subject_recalled]
  refine .bind (P := fun outcome scene => outcome = .ok () ∧ Kept folder place none scene)
    (.lift (.of_exec he ⟨rfl, gone⟩)) (fun _ between hb => ?_) fun _ _ hb => hb.2
  cases session with
  | worker s => exact .pure hb.2
  | account s =>
    refine .bind (hb.2.lift (kept.secrets.remove _ _)) (fun _ later hl => ?_) fun _ _ hl => hl
    exact dropTokens_ends kept hl _

theorem dropOthers_ends (kept : keeper.KeptIn folder place) (h : Kept folder place current scene)
    (subject : Text) :
    (keeper.dropOthers subject (current.map Session.recalled).toList).Ends scene
      fun outcome after => ∃ left, Kept folder place left after ∧ (outcome = .ok () →
        ∀ other, left = some other → other.subject.rejoin = subject) := by
  cases current with
  | none => exact .pure ⟨none, h, fun _ => nofun⟩
  | some session =>
    show (keeper.dropOthers subject [session.recalled]).Ends scene _
    rw [dropOthers, Session.subject_recalled]
    by_cases hs : session.subject.rejoin = subject
    · rw [if_neg (not_not.mpr hs)]
      exact .pure ⟨some session, h, fun _ other ho => Option.some.inj ho ▸ hs⟩
    · rw [if_pos hs]
      refine .bind (h.lift (.log _ _ _)) (fun _ between hb => ?_)
        fun _ between hb => ⟨some session, hb, nofun⟩
      refine .bind (drop_ends kept hb) (fun _ after ha => ?_) fun _ after ha => ⟨none, ha, nofun⟩
      exact .pure ⟨none, ha, fun _ => nofun⟩

theorem workers_put_spares (kept : keeper.KeptIn folder place) (key : Text) (value : Json) :
    (keeper.workers.put key value).SparesIndex folder place := by
  have hn : workersName ∈ ownNames := by decide
  rw [kept.workers]
  exact .of_touched hn (by decide) fun machine o =>
    Record.Store.put_touched o.ground (isRecordName_of_mem _ hn) (o.writable _ hn) key value

theorem workers_remove_spares (kept : keeper.KeptIn folder place) (key : Text) :
    (keeper.workers.remove key).SparesIndex folder place := by
  have hn : workersName ∈ ownNames := by decide
  rw [kept.workers]
  exact .of_touched hn (by decide) fun machine o =>
    Record.Store.remove_touched o.ground (isRecordName_of_mem _ hn) (o.writable _ hn) key

omit [Runtime] in
theorem storeSecret_spares (kept : keeper.KeptIn folder place) (service account : Text)
    (secret : Option Text) :
    (keeper.storeSecret service account secret).SparesIndex folder place := by
  cases secret with
  | none => exact .pure _
  | some secret =>
    rw [storeSecret]
    split_ifs
    · exact .pure _
    · exact kept.secrets.put service account secret

/-- A session that is persisted is shown; one that is not leaves the index as it was. -/
theorem persist_ends (kept : keeper.KeptIn folder place) (h : Kept folder place current scene)
    {session : Session} (sound : session.IsSound)
    (room : ∀ other, current = some other → other.subject.rejoin = session.subject) :
    (liftM (keeper.persist session) : SessionAction Unit).Ends scene fun outcome after =>
      ∃ shown, Kept folder place shown after ∧ (outcome = .ok () → shown = some session) := by
  have last {between : Machine} (hb : Shows folder place current between) :
      (keeper.index.put session.subject session.indexRecord).Ends between fun outcome after =>
        ∃ shown, Kept folder place shown ⟨scene.client, after⟩ ∧
          (outcome = .ok () → shown = some session) := by
    obtain ⟨after, he, written⟩ := index_put_exec kept.index hb sound room
    exact .of_exec he ⟨some session, ⟨written.shows, h.client⟩, fun _ => rfl⟩
  have failed {between : Machine} {failure : Failure} (hb : Shows folder place current between) :
      ∃ shown, Kept folder place shown ⟨scene.client, between⟩ ∧
        ((.error failure : Except Failure Unit) = .ok () → shown = some session) :=
    ⟨current, ⟨hb, h.client⟩, nofun⟩
  refine .lift ?_
  unfold persist
  cases session with
  | worker s =>
    refine .bind (P := fun _ machine => Shows folder place current machine)
      (h.shows.spared (workers_put_spares kept _ _)) (fun _ between hb => ?_) fun _ _ hb => failed hb
    refine .bind (P := fun _ machine => Shows folder place current machine)
      (hb.spared (storeSecret_spares kept _ _ _)) (fun _ between hb => ?_) fun _ _ hb => failed hb
    exact last hb
  | account s =>
    refine .bind (P := fun _ machine => Shows folder place current machine)
      (h.shows.spared (storeSecret_spares kept _ _ _)) (fun _ between hb => ?_)
      fun _ _ hb => failed hb
    exact last hb

omit [Runtime] in
theorem settle_ok {α : Type} {released : Except Failure Unit} {outcome : Except Failure α} {a : α}
    (h : Lock.settle released outcome = .ok a) : outcome = .ok a := by
  cases released with
  | ok _ => exact h
  | error _ => nomatch h

/-- What a section under the session lock makes of the index is what remains of it. -/
theorem holding_ends (kept : keeper.KeptIn folder place) (h : Kept folder place current scene)
    {α : Type} {x : SessionAction α} {S : α → Option Session → Prop}
    (within : ∀ between, Kept folder place current between → x.Ends between
      fun outcome after => ∃ left, Kept folder place left after ∧
        ∀ a, outcome = .ok a → S a left) :
    (keeper.lock.holding lockKey x).Ends scene fun outcome after =>
      ∃ left, Kept folder place left after ∧ ∀ a, outcome = .ok a → S a left := by
  have acquired := h.shows.spared (lock_acquire_spares kept)
  refine .holding (T := fun marker machine => Shows folder place current machine ∧
    marker.key = lockKey) ?_ fun marker between hb => ?_
  · unfold Action.Ends
    rcases he : (keeper.lock.acquire lockKey).exec scene.machine with ⟨failure | marker, after⟩ <;>
      rw [he] at acquired
    · exact ⟨current, ⟨acquired, h.client⟩, nofun⟩
    · exact ⟨acquired, Lock.key_of_acquire kept.lock rfl he⟩
  · refine (within ⟨scene.client, between⟩ ⟨hb.1, h.client⟩).mono fun outcome later hl => ?_
    obtain ⟨left, hl, told⟩ := hl
    exact ⟨left, ⟨hl.shows.spared (lock_release_spares kept hb.2), hl.client⟩,
      fun a ha => told a (settle_ok ha)⟩

/-- Replacing the sessions by one shows it, unless it fails on the way. -/
theorem replaceBy_ends (kept : keeper.KeptIn folder place) (h : Kept folder place current scene)
    (session : Session) (sound : session.IsSound) :
    (keeper.replaceBy session).Ends scene fun outcome after =>
      ∃ shown, Kept folder place shown after ∧ ∀ u, outcome = .ok u → shown = some session := by
  refine holding_ends kept h fun between hb => ?_
  refine .bind (P := fun outcome after => Kept folder place current after ∧
      ∀ sessions, outcome = .ok sessions → sessions = (current.map Session.recalled).toList)
    (.lift (.of_exec (indexed_exec kept.index hb.shows) ⟨hb, fun _ ho => (Except.ok.inj ho).symm⟩))
    (fun sessions later hl => ?_) fun _ later hl => ⟨current, hl.1, nofun⟩
  rw [hl.2 sessions rfl]
  refine .bind (dropOthers_ends kept hl.1 session.subject) (fun _ last ho => ?_)
    fun _ last ⟨left, hleft, _⟩ => ⟨left, hleft, nofun⟩
  obtain ⟨left, hleft, room⟩ := ho
  refine (persist_ends kept hleft sound (room rfl)).mono ?_
  rintro outcome after ⟨shown, hs, told⟩
  exact ⟨shown, hs, fun _ ho => told ho⟩

/-- Refuses a login without a handle, and one that would replace a session unasked. -/
def screen (keeper : Keeper) (handle : Text) (replace : Bool) : SessionAction Unit := do
  if handle.isEmpty then throw .handleRequired
  match ← keeper.current? with
  | some current => if !replace then throw (.sessionActive current)
  | none => pure ()

/-- What a login does once nothing speaks against it. -/
def proceed (keeper : Keeper) (handle : Text) : SessionAction AccountSession := do
  Action.log .info .session "Starting OAuth login"
  let session ← keeper.authorize handle
  keeper.replaceBy (.account session)
  Action.log .info .session "Login complete"
  return session

/-- A login is checked before anything else is done. -/
theorem login_eq (keeper : Keeper) (handle : Text) (replace : Bool) :
    keeper.login handle replace = (do
      keeper.screen handle.trim replace
      keeper.proceed handle.trim) := by
  dsimp only [login, screen, proceed]
  by_cases blank : handle.trim.isEmpty = true
  · simp only [if_pos blank]
    rfl
  · simp only [if_neg blank, bind_assoc]
    refine congrArg _ (funext fun found => ?_)
    rcases found with _ | current
    · simp only [pure_bind]
    · cases replace with
      | false => rfl
      | true => simp only [Bool.not_true, Bool.false_eq_true, if_false, pure_bind]

/-- The check ends as the look at the current session does, whatever comes of it. -/
theorem screen_ends {P : Scene → Prop} (h : P scene)
    (looks : keeper.current?.Ends scene.machine fun _ after => P ⟨scene.client, after⟩)
    (handle : Text) (replace : Bool) :
    (keeper.screen handle replace).Ends scene fun _ after => P after := by
  unfold screen
  by_cases blank : handle.isEmpty = true
  · rw [if_pos blank]
    exact .throw_bind h
  · rw [if_neg blank]
    refine .bind (.lift looks) (fun found after ha => ?_) fun _ _ ha => ha
    cases found with
    | none => exact .pure ha
    | some current =>
      dsimp only
      split_ifs
      · exact .throw ha
      · exact .pure ha

/-- A login that returns shows the session it returned; no login harms the index. -/
theorem login_ends (kept : keeper.KeptIn folder place) (h : Kept folder place current scene)
    (handle : Text) (replace : Bool) : (keeper.login handle replace).Ends scene
      fun outcome after => ∃ shown, Kept folder place shown after ∧
        ∀ s, outcome = .ok s → shown = some (.account s) := by
  have failed {after : Scene} {failure : Failure} {shown : Option Session}
      (ha : Kept folder place shown after) : ∃ shown, Kept folder place shown after ∧
        ∀ s, (.error failure : Except Failure AccountSession) = .ok s → shown = some (.account s) :=
    ⟨shown, ha, nofun⟩
  rw [login_eq]
  refine .bind (screen_ends h (.of_exec (current?_exec kept.index h.shows) h) handle.trim replace)
    (fun _ between hb => ?_) fun _ _ hb => failed hb
  refine .bind (hb.lift (.log _ _ _)) (fun _ between hb => ?_) fun _ _ hb => failed hb
  refine .bind (authorize_ends kept hb handle.trim) (fun s between hb => ?_) fun _ _ hb => failed hb
  refine .bind (replaceBy_ends kept hb (.account s) trivial)
    (fun _ between ⟨shown, hs, told⟩ => ?_) fun _ _ ⟨shown, hs, _⟩ => failed hs
  refine .bind (hs.lift (.log _ _ _)) (fun _ after ha => ?_) fun _ _ ha => failed ha
  exact .pure ⟨shown, ha, fun other ho => Except.ok.inj ho ▸ told () rfl⟩

def enroll (id name secret : Text) : SessionAction WorkerSession := do
  if secret.isEmpty then throw .secretRequired
  let now ← Action.now
  let worker ← Action.ofReading Worker.schema (Worker.make id name secret now)
  return .ofWorker worker

theorem registerWorker_eq (keeper : Keeper) (id name secret : Text) :
    keeper.registerWorker id name secret = (do
      let session ← enroll id name secret
      keeper.replaceBy (.worker session)
      Action.log .info .session "Registered worker"
      return session) := by
  dsimp only [registerWorker, enroll]
  by_cases empty : secret.isEmpty = true
  · simp only [if_pos empty]
    rfl
  · simp only [if_neg empty, bind_assoc, pure_bind]

omit [Runtime] in
/-- Making a worker changes nothing, and what it returns is the session of a worker with a secret
that is made at the time. -/
theorem enroll_ends (id name secret : Text) : (enroll id name secret).Ends scene
    fun outcome after => scene = after ∧ ∀ session, outcome = .ok session → ∃ worker,
      Worker.make id name secret scene.machine.now = .ok worker ∧ session = .ofWorker worker ∧
        secret ≠ [] := by
  unfold enroll
  by_cases empty : secret.isEmpty = true
  · rw [if_pos empty]
    exact .throw_bind ⟨rfl, nofun⟩
  · rw [if_neg empty]
    refine .bind_ok (S := (scene = ·)) (.lift (.of_exec (Action.exec_now _) ⟨rfl, rfl⟩)) ?_
    rintro _ rfl
    cases made : Worker.make id name secret scene.machine.now with
    | error issues => exact .throw_bind ⟨rfl, nofun⟩
    | ok worker =>
      refine .pure ⟨rfl, ?_⟩
      rintro _ ⟨⟩
      exact ⟨worker, rfl, rfl, by simpa using empty⟩

/-- A registration that returns shows the session it returned. -/
theorem registerWorker_ends (kept : keeper.KeptIn folder place)
    (h : Kept folder place current scene) (id name secret : Text) :
    (keeper.registerWorker id name secret).Ends scene fun outcome after =>
      ∃ shown, Kept folder place shown after ∧ ∀ s, outcome = .ok s → shown = some (.worker s) := by
  have failed {after : Scene} {failure : Failure} {shown : Option Session}
      (ha : Kept folder place shown after) : ∃ shown, Kept folder place shown after ∧
        ∀ s, (.error failure : Except Failure WorkerSession) = .ok s → shown = some (.worker s) :=
    ⟨shown, ha, nofun⟩
  rw [registerWorker_eq]
  refine .bind (enroll_ends id name secret) (fun session between ⟨same, told⟩ => ?_)
    fun _ _ ⟨same, _⟩ => failed (same ▸ h)
  obtain ⟨worker, made, rfl, -⟩ := told session rfl
  subst same
  refine .bind (replaceBy_ends kept h _ (Worker.isSound_of_make made h.shows.clock))
    (fun _ between ⟨shown, hs, told⟩ => ?_) fun _ _ ⟨shown, hs, _⟩ => failed hs
  refine .bind (hs.lift (.log _ _ _)) (fun _ after ha => ?_) fun _ _ ha => failed ha
  exact .pure ⟨shown, ha, fun other ho => Except.ok.inj ho ▸ told () rfl⟩

theorem cleared_ends (kept : keeper.KeptIn folder place) (h : Kept folder place current scene) :
    (do
      match ← keeper.current? with
      | none =>
        Action.log .info .session "No active session found"
        return none
      | some session =>
        keeper.drop session
        return some session : SessionAction (Option Session)).Ends scene fun _ after =>
          Kept folder place none after := by
  refine .bind (P := fun outcome after => Kept folder place current after ∧
      outcome = .ok (current.map Session.recalled))
    (.lift (.of_exec (current?_exec kept.index h.shows) ⟨h, rfl⟩)) (fun found between hb => ?_)
    fun _ _ hb => absurd hb.2 (by simp)
  rw [Except.ok.inj hb.2]
  cases current with
  | none => exact .bind (hb.1.lift (.log _ _ _)) (fun _ _ ha => .pure ha) fun _ _ ha => ha
  | some session => exact .bind (drop_ends kept hb.1) (fun _ _ ha => .pure ha) fun _ _ ha => ha

theorem clear_ends (kept : keeper.KeptIn folder place) (h : Kept folder place current scene) :
    keeper.clear.Ends scene fun _ after => ∃ shown, Kept folder place shown after := by
  have ended := holding_ends kept h (S := fun _ _ => True) fun between hb =>
    (cleared_ends kept hb).mono fun _ after ha => ⟨none, ha, fun _ _ => trivial⟩
  refine .bind ended (fun cleared between hb => ?_) fun _ _ hb => hb.imp fun _ hs => hs.1
  obtain ⟨left, hl, -⟩ := hb
  dsimp only
  split_ifs
  · exact .bind (hl.lift (.log _ _ _)) (fun _ _ ha => .pure ⟨left, ha⟩) fun _ _ ha => ⟨left, ha⟩
  · exact .pure ⟨left, hl⟩

theorem registered_passive (keeper : Keeper) (worker : Worker) :
    (keeper.registered worker).IsPassive := by
  refine ((Record.Store.entries_passive keeper.workers).bind fun _ => .pure _).bind fun found => ?_
  split
  · exact .pure _
  · exact .pure _
  · refine Action.IsPassive.now.bind fun now => ?_
    split
    · exact .pure _
    · exact (Action.IsPassive.log _ _ _).bind fun _ => .pure _

theorem hydrate_spares (kept : keeper.KeptIn folder place) (session : Session) :
    (keeper.hydrate session).SparesIndex folder place := by
  unfold hydrate
  cases session with
  | worker s =>
    refine .bind (.of_passive (registered_passive keeper s.worker)) fun worker => ?_
    refine .bind (kept.secrets.get? _ _) fun secret => ?_
    dsimp only
    split_ifs
    · exact .bind (.log _ _ _) fun _ => .pure _
    · exact .pure _
  | account s => exact .bind (kept.secrets.get? _ _) fun secret => .pure _

omit [Runtime] in
theorem readAll_passive {α : Type} (read : Json → Schema.Reading α) (warning : String)
    (values : List Json) : (readAll read warning values).IsPassive := by
  induction values with
  | nil => exact .pure _
  | cons value rest ih =>
    unfold readAll
    split
    · exact ih.bind fun _ => .pure _
    · exact (Action.IsPassive.log _ _ _).bind fun _ => ih

theorem current?_passive (keeper : Keeper) : keeper.current?.IsPassive := by
  have indexed : keeper.indexed.IsPassive := Action.IsPassive.now.bind fun now =>
    (Record.Store.entries_passive keeper.index).bind fun entries => readAll_passive _ _ _
  refine indexed.bind fun sessions => ?_
  split
  · exact .pure _
  · exact .pure _
  · exact (Action.IsPassive.log _ _ _).bind fun _ => .pure _

theorem load_spares (kept : keeper.KeptIn folder place) : keeper.load.SparesIndex folder place := by
  refine .bind (.of_passive (current?_passive keeper)) fun found => ?_
  split
  · exact .pure _
  · exact .bind (hydrate_spares kept _) fun _ => .pure _

theorem isRegistered_spares (kept : keeper.KeptIn folder place) (id : Text) :
    (keeper.isRegistered id).SparesIndex folder place := by
  refine .bind (.of_passive ((Record.Store.entries_passive keeper.workers).bind fun _ => .pure _))
    fun record => ?_
  split_ifs
  · exact .pure _
  · exact .bind (kept.secrets.get? _ _) fun secret => .pure _

theorem removeWorker_ends (kept : keeper.KeptIn folder place) (h : Kept folder place current scene)
    (id : Text) : (liftM (keeper.removeWorker id) : SessionAction Bool).Ends scene
      fun _ after => ∃ shown, Kept folder place shown after := by
  have section_ends : (keeper.lock.holding lockKey do
      let existed ← keeper.isRegistered id
      keeper.workers.remove id
      keeper.secrets.remove keeper.workerService id
      keeper.index.remove (Worker.subject id)
      return existed : Action Bool).Ends scene.machine
        fun _ after => ∃ shown, Shows folder place shown after := by
    have acquired := h.shows.spared (lock_acquire_spares kept)
    refine .holding (T := fun marker machine => Shows folder place current machine ∧
      marker.key = lockKey) ?_ fun marker between hb => ?_
    · unfold Action.Ends
      rcases he : (keeper.lock.acquire lockKey).exec scene.machine with ⟨failure | marker, after⟩ <;>
        rw [he] at acquired
      · exact ⟨current, acquired⟩
      · exact ⟨acquired, Lock.key_of_acquire kept.lock rfl he⟩
    refine Action.Ends.mono (P := fun _ after => ∃ shown, Shows folder place shown after) ?_
      fun outcome after ⟨shown, hs⟩ => ⟨shown, hs.spared (lock_release_spares kept hb.2)⟩
    have kept_on {β : Type} {action : Action β} {machine : Machine}
        (hm : Shows folder place current machine) (spares : action.SparesIndex folder place) :
        action.Ends machine fun _ after => Shows folder place current after := hm.spared spares
    refine .bind (kept_on hb.1 (isRegistered_spares kept id)) (fun existed _ h₁ => ?_)
      fun _ _ h₁ => ⟨current, h₁⟩
    refine .bind (kept_on h₁ (workers_remove_spares kept id)) (fun _ _ h₂ => ?_)
      fun _ _ h₂ => ⟨current, h₂⟩
    refine .bind (kept_on h₂ (kept.secrets.remove _ _)) (fun _ _ h₃ => ?_)
      fun _ _ h₃ => ⟨current, h₃⟩
    obtain ⟨after, he, written⟩ := index_remove_exec kept.index h₃ (Worker.subject id)
    refine .bind (P := fun _ after => ∃ shown, Shows folder place shown after)
      (.of_exec he ⟨_, written.shows⟩) (fun _ _ h₄ => h₄) fun _ _ h₄ => h₄
  refine .lift (.bind section_ends (fun existed between ⟨shown, hs⟩ => ?_)
    fun _ _ ⟨shown, hs⟩ => ⟨shown, hs, h.client⟩)
  refine Action.Ends.mono (P := fun _ after => Shows folder place shown after)
    (hs.spared ?_) fun _ _ ha => ⟨shown, ha, h.client⟩
  cases existed with
  | true => exact .bind (.log _ _ _) fun _ => .pure _
  | false => exact .pure _

end Keeper

end SessionKeeper
