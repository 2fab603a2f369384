import SessionKeeper.Proofs.Keeper.Credentials

/-!
# Changes in parts

Every change of sessions comes in two parts: a task is prepared, which may take long and
changes nothing that a keeper has, and it is carried out with the session lock held. What is
true of a machine and stays true through every single write is still true when either part has
ended, whatever failed on the way.
-/
namespace SessionKeeper

variable [Runtime]

namespace Keeper

inductive Change where
  | login (handle : Text) (replace : Bool)
  | registerWorker (id name secret : Text)
  | save (session : Session)
  | clear
  | removeWorker (id : Text)

/-- Makes a change. What the operation returns is left out. -/
def change (keeper : Keeper) : Change → SessionAction Unit
  | .login handle replace => do let _ ← keeper.login handle replace
  | .registerWorker id name secret => do let _ ← keeper.registerWorker id name secret
  | .save session => keeper.save session
  | .clear => do let _ ← keeper.clear
  | .removeWorker id => do let _ ← keeper.removeWorker id

/-- What is left to do once the session lock is held. -/
inductive Task where
  | enter (session : Session)
  | add (session : Session)
  | leave
  | forget (id : Text)

/-- What carrying out a task results in. -/
def Task.Result : Task → Type
  | .enter _ => Unit
  | .add _ => Unit
  | .leave => Option Session
  | .forget _ => Bool

def Task.isNoted : (task : Task) → task.Result → Bool
  | .enter _, _ => true
  | .add _, _ => false
  | .leave, cleared => Option.isSome cleared
  | .forget _, existed => existed

/-- What a change does before it takes the lock. -/
def prepare (keeper : Keeper) : Change → SessionAction Task
  | .login handle replace => do
    keeper.screen handle.trim replace
    Action.log .info .session "Starting OAuth login"
    return .enter (.account (← keeper.authorize handle.trim))
  | .registerWorker id name secret => do return .enter (.worker (← enroll id name secret))
  | .save session => return .add session
  | .clear => return .leave
  | .removeWorker id => return .forget id

/-- Takes out all that belongs to a worker; the result is whether there was such a worker. -/
def forget (keeper : Keeper) (id : Text) : Action Bool := do
  let existed ← keeper.isRegistered id
  keeper.workers.remove id
  keeper.secrets.remove keeper.workerService id
  keeper.index.remove (Worker.subject id)
  return existed

/-- What is done with the lock held. -/
def carryOut (keeper : Keeper) : (task : Task) → SessionAction task.Result
  | .enter session => do
    keeper.dropOthers session.subject (← keeper.indexed)
    keeper.persist session
  | .add session => keeper.persist session
  | .leave => do
    match ← keeper.current? with
    | none =>
      Action.log .info .session "No active session found"
      return none
    | some session =>
      keeper.drop session
      return some session
  | .forget id => keeper.forget id

/-- The note on a change that came about. -/
def conclude : Change → Action Unit
  | .login .. => Action.log .info .session "Login complete"
  | .registerWorker .. => Action.log .info .session "Registered worker"
  | .save _ => pure ()
  | .clear => Action.log .info .session "Session cleared"
  | .removeWorker _ => Action.log .info .session "Removed worker"

def changeInParts (keeper : Keeper) (c : Change) : SessionAction Unit := do
  let task ← keeper.prepare c
  let result ← keeper.lock.holding lockKey (keeper.carryOut task)
  if task.isNoted result then conclude c

/-- A section that has nothing to do with the OAuth client runs the same next to one. -/
theorem exec_holding_lift {α : Type} (lock : Lock) (key : Text) (body : Action α)
    (client : Option OAuth.Client) (machine : Machine) :
    (liftM (lock.holding key body : Action α) : SessionAction α).exec client machine =
      (lock.holding key (liftM body) : SessionAction α).exec client machine := by
  rw [SessionAction.exec_lift, Action.exec_holding, SessionAction.exec_holding]
  rcases (lock.acquire key).exec machine with ⟨failure | marker, between⟩
  · rfl
  · simp only [SessionAction.exec_lift]

/-- Removing a worker notes that it did only after the section, and only when there was one. -/
theorem removeWorker_inParts (keeper : Keeper) (id : Text) (client : Option OAuth.Client)
    (machine : Machine) :
    (keeper.change (.removeWorker id)).exec client machine =
      (keeper.changeInParts (.removeWorker id)).exec client machine := by
  have held := exec_holding_lift keeper.lock lockKey (keeper.forget id) client machine
  unfold changeInParts
  dsimp only [change, prepare]
  rw [pure_bind]
  rcases he : (keeper.lock.holding lockKey (keeper.forget id)).exec machine with
    ⟨failure | existed, after⟩ <;> rw [SessionAction.exec_lift, he] at held
  · have removed : (keeper.removeWorker id).exec machine = (.error failure, after) :=
      Action.exec_bind_error he
    have carried : (keeper.lock.holding lockKey (keeper.carryOut (.forget id))).exec client
        machine = (.error failure, client, after) := held.symm
    rw [SessionAction.exec_bind_error carried, SessionAction.exec_bind, SessionAction.exec_lift,
      removed]
  · have carried : (keeper.lock.holding lockKey (keeper.carryOut (.forget id))).exec client
        machine = (.ok existed, client, after) := held.symm
    rw [SessionAction.exec_bind_ok carried, SessionAction.exec_bind, SessionAction.exec_lift]
    cases existed with
    | false =>
      have removed : (keeper.removeWorker id).exec machine = (.ok false, after) :=
        Action.exec_bind_ok he
      rw [removed]
      rfl
    | true =>
      have removed : (keeper.removeWorker id).exec machine =
          (.ok true, after.tell (.log ⟨.info, .session, "Removed worker"⟩)) :=
        Action.exec_bind_ok he
      rw [removed]
      rfl

/-- Every change runs as its parts do, one after the other. -/
theorem change_exec (keeper : Keeper) (c : Change) (client : Option OAuth.Client)
    (machine : Machine) :
    (keeper.change c).exec client machine = (keeper.changeInParts c).exec client machine := by
  cases c with
  | save session =>
    dsimp only [changeInParts, change, save, prepare]
    rw [pure_bind]
    exact congrArg (SessionAction.exec · client machine) (bind_pure _).symm
  | clear =>
    dsimp only [changeInParts, change, clear, prepare]
    rw [pure_bind, bind_assoc]
    refine congrArg (SessionAction.exec · client machine) (congrArg _ (funext fun result => ?_))
    cases result <;> rfl
  | removeWorker id => exact keeper.removeWorker_inParts id client machine
  | registerWorker id name secret =>
    dsimp only [changeInParts, change, prepare]
    simp only [registerWorker_eq, bind_assoc, pure_bind]
    rfl
  | login handle replace =>
    dsimp only [changeInParts, change, prepare]
    simp only [login_eq, proceed, bind_assoc, pure_bind]
    rfl

end Keeper

/-- That a client touches nothing that only keepers touch, wherever the folder stands. -/
structure OAuth.Client.KeepsAway (folder : Path) (client : OAuth.Client) : Prop where
  authorize : ∀ place handle, (client.authorize handle).Respects folder place
  revoke : ∀ place subject, (client.revoke subject).Respects folder place

/-- That making a client touches nothing of the keeper's, and nor does the client. -/
structure OAuth.Factory.KeepsAway (factory : OAuth.Factory) (stores : OAuth.Stores)
    (folder : Path) : Prop where
  makes : ∀ place, (factory stores).Respects folder place
  made : ∀ machine client after, (factory stores).exec machine = (.ok client, after) →
    client.KeepsAway folder

/-- That a backend touches no file but those of the vault. -/
structure Secret.Backend.KeepsAway (folder : Path) (secrets : Backend) : Prop where
  get? : ∀ place service account,
    (secrets.get? service account).Confined folder place Vault.IsOwnName
  put : ∀ place service account secret,
    (secrets.put service account secret).Confined folder place Vault.IsOwnName
  remove : ∀ place service account,
    (secrets.remove service account).Confined folder place Vault.IsOwnName

theorem Secret.Vault.keepsAway (folder : Path) :
    (Backend.ofVault (.inFolder folder)).KeepsAway folder where
  get? _ _ _ := .bind (.of_passive (Record.Store.entries_passive _)) fun _ => .pure _
  put place := (keeps folder place).put_confined
  remove place := (keeps folder place).remove_confined

omit [Runtime] in
theorem Secret.Backend.platform_keepsAway (folder : Path) : platform.KeepsAway folder where
  get? _ _ _ := fun _ _ => .of_tree rfl
  put place := (platform_keeps folder place).put_confined
  remove place := (platform_keeps folder place).remove_confined

namespace Keeper

/-- That a keeper has its files in a folder, and that whom it works with stays away from them. -/
structure LiesIn (keeper : Keeper) (folder : Path) : Prop where
  index : keeper.index = ⟨folder.child indexName⟩
  workers : keeper.workers = ⟨folder.child workersName⟩
  tokens : keeper.stores.sessions = ⟨folder.child tokensName⟩
  lock : keeper.lock.folder = folder
  secrets : keeper.secrets.KeepsAway folder
  clients : keeper.factory.KeepsAway keeper.stores folder

omit [Runtime] in
theorem LiesIn.made {keeper : Keeper} {folder : Path} (lies : keeper.LiesIn folder)
    (machine : Machine) (client : OAuth.Client)
    (made : ((keeper.factory keeper.stores).exec machine).1 = .ok client) :
    client.KeepsAway folder := lies.clients.made machine client _ (Prod.ext made rfl)

variable {keeper : Keeper} {J : Machine → Prop} {fits : OAuth.Client → Prop} {scene : Scene}

/-- What preparing a change may meet: what is true of the machine stays true while nothing is
changed, and while a client is made and authorizes. -/
structure Bears (keeper : Keeper) (J : Machine → Prop) (fits : OAuth.Client → Prop) : Prop where
  quiet : ∀ machine after, J machine → machine.Quiet after → J after
  makes : ∀ machine, J machine → (keeper.factory keeper.stores).Ends machine fun outcome after =>
    J after ∧ ∀ client, outcome = .ok client → fits client
  authorizes : ∀ client, fits client → ∀ handle machine, J machine →
    J ((client.authorize handle).exec machine).2

omit [Runtime] in
/-- What only looks leaves a scene in which what is true of the machine stays true when nothing is
changed. -/
theorem Attended.passive {α : Type} (h : Attended J fits scene)
    (quiet : ∀ machine after, J machine → machine.Quiet after → J after) {action : Action α}
    (passive : action.IsPassive) : (liftM action : SessionAction α).Ends scene
      fun _ after => Attended J fits after :=
  .lift ⟨quiet _ _ h.machine (.of_passive passive _), h.client⟩

theorem screen_attended (quiet : ∀ machine after, J machine → machine.Quiet after → J after)
    (h : Attended J fits scene) (handle : Text) (replace : Bool) :
    (keeper.screen handle replace).Ends scene fun _ after => Attended J fits after :=
  screen_ends h ⟨quiet _ _ h.machine (.of_passive (current?_passive keeper) _), h.client⟩ handle
    replace

/-- What is true when a task was prepared: of a login what authorizing the subject left, and of
any other task what was true before. -/
def Readied (R : Text → Machine → Prop) (J : Machine → Prop) : Task → Machine → Prop
  | .enter (.account s), machine => R s.subject machine
  | _, machine => J machine

theorem prepare_ends {R : Text → Machine → Prop} {E : Machine → Prop}
    (quiet : ∀ machine after, J machine → machine.Quiet after → J after)
    (makes : ∀ machine, J machine → (keeper.factory keeper.stores).Ends machine
      fun outcome after => J after ∧ ∀ client, outcome = .ok client → fits client)
    (authorizes : ∀ client, fits client → ∀ handle machine, J machine →
      (client.authorize handle).Ends machine fun outcome after =>
        (∀ authorization, outcome = .ok authorization → R authorization.subject after) ∧ E after)
    (either : ∀ subject machine after, R subject machine → E machine → machine.Quiet after →
      R subject after ∧ E after)
    (unmade : ∀ machine, J machine → E machine) (h : Attended J fits scene) (c : Change) :
    (keeper.prepare c).Ends scene fun outcome after => Attended E fits after ∧
      ∀ task, outcome = .ok task → Readied R J task after.machine := by
  have still {between : Scene} (hb : Attended J fits between) : Attended E fits between :=
    ⟨unmade _ hb.machine, hb.client⟩
  have failed {failure : Failure} {between : Scene} (hb : Attended E fits between) :
      Attended E fits between ∧ ∀ task, (Except.error failure : Except Failure Task) = .ok task →
        Readied R J task between.machine := ⟨hb, fun _ ho => by cases ho⟩
  have readied {task : Task} {between : Scene} (hb : Attended E fits between)
      (ready : Readied R J task between.machine) :
      (pure task : SessionAction Task).Ends between fun outcome after => Attended E fits after ∧
        ∀ task, outcome = .ok task → Readied R J task after.machine :=
    .pure ⟨hb, fun _ ho => Except.ok.inj ho ▸ ready⟩
  cases c with
  | login handle replace =>
    refine .bind (screen_attended quiet h _ replace) (fun _ _ h₁ => ?_)
      fun _ _ h₁ => failed (still h₁)
    refine .bind (h₁.passive quiet (.log _ _ _)) (fun _ _ h₂ => ?_)
      fun _ _ h₂ => failed (still h₂)
    exact .bind (authorize_attended makes (fun client fitting => authorizes client fitting _) either
      unmade h₂) (fun s _ h₃ => readied h₃.1 (h₃.2 s rfl).1) fun _ _ h₃ => failed h₃.1
  | registerWorker id name secret =>
    exact .bind (enroll_ends id name secret) (fun _ _ ⟨same, _⟩ => same ▸ readied (still h) h.machine)
      fun _ _ ⟨same, _⟩ => same ▸ failed (still h)
  | save session => exact readied (still h) h.machine
  | clear => exact readied (still h) h.machine
  | removeWorker id => exact readied (still h) h.machine

/-- Preparing a change keeps true what is true of the machine, however it ends. -/
theorem Bears.prepare (bears : keeper.Bears J fits) (h : Attended J fits scene) (c : Change) :
    (keeper.prepare c).Ends scene fun _ after => Attended J fits after :=
  (prepare_ends (R := fun _ => J) bears.quiet bears.makes
    (fun client fitting handle machine hm =>
      have left := bears.authorizes client fitting handle machine hm
      ⟨fun _ _ => left, left⟩)
    (fun _ _ _ hr he quiet => ⟨bears.quiet _ _ hr quiet, bears.quiet _ _ he quiet⟩)
    (fun _ hm => hm) h c).mono fun _ _ ha => ha.1

theorem Bears.authorize (bears : keeper.Bears J fits) (h : Attended J fits scene) (handle : Text) :
    (keeper.authorize handle).Ends scene fun _ after => Attended J fits after :=
  (authorize_attended (R := fun _ => J) bears.makes
    (fun client fitting machine hm =>
      have left := bears.authorizes client fitting handle machine hm
      ⟨fun _ _ => left, left⟩)
    (fun _ _ _ hr he quiet => ⟨bears.quiet _ _ hr quiet, bears.quiet _ _ he quiet⟩)
    (fun _ hm => hm) h).mono fun _ _ ha => ha.1

/-- What dropping sessions may meet: what is true of the machine stays true also while the client
revokes, and while sessions are struck from the index, and passphrases and tokens forgotten. -/
structure Sheds (keeper : Keeper) (J : Machine → Prop) (fits : OAuth.Client → Prop) : Prop
    extends keeper.Bears J fits where
  revokes : ∀ client, fits client → ∀ subject machine, J machine →
    J ((client.revoke subject).exec machine).2
  strikes : ∀ subject machine, J machine → J ((keeper.index.remove subject).exec machine).2
  discards : ∀ subject machine, J machine →
    J ((keeper.stores.sessions.remove subject).exec machine).2
  forgets : ∀ service account machine, J machine →
    J ((keeper.secrets.remove service account).exec machine).2

/-- What carrying out a task may meet: what is true of the machine stays true also through every
single write to what the keeper has. -/
structure Sustains (keeper : Keeper) (J : Machine → Prop) (fits : OAuth.Client → Prop) : Prop
    extends keeper.Sheds J fits where
  enters : ∀ (session : Session) machine, J machine →
    J ((keeper.index.put session.subject session.indexRecord).exec machine).2
  registers : ∀ (worker : Worker) machine, J machine →
    J ((keeper.workers.put worker.id worker.publicRecord).exec machine).2
  dismisses : ∀ id machine, J machine → J ((keeper.workers.remove id).exec machine).2
  looks : ∀ service account machine, J machine →
    J ((keeper.secrets.get? service account).exec machine).2
  stores : ∀ service ∈ [keeper.workerService, keeper.passphraseService], ∀ account secret machine,
    J machine → J ((keeper.secrets.put service account secret).exec machine).2

namespace Sheds

theorem drop (sheds : keeper.Sheds J fits) (h : Attended J fits scene) (session : Session) :
    (keeper.drop session).Ends scene fun _ after => Attended J fits after := by
  unfold Keeper.drop
  refine .bind (h.lift (R := fun _ => J) (sheds.strikes _ _ h.machine)) (fun _ _ h₁ => ?_)
    fun _ _ h₁ => h₁
  cases session with
  | worker s => exact .pure h₁
  | account s =>
    refine .bind (h₁.lift (R := fun _ => J) (sheds.forgets _ s.subject _ h₁.machine))
      (fun _ _ h₂ => ?_) fun _ _ h₂ => h₂
    exact dropTokens_attended (R := fun _ => J) sheds.makes
      (fun client fitting machine hm => sheds.revokes client fitting _ machine hm)
      (fun machine hm => sheds.discards _ machine hm) (fun _ _ hm => hm) h₂

theorem dropOthers (sheds : keeper.Sheds J fits) (h : Attended J fits scene) (subject : Text)
    (others : List Session) :
    (keeper.dropOthers subject others).Ends scene fun _ after => Attended J fits after := by
  induction others generalizing scene with
  | nil => exact .pure h
  | cons other rest ih =>
    rw [Keeper.dropOthers]
    split_ifs
    · refine .bind (h.passive sheds.quiet (.log _ _ _)) (fun _ _ h₁ => ?_) fun _ _ h₁ => h₁
      exact .bind (sheds.drop h₁ other) (fun _ _ h₂ => ih h₂) fun _ _ h₂ => h₂
    · exact ih h

end Sheds

namespace Sustains

variable {machine : Machine}

theorem persist (sustains : keeper.Sustains J fits) (h : J machine) (session : Session) :
    (keeper.persist session).Ends machine fun _ after => J after := by
  have stored {between : Machine} (hb : J between) {service : Text} (account : Text)
      (own : service ∈ [keeper.workerService, keeper.passphraseService]) (secret : Option Text) :
      (keeper.storeSecret service account secret).Ends between fun _ after => J after := by
    cases secret with
    | none => exact hb
    | some secret =>
      rw [storeSecret]
      split_ifs
      · exact hb
      · exact sustains.stores service own account secret between hb
  unfold Keeper.persist
  cases session with
  | account s =>
    exact .bind (stored h s.subject (by simp) _) (fun _ _ hb => sustains.enters (.account s) _ hb)
      fun _ _ hb => hb
  | worker s =>
    refine .bind (P := fun _ after => J after) (sustains.registers s.worker machine h)
      (fun _ _ h₁ => ?_) fun _ _ h₁ => h₁
    exact .bind (stored h₁ s.worker.id (by simp) _) (fun _ _ h₂ => sustains.enters (.worker s) _ h₂)
      fun _ _ h₂ => h₂

theorem forget (sustains : keeper.Sustains J fits) (h : J machine) (id : Text) :
    (keeper.forget id).Ends machine fun _ after => J after := by
  have looked {between : Machine} (hb : J between) :
      (keeper.isRegistered id).Ends between fun _ after => J after := by
    have found : (keeper.workers.get? id).IsPassive :=
      (Record.Store.entries_passive keeper.workers).bind fun _ => .pure _
    refine .bind (P := fun _ after => J after)
      (sustains.quiet _ _ hb (.of_passive found between)) (fun record later hl => ?_)
      fun _ _ hl => hl
    split_ifs
    · exact hl
    · exact .bind (P := fun _ after => J after) (sustains.looks _ _ later hl) (fun _ _ ha => ha)
        fun _ _ ha => ha
  unfold Keeper.forget
  refine .bind (looked h) (fun existed _ h₁ => ?_) fun _ _ h₁ => h₁
  refine .bind (P := fun _ after => J after) (sustains.dismisses id _ h₁) (fun _ _ h₂ => ?_)
    fun _ _ h₂ => h₂
  refine .bind (P := fun _ after => J after) (sustains.forgets _ id _ h₂) (fun _ _ h₃ => ?_)
    fun _ _ h₃ => h₃
  exact .bind (P := fun _ after => J after) (sustains.strikes _ _ h₃) (fun _ _ h₄ => h₄)
    fun _ _ h₄ => h₄

end Sustains

theorem indexed_passive (keeper : Keeper) : keeper.indexed.IsPassive :=
  Action.IsPassive.now.bind fun _ =>
    (Record.Store.entries_passive keeper.index).bind fun _ => readAll_passive _ _ _

/-- Whatever is done with the lock held, what stays true through every write is true then. -/
theorem Sustains.carryOut (sustains : keeper.Sustains J fits) (h : Attended J fits scene)
    (task : Task) :
    (keeper.carryOut task).Ends scene fun _ after => Attended J fits after := by
  cases task with
  | enter session =>
    refine .bind (h.passive sustains.quiet (indexed_passive keeper)) (fun sessions _ h₁ => ?_)
      fun _ _ h₁ => h₁
    refine .bind (sustains.dropOthers h₁ session.subject sessions) (fun _ _ h₂ => ?_)
      fun _ _ h₂ => h₂
    exact h₂.lift (R := fun _ => J) (sustains.persist h₂.machine session)
  | add session => exact h.lift (R := fun _ => J) (sustains.persist h.machine session)
  | leave =>
    refine .bind (h.passive sustains.quiet (current?_passive keeper)) (fun found _ h₁ => ?_)
      fun _ _ h₁ => h₁
    cases found with
    | none =>
      have noted := h₁.passive sustains.quiet (.log .info .session "No active session found")
      exact .bind noted (fun _ _ h₂ => .pure h₂) fun _ _ h₂ => h₂
    | some session =>
      exact .bind (sustains.drop h₁ session) (fun _ _ h₂ => .pure h₂) fun _ _ h₂ => h₂
  | forget id => exact h.lift (R := fun _ => J) (sustains.forget h.machine id)

omit [Runtime] in
theorem conclude_passive (c : Change) : (conclude c).IsPassive := by
  cases c with
  | save session => exact .pure _
  | _ => exact .log _ _ _

/-- Every change keeps true what stays true through every write and through the taking and giving
back of the session lock. -/
theorem Sustains.change {T : Lock.Marker → Prop} (sustains : keeper.Sustains J fits)
    (acquires : ∀ machine, J machine → (keeper.lock.acquire lockKey).Ends machine
      fun outcome after => J after ∧ ∀ marker, outcome = .ok marker → T marker)
    (releases : ∀ marker machine, T marker → J machine →
      (keeper.lock.release marker).Ends machine fun _ after => J after)
    (h : Attended J fits scene) (c : Change) :
    (keeper.change c).Ends scene fun _ after => Attended J fits after := by
  have ended : (keeper.changeInParts c).Ends scene fun _ after => Attended J fits after := by
    refine .bind (sustains.toBears.prepare h c) (fun task _ h₁ => ?_) fun _ _ h₁ => h₁
    refine .bind (P := fun _ after => Attended J fits after) (.holding (T := fun marker between =>
      J between ∧ T marker) ?_ ?_) (fun result _ h₂ => ?_) fun _ _ h₂ => h₂
    · have acquired := acquires _ h₁.machine
      unfold Action.Ends at acquired ⊢
      rcases he : (keeper.lock.acquire lockKey).exec _ with ⟨failure | marker, between⟩ <;>
        rw [he] at acquired
      · exact ⟨acquired.1, h₁.client⟩
      · exact ⟨acquired.1, acquired.2 marker rfl⟩
    · rintro marker between ⟨hb, taken⟩
      have attended : Attended J fits ⟨_, between⟩ := ⟨hb, h₁.client⟩
      refine (sustains.carryOut attended task).mono fun outcome later hl => ?_
      exact (releases marker _ taken hl.machine).mono fun _ _ ha => ⟨ha, hl.client⟩
    · split_ifs
      · exact h₂.passive sustains.quiet (conclude_passive c)
      · exact .pure h₂
  unfold SessionAction.Ends at ended ⊢
  rwa [change_exec]

end Keeper

end SessionKeeper
