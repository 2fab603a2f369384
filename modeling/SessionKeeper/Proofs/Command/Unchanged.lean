import SessionKeeper.Proofs.Command.Looking
import SessionKeeper.Proofs.Keeper.Backends

/-!
# Operations that change nothing

Loading a session, listing workers and looking one up, and the commands that show the session, the
workers, the locks or the authorizations under way leave all files, folders and permissions and the
keychain as they are. That holds of every moment on the way and not only of the end, whatever stands
in the folder and however the operation ends: no folder is made and removed again, no lock is
taken, and what has expired or is corrupt stays where it is.
-/
namespace SessionKeeper

def Request.IsReading : Request → Prop
  | .readFile _ => True
  | .keychainGet .. => True
  | .post _ => True
  | .emit _ => True
  | request => request.IsGlance

theorem Request.glances_reading : Request.Glances Request.IsReading := by
  intro request glance
  cases request <;> trivial

theorem Machine.answer_reading (machine : Machine) {request : Request} (h : request.IsReading) :
    (machine.answer request).2.belongings = machine.belongings := by
  cases request <;> first | rfl | exact h.elim

/-- That an operation leaves all files and the keychain as they are, at every moment. The last
machine that it passes through is the one that it leaves. -/
def Action.ChangesNothing {α : Type} (action : Action α) : Prop :=
  ∀ machine, action.Passes machine fun m => m.belongings = machine.belongings

/-- So does an operation on sessions, started with one of the clients that are told. -/
def SessionAction.ChangesNothing {α : Type} (action : SessionAction α)
    (clients : OAuth.Client → Prop) : Prop :=
  ∀ scene : Scene, (∀ client, scene.client = some client → clients client) →
    action.Passes scene fun m => m.belongings = scene.machine.belongings

namespace Action.ChangesNothing

variable {α β : Type}

theorem pure (a : α) : (Pure.pure a : Action α).ChangesNothing := fun _ => .pure a

theorem throw (failure : Failure) :
    (MonadExcept.throw failure : Action α).ChangesNothing := fun _ => .throw failure

theorem passes {x : Action α} (h : x.ChangesNothing) {machine other : Machine}
    (same : machine.belongings = other.belongings) :
    x.Passes machine fun m => m.belongings = other.belongings :=
  (h machine).mono fun _ => (·.trans same)

theorem isPassive {x : Action α} (h : x.ChangesNothing) : x.IsPassive :=
  fun machine => (h machine).exec rfl

theorem bind {x : Action α} {f : α → Action β} (hx : x.ChangesNothing)
    (hf : ∀ a, (f a).ChangesNothing) : (x >>= f).ChangesNothing :=
  fun machine => (hx machine).bind_after rfl fun a _ same => (hf a).passes same

/-- What follows has to change nothing for results that the first part can have. -/
theorem bind_yielded {x : Action α} {f : α → Action β} {P : α → Prop} (hx : x.ChangesNothing)
    (yields : ∀ machine, x.Yields machine fun a _ => P a)
    (hf : ∀ a, P a → (f a).ChangesNothing) : (x >>= f).ChangesNothing := by
  intro machine
  refine (hx machine).bind fun a after he => (hf a (yields machine a after he)).passes ?_
  have left := hx.isPassive machine
  rwa [he] at left

theorem tryCatch {x : Action α} {handle : Failure → Action α} (hx : x.ChangesNothing)
    (hh : ∀ failure, (handle failure).ChangesNothing) :
    (MonadExcept.tryCatch x handle : Action α).ChangesNothing := by
  intro machine
  refine (hx machine).tryCatch fun failure after he => (hh failure).passes ?_
  have left := hx.isPassive machine
  rwa [he] at left

theorem of_asks {x : Action α} (h : x.Asks Request.IsReading) : x.ChangesNothing := by
  intro machine
  suffices general : ∀ (script : Script (Except Failure α)) (m : Machine),
      script.Asks Request.IsReading → m.belongings = machine.belongings →
      script.Passes m fun m => m.belongings = machine.belongings from general x.run machine h rfl
  intro script
  induction script with
  | done outcome => exact fun _ _ _ => .done outcome
  | ask request next ih =>
    intro m asks same
    have kept := (m.answer_reading asks.1).trans same
    exact .ask kept (ih _ _ (asks.2 _) kept)

/-- An operation on sessions that never meets a client changes nothing on its own either. -/
theorem alone {x : SessionAction α} (h : x.ChangesNothing fun _ => True) :
    x.alone.ChangesNothing :=
  fun machine => Script.Passes.bind (h ⟨none, machine⟩ fun _ _ => trivial) fun _ _ _ => .done _

end Action.ChangesNothing

namespace SessionAction.ChangesNothing

variable {α β : Type} {clients : OAuth.Client → Prop}

theorem bind_lift {x : Action α} {f : α → SessionAction β} (hx : x.ChangesNothing)
    (hf : ∀ a, (f a).ChangesNothing clients) :
    ((liftM x : SessionAction α) >>= f).ChangesNothing clients := by
  intro scene known
  refine .bind_lift (hx scene.machine) fun a after he => ?_
  have left := hx.isPassive scene.machine
  rw [he] at left
  exact (hf a ⟨scene.client, after⟩ known).mono fun _ => (·.trans left)

theorem throw (failure : Failure) :
    (MonadExcept.throw failure : SessionAction α).ChangesNothing clients :=
  fun _ _ => .throw failure

theorem pure (a : α) : (Pure.pure a : SessionAction α).ChangesNothing clients := fun _ _ => .pure a

end SessionAction.ChangesNothing

open Request (glances_reading)
open SessionKeeper.Action (ChangesNothing)

/-- That looking up secrets changes nothing. -/
def Secret.Backend.LooksUp (secrets : Secret.Backend) : Prop :=
  ∀ service account, (secrets.get? service account).ChangesNothing

/-- That restoring a session changes nothing. -/
def OAuth.Client.OnlyRestores (client : OAuth.Client) : Prop :=
  ∀ subject, (client.restore subject).ChangesNothing

/-- That making a client changes nothing, and that clients are made of which restoring a session
changes nothing. -/
structure OAuth.Factory.OnlyRestores (factory : OAuth.Factory) : Prop where
  makes : ∀ stores, (factory stores).ChangesNothing
  made : ∀ stores machine client after, (factory stores).exec machine = (.ok client, after) →
    client.OnlyRestores

section

variable [Runtime]

/-- Looking up a secret in a vault or in the keychain of the platform changes nothing. -/
theorem Secret.Backend.IsKnown.looksUp {secrets : Secret.Backend} (h : secrets.IsKnown) :
    secrets.LooksUp := by
  intro service account
  cases h with
  | vault vault =>
    exact .of_asks ((Record.Store.entries_asks glances_reading.logs trivial).bind fun _ => .pure _)
  | platform => exact .of_asks (.ask trivial)

namespace Keeper

variable {keeper : Keeper}

theorem current?_changesNothing (keeper : Keeper) : keeper.current?.ChangesNothing :=
  .of_asks (current?_asks glances_reading.logs trivial trivial)

theorem hydrate_changesNothing (secrets : keeper.secrets.LooksUp) (session : Session) :
    (keeper.hydrate session).ChangesNothing := by
  unfold hydrate
  cases session with
  | account s => exact (secrets _ _).bind fun _ => .pure _
  | worker s =>
    have registered : (keeper.registered s.worker).ChangesNothing :=
      .of_asks (registered_asks glances_reading.logs trivial trivial _)
    refine registered.bind fun worker => (secrets _ _).bind fun secret => ?_
    have warns : (Action.log .warning .session "Worker secret is missing").ChangesNothing :=
      .of_asks (.ask trivial)
    dsimp only
    split
    · exact warns.bind fun _ => .pure _
    · exact .pure _

theorem load_changesNothing (secrets : keeper.secrets.LooksUp) : keeper.load.ChangesNothing := by
  refine (current?_changesNothing keeper).bind fun found => ?_
  split
  · exact .pure _
  · exact (hydrate_changesNothing secrets _).bind fun _ => .pure _

theorem currentSession_changesNothing (secrets : keeper.secrets.LooksUp) :
    keeper.currentSession.ChangesNothing := by
  refine (load_changesNothing secrets).bind fun found => ?_
  split
  · exact .pure _
  · exact .pure _
  · have tokens (subject : Text) : (keeper.stores.sessions.get? subject).ChangesNothing :=
      .of_asks (Record.Store.get?_asks glances_reading.logs trivial _)
    refine (tokens _).bind fun found => ?_
    split <;> exact .pure _

theorem syncCredentials_changesNothing (secrets : keeper.secrets.LooksUp) :
    keeper.syncCredentials.ChangesNothing := by
  refine (load_changesNothing secrets).bind fun found => ?_
  split
  · exact .throw _
  · split
    · exact .throw _
    · split
      · exact .throw _
      · exact .pure _

theorem listWorkers_changesNothing (keeper : Keeper) : keeper.listWorkers.ChangesNothing :=
  .of_asks (listWorkers_asks glances_reading trivial)

theorem getWorker_changesNothing (secrets : keeper.secrets.LooksUp) (idOrName : Text) :
    (keeper.getWorker idOrName).ChangesNothing := by
  refine (listWorkers_changesNothing keeper).bind fun workers => ?_
  dsimp only
  split
  · exact .pure _
  · exact (secrets _ _).bind fun _ => .pure _

/-- An agent comes from the client there is or from one that is made. -/
theorem agent_changesNothing (secrets : keeper.secrets.LooksUp)
    (restores : keeper.factory.OnlyRestores) :
    keeper.agent.ChangesNothing OAuth.Client.OnlyRestores := by
  have restored (subject : Text) : (do (← keeper.client).restore subject :
      SessionAction Json).ChangesNothing OAuth.Client.OnlyRestores := by
    rintro ⟨found, machine⟩ known
    have makes := restores.makes keeper.stores
    refine .bind (client_passes (makes machine)) fun client later after he => ?_
    cases found with
    | some there =>
      cases he
      exact .lift (known _ rfl subject machine)
    | none =>
      rw [client_exec_none] at he
      rcases hm : (keeper.factory keeper.stores).exec machine with ⟨failure | made, between⟩ <;>
        rw [hm] at he
      · cases he
      · cases he
        have left := makes.isPassive machine
        rw [hm] at left
        exact .lift ((restores.made _ _ _ _ hm subject).passes left)
  refine .bind_lift (load_changesNothing secrets) fun found => ?_
  split
  · exact .throw _
  · exact .throw _
  · exact restored _

/-- A keeper made as settings say looks up its secrets without changing anything. -/
theorem ofSettings_looksUp (settings : Settings) (factory : OAuth.Factory) (machine : Machine) :
    (ofSettings settings factory none).Yields machine fun keeper _ => keeper.secrets.LooksUp := by
  refine (ofSettings_yields settings factory machine).mono fun keeper _ chosen => ?_
  obtain chosen | chosen := chosen
  · rw [chosen]
    exact (Secret.Backend.IsKnown.vault _).looksUp
  · rw [chosen]
    exact Secret.Backend.IsKnown.platform.looksUp

end Keeper

namespace Command

/-- That a command line asks for a report on locks, sessions or authorizations at most. -/
def IsReportLine (words : List Text) : Prop :=
  ∀ name found, diagnosisProgram.read words = .ok (some (name, found)) →
    Diagnosis.ofName name ≠ .pruneLocks

theorem Account.perform_changesNothing {keeper : Keeper} (secrets : keeper.secrets.LooksUp)
    {command : Account} (looking : command.IsLooking) :
    (command.perform keeper).ChangesNothing fun _ => True := by
  have prints (document : Json) : (printDocument document).ChangesNothing :=
    .of_asks (printDocument_asks (fun _ => trivial) document)
  obtain rfl | rfl := looking
  · refine .bind_lift (Keeper.load_changesNothing secrets) fun found => ?_
    split
    · exact .throw _
    · exact .bind_lift (prints _) fun _ => .pure _
  · exact .bind_lift (Keeper.listWorkers_changesNothing keeper) fun workers =>
      .bind_lift (prints _) fun _ => .pure _

theorem runAccount_changesNothing (factory : OAuth.Factory) {words : List Text}
    (looking : IsLookingLine words) : (runAccount factory words).ChangesNothing := by
  have emits (output : Output) : (Action.ask (.emit output)).ChangesNothing :=
    .of_asks (.ask trivial)
  unfold runAccount
  split
  · exact (emits _).bind fun _ => (emits _).bind fun _ => .pure _
  · exact (emits _).bind fun _ => .pure _
  · rename_i name found read
    have loads : Settings.loadResolved.ChangesNothing :=
      .of_asks (Settings.loadResolved_asks glances_reading.asides trivial trivial)
    refine loads.bind fun settings => (emits _).bind fun _ => .tryCatch ?_ fun failure =>
      .of_asks (Account.explain_asks (fun _ => trivial) failure)
    refine .bind_yielded (.of_asks (Keeper.ofSettings_asks glances_reading.asides trivial trivial factory none))
      (Keeper.ofSettings_looksUp settings factory) fun keeper secrets => ?_
    exact .alone (Account.perform_changesNothing secrets (looking name found read))

theorem runDiagnosis_changesNothing {words : List Text} (reports : IsReportLine words) :
    (runDiagnosis words).ChangesNothing := by
  have emits (output : Output) : (Action.ask (.emit output)).ChangesNothing :=
    .of_asks (.ask trivial)
  unfold runDiagnosis
  split
  · exact (emits _).bind fun _ => (emits _).bind fun _ => .pure _
  · exact (emits _).bind fun _ => .pure _
  · rename_i name found read
    have loads : Settings.load.ChangesNothing :=
      .of_asks (Settings.load_asks glances_reading.asides trivial trivial)
    have makes (settings : Settings) :
        (Keeper.ofSettings settings OAuth.unavailable none).ChangesNothing :=
      .of_asks (Keeper.ofSettings_asks glances_reading.asides trivial trivial _ _)
    refine loads.bind fun settings => (makes settings).bind fun keeper => ?_
    have examines : ((Diagnosis.ofName name).examine keeper).ChangesNothing :=
      .of_asks (Diagnosis.examine_asks glances_reading (fun _ _ => trivial) trivial trivial trivial
        (reports name found read))
    have prints (document : Json) : (Account.printDocument document).ChangesNothing :=
      .of_asks (Account.printDocument_asks (fun _ => trivial) document)
    exact examines.bind fun report => (prints report).bind fun _ => .pure _

end Command

/-- Reading changes nothing. Whatever stands in the folder and in the keychain, no file, folder or
permission and no entry of the keychain differs at any moment while a keeper is made, while one
whose backend looks up secrets without a change loads the session, tells the current one or its
credentials, or lists or finds workers, while a command that looks or reports runs, and, where
restoring a session changes nothing, while an agent is obtained. A keeper made as settings say has
such a backend. -/
theorem looking_changes_nothing :
    (∀ folder options, (Keeper.make folder options).ChangesNothing) ∧
      (∀ settings factory explicit,
        (Keeper.ofSettings settings factory explicit).ChangesNothing) ∧
      (∀ settings factory machine, (Keeper.ofSettings settings factory none).Yields machine
        fun keeper _ => keeper.secrets.LooksUp) ∧
      (∀ keeper : Keeper, keeper.secrets.LooksUp →
        keeper.load.ChangesNothing ∧ keeper.currentSession.ChangesNothing ∧
          keeper.syncCredentials.ChangesNothing ∧ keeper.listWorkers.ChangesNothing ∧
          (∀ idOrName, (keeper.getWorker idOrName).ChangesNothing) ∧
          (keeper.factory.OnlyRestores →
            keeper.agent.ChangesNothing OAuth.Client.OnlyRestores)) ∧
      (∀ factory words, Command.IsLookingLine words →
        (Command.runAccount factory words).ChangesNothing) ∧
      ∀ words, Command.IsReportLine words → (Command.runDiagnosis words).ChangesNothing := by
  have made (folder : Path) (options : Keeper.Options) :
      (Keeper.make folder options).ChangesNothing :=
    .of_asks (Keeper.make_asks glances_reading.asides folder options)
  have asSettingsSay (settings : Settings) (factory : OAuth.Factory)
      (explicit : Option Secret.Backend) :
      (Keeper.ofSettings settings factory explicit).ChangesNothing :=
    .of_asks (Keeper.ofSettings_asks glances_reading.asides trivial trivial factory explicit)
  refine ⟨made, asSettingsSay, Keeper.ofSettings_looksUp, fun keeper secrets => ?_,
    fun factory _ => Command.runAccount_changesNothing factory,
    fun _ => Command.runDiagnosis_changesNothing⟩
  exact ⟨Keeper.load_changesNothing secrets, Keeper.currentSession_changesNothing secrets,
    Keeper.syncCredentials_changesNothing secrets, Keeper.listWorkers_changesNothing keeper,
    Keeper.getWorker_changesNothing secrets, Keeper.agent_changesNothing secrets⟩

def tokenClient (stores : OAuth.Stores) : OAuth.Client where
  authorize _ := throw .oauthUnavailable
  restore subject := do return (← stores.sessions.get? subject).getD .null
  revoke := stores.sessions.remove

theorem tokenClient_onlyRestores (stores : OAuth.Stores) : (tokenClient stores).OnlyRestores :=
  fun subject => .of_asks ((Record.Store.get?_asks glances_reading.logs trivial subject).bind
    fun _ => .pure _)

theorem tokenFactory_onlyRestores :
    OAuth.Factory.OnlyRestores fun stores => return tokenClient stores := by
  refine ⟨fun stores => .pure _, ?_⟩
  rintro stores machine _ _ ⟨⟩
  exact tokenClient_onlyRestores stores

omit [Runtime] in
theorem isReportLine_states : Command.IsReportLine ["states"] := by
  intro name found read
  have told : Command.diagnosisProgram.read ["states"] = .ok (some ("states", .none)) := rfl
  rw [told] at read
  obtain ⟨⟩ := read
  decide

end

open scoped SessionKeeper.Runtime

/-- A keeper with the keychain of the platform and a client that looks up tokens. -/
def onlooker : Keeper where
  folder := ⟨"/", ["home"]⟩
  secrets := .platform
  secretService := Settings.standardService
  keyserver := .ofAddress Settings.standardUrl none
  factory stores := return tokenClient stores
  index := ⟨⟨"/", ["home", Keeper.indexName]⟩⟩
  workers := ⟨⟨"/", ["home", Keeper.workersName]⟩⟩
  stores := {
    sessions := ⟨⟨"/", ["home", Keeper.tokensName]⟩⟩
    states := ⟨⟨⟨"/", ["home", Keeper.statesName]⟩⟩, ⟨3600000000⟩⟩
    lock := ⟨⟨"/", ["home"]⟩, ⟨45000000⟩, 1⟩
    metadata := .standard }

/-- An onlooker obtains an agent without a change, and so run a command that looks and one that
reports. -/
theorem onlooker_changes_nothing :
    onlooker.agent.ChangesNothing OAuth.Client.OnlyRestores ∧
      (Command.runAccount onlooker.factory ["whoami"]).ChangesNothing ∧
      (Command.runDiagnosis ["states"]).ChangesNothing := by
  obtain ⟨-, -, -, keeps, looks, reports⟩ := looking_changes_nothing
  exact ⟨(keeps onlooker Secret.Backend.IsKnown.platform.looksUp).2.2.2.2.2
    tokenFactory_onlyRestores, looks _ _ Command.isLookingLine_whoami,
    reports _ isReportLine_states⟩

end SessionKeeper
