import SessionKeeper.Proofs.Keeper.LoggedOut
import SessionKeeper.Proofs.Record.Served

/-!
# Credentials for syncing

What a sync client is given is looked up in three places. The index tells the session, the workers
may have another record for its worker, and the backend has the secret. Nothing makes these fit
together, so what is looked up is told here for any content that they have: which session counts,
which account stands for it and what secret is kept for that account. The credentials are these
or there are none, and then no client is started.
-/
namespace SessionKeeper

section

variable [Runtime]

namespace Secret

variable {machine after : Machine} {secrets : Backend} {ledger : Ledger}

/-- What the program's own backends hold: a vault whose file can be read has the secrets that its
entries tell, whatever else stands in the file, and the platform has those of its keychain. -/
inductive Backend.Holding (machine : Machine) : Backend → Ledger → Prop where
  | vault (vault : Vault) (legible : vault.store.IsLegible machine) :
      Holding machine (.ofVault vault) (Vault.ledgerOf (vault.store.entriesOn machine))
  | platform : Holding machine .platform fun service account =>
      machine.keychain.value? (service, account)

namespace Backend.Holding

theorem of_quiet (h : Holding machine secrets ledger) (quiet : machine.Quiet after) :
    Holding after secrets ledger := by
  cases h with
  | vault vault legible =>
    rw [← vault.store.entriesOn_of_quiet quiet]
    exact .vault vault (legible.of_quiet quiet)
  | platform =>
    rw [← quiet.keychain]
    exact .platform

theorem get?_exec (h : Holding machine secrets ledger) (service account : Text) :
    ∃ after, (secrets.get? service account).exec machine = (.ok (ledger service account), after) ∧
      machine.Quiet after := by
  cases h with
  | vault vault legible =>
    obtain ⟨after, read, quiet⟩ := legible.entries_exec
    exact ⟨after, (Action.exec_bind_ok read).trans rfl, quiet⟩
  | platform => exact ⟨machine, rfl, .refl machine⟩

end Backend.Holding

end Secret

namespace Keeper

variable {keeper : Keeper} {machine after : Machine} {ledger : Secret.Ledger}

/-- That a keeper can read its index and its workers, and what its backend holds. -/
structure Opens (keeper : Keeper) (ledger : Secret.Ledger) (machine : Machine) : Prop where
  index : keeper.index.IsLegible machine
  workers : keeper.workers.IsLegible machine
  secrets : Secret.Backend.Holding machine keeper.secrets ledger

theorem Opens.of_quiet (h : keeper.Opens ledger machine) (quiet : machine.Quiet after) :
    keeper.Opens ledger after :=
  ⟨h.index.of_quiet quiet, h.workers.of_quiet quiet, h.secrets.of_quiet quiet⟩

def firstOn (keeper : Keeper) (machine : Machine) : Option Session :=
  (Session.listed machine.now (keeper.index.entriesOn machine)).head?

/-- The worker that is registered under the id of a worker, if its record can be read, and else
the worker itself. -/
def workerOn (keeper : Keeper) (machine : Machine) (worker : Worker) : Worker :=
  (((keeper.workers.entriesOn machine).value? worker.id).bind fun record =>
    (Worker.read machine.now record).toOption).getD worker

/-- The account whose secret counts for a session: its subject, or the id of its worker as it is
registered. -/
def accountOn (keeper : Keeper) (machine : Machine) : Session → Text
  | .account s => s.subject
  | .worker s => (keeper.workerOn machine s.worker).id

/-- That credentials are those of the first session: they name its account, and their secret is
not empty and is the one that the backend holds for this account. -/
def Credits (keeper : Keeper) (ledger : Secret.Ledger) (machine : Machine)
    (credentials : SyncCredentials) : Prop :=
  ∃ session, keeper.firstOn machine = some session ∧
    credentials.account = keeper.accountOn machine session ∧
    ledger (keeper.serviceOf session) credentials.account = some credentials.secret ∧
    credentials.secret ≠ []

/-- The credentials that are to be found, or why there are none. -/
def creditOn (keeper : Keeper) (ledger : Secret.Ledger) (machine : Machine) :
    Except SessionGap SyncCredentials :=
  match keeper.firstOn machine with
  | none => .error .noValidSession
  | some session =>
    match ledger (keeper.serviceOf session) (keeper.accountOn machine session) with
    | none => .error (.noStoredSecret session.handle)
    | some secret =>
      if secret.isEmpty then .error (.noStoredSecret session.handle)
      else .ok ⟨keeper.accountOn machine session, secret⟩

theorem creditOn_eq_ok (credentials : SyncCredentials) :
    keeper.creditOn ledger machine = .ok credentials ↔ keeper.Credits ledger machine credentials := by
  obtain ⟨account, secret⟩ := credentials
  rw [creditOn, Credits]
  cases keeper.firstOn machine with
  | none => simp
  | some session =>
    simp only [Option.some.injEq, exists_eq_left']
    cases held : ledger (keeper.serviceOf session) (keeper.accountOn machine session) with
    | none =>
      refine ⟨nofun, ?_⟩
      rintro ⟨rfl, told, -⟩
      rw [held] at told
      nomatch told
    | some found =>
      dsimp only
      split_ifs with blank
      · refine ⟨nofun, ?_⟩
        rintro ⟨rfl, told, known⟩
        rw [held] at told
        exact known ((Option.some.inj told).symm.trans (List.isEmpty_iff.mp blank))
      · constructor
        · intro same
          obtain ⟨rfl, rfl⟩ := SyncCredentials.mk.inj (Except.ok.inj same)
          exact ⟨rfl, held, fun none_left => blank (List.isEmpty_iff.mpr none_left)⟩
        · rintro ⟨rfl, told, -⟩
          rw [held] at told
          rw [Option.some.inj told]

theorem Opens.current?_exec (h : keeper.Opens ledger machine) :
    ∃ after, keeper.current?.exec machine = (.ok (keeper.firstOn machine), after) ∧
      machine.Quiet after := by
  obtain ⟨between, found, quiet⟩ := h.index.entries_exec
  obtain ⟨after, current, more⟩ := current?_of_entries found
  exact ⟨after, current, quiet.trans more⟩

theorem Opens.registered_exec (h : keeper.Opens ledger machine) (worker : Worker) :
    ∃ after, (keeper.registered worker).exec machine = (.ok (keeper.workerOn machine worker), after) ∧
      machine.Quiet after := by
  obtain ⟨between, found, quiet⟩ := h.workers.get?_exec worker.id
  rw [registered, Action.exec_bind_ok found, workerOn]
  split
  · rename_i none_there
    rw [none_there]
    exact ⟨between, rfl, quiet⟩
  · rename_i null_there
    rw [null_there]
    exact ⟨between, rfl, quiet⟩
  · rename_i record _ there
    rw [there, Action.exec_bind_ok (Action.exec_now between), quiet.circumstances.now,
      Option.bind_some]
    cases Worker.read machine.now record with
    | ok found => exact ⟨between, rfl, quiet⟩
    | error issues => exact ⟨_, rfl, quiet.trans (.of_passive (.log _ _ _) between)⟩

theorem Opens.hydrate_exec (h : keeper.Opens ledger machine) (session : Session) :
    ∃ loaded after, (keeper.hydrate session).exec machine = (.ok loaded, after) ∧
      machine.Quiet after ∧ loaded.handle = session.handle ∧
      syncAccount loaded = keeper.accountOn machine session ∧
      loaded.secret? = ledger (keeper.serviceOf session) (keeper.accountOn machine session) := by
  cases session with
  | account s =>
    obtain ⟨after, told, quiet⟩ := h.secrets.get?_exec keeper.passphraseService s.subject
    exact ⟨_, after, (Action.exec_bind_ok told).trans rfl, quiet, rfl, rfl, rfl⟩
  | worker s =>
    obtain ⟨between, found, quiet⟩ := h.registered_exec s.worker
    obtain ⟨later, told, more⟩ := (h.of_quiet quiet).secrets.get?_exec keeper.workerService
      (keeper.workerOn machine s.worker).id
    let loaded : Session := .worker { s with worker := { keeper.workerOn machine s.worker with
      secret := ledger keeper.workerService (keeper.workerOn machine s.worker).id } }
    obtain ⟨after, noted, most⟩ := noted_exec
      (ledger keeper.workerService (keeper.workerOn machine s.worker).id) loaded later
    refine ⟨loaded, after, ?_, (quiet.trans more).trans most, rfl, rfl, rfl⟩
    rw [hydrate, Action.exec_bind_ok found, Action.exec_bind_ok told]
    exact noted

/-- The credentials that are told are those that are to be found. -/
theorem Opens.syncCredentials_exec (h : keeper.Opens ledger machine) :
    ∃ after, keeper.syncCredentials.exec machine =
      ((keeper.creditOn ledger machine).mapError Failure.gap, after) ∧ machine.Quiet after := by
  obtain ⟨between, current, quiet⟩ := h.current?_exec
  rw [syncCredentials, creditOn]
  cases first : keeper.firstOn machine with
  | none =>
    have loaded : keeper.load.exec machine = (.ok none, between) := by
      rw [load, Action.exec_bind_ok current, first]
      rfl
    rw [Action.exec_bind_ok loaded]
    exact ⟨between, rfl, quiet⟩
  | some session =>
    obtain ⟨full, after, hydrated, more, handle, account, secret⟩ :=
      (h.of_quiet quiet).hydrate_exec session
    have same : keeper.accountOn between session = keeper.accountOn machine session := by
      cases session with
      | account s => rfl
      | worker s =>
        rw [accountOn, accountOn, workerOn, workerOn, keeper.workers.entriesOn_of_quiet quiet,
          quiet.circumstances.now]
    have loaded : keeper.load.exec machine = (.ok (some full), after) := by
      rw [load, Action.exec_bind_ok current, first]
      exact (Action.exec_bind_ok hydrated).trans rfl
    rw [same] at account secret
    rw [Action.exec_bind_ok loaded]
    refine ⟨after, ?_, quiet.trans more⟩
    dsimp only
    rw [← secret, ← account, ← handle]
    cases full.secret? with
    | none => rfl
    | some found =>
      dsimp only
      split_ifs <;> rfl

/-- Connecting starts the client with the credentials that are to be found, once and with all the
rest of the time for the client, and it starts none where there are none. -/
theorem Opens.connect_exec (h : keeper.Opens ledger machine) :
    ∃ ready, machine.Quiet ready ∧ ∀ start, (keeper.connect start).exec machine =
      match keeper.creditOn ledger machine with
      | .ok credentials => (start credentials).exec ready
      | .error gap => (.error (.gap gap), ready) := by
  obtain ⟨between, told, quiet⟩ := h.syncCredentials_exec
  cases credit : keeper.creditOn ledger machine with
  | ok credentials =>
    rw [credit] at told
    refine ⟨_, quiet.trans (.of_passive (.log .debug .sync "Initializing sync client") between),
      fun start => ?_⟩
    exact (Action.exec_bind_ok told).trans (Action.exec_bind_ok rfl)
  | error gap =>
    rw [credit] at told
    exact ⟨between, quiet, fun start => Action.exec_bind_error told⟩

/-- Whatever the index, the workers and the backend hold, as long as their files can be read: the
credentials that are told are those of the account of the first session, with the secret that the
backend holds for this very account under the service of its kind, and this is not empty. Where
there are no such credentials it is told that a session or its secret is missing, and nothing else
goes wrong. Connecting is starting the client once with these credentials, on a machine with the
same files and secrets, and without them no client is started. -/
theorem credentials_are_of_one_account (opens : keeper.Opens ledger machine) :
    (∀ credentials, (keeper.syncCredentials.exec machine).1 = .ok credentials ↔
      keeper.Credits ledger machine credentials) ∧
    (∀ failure, (keeper.syncCredentials.exec machine).1 = .error failure →
      ∃ gap, failure = .gap gap) ∧
    machine.Quiet (keeper.syncCredentials.exec machine).2 ∧
    ∃ ready, machine.Quiet ready ∧
      (∀ credentials, keeper.Credits ledger machine credentials →
        ∀ start, (keeper.connect start).exec machine = (start credentials).exec ready) ∧
      ((¬ ∃ credentials, keeper.Credits ledger machine credentials) →
        ∃ gap, ∀ start, (keeper.connect start).exec machine = (.error (.gap gap), ready)) := by
  obtain ⟨after, told, quiet⟩ := opens.syncCredentials_exec
  obtain ⟨ready, still, connected⟩ := opens.connect_exec
  rw [told]
  refine ⟨fun credentials => ?_, fun failure failed => ?_, quiet, ready, still,
    fun credentials credited start => ?_, fun none_left => ?_⟩
  · rw [← creditOn_eq_ok]
    cases keeper.creditOn ledger machine with
    | ok found =>
      exact ⟨fun h => congrArg Except.ok (Except.ok.inj h), fun h => congrArg Except.ok (Except.ok.inj h)⟩
    | error gap => exact ⟨nofun, nofun⟩
  · cases credit : keeper.creditOn ledger machine with
    | ok found =>
      rw [credit] at failed
      nomatch failed
    | error gap =>
      rw [credit] at failed
      exact ⟨gap, (Except.error.inj failed).symm⟩
  · rw [connected, (creditOn_eq_ok credentials).mpr credited]
  · cases credit : keeper.creditOn ledger machine with
    | ok found => exact absurd ⟨found, (creditOn_eq_ok found).mp credit⟩ none_left
    | error gap =>
      rw [credit] at connected
      exact ⟨gap, connected⟩

end Keeper

end

namespace Keeper

open scoped SessionKeeper.Runtime

/-- The machine with a record file in its folder. -/
def withEntries (machine : Machine) (name : String) (entries : Assoc Text Json) : Machine :=
  Ground.withFile machine ["home"] name Record.privateMode
    (Record.octetsIn (.obj entries))

/-- The session of a worker `a`. -/
def crossedSession : Session :=
  .worker ⟨"worker:a", "A", ⟨"a", "A", none, Machine.bare.now⟩⟩

/-- A folder where the record of the worker `a`, whose session is the current one, names the worker
`b`, and where both have secrets. -/
def crossedWorkers : Machine :=
  let index := withEntries .bare indexName [("worker:a", crossedSession.indexRecord)]
  let workers := withEntries index workersName
    [("a", Worker.publicRecord ⟨"b", "B", none, Machine.bare.now⟩)]
  withEntries workers Secret.Vault.fileName
    [("roomy-cli-worker", .obj [("a", .str "one"), ("b", .str "two")])]

/-- What the vault of that folder has. -/
def crossedLedger : Secret.Ledger :=
  Secret.Vault.ledgerOf ((Secret.Vault.inFolder ⟨"/", ["home"]⟩).store.entriesOn crossedWorkers)

theorem credentials_of_crossedWorkers : plainKeeper.Opens crossedLedger crossedWorkers ∧
    (plainKeeper.syncCredentials.exec crossedWorkers).1 = .ok ⟨"b", "two"⟩ := by
  have made := plainKeeper_storesIn.1
  have opens : plainKeeper.Opens crossedLedger crossedWorkers := by
    refine ⟨?_, ?_, ?_⟩
    · rw [made.index]
      exact Record.Store.isLegible_of_isOk rfl (by decide +kernel)
    · rw [made.workers]
      exact Record.Store.isLegible_of_isOk rfl (by decide +kernel)
    · rw [made.secrets]
      exact .vault _ (Record.Store.isLegible_of_isOk rfl (by decide +kernel))
  have credited : plainKeeper.Credits crossedLedger crossedWorkers ⟨"b", "two"⟩ :=
    ⟨crossedSession, by decide +kernel, by decide +kernel, by decide +kernel, by decide⟩
  exact ⟨opens, ((credentials_are_of_one_account opens).1 _).mpr credited⟩

end Keeper

end SessionKeeper
