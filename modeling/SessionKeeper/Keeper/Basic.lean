import SessionKeeper.Keyserver.Client
import SessionKeeper.OAuth.Client
import SessionKeeper.OAuth.MetadataFile
import SessionKeeper.Secret.Backend
import SessionKeeper.Session.Session
import SessionKeeper.Settings.Basic

/-!
# Keepers

A keeper has all that is needed to keep the sessions of a folder: the index of
sessions, the workers, a backend for secrets, the keyserver and the stores of the
OAuth client. The client itself is made when it is first needed and then reused, so
an operation on sessions carries the client along, also when it fails.
-/
namespace SessionKeeper

variable [Runtime]

/-- What sessions are kept with. -/
structure Keeper where
  folder : Path
  secrets : Secret.Backend
  secretService : Text
  keyserver : Keyserver.Client
  factory : OAuth.Factory
  index : Record.Store
  workers : Record.Store
  stores : OAuth.Stores

/-- An operation that may make or use the OAuth client. -/
abbrev SessionAction := ExceptT Failure (StateT (Option OAuth.Client) Script)

/-- Runs an action that has nothing to do with the OAuth client. -/
def Action.lift {α : Type} (action : Action α) : SessionAction α :=
  ExceptT.mk fun client => do
    let outcome ← action.run
    return (outcome, client)

instance : MonadLift Action SessionAction := ⟨Action.lift⟩

/-- Runs an operation on sessions on its own, with no OAuth client before or after it. -/
def SessionAction.alone {α : Type} (action : SessionAction α) : Action α :=
  ExceptT.mk do return (← action.run.run none).1

namespace Keeper

/-- What can be chosen when sessions of a folder are to be kept. Times are in seconds. -/
structure Options where
  factory : OAuth.Factory := OAuth.unavailable
  keyserver : Keyserver.Client := .ofAddress Settings.standardUrl none
  secrets : Option Secret.Backend := none
  secretService : Text := Settings.standardService
  metadata : OAuth.ClientMetadata := .standard
  stateLifetime : Double := .ofInt 3600
  lockStaleAfter : Double := .ofInt 45

def indexName : String := "cli-session.json"

/-- The name of the file with the OAuth client's token sets. -/
def tokensName : String := "oauth-sessions.json"

/-- The name of the file with the state of authorizations under way. -/
def statesName : String := "oauth-states.json"

def workersName : String := "workers.json"

def lockKey : Text := "cli-session"

/-- Goes on with a duration, or stops because the number of seconds is none. -/
def ofDuration : Except DurationFault Duration → Action Duration
  | .ok duration => return duration
  | .error fault => throw (.duration fault)

/-- Makes a keeper for a folder. Without a backend the secrets go to the vault. -/
def make (folder : Path) (options : Options) : Action Keeper := do
  let secrets ← match options.secrets with
    | some backend => pure backend
    | none => Secret.Backend.resolve folder none false
  let staleAfter ← ofDuration (Duration.ofSeconds options.lockStaleAfter)
  let holder : Int ← Action.ask .processId
  let lifetime ← ofDuration (Duration.ofSeconds options.stateLifetime)
  return {
    folder, secrets
    secretService := options.secretService
    keyserver := options.keyserver
    factory := options.factory
    index := ⟨folder.child indexName⟩
    workers := ⟨folder.child workersName⟩
    stores := {
      sessions := ⟨folder.child tokensName⟩
      states := ⟨⟨folder.child statesName⟩, lifetime⟩
      lock := ⟨folder, staleAfter, holder⟩
      metadata := options.metadata } }

/-- Makes a keeper as settings say, with a given way to make the OAuth client and, perhaps,
a given backend. -/
def ofSettings (settings : Settings) (factory : OAuth.Factory)
    (explicit : Option Secret.Backend) : Action Keeper := do
  let secrets ←
    Secret.Backend.resolve settings.folder explicit settings.usePlatformKeychain
  let metadata ← OAuth.ClientMetadata.load settings.folder
  make settings.folder {
    factory, metadata
    keyserver := .ofAddress settings.keyserverUrl (some settings.keyserverProxy)
    secrets := some secrets
    secretService := settings.secretService
    stateLifetime := settings.stateLifetime
    lockStaleAfter := settings.lockStaleAfter }

def lock (keeper : Keeper) : Lock := keeper.stores.lock

/-- What the secrets of workers are kept under. -/
def workerService (keeper : Keeper) : Text := keeper.secretService ++ "-worker"

/-- What the passphrases of accounts are kept under. -/
def passphraseService (keeper : Keeper) : Text := keeper.secretService ++ "-passphrase"

/-- The OAuth client, which is made if there is none yet. -/
def client (keeper : Keeper) : SessionAction OAuth.Client := do
  match ← getThe (Option OAuth.Client) with
  | some client => return client
  | none =>
    let made ← keeper.factory keeper.stores
    set (some made)
    return made

end Keeper
end SessionKeeper
