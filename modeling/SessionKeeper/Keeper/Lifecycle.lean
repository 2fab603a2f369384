import SessionKeeper.Keeper.Index

/-!
# The life of a session

Logging in, registering a worker, saving, loading and clearing. Every change is made
while the session lock is held; authorization and the request to the keyserver come
before the lock is taken, since they may take long.
-/
namespace SessionKeeper.Keeper

variable [Runtime]

/-- A session that is kept, with the token record of its account. -/
structure CurrentSession where
  session : Session
  tokens : Option Json

/-- What a sync client needs. -/
structure SyncCredentials where
  account : Text
  secret : Text
deriving DecidableEq, Repr

def authorize (keeper : Keeper) (handle : Text) : SessionAction AccountSession := do
  let client ← keeper.client
  let authorization ← client.authorize handle
  let passphrase ← keeper.keyserver.fetchPassphrase authorization.accessToken?
  return ⟨authorization.subject, handle, some passphrase⟩

/-- Logs an account in. A current session is in the way unless it may be replaced. -/
def login (keeper : Keeper) (handle : Text) (replace : Bool) : SessionAction AccountSession := do
  let handle := handle.trim
  if handle.isEmpty then throw .handleRequired
  match ← keeper.current? with
  | some current => if !replace then throw (.sessionActive current)
  | none => pure ()
  Action.log .info .session "Starting OAuth login"
  let session ← keeper.authorize handle
  keeper.replaceBy (.account session)
  Action.log .info .session "Login complete"
  return session

def registerWorker (keeper : Keeper) (id name secret : Text) : SessionAction WorkerSession := do
  if secret.isEmpty then throw .secretRequired
  let now ← Action.now
  let worker ← Action.ofReading Worker.schema (Worker.make id name secret now)
  let session := WorkerSession.ofWorker worker
  keeper.replaceBy (.worker session)
  Action.log .info .session "Registered worker"
  return session

/-- Stores a session next to those that are there. -/
def save (keeper : Keeper) (session : Session) : SessionAction Unit :=
  keeper.lock.holding lockKey do keeper.persist session

def load (keeper : Keeper) : Action (Option Session) := do
  match ← keeper.current? with
  | none => return none
  | some session => return some (← keeper.hydrate session)

/-- Logs the current session out; the result is the session, if there was one. -/
def clear (keeper : Keeper) : SessionAction (Option Session) := do
  let cleared ← keeper.lock.holding lockKey do
    match ← keeper.current? with
    | none =>
      Action.log .info .session "No active session found"
      return none
    | some session =>
      keeper.drop session
      return some session
  if cleared.isSome then Action.log .info .session "Session cleared"
  return cleared

/-- The current session with its tokens. An account without a token record does not count. -/
def currentSession (keeper : Keeper) : Action (Option CurrentSession) := do
  match ← keeper.load with
  | none => return none
  | some (.worker session) => return some ⟨.worker session, none⟩
  | some (.account session) =>
    match ← keeper.stores.sessions.get? session.subject with
    | none => return none
    | some .null => return none
    | some tokens => return some ⟨.account session, some tokens⟩

/-- An agent for the account that is logged in. -/
def agent (keeper : Keeper) : SessionAction Json := do
  match ← keeper.load with
  | none => throw (.gap .noValidSession)
  | some (.worker _) => throw (.gap .workerHasNoAgent)
  | some (.account session) =>
    let client ← keeper.client
    client.restore session.subject

def syncAccount : Session → Text
  | .account session => session.subject
  | .worker session => session.worker.id

def syncCredentials (keeper : Keeper) : Action SyncCredentials := do
  match ← keeper.load with
  | none => throw (.gap .noValidSession)
  | some session =>
    match session.secret? with
    | none => throw (.gap (.noStoredSecret session.handle))
    | some secret =>
      if secret.isEmpty then throw (.gap (.noStoredSecret session.handle))
      return ⟨syncAccount session, secret⟩

/-- Connects a sync client, which is known by how it is given its account and secret. -/
def connect (keeper : Keeper) (start : SyncCredentials → Action Unit) : Action Unit := do
  let credentials ← keeper.syncCredentials
  Action.log .debug .sync "Initializing sync client"
  start credentials

end SessionKeeper.Keeper
