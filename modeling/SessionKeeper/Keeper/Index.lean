import SessionKeeper.Keeper.Basic

/-!
# The session index

The index holds one record for each session, of which the first valid one is the
current session. Here is how records become sessions again, and what belongs to
making a session current and to dropping it.
-/
namespace SessionKeeper.Keeper

variable [Runtime]

/-- The results of reading each value, with a warning for every one that does not fit. -/
def readAll {α : Type} (read : Json → Schema.Reading α) (warning : String) :
    List Json → Action (List α)
  | [] => return []
  | value :: rest => do
    match read value with
    | .ok a => return a :: (← readAll read warning rest)
    | .error _ =>
      Action.log .warning .session warning
      readAll read warning rest

/-- The sessions of the index, without their secrets. -/
def indexed (keeper : Keeper) : Action (List Session) := do
  let now ← Action.now
  let entries ← keeper.index.entries
  readAll (Session.read now) "Skipping malformed session record" (entries.map Prod.snd)

/-- The current session, without its secret. -/
def current? (keeper : Keeper) : Action (Option Session) := do
  match ← keeper.indexed with
  | [] => return none
  | [only] => return some only
  | first :: _ :: _ =>
    Action.log .warning .session "Session index holds more than one session; using the first"
    return some first

/-- The worker of a session as it is registered now; the session's own one where there is no
valid record. -/
def registered (keeper : Keeper) (worker : Worker) : Action Worker := do
  match ← keeper.workers.get? worker.id with
  | none => return worker
  | some .null => return worker
  | some record =>
    match Worker.read (← Action.now) record with
    | .ok found => return found
    | .error _ =>
      Action.log .warning .session "Ignoring malformed worker record"
      return worker

def hydrate (keeper : Keeper) : Session → Action Session
  | .worker session => do
    let worker ← keeper.registered session.worker
    let secret ← keeper.secrets.get? keeper.workerService worker.id
    if secret.isNone then Action.log .warning .session "Worker secret is missing"
    return .worker { session with worker := { worker with secret } }
  | .account session => do
    let passphrase ← keeper.secrets.get? keeper.passphraseService session.subject
    return .account { session with passphrase }

def storeSecret (keeper : Keeper) (service account : Text) : Option Text → Action Unit
  | some secret => if secret.isEmpty then pure () else keeper.secrets.put service account secret
  | none => pure ()

/-- Stores all parts of a session, its index record last. -/
def persist (keeper : Keeper) (session : Session) : Action Unit := do
  match session with
  | .worker s =>
    keeper.workers.put s.worker.id s.worker.publicRecord
    keeper.storeSecret keeper.workerService s.worker.id s.worker.secret
  | .account s => keeper.storeSecret keeper.passphraseService s.subject s.passphrase
  keeper.index.put session.subject session.indexRecord

/-- Has the OAuth client revoke the tokens of a subject. Without a client they are only
forgotten. -/
def dropTokens (keeper : Keeper) (subject : Text) : SessionAction Unit := do
  let made ← tryCatchThe Failure (do return some (← keeper.client)) fun
    | .oauthUnavailable => pure none
    | failure => throw failure
  match made with
  | some client => client.revoke subject
  | none => keeper.stores.sessions.remove subject

/-- Drops a session. A worker stays registered; of an account nothing is left. -/
def drop (keeper : Keeper) (session : Session) : SessionAction Unit := do
  keeper.index.remove session.subject
  match session with
  | .worker _ => pure ()
  | .account s =>
    keeper.secrets.remove keeper.passphraseService s.subject
    keeper.dropTokens s.subject

def dropOthers (keeper : Keeper) (subject : Text) : List Session → SessionAction Unit
  | [] => pure ()
  | other :: rest => do
    if other.subject ≠ subject then
      Action.log .info .session "Replacing current session"
      keeper.drop other
    keeper.dropOthers subject rest

/-- Makes a session the only one, with the session lock held all the while. -/
def replaceBy (keeper : Keeper) (session : Session) : SessionAction Unit :=
  keeper.lock.holding lockKey do
    keeper.dropOthers session.subject (← keeper.indexed)
    keeper.persist session

end SessionKeeper.Keeper
