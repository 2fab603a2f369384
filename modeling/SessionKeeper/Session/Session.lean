import SessionKeeper.Schema.Report
import SessionKeeper.Worker.Credential

/-!
# Sessions

A session is either that of an account, named by its DID and unlocked by a
passphrase from the keyserver, or that of a worker. A record of either carries a
tag, and the record in the session index leaves the secret out.
-/
namespace SessionKeeper

structure AccountSession where
  subject : Text
  handle : Text
  passphrase : Option Text
deriving DecidableEq

structure WorkerSession where
  subject : Text
  handle : Text
  worker : Worker
deriving DecidableEq

/-- A session of either kind. -/
inductive Session where
  | account (session : AccountSession)
  | worker (session : WorkerSession)
deriving DecidableEq

namespace AccountSession

/-- The name of the schema in reports. -/
def schema : String := "OAuthSessionData"

def tag : Text := "oauth"

/-- Reads the session of an account; the tag may be left out. -/
def read (value : Json) : Schema.Reading AccountSession := do
  let members ← Schema.record schema value
  let ((), subject, handle, passphrase) ←
    Schema.both (Schema.optional members "session_kind" () (Schema.literal tag))
      (Schema.both (Schema.required members "subject_id" Schema.text)
        (Schema.both (Schema.required members "display_handle" Schema.text)
          (Schema.optional members "derived_secret" none Schema.textOrNull)))
  return ⟨subject, handle, passphrase⟩

def indexRecord (session : AccountSession) : Json :=
  .obj [("session_kind", .str tag), ("subject_id", .str session.subject),
    ("display_handle", .str session.handle)]

end AccountSession

namespace WorkerSession

/-- The name of the schema in reports. -/
def schema : String := "WorkerSessionData"

def tag : Text := "worker"

/-- Reads the session of a worker; the tag may be left out. -/
def read (now : Moment) (value : Json) : Schema.Reading WorkerSession := do
  let members ← Schema.record schema value
  let ((), subject, handle, worker) ←
    Schema.both (Schema.optional members "session_kind" () (Schema.literal tag))
      (Schema.both (Schema.required members "subject_id" Schema.text)
        (Schema.both (Schema.required members "display_handle" Schema.text)
          (Schema.required members "worker_ref" (Worker.read now))))
  return ⟨subject, handle, worker⟩

/-- The session of a worker under the worker's own subject and name. -/
def ofWorker (worker : Worker) : WorkerSession := ⟨Worker.subject worker.id, worker.name, worker⟩

def indexRecord (session : WorkerSession) : Json :=
  .obj [("session_kind", .str tag), ("subject_id", .str session.subject),
    ("display_handle", .str session.handle), ("worker_ref", session.worker.publicRecord)]

end WorkerSession

namespace Session

def subject : Session → Text
  | .account s => s.subject
  | .worker s => s.subject

def handle : Session → Text
  | .account s => s.handle
  | .worker s => s.handle

def tag : Session → Text
  | .account _ => AccountSession.tag
  | .worker _ => WorkerSession.tag

/-- The secret of a session, when it is known. -/
def secret? : Session → Option Text
  | .account s => s.passphrase
  | .worker s => s.worker.secret

def indexRecord : Session → Json
  | .account s => s.indexRecord
  | .worker s => s.indexRecord

/-- Reads a session of the kind that its tag names. -/
def read (now : Moment) (value : Json) : Schema.Reading Session :=
  match value with
  | .obj members =>
    match Assoc.value? members "session_kind" with
    | none => Schema.refuse .unionTagNotFound value
    | some (.str t) =>
      if t = AccountSession.tag then Schema.under t ((AccountSession.read value).map .account)
      else if t = WorkerSession.tag then
        Schema.under t ((WorkerSession.read now value).map .worker)
      else Schema.refuse (.unionTagInvalid t) value
    | some other => Schema.refuse (.unionTagInvalid (Schema.echo other)) value
  | other => Schema.refuse .modelAttributesType other

end Session
end SessionKeeper
