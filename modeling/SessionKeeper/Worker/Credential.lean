import SessionKeeper.Schema.Field
import SessionKeeper.Text.Blank

/-!
# Worker credentials

A worker is an identity that needs no interactive login: an id, a name to show, the
time it was registered and, once it has been fetched from the keychain, a secret.
The stored record never holds the secret.
-/
namespace SessionKeeper

/-- A worker's identity, with its secret when that is known. -/
structure Worker where
  id : Text
  name : Text
  secret : Option Text
  created : Moment
deriving DecidableEq

namespace Worker

/-- The name of the schema in reports. -/
def schema : String := "WorkerCredential"

/-- An id or a name: a text that is not blank, without the blanks around it. -/
def label (value : Json) : Schema.Reading Text := do
  let t ← Schema.text value
  if t.trim.isEmpty then Schema.refuse (.rule "Worker id and name must not be empty") value
  else return t.trim

/-- Reads a credential; one without a time of registration is taken to be registered now. -/
def read (now : Moment) (value : Json) : Schema.Reading Worker := do
  let members ← Schema.record schema value
  let (id, name, secret, created) ←
    Schema.both (Schema.required members "worker_id" label)
      (Schema.both (Schema.required members "public_name" label)
        (Schema.both (Schema.optional members "secret" none Schema.textOrNull)
          (Schema.optional members "created_at" now Schema.moment)))
  return ⟨id, name, secret, created⟩

def make (id name secret : Text) (created : Moment) : Schema.Reading Worker := do
  let (id, name) ← Schema.both (Schema.under "worker_id" (label (.str id)))
    (Schema.under "public_name" (label (.str name)))
  return ⟨id, name, some secret, created⟩

/-- The record that is stored: all of the credential but its secret. -/
def publicRecord (worker : Worker) : Json :=
  .obj [("worker_id", .str worker.id), ("public_name", .str worker.name),
    ("created_at", .str worker.created.storedText)]

def subject (id : Text) : Text := Text.ofString "worker:" ++ id

end Worker
end SessionKeeper
