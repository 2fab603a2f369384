import SessionKeeper.Lock.Basic
import SessionKeeper.OAuth.Authorization
import SessionKeeper.OAuth.ClientMetadata
import SessionKeeper.Record.Expiring

/-!
# The OAuth client

The client that authorizes accounts is a collaborator: it is made from the stores it
may use, and it is known by the three operations that sessions need.
-/
namespace SessionKeeper.OAuth

/-- What an OAuth client is given to work with: token sets by subject, the state of
authorizations under way, the locks and what to tell the server. -/
structure Stores where
  sessions : Record.Store
  states : Record.Expiring
  lock : Lock
  metadata : ClientMetadata

structure Client where
  authorize : (handle : Text) → Action Authorization
  restore : (subject : Text) → Action Json
  revoke : (subject : Text) → Action Unit

/-- How a client is made. -/
abbrev Factory := Stores → Action Client

def unavailable : Factory := fun _ => throw .oauthUnavailable

end SessionKeeper.OAuth
