import SessionKeeper.Text.Utf8

/-!
# Messages to and from the keyserver

A request is a POST with a bearer token; a reply is a status, a body and the name of
its content type. A request that gets no reply ends in a named transport fault.
-/
namespace SessionKeeper.Keyserver

/-- A request as the server sees it. -/
structure Request where
  url : Text
  authorization : Text
  proxy : Option Text
deriving DecidableEq, Repr

/-- What the server answers. -/
structure Reply where
  status : Nat
  body : Octets
  contentType : Option String
deriving DecidableEq, Repr

/-- The end of a request: a reply, or the name of a transport fault. -/
abbrev Outcome := Except String Reply

def Reply.isSuccess (reply : Reply) : Bool := 200 ≤ reply.status && reply.status < 300

end SessionKeeper.Keyserver
