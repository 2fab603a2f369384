import SessionKeeper.Json.Reader
import SessionKeeper.Keyserver.Url
import SessionKeeper.Script.Basic
import SessionKeeper.Text.Blank
import SessionKeeper.Text.Charset

/-!
# The keyserver

The keyserver derives a passphrase from an access token. Whatever goes wrong between
the request and a passphrase that is not empty has one face, a failure that names
its cause.
-/
namespace SessionKeeper.Keyserver

/-- How to reach the keyserver. -/
structure Client where
  baseUrl : Text
  proxy : Option Text
deriving DecidableEq, Repr

namespace Client

variable [Runtime]

/-- The keyserver at an address, with slashes at its end left out. -/
def ofAddress (address : Text) (proxy : Option Text) : Client :=
  ⟨address.dropTrailing '/', proxy⟩

def request (client : Client) (token : Text) : Request where
  url := Url.below client.baseUrl "/passphrase"
  authorization := Text.ofString "Bearer " ++ token
  proxy := match client.proxy with
    | some proxy => if proxy.isEmpty then none else some proxy
    | none => none

/-- The header values of a request that are not ASCII cannot be sent. -/
def unsendable? (request : Request) : Option Unencodable :=
  match Unencodable.ascii? request.authorization with
  | some flaw => some flaw
  | none => request.proxy.bind Unencodable.ascii?

/-- The text itself, unless it is empty. -/
def nonEmpty (t : Text) : Option Text := if t.isEmpty then none else some t

def firstText (members : Assoc Text Json) : List Text → Option Text
  | [] => none
  | name :: rest =>
    match ((members.value? name).bind Json.text?).bind nonEmpty with
    | some t => some t
    | none => firstText members rest

/-- The JSON value of a body, in whichever encoding it is. Of what stops its reading only too many
levels stop more than that. -/
def document? (body : Octets) : Except Nesting (Option Json) :=
  match (Charset.ofDocument body).decodeDocument? body with
  | none => .ok none
  | some text =>
    match Json.parse text with
    | .ok value => .ok (some value)
    | .error (.beyond (.levels nesting)) => .error nesting
    | .error _ => .ok none

/-- The text of a body in the character set that its content type asks for: one of the known sets
or of those that the runtime brings along, UTF-8 otherwise. -/
def bodyText (contentType : Option String) (body : Octets) : Except Failure Text :=
  match Charset.asked? contentType with
  | none => .ok (Utf8.decodeLossy body)
  | some name =>
    match Charset.ofName? name, Runtime.codec? name with
    | some charset, _ => (charset.decodeLossy body).mapError .unmarked
    | none, some decode => if body.isEmpty then .ok [] else (decode body).mapError .foreign
    | none, none => .ok (Utf8.decodeLossy body)

/-- The passphrase in a reply: a JSON text, a member of a JSON object, or a body that is no
JSON without the blanks around it. -/
def passphrase? (reply : Reply) : Except Failure (Option Text) :=
  match document? reply.body with
  | .error nesting => .error (.beyond (.levels nesting))
  | .ok (some (.str t)) => .ok (nonEmpty t)
  | .ok (some (.obj members)) => .ok (firstText members ["passphrase", "secret"])
  | .ok (some _) => .ok none
  | .ok none => (bodyText reply.contentType reply.body).map fun t => nonEmpty t.trim

/-- Stops because the request failed. -/
def giveUp {α : Type} (cause : KeyserverFault) : Action α := do
  Action.log .error .keyserver "Keyserver request failed"
  throw (.noCredentials cause)

/-- Fetches the passphrase for an access token; without a token nothing is sent. -/
def fetchPassphrase (client : Client) (token : Option Text) : Action Text := do
  match token.bind nonEmpty with
  | none => throw (.noCredentials .noToken)
  | some token =>
    let request := client.request token
    match unsendable? request with
    | some flaw => throw (.unencodable flaw)
    | none =>
      match ← Action.ask (.post request) with
      | .error name => giveUp (.transport name)
      | .ok reply =>
        if !reply.isSuccess then giveUp (.status reply.status)
        else match passphrase? reply with
          | .error failure => throw failure
          | .ok (some passphrase) => return passphrase
          | .ok none =>
            Action.log .error .keyserver "Keyserver returned no passphrase"
            throw (.noCredentials .noPassphrase)

end Client
end SessionKeeper.Keyserver
