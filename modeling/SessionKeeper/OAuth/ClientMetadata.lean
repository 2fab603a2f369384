import SessionKeeper.Schema.Field
import SessionKeeper.Text.Blank
import SessionKeeper.Text.Percent

/-!
# Client metadata

What the client tells the authorization server about itself. The redirect URI has
to be a loopback address, the scope has to name `atproto`, and both are carried in
the client id, which is a loopback URL of its own.
-/
namespace SessionKeeper.OAuth

/-- What the client tells about itself. -/
structure ClientMetadata where
  name : Text
  uri : Text
  redirectUri : Text
  scope : Text
  handleResolver : Text
deriving DecidableEq

namespace ClientMetadata

def schema : String := "OAuthClientMetadata"

/-- The metadata where nothing else has been said. -/
def standard : ClientMetadata where
  name := "Roomy CLI"
  uri := "https://roomy.space"
  redirectUri := "http://127.0.0.1:8080/callback"
  scope := "atproto transition:generic transition:chat.bsky"
  handleResolver := "https://resolver.roomy.chat"

/-- How a redirect URI may begin. -/
def loopbackStarts : List Text := ["http://127.0.0.1", "http://[::1]", "http://localhost"]

def isLoopback (t : Text) : Bool := loopbackStarts.any fun start => t.startsWith start

/-- A redirect URI, which has to be a loopback URL. -/
def checkRedirectUri (t : Text) : Schema.Reading Text :=
  if isLoopback t then .ok t
  else Schema.refuse (.rule "redirect_uri must be a loopback http URL") (.str t)

/-- A scope: words, one of which is `atproto`, written with single blanks between them. -/
def checkScope (t : Text) : Schema.Reading Text :=
  if Text.ofString "atproto" ∈ t.words then .ok (Text.join " " t.words)
  else Schema.refuse (.rule "scope must include 'atproto'") (.str t)

/-- What is given for a name, if it passes a check, or the value for its absence. -/
def choose (given : Text → Option (Schema.Reading Text)) (name absent : Text)
    (check : Text → Schema.Reading Text) : Schema.Reading Text :=
  match given name with
  | some reading => Schema.under name (reading.bind check)
  | none => .ok absent

/-- The metadata that is given by names; what is not mentioned keeps its standard value. -/
def ofGiven (given : Text → Option (Schema.Reading Text)) : Schema.Reading ClientMetadata := do
  let (name, uri, redirectUri, scope, handleResolver) ←
    Schema.both (choose given "client_name" standard.name .ok)
      (Schema.both (choose given "client_uri" standard.uri .ok)
        (Schema.both (choose given "redirect_uri" standard.redirectUri checkRedirectUri)
          (Schema.both (choose given "scope" standard.scope checkScope)
            (choose given "handle_resolver" standard.handleResolver .ok))))
  return ⟨name, uri, redirectUri, scope, handleResolver⟩

def read (value : Json) : Schema.Reading ClientMetadata := do
  let members ← Schema.record schema value
  ofGiven fun name => (members.value? name).map Schema.text

/-- The client id: a loopback URL with the redirect URI and the scope in its query. There is
none for text that UTF-8 cannot encode. -/
def clientId? (metadata : ClientMetadata) : Option String := do
  let redirectUri ← Percent.encode? metadata.redirectUri
  let scope ← Percent.encode? metadata.scope
  return "http://localhost/?redirect_uri=" ++ redirectUri ++ "&scope=" ++ scope

end ClientMetadata
end SessionKeeper.OAuth
