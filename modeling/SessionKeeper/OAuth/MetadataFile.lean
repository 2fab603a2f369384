import SessionKeeper.OAuth.ClientMetadata
import SessionKeeper.Script.Basic
import SessionKeeper.Yaml.Document

/-!
# The metadata file

An installation may say something else about its client in a YAML file of its folder.
A missing or empty file says nothing. Content that cannot be used is never passed
over: it stops the operation with what is wrong.
-/
namespace SessionKeeper.OAuth.ClientMetadata

variable [Runtime]

def fileName : String := "oauth-client.yaml"

/-- The text that a value of the file stands for. Octets stand for what they spell in UTF-8. -/
def textOf : Yaml.Value → Schema.Reading Text
  | .text t => .ok t
  | .octets o =>
    match Utf8.decode o with
    | .ok cs => .ok (Text.ofChars cs)
    | .error _ => Schema.refuse .stringUnicode .null
  | .null => Schema.refuse .stringType .null
  | .scalar => Schema.refuse .stringType .null
  | .collection => Schema.refuse .stringType .null

def ofDocument : Yaml.Document → Except MetadataFault ClientMetadata
  | .empty => .ok standard
  | .other => .error .notAMapping
  | .mapping entries =>
    (ofGiven fun name => (entries.value? name).map textOf).mapError .issues

def ofOctets (path : Path) (octets : Octets) : Except Failure ClientMetadata :=
  match Utf8.decode octets with
  | .error flaw => .error (.undecodable flaw)
  | .ok cs =>
    match Yaml.Document.ofText? (unifyNewlines cs) with
    | .error .grammar => .error (.metadata path .grammar)
    | .error (.value fault) => .error (.yaml fault)
    | .error .tooDeep => .error (.beyond (.levels .node))
    | .ok document => (ofDocument document).mapError (.metadata path)

def load (folder : Path) : Action ClientMetadata := do
  let path := folder.child fileName
  match ← Action.ask (.probe path) with
  | .ok .file =>
    let octets ← Action.ofFile (← Action.ask (.readFile path))
    match ofOctets path octets with
    | .ok metadata => return metadata
    | .error failure => throw failure
  | .error .absent => return standard
  | .error .notDirectory => return standard
  | .error fault => throw (.file fault)
  | .ok .directory => return standard

/-- The client id; text in it that cannot be encoded stops the operation. -/
def clientId (metadata : ClientMetadata) : Action String :=
  match metadata.clientId? with
  | some id => return id
  | none =>
    let redirectIsSound := metadata.redirectUri.toChars?.isSome
    throw (.unencodable (.utf8 (if redirectIsSound then metadata.scope else metadata.redirectUri)))

end SessionKeeper.OAuth.ClientMetadata
