import SessionKeeper.Disk.Tree
import SessionKeeper.OAuth.ClientMetadata
import SessionKeeper.Runtime
import SessionKeeper.Schema.Report
import SessionKeeper.Session.Session
import SessionKeeper.Text.Charset
import SessionKeeper.Yaml.Fault

/-!
# Failures

Everything that can stop an operation, by cause. Each cause has one wording, given
by `message`, and `isRefusal` tells the failures that are about a value somebody
supplied from those of the machine, which the command line does not explain.
-/
namespace SessionKeeper

/-- Why no passphrase could be had from the keyserver. -/
inductive KeyserverFault where
  | noToken
  | noPassphrase
  | status (code : Nat)
  | transport (name : String)
deriving DecidableEq, Repr

/-- What is wrong with a client metadata file. -/
inductive MetadataFault where
  | grammar
  | notAMapping
  | issues (issues : List Schema.Issue)

/-- Why an operation that needs a session cannot be done. -/
inductive SessionGap where
  | noValidSession
  | notLoggedIn
  | workerHasNoAgent
  | noStoredSecret (handle : Text)
deriving DecidableEq, Repr

/-- Text that an encoding has no octets for: the first such run of code points. -/
structure Unencodable where
  codec : String
  complaint : String
  position : Nat
  run : Text
deriving DecidableEq, Repr

/-- A cause that stops an operation. -/
inductive Failure where
  | invalid (schema : String) (issues : List Schema.Issue)
  | file (fault : FileFault)
  | undecodable (flaw : Utf8.Flaw)
  | unencodable (flaw : Unencodable)
  | unmarked (fault : Charset.Unmarked)
  | foreign (fault : CodecFault)
  | beyond (limit : Limit)
  | duration (fault : DurationFault)
  | incomparable (use : Pairing)
  | notAnObject
  | lockHeld (key : Text) (holder : Option Int) (age : Option Duration)
  | handleRequired
  | handleNotADomain
  | secretRequired
  | gap (reason : SessionGap)
  | sessionActive (current : Session)
  | noCredentials (cause : KeyserverFault)
  | metadata (path : Path) (fault : MetadataFault)
  | yaml (fault : Yaml.ValueFault)
  | oauthUnavailable
  | unknownHandle (handle : Text)
  | revokeRefused
  | endOfInput
  | homeUnknown

/-- The first run of code points of a text that fail a test; empty if none does. -/
def Unencodable.find (codec complaint : String) (fails : Point → Bool) (t : Text) : Unencodable :=
  let before := t.takeWhile fun p => !fails p
  ⟨codec, complaint, before.length, (t.drop before.length).takeWhile fails⟩

def Unencodable.utf8 : Text → Unencodable :=
  Unencodable.find "utf-8" "surrogates not allowed" fun p => p.toChar?.isNone

/-- The code points of a text outside ASCII, if there are any. -/
def Unencodable.ascii? (t : Text) : Option Unencodable :=
  let found := Unencodable.find "ascii" "ordinal not in range(128)" (fun p => 128 ≤ p.code) t
  if found.run.isEmpty then none else some found

/-- The wording of what cannot be encoded. -/
def Unencodable.message (flaw : Unencodable) : Text :=
  let quote : Text := [.char Quoted.single]
  let place : Text := match flaw.run with
    | [p] =>
      let shown := if p.code < 0x100 then 'x' :: Quoted.hexDigits 2 p.code
        else if p.code < 0x10000 then 'u' :: Quoted.hexDigits 4 p.code
        else 'U' :: Quoted.hexDigits 8 p.code
      Text.ofString " character " ++ quote ++ "\\" ++ Text.ofChars shown ++ quote ++
        " in position " ++ Text.ofNat flaw.position
    | run =>
      Text.ofString " characters in position " ++ Text.ofNat flaw.position ++ "-" ++
        Text.ofNat (flaw.position + run.length - 1)
  quote ++ flaw.codec ++ quote ++ " codec can't encode" ++ place ++ ": " ++ flaw.complaint

/-- The wording of why there is no passphrase. -/
def KeyserverFault.message : KeyserverFault → Text
  | .noToken => "OAuth session has no access token"
  | .noPassphrase => "No passphrase found"
  | .status code => Text.ofString "The keyserver answered with status " ++ Text.ofNat code
  | .transport name => Text.ofString "The keyserver could not be reached: " ++ name

def SessionGap.message : SessionGap → Text
  | .noValidSession => "No valid session found"
  | .notLoggedIn => "Not logged in"
  | .workerHasNoAgent => "Worker sessions have no AT Protocol agent"
  | .noStoredSecret handle => Text.ofString "No stored secret for " ++ handle

/-- The wording of what is wrong with a metadata file, up to where the details begin. -/
def MetadataFault.message (path : Path) : MetadataFault → Text
  | .grammar => Text.ofString "Failed to parse YAML in " ++ path.toString
  | .notAMapping =>
    Text.ofString "Client metadata in " ++ path.toString ++ " must be a mapping"
  | .issues _ => Text.ofString "Client metadata validation error in " ++ path.toString

/-- What is wrong with a metadata file in detail. -/
def MetadataFault.details : MetadataFault → Option Text
  | .grammar => some "the text is not a YAML document"
  | .notAMapping => none
  | .issues found => some (Schema.report OAuth.ClientMetadata.schema found)

/-- The wording of a refused file operation. -/
def FileFault.message : FileFault → Text
  | .absent => "No such file or directory"
  | .present => "File exists"
  | .notDirectory => "Not a directory"
  | .isDirectory => "Is a directory"
  | .nameTooLong => "File name too long"
  | .denied => "Permission denied"

/-- The wording of a pair of moments that do not go together. -/
def Pairing.message : Pairing → Text
  | .subtract => "can't subtract offset-naive and offset-aware datetimes"
  | .compare => "can't compare offset-naive and offset-aware datetimes"

/-- The wording of a limit. Outside of JSON text the runtime goes on to say which of its own calls
there was no room for, which is left out. -/
def Limit.message : Limit → Text
  | .digits (some count) => Yaml.ValueFault.message (.tooManyDigits count)
  | .digits none =>
    Text.ofString "Exceeds the limit (4300 digits) for integer string conversion; " ++
      "use sys.set_int_max_str_digits() to increase the limit"
  | .levels .array =>
    "maximum recursion depth exceeded while decoding a JSON array from a unicode string"
  | .levels .object =>
    "maximum recursion depth exceeded while decoding a JSON object from a unicode string"
  | .levels _ => "maximum recursion depth exceeded"

namespace Failure

def message : Failure → Text
  | .invalid schema issues => Schema.report schema issues
  | .file fault => fault.message
  | .undecodable flaw => flaw.message
  | .unencodable flaw => flaw.message
  | .unmarked fault => fault.message
  | .foreign fault => fault.message
  | .beyond limit => limit.message
  | .duration .notANumber => "cannot convert float NaN to integer"
  | .duration .tooLarge => "days too large"
  | .incomparable use => use.message
  | .notAnObject => "ExpiringRecordStore values must be JSON objects"
  | .lockHeld key _ _ => Text.ofString "Lock already exists for key: " ++ key
  | .handleRequired => "Handle is required"
  | .handleNotADomain => "Handle must be a domain (e.g., user.bsky.social)"
  | .secretRequired => "Worker secret must not be empty"
  | .gap reason => reason.message
  | .sessionActive current => Text.ofString "Already logged in as " ++ current.handle
  | .noCredentials _ => "Could not retrieve credentials"
  | .metadata path fault => fault.message path
  | .yaml fault => fault.message
  | .oauthUnavailable => "No AT Protocol OAuth client is configured for this installation"
  | .unknownHandle handle => Text.ofString "unknown handle: " ++ handle
  | .revokeRefused => "revoke failed"
  | .endOfInput => "EOF when reading a line"
  | .homeUnknown => "Could not determine home directory."

/-- Whether the failure is about a value that was supplied. -/
def isRefusal : Failure → Bool
  | .invalid .. => true
  | .undecodable _ => true
  | .unencodable _ => true
  | .unmarked _ => true
  | .foreign fault => fault.isRefusal
  | .beyond (.digits _) => true
  | .duration .notANumber => true
  | .handleRequired => true
  | .handleNotADomain => true
  | .secretRequired => true
  | .yaml (.boolean _) => false
  | .yaml .timestamp => false
  | .yaml .emptyNumber => false
  | .yaml .hugeCodePoint => false
  | .yaml _ => true
  | _ => false

end Failure
end SessionKeeper
