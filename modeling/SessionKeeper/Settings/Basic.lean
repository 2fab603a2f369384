import SessionKeeper.Disk.Folder
import SessionKeeper.Number.Order
import SessionKeeper.Settings.Dotenv

/-!
# Settings

Settings come from environment variables, whose names are compared without regard to
case, and where those are silent from an environment file in the working directory.
A duration is any number above zero; not-a-number and infinity pass, since nothing
here computes with them.
-/
namespace SessionKeeper

/-- The settings of the program. -/
structure Settings where
  folder : Path
  stateLifetime : Double
  lockStaleAfter : Double
  keyserverUrl : Text
  keyserverProxy : Text
  keyserverTimeout : Double
  secretService : Text
  usePlatformKeychain : Bool
  logLevel : Level
deriving DecidableEq, Repr

namespace Settings

/-- The name of the schema in reports. -/
def schema : String := "RoomySettings"

def environmentFile : Path := .ofString ".env"

/-- A name in lower case, as far as ASCII letters go. -/
def lowerName (name : Text) : Text :=
  name.map fun
    | .char c => .char c.toLower
    | half => half

/-- The value of the last variable with this name in any case. -/
def lastNamed {α : Type} (named : Assoc Text α) (name : String) : Option α :=
  let wanted := lowerName (Text.ofString name)
  (named.filter fun (other, _) => lowerName other = wanted).getLast?.map Prod.snd

/-- What the environment or else the file says about a name. -/
def lookup (environment : Assoc Text Text) (file : Assoc Text (Option Text)) (name : String) :
    Option Text :=
  (lastNamed environment name).or (lastNamed file name).join

def duration (t : Text) : Schema.Reading Double :=
  match t.toChars?.bind Numeral.double? with
  | none => Schema.refuse .floatParsing (.str t)
  | some x =>
    if x.isNonPositive then Schema.refuse (.rule "durations must be > 0 seconds") (.str t)
    else .ok x

/-- The spellings of yes and no. -/
def flags : List (String × Bool) :=
  [("0", false), ("off", false), ("f", false), ("false", false), ("n", false), ("no", false),
   ("1", true), ("on", true), ("t", true), ("true", true), ("y", true), ("yes", true)]

def flag (t : Text) : Schema.Reading Bool :=
  let spelled := t.toChars?.map fun cs => String.ofList (cs.map Char.toLower)
  match spelled.bind fun name => flags.lookup name with
  | some b => .ok b
  | none => Schema.refuse .boolParsing (.str t)

/-- A character in upper case, where that matters for the names of levels: the dotless i is
a capital I then. -/
def upper (c : Char) : Char := if c = '\u0131' then 'I' else c.toUpper

/-- The name of a level in any case. -/
def level (t : Text) : Schema.Reading Level :=
  match (t.trim.toChars?.map fun cs => String.ofList (cs.map upper)).bind Level.ofName? with
  | some level => .ok level
  | none =>
    Schema.refuse
      (.rule "ROOMY_LOG_LEVEL must be one of CRITICAL, ERROR, WARNING, INFO, DEBUG") (.str t)

/-- A service name: a text that is not blank, without the blanks around it. -/
def service (t : Text) : Schema.Reading Text :=
  if t.trim.isEmpty then
    Schema.refuse (.rule "ROOMY_SECRET_SERVICE must not be empty") (.str t)
  else .ok t.trim

/-- The reading of a variable, or the value for its absence. -/
def field {α : Type} (find : String → Option Text) (name : String) (absent : α)
    (read : Text → Schema.Reading α) : Schema.Reading α :=
  match find name with
  | some t => Schema.under name (read t)
  | none => .ok absent

/-- The keyserver where no other is named. -/
def standardUrl : Text := "https://jazz.keyserver.roomy.chat"

/-- The service the keyserver is asked for. -/
def standardProxy : Text := "did:web:jazz.keyserver.roomy.chat#roomy_keyserver"

/-- What secrets are kept under. -/
def standardService : Text := "roomy-cli"

/-- Thirty seconds. -/
def standardTimeout : Double := .ofInt 30

/-- Reads all settings, given what is said about each name. -/
def read (find : String → Option Text) : Schema.Reading Settings := do
  let (folder, stateLifetime, lockStaleAfter, url, proxy, timeout, secretService, keychain, level) ←
    Schema.both (field find "ROOMY_CLI_DIR" (Path.ofString "~/.roomy-cli") fun t =>
        .ok (Path.ofString (String.ofList t.scalars)))
      (Schema.both (field find "ROOMY_STATE_TTL_SECONDS" (.ofInt 3600) duration)
      (Schema.both (field find "ROOMY_LOCK_STALE_SECONDS" (.ofInt 45) duration)
      (Schema.both (field find "ROOMY_KEYSERVER_URL" standardUrl fun t =>
        .ok (t.trim.dropTrailing '/'))
      (Schema.both (field find "ROOMY_KEYSERVER_PROXY" standardProxy .ok)
      (Schema.both (field find "ROOMY_KEYSERVER_TIMEOUT" standardTimeout duration)
      (Schema.both (field find "ROOMY_SECRET_SERVICE" standardService service)
      (Schema.both (field find "ROOMY_USE_KEYRING" true flag)
        (field find "ROOMY_LOG_LEVEL" .warning level))))))))
  return ⟨folder, stateLifetime, lockStaleAfter, url, proxy, timeout, secretService, keychain,
    level⟩

/-- The environment file's values. A file that is not there gives none. -/
def loadFile (environment : Assoc Text Text) : Action (Assoc Text (Option Text)) := do
  match ← Action.ask (.probe environmentFile) with
  | .ok .file =>
    let octets ← Action.ofFile (← Action.ask (.readFile environmentFile))
    match Utf8.decode octets with
    | .error flaw => throw (.undecodable flaw)
    | .ok cs =>
      let content := Dotenv.read environment (unifyNewlines cs)
      content.broken.forM fun line =>
        Action.log .warning .dotenv
          ("python-dotenv could not parse statement starting at line " ++ toString line)
      return content.values
  | _ => return []

def load : Action Settings := do
  let environment : Assoc Text Text ← Action.ask .environment
  let file ← loadFile environment
  Action.ofReading schema (read (lookup environment file))

/-- The home folder that a tilde with a name stands for. -/
def home (user : String) : Action String := do
  let environment : Assoc Text Text ← Action.ask .environment
  let fromAccount (name : String) : Action String := do
    let found : Option String ← Action.ask (.homeOf name)
    match found with
    | some path => return path
    | none => throw .homeUnknown
  if user ≠ "" then fromAccount user
  else match environment.value? "HOME" with
    | some t =>
      let path := String.ofList (t.dropTrailing '/').scalars
      return if path = "" then "/" else path
    | none => fromAccount "root"

/-- The path with a home folder in place of a tilde at its start. -/
def expandHome (path : Path) : Action Path := do
  match path.parts with
  | first :: rest =>
    match first.toList with
    | '~' :: user =>
      if path.isAbsolute then return path
      else
        let start := Path.ofString (← home (String.ofList user))
        let isUnknown := start.parts.head?.any fun name => name.toList.head? = some '~'
        if isUnknown && !start.isAbsolute then throw .homeUnknown
        else return ⟨start.anchor, start.parts ++ rest⟩
    | _ => return path
  | [] => return path

/-- Loads the settings with the folder as an absolute path. -/
def loadResolved : Action Settings := do
  let settings ← load
  let folder ← expandHome settings.folder
  let directory : Path ← Action.ask .workingDirectory
  return { settings with folder := Path.absolute directory folder }

end Settings
end SessionKeeper
