import SessionKeeper.Command.Reader
import SessionKeeper.Keeper.Lifecycle
import SessionKeeper.Keeper.Workers

/-!
# Commands for sessions

The commands to log in and out, to show the current session and to manage workers.
What was asked for and cannot be done is explained on the error stream, with a hint
where there is one; a failure of the machine is not explained and goes through.
-/
namespace SessionKeeper.Command

variable [Runtime]

/-- A command about sessions or workers. -/
inductive Account where
  | login (handle : Option Text) (replace : Bool)
  | logout
  | whoami
  | registerWorker (id name : Text) (secret : Option Text)
  | workers
  | removeWorker (id : Text)
deriving DecidableEq, Repr

def accountProgram : Program where
  name := "roomy"
  description := "Roomy command-line client"
  version := some "roomy 0.1.0"
  entries := [
    ⟨"login", "Log in with an AT Protocol handle",
      [⟨["--handle"], .value "HANDLE" false, "AT Protocol handle (e.g., user.bsky.social)"⟩,
       ⟨["--replace"], .mark, "Replace the current session instead of refusing"⟩], .nothing⟩,
    ⟨"logout", "Clear the current session", [], .nothing⟩,
    ⟨"whoami", "Show the current session", [], .nothing⟩,
    ⟨"register-worker", "Store a worker credential and use it",
      [⟨["--id"], .value "ID" true, "Worker account id"⟩,
       ⟨["--name"], .value "NAME" true, "Worker display name"⟩,
       ⟨["--secret"], .value "SECRET" false,
        "Worker secret (defaults to $ROOMY_WORKER_SECRET, then a prompt)"⟩], .nothing⟩,
    ⟨"workers", "List registered workers", [], .nothing⟩,
    ⟨"remove-worker", "Delete a registered worker", [], .single "worker_id"⟩]

namespace Account

def ofArguments (name : String) (found : Arguments) : Account :=
  let value (key : String) : Text := (found.value? key).getD []
  if name = "login" then .login (found.value? "--handle") (found.isMarked "--replace")
  else if name = "logout" then .logout
  else if name = "whoami" then .whoami
  else if name = "register-worker" then
    .registerWorker (value "--id") (value "--name") (found.value? "--secret")
  else if name = "workers" then .workers
  else .removeWorker (((found.operand.getD []).head?).getD [])

/-- What a session looks like to its user: everything but the secret itself. -/
def describe (session : Session) : Json :=
  let worker : List (Text × Json) := match session with
    | .worker s => [("worker_id", .str s.worker.id)]
    | .account _ => []
  let common : List (Text × Json) := [("session_kind", .str session.tag),
    ("subject_id", .str session.subject), ("handle", .str session.handle)]
  let last : List (Text × Json) := [("has_secret", .bool session.secret?.isSome)]
  .obj (common ++ worker ++ last)

def printDocument (document : Json) : Action Unit :=
  match document.print with
  | .ok cs => Action.printLine (Text.ofChars cs)
  | .error limit => throw (.beyond limit)

/-- Explains on the error stream why a command is refused. -/
def refuse (complaint : Text) (hint : Option Text) : Action Nat := do
  Action.printErrorLine (Text.ofString "ERROR: " ++ complaint)
  match hint with
  | some hint => Action.printErrorLine (Text.ofString "FIX: " ++ hint)
  | none => pure ()
  return 1

/-- The first text that is not empty, if there is one. -/
def filled (t : Option Text) : Option Text := t.bind fun t => if t.isEmpty then none else some t

/-- The handle that the user types, which has to look like a domain. -/
def askHandle : Action Text := do
  Action.ask (.emit (.print "Enter your AT Protocol handle: "))
  let line : Option Text ← Action.ask .readLine
  match line with
  | none => throw .endOfInput
  | some typed =>
    let handle := typed.trim
    if handle.isEmpty then throw .handleRequired
    if !handle.contains (.char '.') then throw .handleNotADomain
    return handle

def secretVariable : Text := "ROOMY_WORKER_SECRET"

/-- The secret of a worker: the given one, that of the environment, or one that is typed. -/
def findSecret (given : Option Text) : Action Text := do
  let environment : Assoc Text Text ← Action.ask .environment
  match (filled given).or (filled (environment.value? secretVariable)) with
  | some secret => return secret
  | none =>
    let line : Option Text ← Action.ask (.readSecret "Worker secret: ")
    match line with
    | some secret => return secret
    | none => throw .endOfInput

/-- Does what a command says; the result is the exit code. -/
def perform (keeper : Keeper) : Account → SessionAction Nat
  | .login handle replace => do
    let handle ← match filled handle with
      | some handle => pure handle
      | none => askHandle
    let session ← keeper.login handle replace
    Action.printLine (Text.ofString "Logged in as " ++ session.handle ++ " (" ++
      session.subject ++ ")")
    return 0
  | .logout => do
    match ← keeper.clear with
    | none => Action.printLine "No active session found"
    | some session => Action.printLine (Text.ofString "Logged out " ++ session.handle)
    return 0
  | .whoami => do
    match ← keeper.load with
    | none => throw (.gap .notLoggedIn)
    | some session =>
      printDocument (describe session)
      return 0
  | .registerWorker id name secret => do
    let session ← keeper.registerWorker id name (← findSecret secret)
    Action.printLine (Text.ofString "Registered worker " ++ session.handle ++ " (" ++
      session.worker.id ++ ")")
    return 0
  | .workers => do
    printDocument (.arr ((← keeper.listWorkers).map Worker.publicRecord))
    return 0
  | .removeWorker id => do
    if ← keeper.removeWorker id then
      Action.printLine (Text.ofString "Removed worker " ++ id)
      return 0
    else
      refuse (Text.ofString "Worker '" ++ id ++ "' not found")
        (some "Run 'roomy workers' to list workers")

def hint? : Failure → Option Text
  | .gap _ => some "Run 'roomy login' to authenticate"
  | .sessionActive _ => some "Run 'roomy logout' first or pass --replace"
  | .lockHeld .. => some "Another roomy command is running; retry in a moment"
  | .noCredentials _ => some "Check your network connection and log in again"
  | .oauthUnavailable => some "Use 'roomy register-worker' for headless access"
  | .metadata .. => some "Fix or remove oauth-client.yaml in the config directory"
  | _ => none

/-- The complaint about a failure, with all details. -/
def complaint (failure : Failure) : Text :=
  match failure with
  | .metadata _ fault =>
    match fault.details with
    | some details => failure.message ++ ": " ++ details
    | none => failure.message
  | _ => failure.message

/-- Explains a failure that has to do with what was asked for; any other goes through. -/
def explain (failure : Failure) : Action Nat :=
  match hint? failure with
  | some hint => refuse (complaint failure) (some hint)
  | none => if failure.isRefusal then refuse (complaint failure) none else throw failure

/-- Does what a command says, as the settings say. -/
def performWith (factory : OAuth.Factory) (settings : Settings) (command : Account) :
    Action Nat :=
  tryCatchThe Failure
    (do
      let keeper ← Keeper.ofSettings settings factory none
      (command.perform keeper).alone)
    explain

end Account

/-- Runs the program on a command line; the result is the exit code. -/
def runAccount (factory : OAuth.Factory) (words : List Text) : Action Nat := do
  match accountProgram.read words with
  | .error ending =>
    Action.ask (.emit (.print ending.output))
    Action.ask (.emit (.printError ending.errorOutput))
    return ending.code
  | .ok none =>
    Action.ask (.emit (.print accountProgram.form.help))
    return 0
  | .ok (some (name, found)) =>
    let settings ← Settings.loadResolved
    Action.ask (.emit (.threshold settings.logLevel))
    Account.performWith factory settings (.ofArguments name found)

end SessionKeeper.Command
