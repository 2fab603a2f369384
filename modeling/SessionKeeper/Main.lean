import SessionKeeper.Command.Diagnosis

/-!
# The command line

Runs the programs on a real machine: every request of a script is answered by the
operating system. There is no keychain here and no network, so secrets go to the
vault and a request to the keyserver ends without a connection. Started under a name
that begins with `roomy_diag`, the program is the one for diagnosis.
-/
namespace SessionKeeper

/-- What a real machine has to remember: the open files by number and the threshold of
logging. -/
structure OpenState where
  files : List IO.FS.Handle
  threshold : Option Level

def faultOf : IO.Error → FileFault
  | .noFileOrDirectory .. => .absent
  | .alreadyExists .. => .present
  | .inappropriateType _ code _ => if code = 21 then .isDirectory else .notDirectory
  | .invalidArgument _ code _ => if code = 36 then .nameTooLong else .denied
  | .resourceExhausted _ code _ => if code = 36 then .nameTooLong else .denied
  | _ => .denied

def attempt {α : Type} (operation : IO α) : IO (Except FileFault α) := do
  match ← operation.toBaseIO with
  | .ok a => return .ok a
  | .error error => return .error (faultOf error)

def accessOf (bits : Nat) : IO.AccessRight :=
  ⟨bits / 4 % 2 = 1, bits / 2 % 2 = 1, bits % 2 = 1⟩

def rightsOf (mode : Nat) : IO.FileRight :=
  ⟨accessOf (mode / 64), accessOf (mode / 8), accessOf mode⟩

/-- The current time, read off a file that is made for the purpose. -/
def readClock : IO Moment := do
  let (_, file) ← IO.FS.createTempFile
  let time := (← file.metadata).modified
  IO.FS.removeFile file
  let micros : Int := time.sec * 1000000 + time.nsec.toNat / 1000
  let start := LaxReader.epoch * 1000000
  match Moment.ofLocalMicros? (start + micros) (some 0) with
  | some now => return now
  | none => throw (.userError "the clock is out of range")

def readProcessId : IO Int := do
  let line ← IO.FS.readFile "/proc/self/stat"
  return Int.ofNat (Numeral.ofDigits (line.toList.takeWhile Char.isDigit))

def splitOctets (mark : UInt8) (octets : List UInt8) : List (List UInt8) :=
  octets.foldr (fun octet parts =>
    if octet = mark then [] :: parts
    else match parts with
      | [] => [[octet]]
      | part :: rest => (octet :: part) :: rest) [[]]

def lenientText (octets : List UInt8) : Text := Utf8.decodeLossy octets

def readEnvironment : IO (Assoc Text Text) := do
  let octets := (← IO.FS.readBinFile "/proc/self/environ").toList
  return (splitOctets 0 octets).filterMap fun entry => Text.splitAt? '=' (lenientText entry)

def readHome (user : String) : IO (Option String) := do
  match ← attempt (IO.FS.readBinFile "/etc/passwd") with
  | .error _ => return none
  | .ok octets =>
    let lines := splitOctets 10 octets.toList
    let fields := lines.map fun line => (splitOctets 58 line).map lenientText
    let found := fields.find? fun row => row.head? = some (Text.ofString user)
    return (found.bind fun row => row[5]?).bind Text.toString?

def temporaryName (stem : String) : IO String := do
  let number ← IO.rand 0 99999999
  return "." ++ stem ++ "." ++ toString number ++ ".tmp"

def readInputLine : IO (Option Text) := do
  let line ← (← IO.getStdin).getLine
  let text := Text.ofString line
  return if line = "" then none
    else some (if text.getLast? = some (.char '\n') then text.dropLast else text)

def streamOctets (text : Text) : ByteArray := ⟨(Utf8.encodeChars text.scalars).toArray⟩

/-- Makes a new file with the given permissions and opens it. -/
def openNew (state : IO.Ref OpenState) (path : Path) (mode : Nat) : IO Nat := do
  let handle ← IO.FS.Handle.mk path.toString .writeNew
  IO.setAccessRights path.toString (rightsOf mode)
  let files := (← state.get).files
  state.modify fun s => { s with files := s.files ++ [handle] }
  return files.length

/-- The time of a log record, to the millisecond. -/
def logTime (m : Moment) : Text :=
  Text.padded 4 m.date.year ++ "-" ++ Text.padded 2 m.date.month ++ "-" ++
    Text.padded 2 m.date.day ++ " " ++ Moment.hourMinuteText (m.hour * 60 + m.minute) ++ ":" ++
    Text.padded 2 m.second ++ "," ++ Text.padded 3 (m.micros / 1000)

def showOutput (state : IO.Ref OpenState) : Output → IO Unit
  | .log record => do
    let time := logTime (← readClock)
    (← IO.getStderr).write (streamOctets (record.shown time (← state.get).threshold))
  | .threshold level => state.modify fun s => { s with threshold := some level }
  | .print text => do
    let out ← IO.getStdout
    out.write (streamOctets text)
    out.flush
  | .printError text => do (← IO.getStderr).write (streamOctets text)
  | .request _ => return ()
  | .clientCall _ => return ()

def answerRequest (state : IO.Ref OpenState) : (request : Request) → IO request.Answer
  | .readFile path => attempt do return (← IO.FS.readBinFile path.toString).toList
  | .probe path => attempt do
    let place := (← IO.currentDir) / path.toString
    return if (← place.metadata).type == .dir then Kind.directory else Kind.file
  | .listDirectory path => attempt do
    let place := (← IO.currentDir) / path.toString
    return (← place.readDir).toList.map IO.FS.DirEntry.fileName
  | .makeDirectory path mode => attempt do
    IO.FS.createDir path.toString
    if mode ≠ Folder.usualMode then IO.setAccessRights path.toString (rightsOf mode)
  | .createFile path mode => attempt (openNew state path mode)
  | .createTemporary directory stem => attempt do
    let path := directory.child (← temporaryName stem)
    return (path, ← openNew state path 0o600)
  | .writeFile number content => do
    match (← state.get).files[number]? with
    | some handle =>
      handle.write ⟨content.toArray⟩
      handle.flush
    | none => return ()
  | .setMode path mode => attempt (IO.setAccessRights path.toString (rightsOf mode))
  | .rename source target => attempt (IO.FS.rename source.toString target.toString)
  | .unlink path => attempt (IO.FS.removeFile path.toString)
  | .clock => readClock
  | .processId => readProcessId
  | .environment => readEnvironment
  | .homeOf user => readHome user
  | .workingDirectory => do return Path.ofString (← IO.currentDir).toString
  | .hasKeychain => return false
  | .keychainGet .. => return none
  | .keychainSet .. => return ()
  | .keychainDelete .. => return true
  | .post _ => return .error "ConnectError"
  | .readLine => readInputLine
  | .readSecret text => do
    showOutput state (.print text)
    readInputLine
  | .emit output => showOutput state output

def perform {α : Type} (state : IO.Ref OpenState) : Script α → IO α
  | .done a => return a
  | .ask request next => do
    let answer ← answerRequest state request
    perform state (next answer)

end SessionKeeper

open SessionKeeper in
open scoped SessionKeeper.Runtime in
/-- Runs the program on its arguments; the result is the exit code. -/
def main (words : List String) : IO UInt32 := do
  let state ← IO.mkRef ⟨[], none⟩
  let name := (← IO.appPath).fileName.getD ""
  let arguments := words.map Text.ofString
  let action := if name.startsWith "roomy_diag" then Command.runDiagnosis arguments
    else Command.runAccount OAuth.unavailable arguments
  match ← perform state action.run with
  | .ok code => return UInt32.ofNat code
  | .error failure =>
    showOutput state (.printError (failure.message ++ "\n"))
    return 1
