import SessionKeeper.Disk.Folder
import SessionKeeper.Json.Printer
import SessionKeeper.Json.Reader

/-!
# Record files

A record file holds one JSON object. Reading never stops at bad content: what is not
an object reads as an empty one, with a note of why. Writing replaces the file in
one step, so that a reader sees the old or the new content and nothing between.
-/
namespace SessionKeeper.Record

variable [Runtime]

/-- How the entries of a record file were obtained. -/
inductive Status where
  | found
  | absent
  | recovered
deriving DecidableEq, Repr

def Status.name : Status → String
  | .found => "found"
  | .absent => "absent"
  | .recovered => "corrupt_recovered"

/-- The entries of a record file, none unless the file was found. -/
structure Content where
  status : Status
  entries : Assoc Text Json

def Content.absent : Content := ⟨.absent, []⟩

/-- The content of a file that cannot be used. -/
def Content.recovered : Content := ⟨.recovered, []⟩

/-- Why octets hold no entries. -/
inductive Defect where
  | unreadable
  | corrupt
  | notAnObject
deriving DecidableEq, Repr

def Defect.message : Defect → String
  | .unreadable => "Unreadable record file, treating as empty"
  | .corrupt => "Corrupt record file, treating as empty"
  | .notAnObject => "Record file does not hold a JSON object, treating as empty"

/-- What octets hold: entries, or a defect. The outer error is a limit of the runtime, which is not
taken for a defect. -/
def entriesOf (octets : Octets) : Except Limit (Except Defect (Assoc Text Json)) :=
  match Utf8.decode octets with
  | .error _ => .ok (.error .unreadable)
  | .ok cs =>
    match Json.parse (Text.ofChars cs) with
    | .error (.beyond limit) => .error limit
    | .error .syntaxFault => .ok (.error .corrupt)
    | .ok (.obj members) => .ok (.ok members)
    | .ok _ => .ok (.error .notAnObject)

def read (path : Path) : Action Content := do
  let unusable (defect : Defect) : Action Content := do
    Action.log .warning .records defect.message
    return .recovered
  match ← Action.ask (.readFile path) with
  | .error .absent => return .absent
  | .error _ => unusable .unreadable
  | .ok octets =>
    match entriesOf octets with
    | .error limit => throw (.beyond limit)
    | .ok (.error defect) => unusable defect
    | .ok (.ok entries) => return ⟨.found, entries⟩

/-- The octets of a document: its printed form and a line break. -/
def octetsOf (document : Json) : Except Limit Octets :=
  document.print.map fun cs => Utf8.encodeChars (cs ++ ['\n'])

/-- Permissions of a file that only its owner may use. -/
def privateMode : Nat := 0o600

/-- Removes a temporary file and stops with the fault that made it useless. -/
def discard {α : Type} (temporary : Path) (fault : FileFault) : Action α := do
  let _ ← Action.ask (.unlink temporary)
  throw (.file fault)

/-- Replaces a file by one with the given content, through a temporary file beside it. -/
def replaceFile (path : Path) (content : Octets) : Action Unit := do
  let (temporary, number) ← Action.ofFile (← Action.ask (.createTemporary path.parent path.name))
  Action.ask (.writeFile number content)
  match ← Action.ask (.setMode temporary privateMode) with
  | .error fault => discard temporary fault
  | .ok () =>
    match ← Action.ask (.rename temporary path) with
    | .error fault => discard temporary fault
    | .ok () => pure ()

/-- Writes a record file. A document that cannot be printed is refused before anything is
touched. -/
def write (path : Path) (document : Json) : Action Unit := do
  match octetsOf document with
  | .error limit => throw (.beyond limit)
  | .ok content =>
    Folder.ensure path.parent
    replaceFile path content

/-- Removes a file; the result is whether there was one. -/
def removeFile (path : Path) : Action Bool := do
  match ← Action.ask (.unlink path) with
  | .ok () => return true
  | .error .absent => return false
  | .error fault => throw (.file fault)

end SessionKeeper.Record
