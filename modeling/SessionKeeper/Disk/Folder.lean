import SessionKeeper.Script.Basic

/-!
# Folders

Making a folder together with the folders above it. What is there already is left
alone; the asked-for permissions go to the folder itself and those above it get the
usual ones.
-/
namespace SessionKeeper.Folder

/-- Permissions of a folder that only its owner may use. -/
def privateMode : Nat := 0o700

def usualMode : Nat := 0o777

/-- Whether a folder stands at the path. Where the path leads nowhere, none does. -/
def isThere (path : Path) : Action Bool := do
  match ← Action.ask (.probe path) with
  | .ok kind => return kind = .directory
  | .error .absent => return false
  | .error .notDirectory => return false
  | .error fault => throw (.file fault)

def isOccupied (path : Path) : Action Bool := do
  match ← Action.ask (.probe path) with
  | .ok _ => return true
  | .error .absent => return false
  | .error .notDirectory => return false
  | .error fault => throw (.file fault)

/-- Goes on if a folder is there, and otherwise stops with the fault of making it. -/
def accept (path : Path) (fault : FileFault) : Action Unit := do
  if ← isThere path then pure () else throw (.file fault)

/-- Makes a folder, and those above it where they are missing, up to the given height. -/
def makeWithin : (height : Nat) → Path → (mode : Nat) → Action Unit
  | height, path, mode => do
    match ← Action.ask (.makeDirectory path mode) with
    | .ok () => pure ()
    | .error .absent =>
      match height with
      | 0 => throw (.file .absent)
      | height + 1 =>
        makeWithin height path.parent usualMode
        match ← Action.ask (.makeDirectory path mode) with
        | .ok () => pure ()
        | .error .absent => throw (.file .absent)
        | .error fault => accept path fault
    | .error fault => accept path fault

/-- Makes sure that a folder is there. -/
def ensure (path : Path) : Action Unit := makeWithin path.parts.length path privateMode

end SessionKeeper.Folder
