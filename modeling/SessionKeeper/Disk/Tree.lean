import SessionKeeper.Assoc
import SessionKeeper.Disk.Path
import SessionKeeper.Text.Utf8

/-!
# File trees

A tree maps locations, which are lists of names from the root, to files and
directories. A path is walked name by name, so a double dot leads to the parent of
a directory that has to be there. Open files are known by a number: writing to one
that has since been replaced or removed changes nothing that a path can reach.
-/
namespace SessionKeeper

/-- Why a file operation is refused. -/
inductive FileFault where
  | absent
  | present
  | notDirectory
  | isDirectory
  | nameTooLong
  | denied
deriving DecidableEq, Repr

/-- Where a file stands: the names from the root down. -/
abbrev Location := List String

/-- A file with its number, permissions and content, or a directory with its permissions. -/
inductive Node where
  | file (number : Nat) (mode : Nat) (content : Octets)
  | directory (mode : Nat)
deriving DecidableEq, Repr

/-- What stands at a path. -/
inductive Kind where
  | file
  | directory
deriving DecidableEq, Repr

def Node.kind : Node → Kind
  | .file .. => .file
  | .directory _ => .directory

/-- A file tree; the root is always there. -/
structure Tree where
  nodes : Assoc Location Node
  nextNumber : Nat
deriving Inhabited

namespace Tree

/-- A tree with nothing but the root. -/
def empty : Tree := ⟨[], 0⟩

def node? (tree : Tree) (location : Location) : Option Node :=
  if location = [] then some (.directory 0o755) else Assoc.value? tree.nodes location

def isDirectory (tree : Tree) (location : Location) : Bool :=
  (tree.node? location).map Node.kind = some .directory

def put (tree : Tree) (location : Location) (node : Node) : Tree :=
  { tree with nodes := Assoc.put tree.nodes location node }

def remove (tree : Tree) (location : Location) : Tree :=
  { tree with nodes := Assoc.remove tree.nodes location }

def nameLimit : Nat := 255

def isTooLong (name : String) : Bool := nameLimit < name.utf8ByteSize

/-- Follows names from a location. Every name but the last must lead to a directory; the
last one need not exist. -/
def walk (tree : Tree) (start : Location) : List String → Except FileFault Location
  | [] => .ok start
  | part :: rest =>
    match tree.node? start with
    | none => .error .absent
    | some (.file ..) => .error .notDirectory
    | some (.directory _) =>
      if part = ".." then walk tree start.dropLast rest
      else if isTooLong part then .error .nameTooLong
      else walk tree (start ++ [part]) rest

def locate (tree : Tree) (directory : Location) (path : Path) : Except FileFault Location :=
  walk tree (if path.isAbsolute then [] else directory) path.parts

def find (tree : Tree) (directory : Location) (path : Path) :
    Except FileFault (Location × Node) := do
  let location ← tree.locate directory path
  match tree.node? location with
  | some node => return (location, node)
  | none => throw .absent

def read (tree : Tree) (directory : Location) (path : Path) : Except FileFault Octets := do
  match (← tree.find directory path).2 with
  | .file _ _ content => return content
  | .directory _ => throw .isDirectory

/-- What stands at a path. -/
def kind (tree : Tree) (directory : Location) (path : Path) : Except FileFault Kind := do
  return (← tree.find directory path).2.kind

def namesBelow (tree : Tree) (location : Location) : List String :=
  tree.nodes.filterMap fun (place, _) =>
    match place.getLast? with
    | some name => if place.dropLast = location then some name else none
    | none => none

def list (tree : Tree) (directory : Location) (path : Path) : Except FileFault (List String) := do
  match ← tree.find directory path with
  | (location, .directory _) => return tree.namesBelow location
  | (_, .file ..) => throw .notDirectory

/-- Permissions that group and others never get on a new file. -/
def creationMask : Nat := 0o022

/-- The permissions a new node gets when these are asked for. -/
def masked (mode : Nat) : Nat := mode &&& (0o7777 - creationMask)

def makeDirectory (tree : Tree) (directory : Location) (path : Path) (mode : Nat) :
    Except FileFault Tree := do
  let location ← tree.locate directory path
  match tree.node? location with
  | some _ => throw .present
  | none => return tree.put location (.directory (masked mode))

/-- Makes an empty file where nothing stands; the result names its number. -/
def createFile (tree : Tree) (directory : Location) (path : Path) (mode : Nat) :
    Except FileFault (Nat × Tree) := do
  let location ← tree.locate directory path
  match tree.node? location with
  | some _ => throw .present
  | none =>
    let number := tree.nextNumber
    let made := tree.put location (.file number (masked mode) [])
    return (number, { made with nextNumber := number + 1 })

/-- The node with new content, if it is the file with this number. -/
def Node.write (number : Nat) (content : Octets) : Node → Node
  | .file n mode old => if n = number then .file n mode content else .file n mode old
  | other => other

/-- Gives the file with this number a new content, wherever it stands by now. -/
def writeFile (tree : Tree) (number : Nat) (content : Octets) : Tree :=
  { tree with nodes := tree.nodes.map fun (place, node) => (place, Node.write number content node) }

def setMode (tree : Tree) (directory : Location) (path : Path) (mode : Nat) :
    Except FileFault Tree := do
  match ← tree.find directory path with
  | (location, .file number _ content) => return tree.put location (.file number mode content)
  | (location, .directory _) => return tree.put location (.directory mode)

/-- Moves a file to a place where no directory stands, replacing a file there. -/
def rename (tree : Tree) (directory : Location) (source target : Path) : Except FileFault Tree := do
  let (origin, node) ← tree.find directory source
  let goal ← tree.locate directory target
  if tree.isDirectory goal then throw .isDirectory
  else return (tree.remove origin).put goal node

def unlink (tree : Tree) (directory : Location) (path : Path) : Except FileFault Tree := do
  match ← tree.find directory path with
  | (location, .file ..) => return tree.remove location
  | (_, .directory _) => throw .isDirectory

end Tree
end SessionKeeper
