/-!
# Paths

A path is a list of names below an anchor. Empty names and single dots say nothing
and are dropped when a path is read; a double dot is kept, because what it means is
only known while the path is walked.
-/
namespace SessionKeeper

/-- A file path. The anchor is empty for a relative path; two leading slashes are an
anchor of their own. -/
structure Path where
  anchor : String
  parts : List String
deriving DecidableEq, Repr, Inhabited

namespace Path

def splitSlashes : List Char → List (List Char)
  | [] => [[]]
  | c :: rest =>
    if c = '/' then [] :: splitSlashes rest
    else match splitSlashes rest with
      | [] => [[c]]
      | word :: more => (c :: word) :: more

def anchorOf (slashes : Nat) : String :=
  if slashes = 0 then "" else if slashes = 2 then "//" else "/"

def ofString (s : String) : Path :=
  let cs := s.toList
  let slashes := (cs.takeWhile (· = '/')).length
  let words := (splitSlashes cs).map String.ofList
  ⟨anchorOf slashes, words.filter fun word => word ≠ "" && word ≠ "."⟩

/-- The written form; the path without names is a single dot. -/
def toString (p : Path) : String :=
  if p.anchor = "" && p.parts.isEmpty then "."
  else p.anchor ++ String.intercalate "/" p.parts

def isAbsolute (p : Path) : Bool := p.anchor ≠ ""

/-- The path followed by another one, which wins when it is absolute. -/
def append (p q : Path) : Path := if q.isAbsolute then q else ⟨p.anchor, p.parts ++ q.parts⟩

def child (p : Path) (name : String) : Path := ⟨p.anchor, p.parts ++ [name]⟩

/-- The path without its last name. -/
def parent (p : Path) : Path := ⟨p.anchor, p.parts.dropLast⟩

def name (p : Path) : String := p.parts.getLast?.getD ""

@[simp] theorem parent_child (p : Path) (n : String) : (p.child n).parent = p := by
  simp [parent, child]

@[simp] theorem name_child (p : Path) (n : String) : (p.child n).name = n := by
  simp [name, child]

/-- Drops every name that a following double dot takes back. The names walked so far are in
reverse order. -/
def collapse (walked : List String) : List String → List String
  | [] => walked.reverse
  | part :: rest => if part = ".." then collapse (walked.drop 1) rest
    else collapse (part :: walked) rest

/-- The absolute path that this path denotes when no name on it is a link. -/
def absolute (directory p : Path) : Path :=
  ⟨"/", collapse [] (directory.append p).parts⟩

end Path
end SessionKeeper
