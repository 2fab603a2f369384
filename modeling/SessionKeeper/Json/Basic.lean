import SessionKeeper.Assoc
import SessionKeeper.Number.Double
import SessionKeeper.Text.Basic

/-!
# JSON values

Integers have any size and differ from the floating point numbers of the same
value. The members of an object keep the order in which their names first stood.
-/
namespace SessionKeeper

/-- A JSON value. -/
inductive Json where
  | null
  | bool (b : Bool)
  | int (n : Int)
  | float (x : Double)
  | str (t : Text)
  | arr (items : List Json)
  | obj (members : List (Text × Json))
deriving Inhabited

namespace Json

def members? : Json → Option (Assoc Text Json)
  | .obj members => some members
  | _ => none

def text? : Json → Option Text
  | .str t => some t
  | _ => none

/-- The value of a member, when the value is an object that has it. -/
def member? (name : Text) : Json → Option Json
  | .obj members => Assoc.value? members name
  | _ => none

def isNull : Json → Bool
  | .null => true
  | _ => false

def ofString (s : String) : Json := .str (Text.ofString s)

/-- A string, or null in its absence. -/
def ofText? : Option Text → Json
  | some t => .str t
  | none => .null

end Json
end SessionKeeper
