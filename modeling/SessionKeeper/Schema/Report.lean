import SessionKeeper.Schema.Issue

/-!
# Reports

The text that names a schema and lists all issues with their places, the values
found there and where each kind of issue is explained. Long values are shown by
their first 25 and last 24 octets.
-/
namespace SessionKeeper.Schema

mutual

def echo : Json → Text
  | .null => "None"
  | .bool b => if b then "True" else "False"
  | .int n => Text.ofInt n
  | .float x => x.digits?.getD (match x with
    | .infinity negative => if negative then "-inf" else "inf"
    | _ => "nan")
  | .str t => Quoted.encode t
  | .arr items => Text.ofString "[" ++ echoItems items ++ "]"
  | .obj members => Text.ofString "\x7b" ++ echoMembers members ++ "\x7d"

def echoItems : List Json → Text
  | [] => []
  | [item] => echo item
  | item :: rest => echo item ++ ", " ++ echoItems rest

def echoMembers : List (Text × Json) → Text
  | [] => []
  | [(name, value)] => Quoted.encode name ++ ": " ++ echo value
  | (name, value) :: rest => Quoted.encode name ++ ": " ++ echo value ++ ", " ++ echoMembers rest

end

def typeName : Json → String
  | .null => "NoneType"
  | .bool _ => "bool"
  | .int _ => "int"
  | .float _ => "float"
  | .str _ => "str"
  | .arr _ => "list"
  | .obj _ => "dict"

/-- The longest start of a text that has at most this many octets. -/
def takeOctets : Nat → Text → Text
  | _, [] => []
  | room, p :: rest =>
    let size := (Utf8.encodeCode p.code).length
    if size ≤ room then p :: takeOctets (room - size) rest else []

def octetCount (t : Text) : Nat :=
  t.foldl (fun total p => total + (Utf8.encodeCode p.code).length) 0

/-- A text of at most fifty octets, or the two ends of a longer one. -/
def shorten (t : Text) : Text :=
  if octetCount t ≤ 50 then t
  else takeOctets 25 t ++ "..." ++ (takeOctets 24 t.reverse).reverse

/-- Where the kinds of issues are explained. -/
def explanations : Text := Text.ofString "https:" ++ "//" ++ "errors.pydantic.dev/2.14/v/"

def issueText (issue : Issue) : Text :=
  let place : Text :=
    if issue.place.isEmpty then [] else Text.join "." issue.place ++ "\n"
  place ++ "  " ++ issue.kind.message ++ " [type=" ++ issue.kind.code ++ ", input_value=" ++
    shorten (echo issue.input) ++ ", input_type=" ++ typeName issue.input ++ "]\n" ++
    "    For further information visit " ++ explanations ++ issue.kind.code

/-- The text about all issues of a value that was read as the named schema. -/
def report (schema : String) (issues : List Issue) : Text :=
  let count := issues.length
  Text.ofNat count ++ (if count = 1 then " validation error for " else " validation errors for ") ++
    schema ++ "\n" ++ Text.join "\n" (issues.map issueText)

end SessionKeeper.Schema
