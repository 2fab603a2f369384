import SessionKeeper.Command.Form
import SessionKeeper.Text.Blank

/-!
# Usage and help

What a form looks like to a reader: a usage line, which is broken before the operand
when it would be longer than a line, and a help page with a column of names and a
column of explanations.
-/
namespace SessionKeeper.Command

def lineWidth : Nat := 78

/-- The rightmost column at which explanations begin. -/
def helpColumn : Nat := 24

def blanks (n : Nat) : String := String.ofList (List.replicate n ' ')

def fillRight (width : Nat) (s : String) : String := s ++ blanks (width - s.length)

def choiceList (choices : List (String × String)) : String :=
  "\x7b" ++ String.intercalate "," (choices.map Prod.fst) ++ "\x7d"

/-- A switch with its placeholder, by one of its names. -/
def Switch.spelled (switch : Switch) (name : String) : String :=
  match switch.effect with
  | .value placeholder _ => name ++ " " ++ placeholder
  | _ => name

/-- A switch in a usage line: by its first name, in brackets where it may be left out. -/
def Switch.usage (switch : Switch) : String :=
  let spelled := switch.spelled (switch.names.head?.getD "")
  if switch.isRequired then spelled else "[" ++ spelled ++ "]"

def Switch.heading (switch : Switch) : String :=
  String.intercalate ", " (switch.names.map switch.spelled)

def Operand.usage : Operand → List String
  | .nothing => []
  | .single name => [name]
  | .command _ choices => [choiceList choices, "..."]

def Operand.heading : Operand → Option String
  | .nothing => none
  | .single name => some name
  | .command _ choices => some (choiceList choices)

namespace Form

/-- The usage of a form, with a line break at the end. -/
def usage (form : Form) : String :=
  let start := "usage: " ++ form.program
  let switches := form.switches.map Switch.usage
  let whole := String.intercalate " " (start :: switches ++ form.operand.usage)
  if whole.length ≤ lineWidth then whole ++ "\n"
  else
    String.intercalate " " (start :: switches) ++ "\n" ++ blanks (start.length + 1) ++
      String.intercalate " " form.operand.usage ++ "\n"

end Form

/-- Puts words on lines of at most the given width; `line` is the line that is being filled. -/
def fillLines (width : Nat) (line : String) : List String → List String
  | [] => if line = "" then [] else [line]
  | word :: rest =>
    if line = "" then fillLines width word rest
    else if line.length + 1 + word.length ≤ width then
      fillLines width (line ++ " " ++ word) rest
    else line :: fillLines width word rest

/-- The words of a text between blanks. -/
def wordsOf (s : String) : List String :=
  ((Text.ofString s).words.filterMap Text.toString?)

/-- One entry of a help page: a heading and its explanation, which begins in a column. -/
def pageEntry (indent column : Nat) (heading explanation : String) : String :=
  let lines := fillLines (lineWidth - column) "" (wordsOf explanation)
  let room := column - indent - 2
  let first := blanks indent ++ heading
  match lines with
  | [] => first ++ "\n"
  | line :: rest =>
    let below := String.join (rest.map fun more => blanks column ++ more ++ "\n")
    if heading.length ≤ room then
      blanks indent ++ fillRight room heading ++ "  " ++ line ++ "\n" ++ below
    else first ++ "\n" ++ blanks column ++ line ++ "\n" ++ below

namespace Form

/-- The headings of a form, of which the longest one sets the column of explanations. -/
def headings (form : Form) : List String :=
  form.switches.map Switch.heading ++ form.operand.heading.toList ++
    match form.operand with
    | .command _ choices => choices.map Prod.fst
    | _ => []

def column (form : Form) : Nat :=
  min helpColumn ((form.headings.map String.length).foldl max 0 + 4)

def operandPage (form : Form) : String :=
  match form.operand.heading with
  | none => ""
  | some heading =>
    let choices := match form.operand with
      | .command _ choices => choices
      | _ => []
    "positional arguments:\n" ++ pageEntry 2 form.column heading "" ++
      String.join (choices.map fun (name, summary) => pageEntry 4 form.column name summary) ++ "\n"

def help (form : Form) : String :=
  form.usage ++ "\n" ++
    (if form.description = "" then "" else form.description ++ "\n\n") ++
    form.operandPage ++ "options:\n" ++
    String.join (form.switches.map fun switch =>
      pageEntry 2 form.column switch.heading switch.help)

end Form
end SessionKeeper.Command
