import SessionKeeper.Text.Basic

/-!
# Forms of command lines

A form says which switches and operands may stand on a command line. A program with
commands has a form of its own and one for each command, which gets everything from
the command's name on.
-/
namespace SessionKeeper.Command

/-- What a switch is for. -/
inductive Effect where
  | help
  | version (text : String)
  | mark
  | value (placeholder : String) (required : Bool)
deriving DecidableEq, Repr

/-- A switch with its names, the main one last. -/
structure Switch where
  names : List String
  effect : Effect
  help : String
deriving DecidableEq, Repr

def Switch.takesValue (switch : Switch) : Bool :=
  match switch.effect with
  | .value .. => true
  | _ => false

def Switch.isRequired (switch : Switch) : Bool :=
  match switch.effect with
  | .value _ required => required
  | _ => false

/-- The name under which a switch is found again once it has been read. -/
def Switch.key (switch : Switch) : String := switch.names.getLast?.getD ""

/-- How messages name a switch. -/
def Switch.title (switch : Switch) : String := String.intercalate "/" switch.names

/-- What may stand on a command line beside the switches: nothing, one value, or the name of
a command with all that follows it. -/
inductive Operand where
  | nothing
  | single (name : String)
  | command (name : String) (choices : List (String × String))
deriving DecidableEq, Repr

/-- The form of a command line. -/
structure Form where
  program : String
  description : String
  switches : List Switch
  operand : Operand
deriving DecidableEq, Repr

/-- A command of a program: its name, what it is for and its form. -/
structure Entry where
  name : String
  summary : String
  switches : List Switch
  operand : Operand
deriving DecidableEq, Repr

structure Program where
  name : String
  description : String
  version : Option String
  entries : List Entry
deriving DecidableEq, Repr

def helpSwitch : Switch := ⟨["-h", "--help"], .help, "show this help message and exit"⟩

def versionSwitch (version : String) : Switch :=
  ⟨["--version"], .version version, "show program's version number and exit"⟩

namespace Program

def form (program : Program) : Form where
  program := program.name
  description := program.description
  switches := helpSwitch :: (program.version.map versionSwitch).toList
  operand := .command "cmd" (program.entries.map fun entry => (entry.name, entry.summary))

def formOf (program : Program) (entry : Entry) : Form where
  program := program.name ++ " " ++ entry.name
  description := ""
  switches := helpSwitch :: entry.switches
  operand := entry.operand

end Program
end SessionKeeper.Command
