import SessionKeeper.Command.Usage
import SessionKeeper.Text.Digit
import SessionKeeper.Text.Quoted

/-!
# Reading command lines

A command line is read in two steps. First every word is told apart: what begins
with a dash is a switch unless it looks like a number, holds a blank or stands after
the separator, and a long name may be shortened as long as it stays unique. Then
switches and operands are taken from left to right. What nothing takes is left over.
-/
namespace SessionKeeper.Command

/-- What is joined to the name of a switch: nothing, a text that follows directly, or a text
behind an equals sign. -/
inductive Joined where
  | nothing
  | directly (t : Text)
  | byEquals (t : Text)
deriving DecidableEq, Repr

/-- A switch that a word names. -/
structure Hit where
  switch : Switch
  name : Text
  joined : Joined
deriving DecidableEq, Repr

/-- A word of a command line once it has been told apart. -/
inductive Piece where
  | word (t : Text)
  | separator
  | switch (t : Text) (hit : Hit)
  | stray (t : Text)
deriving DecidableEq, Repr

/-- Why reading a command line ends without a command: a page was asked for, or something
is wrong. -/
inductive Ending where
  | help (form : Form)
  | version (text : String)
  | misuse (form : Form) (complaint : Text)
deriving DecidableEq, Repr

/-- What was read: the values of switches, the marks, the operand with all it took, and what
is left over. -/
structure Arguments where
  values : List (String × Text)
  marks : List String
  operand : Option (List Text)
  left : List Text
deriving DecidableEq, Repr

namespace Arguments

/-- Nothing. -/
def none : Arguments := ⟨[], [], .none, []⟩

/-- The value that was given last for a switch. -/
def value? (found : Arguments) (key : String) : Option Text :=
  (found.values.reverse.lookup key)

def isMarked (found : Arguments) (key : String) : Bool := found.marks.contains key

def has (found : Arguments) (switch : Switch) : Bool := (found.value? switch.key).isSome

/-- Adds something that is left over. -/
def leave (found : Arguments) (t : Text) : Arguments := { found with left := found.left ++ [t] }

end Arguments

/-- The word that separates switches from operands. -/
def separatorWord : Text := "--"

def dash : Point := .char '-'

/-- Whether a word looks like a negative number. A line break at its end is overlooked. -/
def looksNegative (word : Text) : Bool :=
  let isNumber (t : Text) : Bool :=
    let whole := t.takeWhile Point.isDigit
    match t.drop whole.length with
    | [] => !whole.isEmpty
    | p :: fraction => p = .char '.' && !fraction.isEmpty && fraction.all Point.isDigit
  match word with
  | p :: rest =>
    p = dash && (isNumber rest || (rest.getLast? = some (.char '\n') && isNumber rest.dropLast))
  | [] => false

namespace Form

/-- All names of switches, each with its switch. -/
def named (form : Form) : List (Text × Switch) :=
  form.switches.flatMap fun switch => switch.names.map fun name => (Text.ofString name, switch)

def complain (form : Form) (switch : Switch) (complaint : Text) : Ending :=
  .misuse form (Text.ofString "argument " ++ switch.title ++ ": " ++ complaint)

/-- The switches that a word could be short for. -/
def shortened (form : Form) (word : Text) : List Hit :=
  match word with
  | _ :: second :: tail =>
    if second = dash then
      let (start, joined) := match Text.splitAt? '=' word with
        | some (before, after) => (before, Joined.byEquals after)
        | none => (word, Joined.nothing)
      form.named.filterMap fun (name, switch) =>
        if start.isPrefixOf name then some ⟨switch, name, joined⟩ else none
    else
      form.named.filterMap fun (name, switch) =>
        if name = word.take 2 then some ⟨switch, name, .directly tail⟩
        else if word.isPrefixOf name then some ⟨switch, name, .nothing⟩
        else none
  | _ => []

def inFull? (form : Form) (word : Text) : Option Hit :=
  match form.named.lookup word with
  | some switch => some ⟨switch, word, .nothing⟩
  | none =>
    match Text.splitAt? '=' word with
    | some (before, after) =>
      (form.named.lookup before).map fun switch => ⟨switch, before, .byEquals after⟩
    | none => none

def tell (form : Form) (word : Text) : Except Ending Piece :=
  if word.head? ≠ some dash || word.length = 1 then .ok (.word word)
  else match form.inFull? word with
    | some hit => .ok (.switch word hit)
    | none =>
      match form.shortened word with
      | [hit] => .ok (.switch word hit)
      | [] =>
        if looksNegative word || word.contains (.char ' ') then .ok (.word word)
        else .ok (.stray word)
      | several =>
        .error (.misuse form (Text.ofString "ambiguous option: " ++ word ++ " could match " ++
          Text.join ", " (several.map Hit.name)))

/-- Tells all words apart. Behind the first separator there are no switches. -/
def tellAll (form : Form) : List Text → Except Ending (List Piece)
  | [] => .ok []
  | word :: rest => do
    if word = separatorWord then return .separator :: rest.map .word
    let piece ← form.tell word
    return piece :: (← form.tellAll rest)

end Form

def Piece.text : Piece → Text
  | .word t => t
  | .separator => separatorWord
  | .switch t _ => t
  | .stray t => t

/-- What a word with switches comes to: the switches with their values, what is left over of
the word, and whether the next word was taken as a value. -/
structure Taking where
  taken : List (Switch × Option Text)
  left : Option Text
  usesNext : Bool

namespace Form

/-- The complaint about a joined text that a switch has no use for. -/
def ignored (form : Form) (switch : Switch) (t : Text) : Ending :=
  form.complain switch (Text.ofString "ignored explicit argument " ++ Quoted.encode t)

/-- Takes a switch to which nothing is joined; the word after it serves as its value. -/
def takeAlone (form : Form) (switch : Switch) (next : Option Text) : Except Ending Taking :=
  if !switch.takesValue then .ok ⟨[(switch, none)], none, false⟩
  else match next with
    | some value => .ok ⟨[(switch, some value)], none, true⟩
    | none => .error (form.complain switch "expected one argument")

/-- Takes a switch to which a text is joined: its value, or more switches of one letter. -/
def takeJoined (form : Form) (next : Option Text) (switch : Switch) (isShort byEquals : Bool) :
    Text → Except Ending Taking
  | [] =>
    if switch.takesValue then .ok ⟨[(switch, some [])], none, false⟩
    else .error (form.ignored switch [])
  | p :: rest =>
    if switch.takesValue then .ok ⟨[(switch, some (p :: rest))], none, false⟩
    else if !isShort || byEquals || p = dash then .error (form.ignored switch (p :: rest))
    else match form.named.lookup [dash, p] with
      | none => .ok ⟨[(switch, none)], some (dash :: p :: rest), false⟩
      | some other => do
        let more ← match rest with
          | [] => form.takeAlone other next
          | .char '=' :: value => form.takeJoined next other true true value
          | q :: tail => form.takeJoined next other true false (q :: tail)
        return { more with taken := (switch, none) :: more.taken }

/-- Takes the switch that a word names. -/
def take (form : Form) (hit : Hit) (next : Option Text) : Except Ending Taking :=
  let isShort := (hit.name.drop 1).head? ≠ some dash
  match hit.joined with
  | .nothing => form.takeAlone hit.switch next
  | .directly t => form.takeJoined next hit.switch isShort false t
  | .byEquals t => form.takeJoined next hit.switch isShort true t

/-- Notes a switch that was taken. Asking for a page ends the reading. -/
def note (form : Form) (found : Arguments) : Switch × Option Text → Except Ending Arguments
  | (switch, value) =>
    match switch.effect with
    | .help => .error (.help form)
    | .version text => .error (.version text)
    | .mark => .ok { found with marks := found.marks ++ [switch.key] }
    | .value .. => .ok { found with values := found.values ++ [(switch.key, value.getD [])] }

/-- Notes what a word with switches came to. -/
def noteAll (form : Form) (found : Arguments) (taking : Taking) : Except Ending Arguments := do
  let found ← taking.taken.foldlM form.note found
  return match taking.left with
    | some t => found.leave t
    | none => found

def takeAll (form : Form) (found : Arguments) : List Piece → Except Ending Arguments
  | [] => .ok found
  | .stray t :: rest => form.takeAll (found.leave t) rest
  | .switch _ hit :: rest => do
    match rest with
    | .word t :: more =>
      let taking ← form.take hit (some t)
      let found ← form.noteAll found taking
      if taking.usesNext then form.takeAll found more
      else form.takeAll found (.word t :: more)
    | rest =>
      let found ← form.noteAll found (← form.take hit none)
      form.takeAll found rest
  | .word t :: rest =>
    match form.operand, found.operand with
    | .single _, none =>
      let found := { found with operand := some [t] }
      match rest with
      | .separator :: more => form.takeAll found more
      | rest => form.takeAll found rest
    | .command .., none => .ok { found with operand := some (t :: rest.map Piece.text) }
    | _, _ => form.takeAll (found.leave t) rest
  | .separator :: rest =>
    match form.operand, found.operand, rest with
    | .single _, none, .word t :: more => form.takeAll { found with operand := some [t] } more
    | .command .., none, .word t :: more =>
      .ok { found with operand := some (separatorWord :: t :: more.map Piece.text) }
    | _, _, rest => form.takeAll (found.leave separatorWord) rest

/-- What has to be given and was not. -/
def missing (form : Form) (found : Arguments) : List String :=
  let switches := form.switches.filter fun switch => switch.isRequired && !found.has switch
  let operand := match form.operand, found.operand with
    | .single name, none => [name]
    | _, _ => []
  switches.map Switch.title ++ operand

def read (form : Form) (words : List Text) : Except Ending Arguments := do
  let found ← form.takeAll Arguments.none (← form.tellAll words)
  match form.missing found with
  | [] => return found
  | names =>
    throw (.misuse form (Text.ofString "the following arguments are required: " ++
      String.intercalate ", " names))

end Form

namespace Program

def refuseLeft (program : Program) (left : List Text) : Except Ending Unit :=
  if left.isEmpty then .ok ()
  else .error (.misuse program.form
    (Text.ofString "unrecognized arguments: " ++ Text.join " " left))

def unknownCommand (program : Program) (word : Text) : Text :=
  Text.ofString "argument cmd: invalid choice: " ++ Quoted.encode word ++ " (choose from " ++
    Text.join ", " (program.entries.map fun entry => Quoted.encode (Text.ofString entry.name)) ++
    ")"

/-- Reads a command line: the name of a command and its arguments, if there is a command. -/
def read (program : Program) (words : List Text) :
    Except Ending (Option (String × Arguments)) := do
  let found ← program.form.read words
  match found.operand with
  | some (word :: rest) =>
    match program.entries.find? fun entry => Text.ofString entry.name = word with
    | some entry =>
      let inner ← (program.formOf entry).read rest
      program.refuseLeft (found.left ++ inner.left)
      return some (entry.name, inner)
    | none => throw (.misuse program.form (program.unknownCommand word))
  | _ =>
    program.refuseLeft found.left
    return none

end Program

/-- What is printed at an ending. -/
def Ending.output : Ending → Text
  | .help form => form.help
  | .version text => text ++ "\n"
  | .misuse .. => []

/-- What is printed on the error stream at an ending. -/
def Ending.errorOutput : Ending → Text
  | .misuse form complaint =>
    Text.ofString form.usage ++ form.program ++ ": error: " ++ complaint ++ "\n"
  | _ => []

def Ending.code : Ending → Nat
  | .misuse .. => 2
  | _ => 0

end SessionKeeper.Command
