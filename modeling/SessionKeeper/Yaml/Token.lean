import SessionKeeper.Yaml.Fault

/-!
# YAML tokens

The pieces a YAML text is cut into. Indentation shows as start and end tokens of
block collections. `Cursor` is a place in the text that counts lines and columns.
-/
namespace SessionKeeper.Yaml

/-- A tag as it is written: a handle, unless the tag is given in full, and the rest. -/
structure WrittenTag where
  handle : Option String
  suffix : String
deriving DecidableEq, Repr

inductive Token where
  | version (major minor : Nat)
  | tagHandle (handle start : String)
  | otherDirective
  | documentStart
  | documentEnd
  | blockSequenceStart
  | blockMappingStart
  | blockEnd
  | flowSequenceStart
  | flowSequenceEnd
  | flowMappingStart
  | flowMappingEnd
  | flowEntry
  | blockEntry
  | key
  | value
  | alias (name : String)
  | anchor (name : String)
  | tag (written : WrittenTag)
  | scalar (text : Text) (plain : Bool)
deriving DecidableEq, Repr

/-- The character that stands for the end of the text. -/
def endChar : Char := '\x00'

def isBreak (c : Char) : Bool :=
  c = '\n' || c = '\r' || c = '\u0085' || c = '\u2028' || c = '\u2029'

/-- Whether the character breaks a line or ends the text. -/
def isBreakOrEnd (c : Char) : Bool := isBreak c || c = endChar

/-- Whether the character is a blank, breaks a line or ends the text. -/
def isGapOrEnd (c : Char) : Bool := isBreakOrEnd c || c = ' '

/-- Whether the character is a blank or a tab, breaks a line or ends the text. -/
def isSpaceOrEnd (c : Char) : Bool := isGapOrEnd c || c = '\t'

/-- Whether the character may stand in a text at all. -/
def isPrintable (c : Char) : Bool :=
  let n := c.toNat
  n = 9 || n = 10 || n = 13 || (0x20 ≤ n && n ≤ 0x7E) || n = 0x85 || (0xA0 ≤ n && n ≤ 0xD7FF) ||
    (0xE000 ≤ n && n ≤ 0xFFFD) || 0x10000 ≤ n

/-- Whether the character may stand in a name. -/
def isNameChar (c : Char) : Bool := c.isAlphanum || c = '-' || c = '_'

/-- A place in a text: what follows, and how far the place is from the start. -/
structure Cursor where
  rest : List Char
  index : Nat
  line : Nat
  column : Nat

namespace Cursor

def start (text : List Char) : Cursor := ⟨text, 0, 0, 0⟩

/-- The character this many places ahead. -/
def peek (cursor : Cursor) (ahead : Nat) : Char := cursor.rest.getD ahead endChar

/-- The next character. -/
def here (cursor : Cursor) : Char := cursor.peek 0

/-- The place behind the next character. A byte order mark takes no column, and a carriage
return before a line feed does not count as a line of its own. -/
def step (cursor : Cursor) : Cursor :=
  match cursor.rest with
  | [] => cursor
  | c :: rest =>
    if isBreak c && !(c = '\r' && rest.head? = some '\n') then
      ⟨rest, cursor.index + 1, cursor.line + 1, 0⟩
    else
      let width := if c = '\uFEFF' then 0 else 1
      ⟨rest, cursor.index + 1, cursor.line, cursor.column + width⟩

/-- The place this many characters further on. -/
def advance : Nat → Cursor → Cursor
  | 0, cursor => cursor
  | n + 1, cursor => advance n cursor.step

/-- The characters from here on that satisfy a test. -/
def run (cursor : Cursor) (test : Char → Bool) : List Char := cursor.rest.takeWhile test

/-- The place behind the characters that satisfy a test. -/
def skip (cursor : Cursor) (test : Char → Bool) : Cursor :=
  advance (cursor.run test).length cursor

def skipBlanks (cursor : Cursor) : Cursor := cursor.skip (· = ' ')

/-- The place behind a comment, if one begins here. -/
def skipComment (cursor : Cursor) : Cursor :=
  if cursor.here = '#' then cursor.skip fun c => !isBreakOrEnd c else cursor

/-- Takes a line break. Most breaks count as a line feed; the result is empty where no line
is broken. -/
def takeBreak (cursor : Cursor) : List Char × Cursor :=
  let c := cursor.here
  if c = '\r' && cursor.peek 1 = '\n' then (['\n'], advance 2 cursor)
  else if c = '\n' || c = '\r' || c = '\u0085' then (['\n'], cursor.step)
  else if c = '\u2028' || c = '\u2029' then ([c], cursor.step)
  else ([], cursor)

/-- Whether a document marker made of three of these characters stands here. -/
def atMarker (cursor : Cursor) (c : Char) : Bool :=
  cursor.peek 0 = c && cursor.peek 1 = c && cursor.peek 2 = c && isSpaceOrEnd (cursor.peek 3)

/-- Whether a marker of either kind stands here. -/
def atAnyMarker (cursor : Cursor) : Bool := cursor.atMarker '-' || cursor.atMarker '.'

end Cursor
end SessionKeeper.Yaml
