import SessionKeeper.Json.Basic
import SessionKeeper.Number.Shortest
import SessionKeeper.Runtime

/-!
# Printing JSON

Documents are printed in ASCII with two blanks of indentation for each level and
one item or member on a line; empty containers are written without a line break.
An integer of more than 4300 digits has no printed form, and printing stops where there
is no room for a container.
-/
namespace SessionKeeper.Json

/-- The least magnitude that has more digits than are printed or read. -/
def digitLimit : Nat := Nat.pow 10 4300

mutual

/-- The first limit that printing meets where there is room for so many levels. -/
def limit? : (room : Nat) → Json → Option Limit
  | _, .int n => if n.natAbs < digitLimit then none else some (.digits none)
  | 0, .arr _ => some (.levels .printed)
  | room + 1, .arr items => itemsLimit? room items
  | 0, .obj _ => some (.levels .printed)
  | room + 1, .obj members => membersLimit? room members
  | _, _ => none

/-- The first limit that printing the items meets. -/
def itemsLimit? (room : Nat) : List Json → Option Limit
  | [] => none
  | item :: rest => (limit? room item).or (itemsLimit? room rest)

/-- The first limit that printing the values of the members meets. -/
def membersLimit? (room : Nat) : List (Text × Json) → Option Limit
  | [] => none
  | (_, value) :: rest => (limit? room value).or (membersLimit? room rest)

end

/-- Whether the value meets no limit where there is room for so many levels. -/
def fits (room : Nat) (value : Json) : Bool := (value.limit? room).isNone

/-- Four hexadecimal digits. -/
def hexQuad (n : Nat) : List Char :=
  [Utf8.hexDigit (n / 4096), Utf8.hexDigit (n / 256), Utf8.hexDigit (n / 16), Utf8.hexDigit n]

/-- The escape of a number below 2^16. -/
def unitEscape (n : Nat) : List Char := '\\' :: 'u' :: hexQuad n

/-- The double quote that delimits strings. -/
def quote : Char := '\x22'

/-- The printed form of one code point inside a string. Code points beyond 16 bits are
written as two surrogates. -/
def escapePoint (p : Point) : List Char :=
  let n := p.code
  if n = 34 then ['\\', quote]
  else if n = 92 then ['\\', '\\']
  else if n = 10 then ['\\', 'n']
  else if n = 13 then ['\\', 'r']
  else if n = 9 then ['\\', 't']
  else if n = 8 then ['\\', 'b']
  else if n = 12 then ['\\', 'f']
  else if 32 ≤ n ∧ n < 127 then [Char.ofNat n]
  else if n < 0x10000 then unitEscape n
  else unitEscape (0xD800 + (n - 0x10000) / 1024) ++ unitEscape (0xDC00 + (n - 0x10000) % 1024)

/-- The printed form of a string without its quotes. -/
def escapeText (t : Text) : List Char := t.flatMap escapePoint

def printText (t : Text) : List Char := quote :: escapeText t ++ [quote]

/-- The printed form of a floating point number; the data without digits have names. -/
def printDouble (x : Double) : List Char :=
  match x with
  | .nan => "NaN".toList
  | .infinity negative => if negative then "-Infinity".toList else "Infinity".toList
  | .finite negative significand exponent =>
    let body := Double.magnitudeText significand exponent
    if negative then '-' :: body else body

def lineBreak (level : Nat) : List Char := '\n' :: List.replicate (2 * level) ' '

mutual

/-- The printed form of a value that begins at the given level. -/
def printAt (level : Nat) : Json → List Char
  | .null => "null".toList
  | .bool b => if b then "true".toList else "false".toList
  | .int n => (toString n).toList
  | .float x => printDouble x
  | .str t => printText t
  | .arr [] => ['[', ']']
  | .arr (item :: rest) =>
    '[' :: lineBreak (level + 1) ++ printAt (level + 1) item ++ printItems (level + 1) rest
      ++ lineBreak level ++ [']']
  | .obj [] => ['\x7b', '\x7d']
  | .obj ((name, value) :: rest) =>
    '\x7b' :: lineBreak (level + 1) ++ printText name ++ [':', ' '] ++ printAt (level + 1) value
      ++ printMembers (level + 1) rest ++ lineBreak level ++ ['\x7d']

def printItems (level : Nat) : List Json → List Char
  | [] => []
  | item :: rest => ',' :: lineBreak level ++ printAt level item ++ printItems level rest

def printMembers (level : Nat) : List (Text × Json) → List Char
  | [] => []
  | (name, value) :: rest =>
    ',' :: lineBreak level ++ printText name ++ [':', ' '] ++ printAt level value
      ++ printMembers level rest

end

/-- The printed document, unless it meets a limit. -/
def print [Runtime] (value : Json) : Except Limit (List Char) :=
  match value.limit? (Runtime.prints + 1) with
  | some limit => .error limit
  | none => .ok (printAt 0 value)

end SessionKeeper.Json
