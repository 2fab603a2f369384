import SessionKeeper.Json.Basic
import SessionKeeper.Number.Numeral
import SessionKeeper.Runtime

/-!
# Reading JSON

The reader follows the grammar strictly, with three additions: `NaN`, `Infinity`
and `-Infinity` are numbers. A repeated member keeps its first place and its last
value. Two escapes that spell a surrogate pair stand for one character. An integer
of more than 4300 digits and a container for which there is no room are refused with
errors of their own, which is how they differ from a malformed document.
-/
namespace SessionKeeper.Json

/-- Why a text cannot be read. -/
inductive ReadFault where
  | syntaxFault
  | beyond (limit : Limit)
deriving DecidableEq, Repr

/-- The result of a step of reading; it comes with the text that follows. -/
abbrev Outcome (α : Type) := Except ReadFault α

def malformed {α : Type} : Outcome α := .error .syntaxFault

/-- Stops where there is no room for another level. -/
def tooDeep {α : Type} (nesting : Nesting) : Outcome α := .error (.beyond (.levels nesting))

/-- Whether the code point separates tokens. -/
def isGap : Point → Bool
  | .char c => c = ' ' || c = '\t' || c = '\n' || c = '\r'
  | .surrogate _ => false

/-- Drops the gap in front of the next token. -/
def skipGap (t : Text) : Text := t.dropWhile isGap

def hexValue? : Point → Option Nat
  | .surrogate _ => none
  | .char c =>
    if '0' ≤ c ∧ c ≤ '9' then some (c.toNat - 48)
    else if 'a' ≤ c ∧ c ≤ 'f' then some (c.toNat - 87)
    else if 'A' ≤ c ∧ c ≤ 'F' then some (c.toNat - 55)
    else none

/-- The value of four hexadecimal digits. -/
def hexQuad? (a b c d : Point) : Option Nat := do
  return (((← hexValue? a) * 16 + (← hexValue? b)) * 16 + (← hexValue? c)) * 16 + (← hexValue? d)

/-- A code point of a string as it was spelled. -/
inductive Spelling where
  | plain (p : Point)
  | escaped (code : Nat)
deriving DecidableEq, Repr

/-- Whether the number is that of a leading surrogate. -/
def isLeading (n : Nat) : Bool := 0xD800 ≤ n && n < 0xDC00

/-- Whether the number is that of a trailing surrogate. -/
def isTrailing (n : Nat) : Bool := 0xDC00 ≤ n && n < 0xE000

/-- The character that a surrogate pair stands for. -/
def joinPair (leading trailing : Nat) : Point :=
  Point.ofCode (0x10000 + (leading - 0xD800) * 1024 + (trailing - 0xDC00))

/-- The text that spellings stand for: neighbouring escapes of a pair are joined. -/
def joinSpellings : List Spelling → Text
  | [] => []
  | .plain p :: rest => p :: joinSpellings rest
  | [.escaped n] => [Point.ofCode n]
  | .escaped n :: .plain p :: rest => Point.ofCode n :: p :: joinSpellings rest
  | .escaped n :: .escaped m :: rest =>
    if isLeading n && isTrailing m then joinPair n m :: joinSpellings rest
    else Point.ofCode n :: joinSpellings (.escaped m :: rest)

/-- The character that a backslash and this one stand for. -/
def shortEscape? : Point → Option Char
  | .surrogate _ => none
  | .char c =>
    if c = '\x22' || c = '\\' || c = '/' then some c
    else if c = 'n' then some '\n'
    else if c = 'r' then some '\r'
    else if c = 't' then some '\t'
    else if c = 'b' then some '\x08'
    else if c = 'f' then some '\x0c'
    else none

/-- Reads the inside of a string up to and with its closing quote. -/
def spellings : Text → Option (List Spelling × Text)
  | [] => none
  | p :: rest =>
    if p = .char ('\x22') then some ([], rest)
    else if p = .char '\\' then
      match rest with
      | [] => none
      | e :: more =>
        if e = .char 'u' then
          match more with
          | a :: b :: c :: d :: after =>
            match hexQuad? a b c d with
            | some n => (spellings after).map fun (s, left) => (.escaped n :: s, left)
            | none => none
          | _ => none
        else
          match shortEscape? e with
          | some c => (spellings more).map fun (s, left) => (.plain (.char c) :: s, left)
          | none => none
    else if p.code < 32 then none
    else (spellings rest).map fun (s, left) => (.plain p :: s, left)

/-- Reads a string whose opening quote has been read. -/
def readText (t : Text) : Outcome (Text × Text) :=
  match spellings t with
  | some (s, rest) => .ok (joinSpellings s, rest)
  | none => malformed

def isDigit : Point → Bool
  | .char c => c.isDigit
  | .surrogate _ => false

/-- The characters of the digits at the front, and what follows them. -/
def takeDigits (t : Text) : List Char × Text :=
  (Text.scalars (t.takeWhile isDigit), t.dropWhile isDigit)

/-- A point and the digits after it, when both are there. -/
def takeFraction (t : Text) : List Char × Text :=
  match t with
  | .char '.' :: rest =>
    let (digits, after) := takeDigits rest
    if digits.isEmpty then ([], t) else (digits, after)
  | _ => ([], t)

/-- An exponent, when a letter, an optional sign and digits are there. -/
def takeExponent (t : Text) : Option Int × Text :=
  match t with
  | .char c :: rest =>
    if c = 'e' || c = 'E' then
      let (negative, body) := match rest with
        | .char '-' :: more => (true, more)
        | .char '+' :: more => (false, more)
        | _ => (false, rest)
      let (digits, after) := takeDigits body
      if digits.isEmpty then (none, t)
      else
        let n : Int := Numeral.ofDigits digits
        (some (if negative then -n else n), after)
    else (none, t)
  | _ => (none, t)

/-- Reads a number whose minus sign has been read; a leading zero stands alone. -/
def readUnsigned (negative : Bool) (t : Text) : Outcome (Json × Text) :=
  let (whole, rest) := match t with
    | .char '0' :: more => (['0'], more)
    | _ => takeDigits t
  if whole.isEmpty then malformed
  else
    let (fraction, rest) := takeFraction rest
    let (exponent?, rest) := takeExponent rest
    if fraction.isEmpty && exponent?.isNone then
      if 4300 < whole.length then .error (.beyond (.digits (some whole.length)))
      else
        let n : Int := Numeral.ofDigits whole
        .ok (.int (if negative then -n else n), rest)
    else
      let digits := Numeral.ofDigits (whole ++ fraction)
      .ok (.float (.ofDecimal negative digits (exponent?.getD 0 - fraction.length)), rest)

def wordValues : List (String × Json) :=
  [("null", .null), ("true", .bool true), ("false", .bool false), ("NaN", .float .nan),
   ("Infinity", .float (.infinity false)), ("-Infinity", .float (.infinity true))]

def readWord? (t : Text) : Option (Json × Text) :=
  wordValues.findSome? fun (word, value) =>
    if t.startsWith word then some (value, t.drop word.length) else none

def readScalar (t : Text) : Outcome (Json × Text) :=
  match readWord? t with
  | some result => .ok result
  | none =>
    match t with
    | .char '-' :: rest => readUnsigned true rest
    | _ => readUnsigned false t

/-- Reads the name of a member up to and with its colon. -/
def readName (t : Text) : Outcome (Text × Text) :=
  match t with
  | .char '\x22' :: rest => do
    let (name, rest) ← readText rest
    match skipGap rest with
    | .char ':' :: rest => .ok (name, skipGap rest)
    | _ => malformed
  | _ => malformed

mutual

/-- Reads a value that begins the text, with room for so many levels. Each step of reading takes
one unit of fuel, and one of two steps takes a code point. -/
def readValue : (room fuel : Nat) → Text → Outcome (Json × Text)
  | _, 0, _ => malformed
  | room, fuel + 1, t =>
    match t with
    | .char '\x22' :: rest => do
      let (text, rest) ← readText rest
      return (.str text, rest)
    | .char '[' :: rest =>
      match room with
      | 0 => tooDeep .array
      | room + 1 =>
        match skipGap rest with
        | .char ']' :: rest => .ok (.arr [], rest)
        | rest => do
          let (items, rest) ← readItems room fuel rest
          return (.arr items, rest)
    | .char '\x7b' :: rest =>
      match room with
      | 0 => tooDeep .object
      | room + 1 =>
        match skipGap rest with
        | .char '\x7d' :: rest => .ok (.obj [], rest)
        | rest => do
          let (members, rest) ← readMembers room fuel rest
          return (.obj (Assoc.ofPairs members), rest)
    | _ => readScalar t

/-- Reads one item or more up to and with the closing bracket. -/
def readItems : (room fuel : Nat) → Text → Outcome (List Json × Text)
  | _, 0, _ => malformed
  | room, fuel + 1, t => do
    let (item, rest) ← readValue room fuel t
    match skipGap rest with
    | .char ',' :: rest => do
      let (items, rest) ← readItems room fuel (skipGap rest)
      return (item :: items, rest)
    | .char ']' :: rest => return ([item], rest)
    | _ => malformed

/-- Reads one member or more up to and with the closing brace. -/
def readMembers : (room fuel : Nat) → Text → Outcome (List (Text × Json) × Text)
  | _, 0, _ => malformed
  | room, fuel + 1, t => do
    let (name, rest) ← readName t
    let (value, rest) ← readValue room fuel rest
    match skipGap rest with
    | .char ',' :: rest => do
      let (members, rest) ← readMembers room fuel (skipGap rest)
      return ((name, value) :: members, rest)
    | .char '\x7d' :: rest => return ([(name, value)], rest)
    | _ => malformed

end

/-- Reads a document, one value with nothing but gaps around it, with room for so many levels. -/
def parseWithin (room : Nat) (t : Text) : Except ReadFault Json := do
  let (value, rest) ← readValue room (2 * t.length + 1) (skipGap t)
  if (skipGap rest).isEmpty then return value else .error .syntaxFault

/-- Reads a document as far as the runtime has room for it. -/
def parse [Runtime] (t : Text) : Except ReadFault Json := parseWithin (Runtime.reads + 1) t

end SessionKeeper.Json
