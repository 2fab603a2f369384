import SessionKeeper.Number.Numeral
import SessionKeeper.Text.Base64
import SessionKeeper.Time.Moment
import SessionKeeper.Yaml.Fault

/-!
# Types of scalars

A plain scalar has the type its spelling suggests: null, a truth value, a number, a
time, or text when nothing else fits. `Tag.ofPlain` makes that choice, and
`Value.ofScalar` reads a scalar as a value of a type it was given.
-/
namespace SessionKeeper.Yaml

/-- The full name of a type. -/
abbrev Tag := String

namespace Tag

/-- What the full names of the standard types begin with. -/
def standard (name : String) : Tag := "tag:yaml.org,2002:" ++ name

def text : Tag := standard "str"

def list : Tag := standard "seq"

def map : Tag := standard "map"

/-- The key that merges other mappings in. -/
def merge : Tag := standard "merge"

/-- The key of a mapping's own value. -/
def value : Tag := standard "value"

end Tag

def nullSpellings : List String := ["", "~", "null", "Null", "NULL"]

def boolSpellings : List String :=
  ["yes", "Yes", "YES", "no", "No", "NO", "true", "True", "TRUE", "false", "False", "FALSE",
   "on", "On", "ON", "off", "Off", "OFF"]

/-- The text without a sign in front. -/
def unsigned (cs : List Char) : List Char := (Numeral.splitSign cs).2

def isDigitRun : List Char → Bool
  | [] => false
  | c :: rest => c.isDigit && rest.all fun d => d.isDigit || d = '_'

/-- Whether the text is one or more parts `:n` with `n` below sixty. -/
def isSexagesimalTail : (fuel : Nat) → List Char → Bool
  | 0, _ => false
  | fuel + 1, cs =>
    match cs with
    | ':' :: rest =>
      let digits := rest.takeWhile Char.isDigit
      let after := rest.dropWhile Char.isDigit
      let fits := match digits with
        | [_] => true
        | [d, _] => d.toNat < 54
        | _ => false
      fits && (after.isEmpty || isSexagesimalTail fuel after)
    | _ => false

/-- Whether an exponent, which needs a sign, makes up the text; an empty one may. -/
def isExponentOrEmpty : List Char → Bool
  | [] => true
  | [_] => false
  | e :: sign :: digits =>
    (e = 'e' || e = 'E') && (sign = '-' || sign = '+') && !digits.isEmpty && digits.all Char.isDigit

def isIntSpelling (text : List Char) : Bool :=
  let cs := unsigned text
  let whole := cs.takeWhile fun c => c.isDigit || c = '_'
  let rest := cs.drop whole.length
  match cs with
  | ['0'] => true
  | '0' :: 'b' :: digits => !digits.isEmpty && digits.all fun c => c = '0' || c = '1' || c = '_'
  | '0' :: 'x' :: digits =>
    !digits.isEmpty && digits.all fun c =>
      c.isDigit || ('a' ≤ c && c ≤ 'f') || ('A' ≤ c && c ≤ 'F') || c = '_'
  | '0' :: digits => digits.all fun c => ('0' ≤ c && c ≤ '7') || c = '_'
  | _ => isDigitRun whole && (rest.isEmpty || isSexagesimalTail (rest.length + 1) rest)

/-- Whether the text spells a number with a decimal point. -/
def isFloatSpelling (text : List Char) : Bool :=
  let cs := unsigned text
  let isDigitOrMark := fun (c : Char) => c.isDigit || c = '_'
  let named := String.ofList (cs.drop 1)
  match cs with
  | '.' :: rest =>
    (["inf", "Inf", "INF"].contains named) ||
      (cs = text && ["nan", "NaN", "NAN"].contains named) ||
      (cs = text && isDigitRun (rest.takeWhile isDigitOrMark) &&
        isExponentOrEmpty (rest.dropWhile isDigitOrMark))
  | _ =>
    let whole := cs.takeWhile isDigitOrMark
    let rest := cs.drop whole.length
    let parts := rest.takeWhile (· ≠ '.')
    isDigitRun whole &&
      match rest.drop parts.length with
      | '.' :: fraction =>
        if parts.isEmpty then isExponentOrEmpty (fraction.dropWhile isDigitOrMark)
        else isSexagesimalTail (parts.length + 1) parts && fraction.all isDigitOrMark
      | _ => false

/-- The parts of a time as they are spelled; the offset is in minutes. -/
structure Timestamp where
  year : Nat
  month : Nat
  day : Nat
  clock : Option (Nat × Nat × Nat)
  offset : Option Int

/-- A number of one or two digits at the front. -/
def shortNumber? (cs : List Char) : Option (Nat × List Char) :=
  match cs with
  | a :: b :: rest =>
    if !a.isDigit then none
    else if b.isDigit then some (Numeral.ofDigits [a, b], rest)
    else some (Numeral.ofDigits [a], b :: rest)
  | [a] => if a.isDigit then some (Numeral.ofDigits [a], []) else none
  | [] => none

def twoDigits? : List Char → Option (Nat × List Char)
  | a :: b :: rest =>
    if a.isDigit && b.isDigit then some (Numeral.ofDigits [a, b], rest) else none
  | _ => none

/-- What follows a character that has to stand at the front. -/
def after? (c : Char) : List Char → Option (List Char)
  | [] => none
  | d :: rest => if c = d then some rest else none

/-- The offset in minutes that makes up the text: none, `Z`, or hours with or without minutes. -/
def offsetSpelling? (cs : List Char) : Option (Option Int) :=
  match cs.dropWhile fun c => c = ' ' || c = '\t' with
  | [] => if cs.isEmpty then some none else none
  | ['Z'] => some none
  | sign :: rest =>
    let signed (size : Nat) : Int := if sign = '-' then -size else size
    if sign = '-' || sign = '+' then do
      let (hours, rest) ← shortNumber? rest
      match rest with
      | [] => some (some (signed (hours * 60)))
      | ':' :: rest =>
        match twoDigits? rest with
        | some (minutes, []) => some (some (signed (hours * 60 + minutes)))
        | _ => none
      | _ => none
    else none

/-- The time that a text spells, in or out of range. -/
def timestamp? (cs : List Char) : Option Timestamp := do
  let digits := cs.take 4
  if digits.length ≠ 4 || !digits.all Char.isDigit then none
  else
    let year := Numeral.ofDigits digits
    let (month, rest) ← shortNumber? (← after? '-' (cs.drop 4))
    let (day, rest) ← shortNumber? (← after? '-' rest)
    match rest with
    | [] => some ⟨year, month, day, none, none⟩
    | c :: more =>
      let body ←
        if c = 'T' || c = 't' then some more
        else if c = ' ' || c = '\t' then some (rest.dropWhile fun d => d = ' ' || d = '\t')
        else none
      let (hour, rest) ← shortNumber? body
      let (minute, rest) ← twoDigits? (← after? ':' rest)
      let (second, rest) ← twoDigits? (← after? ':' rest)
      let rest := match rest with
        | '.' :: fraction => fraction.dropWhile Char.isDigit
        | _ => rest
      let offset ← offsetSpelling? rest
      return ⟨year, month, day, some (hour, minute, second), offset⟩

/-- Whether the text spells a time: a bare date needs two digits for month and day. -/
def isTimestampSpelling (cs : List Char) : Bool :=
  match timestamp? cs with
  | some stamp => stamp.clock.isSome || cs.length = 10
  | none => false

/-- The type that the spelling of a plain scalar suggests. -/
def Tag.ofPlain (t : Text) : Tag :=
  match t.toChars? with
  | none => Tag.text
  | some cs =>
    let spelled := String.ofList cs
    if boolSpellings.contains spelled then Tag.standard "bool"
    else if isFloatSpelling cs then Tag.standard "float"
    else if isIntSpelling cs then Tag.standard "int"
    else if spelled = "<<" then Tag.merge
    else if nullSpellings.contains spelled then Tag.standard "null"
    else if isTimestampSpelling cs then Tag.standard "timestamp"
    else if spelled = "=" then Tag.value
    else Tag.text

/-- The letter that may stand behind a zero in front of digits in a base. -/
def baseLetter? (base : Nat) : Option Char := [(2, 'b'), (8, 'o'), (16, 'x')].lookup base

/-- Leaves out a zero and the letter of the base in front of digits. -/
def dropBase (base : Nat) : List Char → List Char
  | '0' :: c :: rest => if baseLetter? base = some c.toLower then rest else '0' :: c :: rest
  | cs => cs

/-- Whether digits in a base make up a text; blanks around them do not matter. -/
def checkInteger (base : Nat) (cs : List Char) : Except ValueFault Unit :=
  let digits := Numeral.trim cs
  let body := dropBase base (Numeral.splitSign digits).2
  let valueOf := fun (c : Char) =>
    if c.isDigit then c.toNat - 48
    else if 'a' ≤ c && c ≤ 'z' then c.toNat - 87
    else if 'A' ≤ c && c ≤ 'Z' then c.toNat - 55
    else 99
  if body.isEmpty || !body.all fun c => valueOf c < base then
    .error (.integer base (Text.ofChars cs))
  else if base = 10 && 4300 < body.length then .error (.tooManyDigits body.length)
  else .ok ()

/-- Whether a text is an integer in one of the notations. -/
def checkInt (cs : List Char) : Except ValueFault Unit :=
  match cs.filter (· ≠ '_') with
  | [] => .error .emptyNumber
  | c :: rest =>
    let body := if c = '-' || c = '+' then rest else c :: rest
    match body with
    | [] => .error .emptyNumber
    | ['0'] => .ok ()
    | '0' :: 'b' :: digits => checkInteger 2 digits
    | '0' :: 'x' :: digits => checkInteger 16 digits
    | '0' :: _ => checkInteger 8 body
    | _ =>
      if body.contains ':' then (body.splitOnP (· = ':')).forM (checkInteger 10)
      else checkInteger 10 body

/-- Whether a text is a floating point number. -/
def checkDouble (cs : List Char) : Except ValueFault Unit :=
  match Numeral.plainDouble? (Numeral.trim cs) with
  | some _ => .ok ()
  | none => .error (.float (Text.ofChars cs))

/-- Whether a text is a floating point number in one of the notations. -/
def checkFloat (cs : List Char) : Except ValueFault Unit :=
  match (cs.filter (· ≠ '_')).map Char.toLower with
  | [] => .error .emptyNumber
  | c :: rest =>
    let body := if c = '-' || c = '+' then rest else c :: rest
    if body = ".inf".toList || body = ".nan".toList then .ok ()
    else if body.contains ':' then (body.splitOnP (· = ':')).forM checkDouble
    else checkDouble body

/-- Whether a text is a time that exists. -/
def checkTimestamp (cs : List Char) : Except ValueFault Unit :=
  match timestamp? cs with
  | none => .error .timestamp
  | some stamp => do
    match stamp.offset with
    | some minutes => if 24 * 60 ≤ minutes.natAbs then throw (.offset minutes)
    | none => pure ()
    match Date.make stamp.year stamp.month stamp.day with
    | .error fault => throw (.date fault)
    | .ok _ => pure ()
    match stamp.clock with
    | some (hour, minute, second) =>
      if 23 < hour then throw .hour
      else if 59 < minute then throw .minute
      else if 59 < second then throw .second
      else pure ()
    | none => pure ()

/-- Whether a text spells a truth value, in any case. -/
def checkBool (cs : List Char) : Except ValueFault Unit :=
  let lower := cs.map Char.toLower
  if ["yes", "no", "true", "false", "on", "off"].contains (String.ofList lower) then .ok ()
  else .error (.boolean (Text.ofChars lower))

/-- A value, as far as it matters: null, a text, octets, any other scalar, or a collection. -/
inductive Value where
  | null
  | text (t : Text)
  | octets (o : Octets)
  | scalar
  | collection
deriving DecidableEq, Repr

/-- The octets that an ASCII text stands for in base 64. -/
def octets? (cs : List Char) : Option Octets :=
  if cs.all (·.toNat < 128) then Base64.decode? cs else none

/-- Reads a scalar as a value of a type; a type that is not known has no values. -/
def Value.ofScalar (tag : Tag) (t : Text) : Except Fault Value :=
  let cs := t.scalars
  let checked := fun (result : Except ValueFault Unit) =>
    (result.map fun () => Value.scalar).mapError Fault.value
  if tag = Tag.text then .ok (.text t)
  else if tag = Tag.standard "null" then .ok .null
  else if tag = Tag.standard "bool" then checked (checkBool cs)
  else if tag = Tag.standard "int" then checked (checkInt cs)
  else if tag = Tag.standard "float" then checked (checkFloat cs)
  else if tag = Tag.standard "timestamp" then checked (checkTimestamp cs)
  else if tag = Tag.standard "binary" then
    match octets? cs with
    | some o => .ok (.octets o)
    | none => .error .grammar
  else .error .grammar

end SessionKeeper.Yaml
