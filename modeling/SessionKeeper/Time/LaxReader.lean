import SessionKeeper.Json.Reader
import SessionKeeper.Number.Numeral
import SessionKeeper.Time.Moment

/-!
# Reading moments from documents

A stored moment may be RFC 3339 text, a bare date, or a number of seconds since
1970, in JSON or spelled in text. Numbers beyond 2 · 10^10 count milliseconds. A
number gives a moment in universal time between the years 1600 and 9999.
-/
namespace SessionKeeper

/-- Why a value is no moment. -/
inductive MomentFault where
  | notAMoment
  | unreadable
  | noDateEither
  | unpairedSurrogate
deriving DecidableEq, Repr

namespace LaxReader

/-- The number spelled by exactly this many digits at the front, and the rest. -/
def fixed? (count : Nat) (cs : List Char) : Option (Nat × List Char) :=
  let front := cs.take count
  if front.length = count && front.all Char.isDigit then
    some (Numeral.ofDigits front, cs.drop count)
  else none

/-- Drops the given character from the front. -/
def expect? (c : Char) : List Char → Option (List Char)
  | [] => none
  | d :: rest => if c = d then some rest else none

/-- The year, month and day of a date at the front. Year zero is kept until the end, since
it spoils more than the date. -/
def dateParts? (cs : List Char) : Option ((Nat × Nat × Nat) × List Char) := do
  let (year, cs) ← fixed? 4 cs
  let (month, cs) ← fixed? 2 (← expect? '-' cs)
  let (day, cs) ← fixed? 2 (← expect? '-' cs)
  if 1 ≤ month ∧ month ≤ 12 ∧ 1 ≤ day ∧ day ≤ daysInMonth year month then
    some ((year, month, day), cs)
  else none

/-- The seconds of a time of day, when a colon announces them. -/
def seconds? : List Char → Option (Nat × List Char)
  | ':' :: rest => fixed? 2 rest
  | cs => some (0, cs)

/-- The microseconds of a fraction at the front; digits after the sixth are dropped. -/
def fraction? : List Char → Option (Nat × List Char)
  | c :: rest =>
    if c = '.' || c = ',' then
      let digits := rest.takeWhile Char.isDigit
      if digits.isEmpty then none
      else
        let kept := digits.take 6
        some (Numeral.ofDigits kept * Nat.pow 10 (6 - kept.length), rest.dropWhile Char.isDigit)
    else some (0, c :: rest)
  | [] => some (0, [])

/-- The offset that makes up the whole rest of a text, none for an empty one. -/
def offset? : List Char → Option (Option Int)
  | [] => some none
  | [c] => if c = 'Z' || c = 'z' then some (some 0) else none
  | c :: rest => do
    let negative ←
      if c = '+' then some false else if c = '-' || c = '\u2212' then some true else none
    let (hours, rest) ← fixed? 2 rest
    let rest := match rest with
      | ':' :: more => more
      | _ => rest
    let (minutes, rest) ← fixed? 2 rest
    if !rest.isEmpty || 59 < minutes || 23 < hours then none
    else
      let size : Int := (hours * 60 + minutes) * 60000000
      some (some (if negative then -size else size))

/-- Whether the character may stand between date and time. -/
def isSeparator (c : Char) : Bool := c = 'T' || c = 't' || c = ' ' || c = '_'

/-- The time and offset that make up the whole rest of a text. -/
def timeParts? (cs : List Char) : Option (Fin 86400000000 × Option Int) := do
  let (hour, cs) ← fixed? 2 cs
  let (minute, cs) ← fixed? 2 (← expect? ':' cs)
  let announced := cs.head? = some ':'
  let (second, cs) ← seconds? cs
  let (micros, cs) ← if announced then fraction? cs else some (0, cs)
  let offset ← offset? cs
  let tick ← Moment.tick? hour minute second micros
  return (tick, offset)

/-- The moment with these parts; the year zero is unreadable. -/
def assemble (parts : Nat × Nat × Nat) (tick : Fin 86400000000) (offset : Option Int) :
    Except MomentFault Moment :=
  match Date.of? parts.1 parts.2.1 parts.2.2 with
  | some date => .ok ⟨date, tick, offset⟩
  | none => .error .unreadable

/-- Seconds since 1970 at the first midnight of the year 1600. -/
def earliest : Int := -11676096000

/-- Seconds since 1970 at the end of the year 9999. -/
def latest : Int := 253402300799

/-- Seconds since the first midnight of year 1 at the start of 1970. -/
def epoch : Int := 62135596800

/-- The largest number that counts seconds. -/
def watershed : Int := 20000000000

/-- The moment this many seconds, or milliseconds when the number is large, and this many
microseconds after the start of 1970. -/
def ofTimestamp? (n : Int) (micros : Nat) : Option Moment :=
  let total : Int :=
    if n.natAbs ≤ watershed.natAbs then n * 1000000 + micros else n * 1000 + micros
  let seconds := total.fdiv 1000000
  if seconds < earliest ∨ latest < seconds then none
  else Moment.ofLocalMicros? (epoch * 1000000 + total) (some 0)

/-- The greatest integer that the quotient reaches. -/
def floorOf (x : Int × Nat) : Int := x.1.fdiv x.2

/-- The nearest natural number to a quotient, a half away from zero. -/
def roundAway (n d : Nat) : Nat := (2 * n + d) / (2 * d)

/-- The natural number nearest to a floating point number that is not negative. -/
def nearestMicros (x : Double) : Nat :=
  match x.toRatio? with
  | some (n, d) => roundAway n.toNat d
  | none => 0

/-- The moment a floating point number of seconds stands for. The fraction counts by its
size, also below zero. -/
def ofDouble? (x : Double) : Option Moment :=
  match x.toRatio? with
  | none => none
  | some (n, d) =>
    let fraction := Double.ofRatio false (n.natAbs % d) d
    ofTimestamp? (floorOf (n, d)) (nearestMicros (fraction.scale 1000000))

def ofNumeral? (x : Double) : Option Moment :=
  match x.toRatio? with
  | none => none
  | some (n, d) =>
    let isLarge := watershed.natAbs * d < n.natAbs
    let scaled := if isLarge then (Double.ofIntRatio n (d * 1000)).toRatio?.getD (0, 1) else (n, d)
    let whole := floorOf scaled
    let rest := Double.ofIntRatio (scaled.1 - whole * scaled.2) scaled.2
    ofTimestamp? whole (nearestMicros (rest.scale 1000000))

/-- The moment that a number spelled in text stands for: digits with an optional sign, or a
JSON number with a fraction. -/
def ofNumeralText? (cs : List Char) : Option Moment :=
  let (negative, body) := Numeral.splitSign cs
  let whole := body.takeWhile Char.isDigit
  let size := Numeral.ofDigits whole
  if whole.isEmpty || Numeral.wordLimit ≤ size then none
  else match body.dropWhile Char.isDigit with
    | [] => ofTimestamp? (if negative then -(size : Int) else size) 0
    | '.' :: _ =>
      match (cs.getLast?.any Char.isDigit), Json.parseWithin 0 (Text.ofChars cs) with
      | true, .ok (.float x) => ofNumeral? x
      | _, _ => none
    | _ => none

/-- The moment that a text stands for. A text that is neither a moment nor a number may
still be a bare date, which means its midnight. -/
def ofText (cs : List Char) : Except MomentFault Moment :=
  match dateParts? cs with
  | some (parts, []) => assemble parts Moment.midnight none
  | some (parts, c :: rest) =>
    match if isSeparator c then timeParts? rest else none with
    | some (tick, offset) => assemble parts tick offset
    | none => .error .noDateEither
  | none =>
    match ofNumeralText? cs with
    | some moment => .ok moment
    | none => .error .noDateEither

/-- The least magnitude that rounds to infinity. -/
def doubleLimit : Nat := Nat.pow 2 1024 - Nat.pow 2 970

/-- The moment an integer stands for, if it fits a signed word. -/
def ofWord? (n : Int) : Option Moment :=
  if -(Numeral.wordLimit : Int) ≤ n ∧ n < Numeral.wordLimit then ofTimestamp? n 0 else none

def read : Json → Except MomentFault Moment
  | .str t =>
    match t.toChars? with
    | some cs => ofText cs
    | none => .error .unpairedSurrogate
  | .int n =>
    if doubleLimit ≤ n.natAbs then .error .notAMoment
    else match ofWord? n with
      | some moment => .ok moment
      | none => .error .unreadable
  | .float x =>
    match ofDouble? x with
    | some moment => .ok moment
    | none => .error .unreadable
  | _ => .error .notAMoment

end LaxReader
end SessionKeeper
