import SessionKeeper.Text.Utf8
import SessionKeeper.Time.Moment

/-!
# Reading ISO 8601 text

Dates are `YYYY-MM-DD`, `YYYYMMDD` or ISO weeks with or without a day; any single
character separates the date from the time. A time has one to three fields of two
digits, with colons between all of them or none, then a fraction and an offset. The
reader works on the UTF-8 octets and takes the end of the text for a zero octet; where
the octet after the last field is not the end, only the absence of an offset makes that
an error.
-/
namespace SessionKeeper.IsoReader

/-- Whether the octet is a decimal digit. -/
def isDigit (b : UInt8) : Bool := 48 ≤ b && b ≤ 57

/-- The octet at the front, zero at the end of the text. -/
def peek (s : Octets) : UInt8 := s.headD 0

/-- The octet at a position, zero past the end of the text. -/
def octetAt (s : Octets) (position : Nat) : UInt8 := s.getD position 0

/-- Reads exactly this many digits, continuing the number read so far. -/
def takeNumber : (count : Nat) → (soFar : Nat) → Octets → Option (Nat × Octets)
  | 0, n, s => some (n, s)
  | _ + 1, _, [] => none
  | count + 1, n, b :: rest =>
    if isDigit b then takeNumber count (n * 10 + (b.toNat - 48)) rest else none

/-- Where the character between date and time stands; `none` where no date can end. -/
def separatorPosition (s : Octets) : Option Nat :=
  if s.length = 7 then some 7
  else if octetAt s 4 = 45 then
    if octetAt s 5 = 87 then
      if 8 < s.length && octetAt s 8 = 45 then
        if s.length = 9 then none
        else if 10 < s.length && isDigit (octetAt s 10) then some 8
        else some 10
      else some 8
    else some 10
  else if octetAt s 4 = 87 then
    let position := 7 + ((s.drop 7).takeWhile isDigit).length
    if position < 9 then some position
    else if position % 2 = 0 then some 7
    else some 8
  else some 8

def readDate (s : Octets) (stop : Nat) : Option Date := do
  let (year, rest) ← takeNumber 4 0 s
  let separated := peek rest = 45
  let rest := if separated then rest.drop 1 else rest
  if peek rest = 87 then
    let (week, rest) ← takeNumber 2 0 (rest.drop 1)
    if s.length - rest.length < stop then
      if separated && peek rest ≠ 45 then none
      else
        let (day, _) ← takeNumber 1 0 (if separated then rest.drop 1 else rest)
        Date.ofIsoWeek? year week day
    else Date.ofIsoWeek? year week 1
  else
    let (month, rest) ← takeNumber 2 0 rest
    if separated && peek rest ≠ 45 then none
    else
      let (day, _) ← takeNumber 2 0 (if separated then rest.drop 1 else rest)
      Date.of? year month day

/-- The fields of a time or an offset, and whether the text ends behind them. -/
structure Fields where
  hour : Nat
  minute : Nat
  second : Nat
  micros : Nat
  ends : Bool

/-- The fields of whole numbers read so far together with microseconds. -/
def Fields.of (parts : List Nat) (micros : Nat) (ends : Bool) : Fields :=
  ⟨parts.getD 0 0, parts.getD 1 0, parts.getD 2 0, micros, ends⟩

/-- Reads a fraction: at most six digits count and further digits are skipped. -/
def readFraction (parts : List Nat) (room : Nat) (s : Octets) : Option Fields := do
  let count := min room 6
  let (n, rest) ← takeNumber count 0 s
  return .of parts (n * Nat.pow 10 (6 - count)) (peek (rest.dropWhile isDigit) = 0)

/-- Reads up to `left` fields of two digits and a fraction. `room` counts the octets that
belong to the fields; `colons` says whether colons separate them, once that is known. -/
def readFields : (left : Nat) → (colons : Option Bool) → (parts : List Nat) → (room : Nat) →
    Octets → Option Fields
  | 0, _, parts, room, s => readFraction parts room s
  | left + 1, colons, parts, room, s => do
    let (value, rest) ← takeNumber 2 0 s
    let parts := parts ++ [value]
    let room := room - 2
    let next := peek rest
    let colons := colons.getD (next = 58)
    if room ≤ 1 then return .of parts 0 (next = 0)
    else if colons && next = 58 then readFields left (some colons) parts (room - 1) (rest.drop 1)
    else if next = 46 || next = 44 then readFraction parts (room - 1) (rest.drop 1)
    else if colons then none
    else readFields left (some colons) parts room rest

/-- Reads the offset that begins with `Z` or a sign. An offset below a second counts as
zero, and one of a day or more is refused. -/
def readOffset (s : Octets) : Option Int :=
  if peek s = 90 then (if octetAt s 1 = 0 then some 0 else none)
  else do
    let body := s.drop 1
    let fields ← readFields 3 none [] body.length body
    let seconds := (fields.hour * 60 + fields.minute) * 60 + fields.second
    let size : Int := seconds * 1000000 + fields.micros
    if !fields.ends then none
    else if seconds = 0 then some 0
    else if size < Duration.dayMicros then some (if peek s = 45 then -size else size)
    else none

/-- Whether an offset begins with this octet. -/
def startsOffset (b : UInt8) : Bool := b = 43 || b = 45 || b = 90

def readTime (s : Octets) : Option (Fin 86400000000 × Option Int) := do
  let size := (s.takeWhile fun b => !startsOffset b).length
  let fields ← readFields 3 none [] size s
  let tick ← Moment.tick? fields.hour fields.minute fields.second fields.micros
  if size = s.length then
    if fields.ends then return (tick, none) else none
  else
    let offset ← readOffset (s.drop size)
    return (tick, some offset)

/-- The number of octets of the character that begins with this one. -/
def characterSize (lead : UInt8) : Nat :=
  if lead < 0x80 then 1 else if lead < 0xE0 then 2 else if lead < 0xF0 then 3 else 4

/-- A surrogate can only stand between date and time; it is read as any separator. -/
def tameSeparator (t : Text) : Text :=
  let isHalf (position : Nat) : Bool := match t[position]? with
    | some (.surrogate _) => true
    | _ => false
  match [7, 8, 10].find? isHalf with
  | some position => t.set position (.char 'T')
  | none => t

def read? (t : Text) : Option Moment := do
  if t.length < 7 then none
  else
    let s ← Utf8.encode? (tameSeparator t)
    let stop ← separatorPosition s
    let date ← readDate s stop
    if s.length ≤ stop then return ⟨date, Moment.midnight, none⟩
    else
      let rest := s.drop stop
      let (tick, offset) ← readTime (rest.drop (characterSize (peek rest)))
      return ⟨date, tick, offset⟩

end SessionKeeper.IsoReader
