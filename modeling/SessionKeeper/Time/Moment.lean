import SessionKeeper.Text.Basic
import SessionKeeper.Time.Calendar
import SessionKeeper.Time.Duration

/-!
# Moments

A moment is a date, a time of day to the microsecond and, unless it is left open,
an offset from universal time. Two moments can be compared or subtracted when both
have an offset or neither has one.
-/
namespace SessionKeeper

/-- A date and time of day, with or without an offset in microseconds. -/
structure Moment where
  date : Date
  tick : Fin 86400000000
  offset : Option Int
deriving DecidableEq, Repr

/-- The two ways in which moments without a common reference are used together. -/
inductive Pairing where
  | subtract
  | compare
deriving DecidableEq, Repr

namespace Moment

/-- The time of day from its parts, if they are in range. -/
def tick? (hour minute second micros : Nat) : Option (Fin 86400000000) :=
  if h : hour < 24 ∧ minute < 60 ∧ second < 60 ∧ micros < 1000000 then
    some ⟨((hour * 60 + minute) * 60 + second) * 1000000 + micros, by omega⟩
  else none

def midnight : Fin 86400000000 := ⟨0, by decide⟩

def hour (m : Moment) : Nat := m.tick.val / 3600000000

def minute (m : Moment) : Nat := m.tick.val / 60000000 % 60

def second (m : Moment) : Nat := m.tick.val / 1000000 % 60

/-- The microsecond of the second. -/
def micros (m : Moment) : Nat := m.tick.val % 1000000

/-- Microseconds on the local clock since the first midnight of year 1. -/
def localMicros (m : Moment) : Int := (m.date.number : Int) * Duration.dayMicros + m.tick.val

/-- Microseconds of universal time since the first midnight of year 1; a moment without an
offset is taken as it stands. -/
def universalMicros (m : Moment) : Int := m.localMicros - m.offset.getD 0

/-- The moment at this many microseconds on the local clock, if the calendar has it. -/
def ofLocalMicros? (n : Int) (offset : Option Int) : Option Moment :=
  let day := n.fdiv Duration.dayMicros
  if day < 0 then none
  else (Date.ofNumber? day.toNat).map fun date =>
    ⟨date, ⟨(n % 86400000000).toNat, by omega⟩, offset⟩

/-- The moment this many microseconds later. -/
def shift? (m : Moment) (micros : Int) : Option Moment :=
  ofLocalMicros? (m.localMicros + micros) m.offset

/-- Whether both moments have an offset or neither has one. -/
def comparable (a b : Moment) : Bool := a.offset.isSome == b.offset.isSome

/-- The time from `b` to `a`, when they are comparable. -/
def since? (a b : Moment) : Option Duration :=
  if comparable a b then some ⟨a.universalMicros - b.universalMicros⟩ else none

/-- The moment itself when it has an offset, and in universal time otherwise. -/
def assumeUniversal (m : Moment) : Moment := { m with offset := some (m.offset.getD 0) }

/-- Whether two moments are the same point in time; one with an offset never equals one
without. -/
def sameTime (a b : Moment) : Bool :=
  comparable a b && a.universalMicros == b.universalMicros

/-- The text `hh:mm` of a number of minutes. -/
def hourMinuteText (minutes : Nat) : Text :=
  Text.padded 2 (minutes / 60) ++ ":" ++ Text.padded 2 (minutes % 60)

/-- The date and time of day: six digits of fraction when there is a fraction. -/
def localText (m : Moment) : Text :=
  Text.padded 4 m.date.year ++ "-" ++ Text.padded 2 m.date.month ++ "-" ++
    Text.padded 2 m.date.day ++ "T" ++ hourMinuteText (m.hour * 60 + m.minute) ++ ":" ++
    Text.padded 2 m.second ++
    (if m.micros = 0 then [] else Text.ofString "." ++ Text.padded 6 m.micros)

def signText (offset : Int) : Text := if offset < 0 then "-" else "+"

/-- The ISO 8601 text, with the offset written out to the last part that is not zero. -/
def isoText (m : Moment) : Text :=
  match m.offset with
  | none => m.localText
  | some offset =>
    let size := offset.natAbs
    let seconds := size / 1000000 % 60
    let micros := size % 1000000
    m.localText ++ signText offset ++ hourMinuteText (size / 60000000) ++
      (if seconds = 0 ∧ micros = 0 then [] else Text.ofString ":" ++ Text.padded 2 seconds) ++
      (if micros = 0 then [] else Text.ofString "." ++ Text.padded 6 micros)

/-- The text in stored documents: `Z` stands for an offset of zero, any other is written to
the minute. -/
def storedText (m : Moment) : Text :=
  match m.offset with
  | none => m.localText
  | some 0 => m.localText ++ "Z"
  | some offset => m.localText ++ signText offset ++ hourMinuteText (offset.natAbs / 60000000)

end Moment
end SessionKeeper
