/-!
# Dates

The Gregorian calendar, also for the years before it was in use, from year 1 to
year 9999. A date carries the proof that it exists. Days are numbered from zero on
the first of January of year 1, which was a Monday.
-/
namespace SessionKeeper

def isLeapYear (year : Nat) : Bool := year % 4 = 0 && (year % 100 ≠ 0 || year % 400 = 0)

def daysInMonth (year month : Nat) : Nat :=
  if month = 2 then (if isLeapYear year then 29 else 28)
  else if month = 4 || month = 6 || month = 9 || month = 11 then 30
  else 31

/-- A day of the calendar. -/
structure Date where
  year : Nat
  month : Nat
  day : Nat
  year_bounds : 1 ≤ year ∧ year ≤ 9999
  month_bounds : 1 ≤ month ∧ month ≤ 12
  day_bounds : 1 ≤ day ∧ day ≤ daysInMonth year month
deriving DecidableEq, Repr

/-- Which part of a date does not exist. -/
inductive DateFault where
  | year (given : Nat)
  | month
  | day
deriving DecidableEq, Repr

namespace Date

/-- The date with these numbers, or the first of them that is out of range. -/
def make (year month day : Nat) : Except DateFault Date :=
  if hy : 1 ≤ year ∧ year ≤ 9999 then
    if hm : 1 ≤ month ∧ month ≤ 12 then
      if hd : 1 ≤ day ∧ day ≤ daysInMonth year month then .ok ⟨year, month, day, hy, hm, hd⟩
      else .error .day
    else .error .month
  else .error (.year year)

/-- The date with these numbers, if it exists. -/
def of? (year month day : Nat) : Option Date := (make year month day).toOption

/-- A date is made again from its own numbers. -/
@[simp] theorem of?_self (d : Date) : of? d.year d.month d.day = some d := by
  simp [of?, make, d.year_bounds, d.month_bounds, d.day_bounds, Except.toOption]

def daysBeforeYear (year : Nat) : Nat :=
  let past := year - 1
  past * 365 + past / 4 - past / 100 + past / 400

def daysBeforeMonth (year : Nat) : (month : Nat) → Nat
  | 0 => 0
  | 1 => 0
  | month + 1 => daysBeforeMonth year month + daysInMonth year month

/-- The number of the day, counted from the first of January of year 1. -/
def number (d : Date) : Nat :=
  daysBeforeYear d.year + daysBeforeMonth d.year d.month + (d.day - 1)

/-- The last year that begins on the day with this number or before it. -/
def yearOfNumber (n : Nat) : Nat :=
  let guess := n * 400 / 146097 + 1
  if n < daysBeforeYear guess then guess - 1
  else if daysBeforeYear (guess + 1) ≤ n then guess + 1
  else guess

/-- The month of a year, searched from `month` on, in which the day of the year lies, and
the day of that month counted from zero. -/
def monthOfDay (year : Nat) : (tries month day : Nat) → Nat × Nat
  | 0, month, day => (month, day)
  | tries + 1, month, day =>
    if day < daysInMonth year month then (month, day)
    else monthOfDay year tries (month + 1) (day - daysInMonth year month)

/-- The day with the given number, if it lies before year 10000. -/
def ofNumber? (n : Nat) : Option Date :=
  let year := yearOfNumber n
  let (month, day) := monthOfDay year 12 1 (n - daysBeforeYear year)
  of? year month (day + 1)

/-- The day of the week, zero for Monday. -/
def weekday (d : Date) : Nat := d.number % 7

/-- The number of the Monday on which the first ISO week of a year begins: the week that
holds the year's first Thursday. The number may be negative by a few days. -/
def isoYearStart (year : Nat) : Int :=
  let first := daysBeforeYear year
  let weekday := first % 7
  if weekday ≤ 3 then (first : Int) - weekday else (first : Int) + 7 - weekday

def hasLongIsoYear (year : Nat) : Bool :=
  let weekday := daysBeforeYear year % 7
  weekday = 3 || (weekday = 2 && isLeapYear year)

def ofIsoWeek? (year week day : Nat) : Option Date :=
  if year < 1 || 9999 < year || week < 1 || 53 < week || day < 1 || 7 < day then none
  else if week = 53 && !hasLongIsoYear year then none
  else
    let n := isoYearStart year + (week - 1) * 7 + (day - 1)
    if n < 0 then none else ofNumber? n.toNat

end Date
end SessionKeeper
