import SessionKeeper.Number.Double

/-!
# Durations

A duration is a whole number of microseconds whose magnitude stays below 10^9
days. Seconds given as a floating point number are split into their integral part,
which is exact, and a fraction that is rounded to the nearest microsecond with a
tie to the even one.
-/
namespace SessionKeeper

/-- A span of time in microseconds. -/
structure Duration where
  micros : Int
deriving DecidableEq, Repr, Inhabited

/-- Why a number of seconds is no duration. -/
inductive DurationFault where
  | notANumber
  | tooLarge
deriving DecidableEq, Repr

namespace Duration

def dayMicros : Nat := 86400000000

/-- The duration of this many microseconds, if its days have at most nine digits. -/
def ofMicros (micros : Int) : Except DurationFault Duration :=
  let days := micros.fdiv dayMicros
  if -999999999 ≤ days ∧ days ≤ 999999999 then .ok ⟨micros⟩ else .error .tooLarge

/-- The nearest integer to a finite number, a tie to the even one. -/
def nearestInt (x : Double) : Int :=
  match x.toRatio? with
  | some (n, d) =>
    let rounded : Int := roundQuotient n.natAbs d
    if n < 0 then -rounded else rounded
  | none => 0

def ofSeconds (x : Double) : Except DurationFault Duration :=
  match x with
  | .nan => .error .notANumber
  | .infinity _ => .error .tooLarge
  | finite =>
    match finite.split? with
    | some (whole, rest) => ofMicros (whole * 1000000 + nearestInt (rest.scale 1000000))
    | none => .error .tooLarge

def seconds (d : Duration) : Double := .ofIntRatio d.micros 1000000

def hour : Duration := ⟨3600000000⟩

/-- Three quarters of a minute. -/
def fortyFiveSeconds : Duration := ⟨45000000⟩

end Duration
end SessionKeeper
