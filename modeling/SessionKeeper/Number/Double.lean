/-!
# Binary64 numbers

A finite number is a sign, a significand below 2^53 and an exponent of two that is
at least -1074; the significand has all 53 bits unless the exponent is -1074. Every
rounding goes to the nearest such number and a tie to the even significand, so the
arithmetic here is exact arithmetic on naturals followed by one rounding.
-/
namespace SessionKeeper

/-- A binary64 datum. -/
inductive Double where
  | finite (negative : Bool) (significand : Nat) (exponent : Int)
  | infinity (negative : Bool)
  | nan
deriving DecidableEq, Repr, Inhabited

/-- The quotient to the nearest natural number, a tie to the even one. -/
def roundQuotient (numerator denominator : Nat) : Nat :=
  let quotient := numerator / denominator
  let twice := 2 * (numerator % denominator)
  if twice < denominator then quotient
  else if denominator < twice then quotient + 1
  else quotient + quotient % 2

theorem roundQuotient_mul (n d : Nat) (h : 0 < d) : roundQuotient (n * d) d = n := by
  simp [roundQuotient, Nat.mul_div_cancel n h, h]

/-- The result of rounding lies within half a unit of the quotient. -/
theorem roundQuotient_near (n d : Nat) (h : 0 < d) :
    2 * n ≤ 2 * (roundQuotient n d * d) + d ∧ 2 * (roundQuotient n d * d) ≤ 2 * n + d := by
  have split := Nat.div_add_mod n d
  have small := Nat.mod_lt n h
  rw [Nat.mul_comm d] at split
  have odd : n / d % 2 < 2 := Nat.mod_lt _ (by decide)
  simp only [roundQuotient]
  split
  · omega
  · split
    · simp only [Nat.add_mul, Nat.one_mul]
      omega
    · rcases Nat.lt_or_ge (n / d % 2) 1 with even | uneven
      · have : n / d % 2 = 0 := by omega
        simp only [this, Nat.add_zero]
        omega
      · have : n / d % 2 = 1 := by omega
        simp only [this, Nat.add_mul, Nat.one_mul]
        omega

namespace Double

def zero (negative : Bool) : Double := .finite negative 0 (-1074)

/-- The exponent of the power of two that the positive quotient reaches but does not exceed. -/
def binaryOrder (numerator denominator : Nat) : Int :=
  let guess : Int := (Nat.log2 numerator : Int) - Nat.log2 denominator
  let reaches :=
    if 0 ≤ guess then denominator * Nat.pow 2 guess.toNat ≤ numerator
    else denominator ≤ numerator * Nat.pow 2 (-guess).toNat
  if reaches then guess else guess - 1

/-- The number nearest to a quotient of the given sign. -/
def ofRatio (negative : Bool) (numerator denominator : Nat) : Double :=
  if numerator = 0 then zero negative
  else
    let exponent := max (binaryOrder numerator denominator - 52) (-1074)
    let significand :=
      if 0 ≤ exponent then roundQuotient numerator (denominator * Nat.pow 2 exponent.toNat)
      else roundQuotient (numerator * Nat.pow 2 (-exponent).toNat) denominator
    let (significand, exponent) :=
      if significand = Nat.pow 2 53 then (Nat.pow 2 52, exponent + 1) else (significand, exponent)
    if 971 < exponent then .infinity negative else .finite negative significand exponent

/-- The number nearest to an integer divided by a natural number. -/
def ofIntRatio (numerator : Int) (denominator : Nat) : Double :=
  ofRatio (numerator < 0) numerator.natAbs denominator

/-- The number nearest to an integer. -/
def ofInt (n : Int) : Double := ofIntRatio n 1

/-- The number nearest to `digits` times a power of ten. Exponents so far out that the
result is zero or infinite anyway are cut short. -/
def ofDecimal (negative : Bool) (digits : Nat) (exponent : Int) : Double :=
  if digits = 0 then zero negative
  else
    let order := exponent + (toString digits).length
    if 400 < order then .infinity negative
    else if order < -400 then zero negative
    else if 0 ≤ exponent then ofRatio negative (digits * Nat.pow 10 exponent.toNat) 1
    else ofRatio negative digits (Nat.pow 10 (-exponent).toNat)

/-- Numerator and denominator of the magnitude of a finite number. -/
def magnitude (significand : Nat) (exponent : Int) : Nat × Nat :=
  if 0 ≤ exponent then (significand * Nat.pow 2 exponent.toNat, 1)
  else (significand, Nat.pow 2 (-exponent).toNat)

/-- The exact value as a quotient, when the number is finite. -/
def toRatio? : Double → Option (Int × Nat)
  | .finite negative significand exponent =>
    let (n, d) := magnitude significand exponent
    some (if negative then -(n : Int) else n, d)
  | _ => none

/-- Whether the number is at most zero; not a number never is. -/
def isNonPositive : Double → Bool
  | .finite negative significand _ => negative || significand = 0
  | .infinity negative => negative
  | .nan => false

/-- Splits a finite number into its integral part, cut toward zero, and the numerator and
denominator of what is left. The parts carry the sign of the number. -/
def split? : Double → Option (Int × Double)
  | .finite negative significand exponent =>
    let (n, d) := magnitude significand exponent
    let whole : Int := n / d
    some (if negative then -whole else whole, ofRatio negative (n % d) d)
  | _ => none

/-- The product, rounded, of a finite number and a natural number. -/
def scale (x : Double) (k : Nat) : Double :=
  match x with
  | .finite negative significand exponent =>
    let (n, d) := magnitude significand exponent
    ofRatio negative (n * k) d
  | other => other

/-- The nearest number with the given count of decimal places, a tie to the even digit. -/
def roundPlaces (x : Double) (places : Nat) : Double :=
  match x with
  | .finite negative significand exponent =>
    let (n, d) := magnitude significand exponent
    ofRatio negative (roundQuotient (n * Nat.pow 10 places) d) (Nat.pow 10 places)
  | other => other

end Double
end SessionKeeper
