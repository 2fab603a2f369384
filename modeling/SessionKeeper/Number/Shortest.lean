import SessionKeeper.Number.Double
import SessionKeeper.Text.Basic

/-!
# Shortest decimal text of a binary64 number

The text has the fewest significant digits that read back as the same number, and
of those the digits nearest to the exact value. A number is written positionally
when its decimal exponent lies from -4 to 15 and with an exponent otherwise.
-/
namespace SessionKeeper

/-- The positive decimal `0.d₁d₂…dₖ × 10^point`: its digits as one natural number. -/
structure Decimal where
  digits : Nat
  point : Int
deriving DecidableEq, Repr

namespace Double

/-- The least `k` such that the positive quotient is below `10^k`. -/
def decimalPoint (numerator denominator : Nat) : Int :=
  let guess : Int := binaryOrder numerator denominator * 30103 / 100000
  let reaches (k : Int) : Bool :=
    if 0 ≤ k then denominator * Nat.pow 10 k.toNat ≤ numerator
    else denominator ≤ numerator * Nat.pow 10 (-k).toNat
  if reaches (guess + 1) then guess + 2 else if reaches guess then guess + 1 else guess

/-- The quotient measured in units of `10^unit`, as numerator and denominator. -/
def inUnits (numerator denominator : Nat) (unit : Int) : Nat × Nat :=
  if 0 ≤ unit then (numerator, denominator * Nat.pow 10 unit.toNat)
  else (numerator * Nat.pow 10 (-unit).toNat, denominator)

/-- The decimal with the given count of digits that is nearest to the quotient among the
two neighbours that satisfy the test. -/
def nearestWith (accepts : Nat → Int → Bool) (numerator denominator : Nat) (point : Int)
    (count : Nat) : Option Decimal :=
  let unit := point - count
  let (n, d) := inUnits numerator denominator unit
  let low := n / d
  let nearest := roundQuotient n d
  let other := if nearest = low then low + 1 else low
  if accepts nearest unit then some ⟨nearest, unit⟩
  else if accepts other unit then some ⟨other, unit⟩
  else none

/-- The shortest decimal, as digits and the exponent of its last digit, that reads back as
the given positive number; seventeen digits always suffice. -/
def shortest (significand : Nat) (exponent : Int) : Decimal :=
  let (n, d) := magnitude significand exponent
  let point := decimalPoint n d
  let readsBack (digits : Nat) (unit : Int) : Bool :=
    ofDecimal false digits unit = .finite false significand exponent
  let found := (List.range 17).findSome? fun i => nearestWith readsBack n d point (i + 1)
  found.getD ⟨n, 0⟩

/-- Drops trailing zeros of the digits and counts how many were dropped. -/
def dropZeros : List Char → List Char × Nat
  | cs =>
    let zeros := (cs.reverse.takeWhile (· = '0')).length
    (cs.take (cs.length - zeros), zeros)

/-- The text of a positive number with digits `cs` and decimal point after `point` of them. -/
def layout (cs : List Char) (point : Int) : List Char :=
  if -4 < point ∧ point ≤ 16 then
    if point ≤ 0 then '0' :: '.' :: List.replicate (-point).toNat '0' ++ cs
    else
      let whole := cs.take point.toNat
      let filled := whole ++ List.replicate (point.toNat - whole.length) '0'
      let rest := cs.drop point.toNat
      filled ++ '.' :: (if rest.isEmpty then ['0'] else rest)
  else
    let tens := point - 1
    let mantissa := match cs with
      | [] => ['0']
      | [c] => [c]
      | c :: rest => c :: '.' :: rest
    let size := (toString tens.natAbs).toList
    let padded := if size.length < 2 then '0' :: size else size
    mantissa ++ 'e' :: (if tens < 0 then '-' else '+') :: padded

/-- The text of a finite number without its sign. -/
def magnitudeText (significand : Nat) (exponent : Int) : List Char :=
  if significand = 0 then ['0', '.', '0']
  else
    let decimal := shortest significand exponent
    let cs := (toString decimal.digits).toList
    layout (dropZeros cs).1 (decimal.point + cs.length)

/-- The text of a finite number; the other data have no digits. -/
def digits? : Double → Option Text
  | .finite negative significand exponent =>
    let body := magnitudeText significand exponent
    some (Text.ofChars (if negative then '-' :: body else body))
  | _ => none

end Double
end SessionKeeper
