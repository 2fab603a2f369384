import SessionKeeper.Number.Double

/-!
# Order of binary64 numbers

Finite numbers are ordered by their exact values and lie between the infinities.
Not-a-number stands in no order to anything.
-/
namespace SessionKeeper.Double

/-- Whether the first number is less than the second. -/
def lt (x y : Double) : Bool :=
  match x, y with
  | .nan, _ => false
  | _, .nan => false
  | .infinity a, .infinity b => a && !b
  | .infinity a, _ => a
  | _, .infinity b => !b
  | _, _ =>
    match x.toRatio?, y.toRatio? with
    | some (n, d), some (m, e) => n * e < m * d
    | _, _ => false

end SessionKeeper.Double
