import SessionKeeper.Text.Quoted
import SessionKeeper.Time.Calendar

/-!
# Why a YAML document is refused

A document either breaks the grammar, or a scalar in it does not spell a value of
the type it claims to have, or there is no room for its levels.
-/
namespace SessionKeeper.Yaml

/-- A scalar that spells no value of its type. -/
inductive ValueFault where
  | integer (base : Nat) (spelling : Text)
  | float (spelling : Text)
  | boolean (spelling : Text)
  | timestamp
  | date (fault : DateFault)
  | hour
  | minute
  | second
  | offset (minutes : Int)
  | tooManyDigits (count : Nat)
  | emptyNumber
  | codePoint
  | hugeCodePoint
deriving DecidableEq, Repr

/-- Why a document is refused. -/
inductive Fault where
  | grammar
  | value (fault : ValueFault)
  | tooDeep
deriving DecidableEq, Repr

/-- The wording of a date that does not exist. -/
def dateMessage : DateFault → Text
  | .year n => Text.ofString "year " ++ Text.ofNat n ++ " is out of range"
  | .month => "month must be in 1..12"
  | .day => "day is out of range for month"

/-- The wording of an offset that is out of range: whole days, and the seconds beyond them. -/
def offsetMessage (minutes : Int) : Text :=
  let seconds := minutes.fmod 1440 * 60
  Text.ofString "offset must be a timedelta strictly between -timedelta(hours=24) and " ++
    "timedelta(hours=24), not datetime.timedelta(days=" ++ Text.ofInt (minutes.fdiv 1440) ++
    (if seconds = 0 then [] else Text.ofString ", seconds=" ++ Text.ofInt seconds) ++ ")."

def ValueFault.message : ValueFault → Text
  | .integer base spelling =>
    Text.ofString "invalid literal for int() with base " ++ Text.ofNat base ++ ": " ++
      Quoted.encode spelling
  | .float spelling => Text.ofString "could not convert string to float: " ++ Quoted.encode spelling
  | .boolean spelling => Quoted.encode spelling
  | .timestamp => "'NoneType' object has no attribute 'groupdict'"
  | .date fault => dateMessage fault
  | .hour => "hour must be in 0..23"
  | .minute => "minute must be in 0..59"
  | .second => "second must be in 0..59"
  | .offset minutes => offsetMessage minutes
  | .tooManyDigits count =>
    Text.ofString "Exceeds the limit (4300 digits) for integer string conversion: value has " ++
      Text.ofNat count ++ " digits; use sys.set_int_max_str_digits() to increase the limit"
  | .emptyNumber => "string index out of range"
  | .codePoint => "chr() arg not in range(0x110000)"
  | .hugeCodePoint => "the number of a code point is too large"

end SessionKeeper.Yaml
