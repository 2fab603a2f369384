import SessionKeeper.Number.Double
import SessionKeeper.Text.Blank

/-!
# Numerals in text

Numbers that stand in text are read leniently: white space around them, a plus
sign, leading zeros, single underscores between digits and, for an integer, a
fraction of zeros are accepted. An integer text of more than 4300 characters is
refused whatever it holds.
-/
namespace SessionKeeper

/-- Why a text is no integer. -/
inductive IntFault where
  | malformed
  | tooLong
deriving DecidableEq, Repr

namespace Numeral

/-- The least natural number that a signed word of 64 bits cannot hold. -/
def wordLimit : Nat := Nat.pow 2 63

/-- Whether the character is white space around a numeral; the information separators,
which are blank elsewhere, are not. -/
def isSpace (c : Char) : Bool := isBlankChar c && !(28 ≤ c.toNat && c.toNat ≤ 31)

/-- Removes white space at both ends. -/
def trim (cs : List Char) : List Char :=
  ((cs.dropWhile isSpace).reverse.dropWhile isSpace).reverse

/-- The number that decimal digits spell. -/
def ofDigits (cs : List Char) : Nat := cs.foldl (fun n c => 10 * n + (c.toNat - 48)) 0

/-- The number spelled by a non-empty run of digits. -/
def digits? (cs : List Char) : Option Nat :=
  if !cs.isEmpty && cs.all Char.isDigit then some (ofDigits cs) else none

/-- The text without its underscores, if every underscore stands alone and inside. -/
def dropUnderscores? (cs : List Char) : Option (List Char) :=
  let rec alone : Bool → List Char → Bool
    | before, [] => before
    | before, c :: rest => if c = '_' then before && alone false rest else alone true rest
  if cs.isEmpty || alone false cs then some (cs.filter (· ≠ '_')) else none

/-- Cuts off a decimal point that only zeros follow. -/
def dropZeroFraction (cs : List Char) : List Char :=
  let rest := cs.dropWhile (· ≠ '.')
  match rest with
  | '.' :: '0' :: more => if more.all (· = '0') then cs.takeWhile (· ≠ '.') else cs
  | _ => cs

/-- Splits off a sign; the answer is whether it is a minus. -/
def splitSign : List Char → Bool × List Char
  | '-' :: rest => (true, rest)
  | '+' :: rest => (false, rest)
  | cs => (false, cs)

def int? (text : List Char) : Except IntFault Int :=
  let cs := trim text
  if 4300 < cs.length then .error .tooLong
  else
    let (negative, body) := splitSign cs
    match (dropUnderscores? (dropZeroFraction body)).bind digits? with
    | some n => .ok (if negative then -(n : Int) else n)
    | none => .error .malformed

/-- The exponent part of a decimal numeral, absent when nothing is left. -/
def exponent? : List Char → Option Int
  | [] => some 0
  | c :: rest =>
    if c = 'e' || c = 'E' then
      let (negative, body) := splitSign rest
      (digits? body).map fun n => if negative then -(n : Int) else n
    else none

/-- An unsigned decimal numeral: digits with a point somewhere among them, at least one
digit, and an optional exponent. -/
def decimal? (negative : Bool) (cs : List Char) : Option Double :=
  let whole := cs.takeWhile Char.isDigit
  let rest := cs.dropWhile Char.isDigit
  let (fraction, rest) := match rest with
    | '.' :: more => (more.takeWhile Char.isDigit, more.dropWhile Char.isDigit)
    | _ => ([], rest)
  if whole.isEmpty && fraction.isEmpty then none
  else (exponent? rest).map fun e =>
    .ofDecimal negative (ofDigits (whole ++ fraction)) (e - fraction.length)

/-- The number that a plain text spells; infinity and not-a-number are named in any case. -/
def plainDouble? (cs : List Char) : Option Double :=
  let (negative, body) := splitSign cs
  let name := String.ofList (body.map Char.toLower)
  if name = "inf" || name = "infinity" then some (.infinity negative)
  else if name = "nan" then some .nan
  else decimal? negative body

/-- The number that a text spells. Underscores are only accepted where no white space
surrounds the numeral. -/
def double? (text : List Char) : Option Double :=
  match plainDouble? (trim text) with
  | some x => some x
  | none => (dropUnderscores? text).bind plainDouble?

end Numeral
end SessionKeeper
