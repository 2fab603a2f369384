import SessionKeeper.Text.Utf8

/-!
# Quoted echoes

Messages echo what they refuse in quotes. Single quotes are used unless the text
holds a single quote and no double one. Backslashes, the quote itself and
everything that does not print are escaped.
-/
namespace SessionKeeper.Quoted

/-- Ranges of code points outside ASCII that do not print: controls, spaces other than
the plain one, format characters, separators, surrogates, private use and noncharacters. -/
def hiddenRanges : List (Nat × Nat) :=
  [(0x80, 0xA0), (0xAD, 0xAD), (0x378, 0x379), (0x600, 0x605), (0x61C, 0x61C), (0x6DD, 0x6DD),
   (0x70F, 0x70F), (0x890, 0x891), (0x8E2, 0x8E2), (0x1680, 0x1680), (0x180E, 0x180E),
   (0x2000, 0x200F), (0x2028, 0x202F), (0x205F, 0x206F), (0x3000, 0x3000), (0xD800, 0xF8FF),
   (0xFEFF, 0xFEFF), (0xFFF0, 0xFFFB), (0xFFFE, 0xFFFF), (0x110BD, 0x110BD), (0x110CD, 0x110CD),
   (0x13430, 0x1343F), (0x1BCA0, 0x1BCA3), (0x1D173, 0x1D17A), (0x1FFFE, 0x1FFFF),
   (0x2FFFE, 0x2FFFF), (0x3FFFE, 0x10FFFF)]

/-- Whether the code point with this number prints as itself. -/
def prints (n : Nat) : Bool :=
  if n < 0x80 then 0x20 ≤ n && n < 0x7F
  else !hiddenRanges.any fun (low, high) => low ≤ n && n ≤ high

/-- The lowest hexadecimal digits of a number, as many as the width says. -/
def hexDigits : (width : Nat) → (n : Nat) → List Char
  | 0, _ => []
  | width + 1, n => hexDigits width (n / 16) ++ [Utf8.hexDigit n]

/-- The written form of one code point between the given quotes. -/
def escape (quote : Char) (p : Point) : List Char :=
  if p = .char quote || p = .char '\\' then '\\' :: (p.toChar?.toList)
  else if p = .char '\n' then ['\\', 'n']
  else if p = .char '\r' then ['\\', 'r']
  else if p = .char '\t' then ['\\', 't']
  else if prints p.code then p.toChar?.toList
  else if p.code < 0x100 then '\\' :: 'x' :: hexDigits 2 p.code
  else if p.code < 0x10000 then '\\' :: 'u' :: hexDigits 4 p.code
  else '\\' :: 'U' :: hexDigits 8 p.code

def single : Char := Char.ofNat 39

def double : Char := Char.ofNat 34

def quoteFor (t : Text) : Char :=
  if t.contains (.char single) && !t.contains (.char double) then double else single

def encode (t : Text) : Text :=
  let quote := quoteFor t
  .char quote :: Text.ofChars (t.flatMap (escape quote)) ++ [.char quote]

end SessionKeeper.Quoted
