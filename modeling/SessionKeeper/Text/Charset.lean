import SessionKeeper.Text.Utf8
import SessionKeeper.Text.Blank

/-!
# Character sets

A JSON body may be in UTF-8, UTF-16 or UTF-32; which one shows in its first four
octets, because a document begins with an ASCII character. Other bodies are read in
the character set their content type names, when it is one of these or one that the
runtime brings along, and in UTF-8 otherwise; what does not fit is shown as U+FFFD.
-/
namespace SessionKeeper

/-- A character set. -/
inductive Charset where
  | utf8
  | utf8Marked
  | ascii
  | latin1
  | latin9
  | windows1252
  | utf16 (bigEndian : Bool)
  | utf16Marked
  | utf32 (bigEndian : Bool)
  | utf32Marked
deriving DecidableEq, Repr

namespace Charset

/-- The numbers that pairs of octets spell, and whether an octet is left over. -/
def pairs (bigEndian : Bool) : Octets → List Nat × Bool
  | a :: b :: rest =>
    let (units, left) := pairs bigEndian rest
    let unit := if bigEndian then a.toNat * 256 + b.toNat else b.toNat * 256 + a.toNat
    (unit :: units, left)
  | rest => ([], !rest.isEmpty)

/-- The numbers that groups of four octets spell, and whether octets are left over. -/
def quads (bigEndian : Bool) : Octets → List Nat × Bool
  | a :: b :: c :: d :: rest =>
    let (units, left) := quads bigEndian rest
    let unit :=
      if bigEndian then ((a.toNat * 256 + b.toNat) * 256 + c.toNat) * 256 + d.toNat
      else ((d.toNat * 256 + c.toNat) * 256 + b.toNat) * 256 + a.toNat
    (unit :: units, left)
  | rest => ([], !rest.isEmpty)

/-- The code points of 16 bit units; a surrogate that is not part of a pair stays one. -/
def joinUnits : List Nat → Text
  | [] => []
  | [n] => [Point.ofCode n]
  | n :: m :: rest =>
    if 0xD800 ≤ n && n < 0xDC00 && 0xDC00 ≤ m && m < 0xE000 then
      Point.ofCode (0x10000 + (n - 0xD800) * 1024 + (m - 0xDC00)) :: joinUnits rest
    else Point.ofCode n :: joinUnits (m :: rest)

/-- The order that a byte order mark shows and the octets after it, if there is a mark. -/
def unmark? (size : Nat) (octets : Octets) : Option (Bool × Octets) :=
  let big : Octets := List.replicate (size - 2) 0 ++ [0xFE, 0xFF]
  let little : Octets := [0xFF, 0xFE] ++ List.replicate (size - 2) 0
  if big.isPrefixOf octets then some (true, octets.drop size)
  else if little.isPrefixOf octets then some (false, octets.drop size)
  else none

def utf8Mark : Octets := [0xEF, 0xBB, 0xBF]

def dropUtf8Mark (octets : Octets) : Octets :=
  if utf8Mark.isPrefixOf octets then octets.drop 3 else octets

/-- Reads octets in an encoding of a JSON document, letting surrogates through. -/
def decodeDocument? (charset : Charset) (octets : Octets) : Option Text :=
  let wide (read : List Nat × Bool) : Option Text :=
    if read.2 then none else some (joinUnits read.1)
  let full (read : List Nat × Bool) : Option Text :=
    if read.2 || read.1.any (0x10FFFF < ·) then none else some (read.1.map Point.ofCode)
  match charset with
  | .utf16 bigEndian => wide (pairs bigEndian octets)
  | .utf16Marked => (unmark? 2 octets).bind fun (order, body) => wide (pairs order body)
  | .utf32 bigEndian => full (quads bigEndian octets)
  | .utf32Marked => (unmark? 4 octets).bind fun (order, body) => full (quads order body)
  | .utf8Marked => (Utf8.decodeWithHalves (dropUtf8Mark octets)).toOption
  | _ => (Utf8.decodeWithHalves octets).toOption

/-- The encoding of a JSON document, told from the marks and zero octets at its start. -/
def ofDocument (octets : Octets) : Charset :=
  let starts (mark : Octets) : Bool := mark.isPrefixOf octets
  if starts [0, 0, 0xFE, 0xFF] || starts [0xFF, 0xFE, 0, 0] then .utf32Marked
  else if starts [0xFE, 0xFF] || starts [0xFF, 0xFE] then .utf16Marked
  else if starts utf8Mark then .utf8Marked
  else match octets with
    | a :: b :: c :: d :: _ =>
      if a = 0 then (if b = 0 then .utf32 true else .utf16 true)
      else if b = 0 then (if c = 0 && d = 0 then .utf32 false else .utf16 false)
      else .utf8
    | [a, b] => if a = 0 then .utf16 true else if b = 0 then .utf16 false else .utf8
    | _ => .utf8

/-- What a code point of lenient reading is shown as: surrogates are replaced. -/
def shown : Point → Point
  | .char c => .char c
  | .surrogate _ => .char '\uFFFD'

/-- The characters of the octets from 80 to 9F in the Windows set; zero where there is none. -/
def windowsHigh : List Nat :=
  [0x20AC, 0, 0x201A, 0x0192, 0x201E, 0x2026, 0x2020, 0x2021, 0x02C6, 0x2030, 0x0160, 0x2039,
   0x0152, 0, 0x017D, 0, 0, 0x2018, 0x2019, 0x201C, 0x201D, 0x2022, 0x2013, 0x2014, 0x02DC,
   0x2122, 0x0161, 0x203A, 0x0153, 0, 0x017E, 0x0178]

/-- The character of an octet in the Windows set. -/
def windowsPoint (b : UInt8) : Point :=
  if 0x80 ≤ b && b < 0xA0 then
    let n := windowsHigh.getD (b.toNat - 0x80) 0
    .char (if n = 0 then '\uFFFD' else Char.ofNat n)
  else Point.ofCode b.toNat

/-- The octets of the third Western set that do not have their Latin-1 meaning. -/
def latin9Changes : List (Nat × Char) :=
  [(0xA4, '\u20AC'), (0xA6, '\u0160'), (0xA8, '\u0161'), (0xB4, '\u017D'), (0xB8, '\u017E'),
   (0xBC, '\u0152'), (0xBD, '\u0153'), (0xBE, '\u0178')]

/-- The character of an octet in the third Western set. -/
def latin9Point (b : UInt8) : Point :=
  match latin9Changes.lookup b.toNat with
  | some c => .char c
  | none => Point.ofCode b.toNat

/-- A text whose byte order no mark shows; `width` is the number of bits of its units. -/
structure Unmarked where
  width : Nat
deriving DecidableEq, Repr

/-- The wording of a missing mark. -/
def Unmarked.message (fault : Unmarked) : Text :=
  Text.ofString "UTF-" ++ Text.ofNat fault.width ++ " stream does not start with BOM"

/-- Whether the last unit is the first half of a pair. -/
def endsInHalf (units : List Nat) : Bool :=
  units.getLast?.any fun n => 0xD800 ≤ n && n < 0xDC00

/-- Reads octets in units of two. An octet that is left over is replaced, together with the
first half of a pair before it. -/
def showPairs (bigEndian : Bool) (octets : Octets) : Text :=
  let (units, left) := pairs bigEndian octets
  (joinUnits units).map shown ++ (if left && !endsInHalf units then [.char '\uFFFD'] else [])

/-- Reads octets in units of four. What is left over is replaced. -/
def showQuads (bigEndian : Bool) (octets : Octets) : Text :=
  let (units, left) := quads bigEndian octets
  units.map (fun n => if 0x10FFFF < n then .char '\uFFFD' else shown (Point.ofCode n)) ++
    (if left then [.char '\uFFFD'] else [])

/-- Reads octets that begin with a mark of the given size; fewer octets need none. -/
def showMarked (size : Nat) (read : Bool → Octets → Text) (octets : Octets) :
    Except Unmarked Text :=
  match unmark? size octets with
  | some (order, body) => .ok (read order body)
  | none => if octets.length < size then .ok (read false octets) else .error ⟨8 * size⟩

/-- Reads octets in any character set; what does not fit is replaced. -/
def decodeLossy (charset : Charset) (octets : Octets) : Except Unmarked Text :=
  match charset with
  | .utf8 => .ok (Utf8.decodeLossy octets)
  | .utf8Marked =>
    .ok (if octets.length < 3 && octets.isPrefixOf utf8Mark then []
      else Utf8.decodeLossy (dropUtf8Mark octets))
  | .ascii => .ok (octets.map fun b => if b < 0x80 then Point.ofCode b.toNat else .char '\uFFFD')
  | .latin1 => .ok (octets.map fun b => Point.ofCode b.toNat)
  | .latin9 => .ok (octets.map latin9Point)
  | .windows1252 => .ok (octets.map windowsPoint)
  | .utf16 bigEndian => .ok (showPairs bigEndian octets)
  | .utf16Marked => showMarked 2 showPairs octets
  | .utf32 bigEndian => .ok (showQuads bigEndian octets)
  | .utf32Marked => showMarked 4 showQuads octets

def named : List (String × Charset) :=
  [("utf_8", .utf8), ("utf8", .utf8), ("u8", .utf8), ("utf", .utf8), ("utf8_ucs2", .utf8),
   ("utf8_ucs4", .utf8), ("cp65001", .utf8), ("utf_8_sig", .utf8Marked),
   ("ascii", .ascii), ("us_ascii", .ascii), ("646", .ascii), ("ansi_x3.4_1968", .ascii),
   ("ansi_x3_4_1968", .ascii), ("ansi_x3.4_1986", .ascii), ("cp367", .ascii),
   ("csascii", .ascii), ("ibm367", .ascii), ("iso646_us", .ascii), ("iso_646.irv_1991", .ascii),
   ("iso_ir_6", .ascii), ("us", .ascii),
   ("latin_1", .latin1), ("latin1", .latin1), ("latin", .latin1), ("l1", .latin1),
   ("iso_8859_1", .latin1), ("iso8859_1", .latin1), ("iso8859", .latin1), ("8859", .latin1),
   ("cp819", .latin1), ("ibm819", .latin1), ("csisolatin1", .latin1), ("iso_ir_100", .latin1),
   ("iso_8859_1_1987", .latin1), ("iso_8859_15", .latin9),
   ("iso8859_15", .latin9), ("latin_9", .latin9), ("latin9", .latin9), ("l9", .latin9),
   ("cp1252", .windows1252), ("1252", .windows1252),
   ("windows_1252", .windows1252),
   ("utf_16", .utf16Marked), ("utf16", .utf16Marked), ("u16", .utf16Marked),
   ("utf_16_le", .utf16 false), ("utf_16le", .utf16 false), ("unicodelittleunmarked", .utf16 false),
   ("utf_16_be", .utf16 true), ("utf_16be", .utf16 true), ("unicodebigunmarked", .utf16 true),
   ("utf_32", .utf32Marked), ("utf32", .utf32Marked), ("u32", .utf32Marked),
   ("utf_32_le", .utf32 false), ("utf_32le", .utf32 false),
   ("utf_32_be", .utf32 true), ("utf_32be", .utf32 true)]

/-- The spelling of a name that the table uses: in lower case, every run of other characters
than letters, digits and the full stop as one underscore. -/
def normalise : List Char → List Char
  | [] => []
  | c :: rest =>
    if c.isAlphanum || c = '.' then c.toLower :: normalise rest
    else match normalise rest with
      | '_' :: more => '_' :: more
      | more => '_' :: more

def ofName? (name : String) : Option Charset :=
  let spelled := String.ofList (normalise name.toList)
  named.findSome? fun (known, charset) => if known = spelled then some charset else none

/-- The value of the `charset` parameter of a content type. -/
def parameter? (contentType : List Char) : Option String :=
  let parts := contentType.splitOnP (· = ';')
  (parts.drop 1).findSome? fun part =>
    let name := part.takeWhile (· ≠ '=')
    let value := Text.trim (Text.ofChars ((part.dropWhile (· ≠ '=')).drop 1)) |>.scalars
    let unquoted := value.filter (· ≠ '\x22')
    if String.ofList ((Text.trim (Text.ofChars name)).scalars.map Char.toLower) = "charset" then
      some (String.ofList unquoted)
    else none

def asked? (contentType : Option String) : Option String :=
  contentType.bind fun text => parameter? text.toList

end Charset
end SessionKeeper
