import SessionKeeper.Text.Utf8

/-!
# Percent-encoding

Letters, digits and `_ . - ~` stand for themselves, every other octet of the UTF-8
form is written as a percent sign and two capital hexadecimal digits. The result
is ASCII, holds no slash and can be decoded, so distinct texts stay distinct.
-/
namespace SessionKeeper.Percent

/-- Whether the octet stands for itself. -/
def isPlain (b : UInt8) : Bool :=
  let c := Char.ofNat b.toNat
  c.isAlphanum && b < 0x80 || c = '_' || c = '.' || c = '-' || c = '~'

/-- A single hexadecimal digit in upper case. -/
def digit (n : Nat) : Char := (Nat.digitChar (n % 16)).toUpper

def encodeOctet (b : UInt8) : List Char :=
  if isPlain b then [Char.ofNat b.toNat] else ['%', digit (b.toNat / 16), digit b.toNat]

def encodeOctets (octets : Octets) : List Char := octets.flatMap encodeOctet

/-- The written form of a text, unless it holds a lone surrogate. -/
def encode? (t : Text) : Option String :=
  (Utf8.encode? t).map fun octets => String.ofList (encodeOctets octets)

/-- The number a hexadecimal digit stands for. -/
def digitValue? (c : Char) : Option Nat :=
  if '0' ≤ c ∧ c ≤ '9' then some (c.toNat - 48)
  else if 'A' ≤ c ∧ c ≤ 'F' then some (c.toNat - 55)
  else if 'a' ≤ c ∧ c ≤ 'f' then some (c.toNat - 87)
  else none

/-- Reads a written form back; a percent sign without two digits stands for itself. -/
def decodeOctets : List Char → Octets
  | '%' :: a :: b :: rest =>
    match digitValue? a, digitValue? b with
    | some high, some low => UInt8.ofNat (high * 16 + low) :: decodeOctets rest
    | _, _ => Utf8.encodeCode '%'.toNat ++ decodeOctets (a :: b :: rest)
  | c :: rest => Utf8.encodeCode c.toNat ++ decodeOctets rest
  | [] => []
termination_by cs => cs.length

/-- The text whose written form is given, if its octets are UTF-8. -/
def decode? (s : String) : Option Text :=
  (Utf8.decode (decodeOctets s.toList)).toOption.map Text.ofChars

end SessionKeeper.Percent
