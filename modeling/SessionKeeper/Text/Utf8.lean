import SessionKeeper.Text.Basic

/-!
# UTF-8

Encoding refuses lone surrogates. Decoding reads one sequence at a time: `head`
says what the next octets spell and how many of them it looked at, and the strict
and the lenient decoder only differ in what they do with a malformed sequence. A
malformed sequence is as long as the octets that could have begun a character.
-/
namespace SessionKeeper

/-- The content of a file or of a message body. -/
abbrev Octets := List UInt8

namespace Utf8

/-- Why octets do not spell a character. -/
inductive Fault where
  | start
  | continuation
  | truncated
deriving DecidableEq, Repr

/-- A malformed sequence: what is wrong, where it begins and the octets it covers. -/
structure Flaw where
  fault : Fault
  position : Nat
  octets : Octets
deriving DecidableEq, Repr

/-- The octets of the code point with the given number. -/
def encodeCode (n : Nat) : Octets :=
  if n < 0x80 then [UInt8.ofNat n]
  else if n < 0x800 then [UInt8.ofNat (0xC0 + n / 64), UInt8.ofNat (0x80 + n % 64)]
  else if n < 0x10000 then
    [UInt8.ofNat (0xE0 + n / 4096), UInt8.ofNat (0x80 + n / 64 % 64), UInt8.ofNat (0x80 + n % 64)]
  else
    [UInt8.ofNat (0xF0 + n / 262144), UInt8.ofNat (0x80 + n / 4096 % 64),
     UInt8.ofNat (0x80 + n / 64 % 64), UInt8.ofNat (0x80 + n % 64)]

def encodeChars (cs : List Char) : Octets := cs.flatMap fun c => encodeCode c.toNat

/-- The octets of a text, unless it holds a lone surrogate. -/
def encode? (t : Text) : Option Octets := t.toChars?.map encodeChars

/-- Whether the octet can only continue a character. -/
def isTail (b : UInt8) : Bool := 0x80 ≤ b && b < 0xC0

/-- The six bits a continuation octet carries. -/
def tailBits (b : UInt8) : Nat := b.toNat % 64

/-- Whether the second octet may follow a leading octet of a three octet sequence. The
range is narrower after `E0`, where shorter forms exist, and after `ED`, where the
surrogates begin; `halves` lets the surrogates in. -/
def threeFits (halves : Bool) (lead second : UInt8) : Bool :=
  isTail second && (lead != 0xE0 || 0xA0 ≤ second) && (halves || lead != 0xED || second < 0xA0)

/-- Whether the second octet may follow a leading octet of a four octet sequence. -/
def fourFits (lead second : UInt8) : Bool :=
  isTail second && (lead != 0xF0 || 0x90 ≤ second) && (lead != 0xF4 || second < 0x90)

/-- What the octets from `lead` on spell, and how many octets after `lead` belong to it. -/
def head (halves : Bool) (lead : UInt8) (rest : Octets) : Except Fault Nat × Nat :=
  if lead < 0x80 then (.ok lead.toNat, 0)
  else if lead < 0xC2 then (.error .start, 0)
  else if lead < 0xE0 then
    match rest with
    | [] => (.error .truncated, 0)
    | b :: _ =>
      if isTail b then (.ok (lead.toNat % 32 * 64 + tailBits b), 1) else (.error .continuation, 0)
  else if lead < 0xF0 then
    match rest with
    | [] => (.error .truncated, 0)
    | b :: more =>
      if !threeFits halves lead b then (.error .continuation, 0)
      else match more with
        | [] => (.error .truncated, 1)
        | c :: _ =>
          if isTail c then (.ok (lead.toNat % 16 * 4096 + tailBits b * 64 + tailBits c), 2)
          else (.error .continuation, 1)
  else if lead < 0xF5 then
    match rest with
    | [] => (.error .truncated, 0)
    | b :: more =>
      if !fourFits lead b then (.error .continuation, 0)
      else match more with
        | [] => (.error .truncated, 1)
        | c :: most =>
          if !isTail c then (.error .continuation, 1)
          else match most with
            | [] => (.error .truncated, 2)
            | d :: _ =>
              if isTail d then
                (.ok (((lead.toNat % 8 * 64 + tailBits b) * 64 + tailBits c) * 64 + tailBits d), 3)
              else (.error .continuation, 2)
  else (.error .start, 0)

/-- Reads well-formed octets from the given position on, or reports the first flaw. -/
def decodeFrom (halves : Bool) (position : Nat) : Octets → Except Flaw Text
  | [] => .ok []
  | lead :: rest =>
    match head halves lead rest with
    | (.ok code, further) =>
      (decodeFrom halves (position + further + 1) (rest.drop further)).map (Point.ofCode code :: ·)
    | (.error fault, further) => .error ⟨fault, position, lead :: rest.take further⟩
termination_by octets => octets.length
decreasing_by simp only [List.length_drop, List.length_cons]; omega

/-- Reads octets strictly; the result holds no surrogate. -/
def decode (octets : Octets) : Except Flaw (List Char) :=
  (decodeFrom false 0 octets).map Text.scalars

/-- Reads octets, letting encoded surrogates through. -/
def decodeWithHalves (octets : Octets) : Except Flaw Text := decodeFrom true 0 octets

def decodeLossy : Octets → Text
  | [] => []
  | lead :: rest =>
    match head false lead rest with
    | (.ok code, further) => Point.ofCode code :: decodeLossy (rest.drop further)
    | (.error _, further) => .char '\uFFFD' :: decodeLossy (rest.drop further)
termination_by octets => octets.length
decreasing_by all_goals simp only [List.length_drop, List.length_cons]; omega

/-- A single hexadecimal digit in lower case. -/
def hexDigit (n : Nat) : Char := Nat.digitChar (n % 16)

/-- The two hexadecimal digits of an octet. -/
def hexPair (b : UInt8) : String := String.ofList [hexDigit (b.toNat / 16), hexDigit b.toNat]

def Fault.message : Fault → String
  | .start => "invalid start byte"
  | .continuation => "invalid continuation byte"
  | .truncated => "unexpected end of data"

/-- The wording of a flaw: a single octet is shown, a longer sequence is given by its range. -/
def Flaw.message (flaw : Flaw) : String :=
  let place := match flaw.octets with
    | [b] => s!"byte 0x{hexPair b} in position {flaw.position}"
    | bs => s!"bytes in position {flaw.position}-{flaw.position + bs.length - 1}"
  s!"'utf-8' codec can't decode {place}: {flaw.fault.message}"

end Utf8

/-- Writes every line ending, whether CR, LF or both, as LF. -/
def unifyNewlines : List Char → List Char
  | [] => []
  | '\r' :: '\n' :: rest => '\n' :: unifyNewlines rest
  | c :: rest => (if c = '\r' then '\n' else c) :: unifyNewlines rest

end SessionKeeper
