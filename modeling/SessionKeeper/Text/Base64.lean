import SessionKeeper.Text.Utf8

/-!
# Base 64

Four digits of six bits each stand for three octets. What is no digit is passed over.
Padding ends the text where it fills up a group of two or three digits, and a text
that ends inside a group is refused.
-/
namespace SessionKeeper.Base64

/-- The number that a digit stands for. -/
def digit? (c : Char) : Option Nat :=
  if 'A' ≤ c ∧ c ≤ 'Z' then some (c.toNat - 65)
  else if 'a' ≤ c ∧ c ≤ 'z' then some (c.toNat - 71)
  else if '0' ≤ c ∧ c ≤ '9' then some (c.toNat + 4)
  else if c = '+' then some 62
  else if c = '/' then some 63
  else none

/-- The digits of a text up to its end or to padding that fills up a group, given how many
digits and how many padding characters since the last digit have been read. -/
def digits? (count pads : Nat) : List Char → Option (List Nat)
  | [] => if count % 4 = 0 then some [] else none
  | c :: rest =>
    if c = '=' then
      if count % 4 < 2 then digits? count pads rest
      else if count % 4 + pads < 3 then digits? count (pads + 1) rest
      else some []
    else match digit? c with
      | some d => (digits? (count + 1) 0 rest).map (d :: ·)
      | none => digits? count pads rest

/-- The octets that digits fill; bits that fill no octet are dropped. -/
def octetsOf : List Nat → Octets
  | a :: b :: c :: d :: rest =>
    UInt8.ofNat (a * 4 + b / 16) :: UInt8.ofNat (b % 16 * 16 + c / 4) ::
      UInt8.ofNat (c % 4 * 64 + d) :: octetsOf rest
  | [a, b, c] => [UInt8.ofNat (a * 4 + b / 16), UInt8.ofNat (b % 16 * 16 + c / 4)]
  | [a, b] => [UInt8.ofNat (a * 4 + b / 16)]
  | _ => []

/-- The octets that a text stands for. -/
def decode? (cs : List Char) : Option Octets := (digits? 0 0 cs).map octetsOf

end SessionKeeper.Base64
