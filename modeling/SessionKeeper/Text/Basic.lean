/-!
# Text as code points

A JSON escape can name half of a surrogate pair, and such a half then travels
through keys, handles and secrets. Text is therefore a list of code points, each
either a Unicode scalar or a lone surrogate. Text without surrogates is exactly
what `ofString` produces, and `toString?` reads it back.
-/
namespace SessionKeeper

/-- A code point: a Unicode scalar or one of the 2048 surrogates. -/
inductive Point where
  | char (c : Char)
  | surrogate (index : Fin 0x800)
deriving DecidableEq, Repr, Inhabited

/-- A sequence of code points. -/
abbrev Text := List Point

namespace Point

def code : Point → Nat
  | .char c => c.toNat
  | .surrogate index => 0xD800 + index.val

/-- The code point with the given number; numbers past the last one give U+0000. -/
def ofCode (n : Nat) : Point :=
  if h : 0xD800 ≤ n ∧ n < 0xE000 then .surrogate ⟨n - 0xD800, by omega⟩
  else .char (Char.ofNat n)

/-- The scalar, when the code point is one. -/
def toChar? : Point → Option Char
  | .char c => some c
  | .surrogate _ => none

end Point

namespace Text

/-- The text of a string, one code point per character. -/
def ofString (s : String) : Text := s.toList.map .char

def ofChars (cs : List Char) : Text := cs.map .char

instance : Coe String Text := ⟨ofString⟩

/-- The characters, unless a lone surrogate stands among them. -/
def toChars? (t : Text) : Option (List Char) := t.mapM Point.toChar?

/-- The string, unless the text holds a lone surrogate. -/
def toString? (t : Text) : Option String := t.toChars?.map String.ofList

/-- Every character of the text, with surrogates left out. -/
def scalars (t : Text) : List Char := t.filterMap Point.toChar?

@[simp] theorem toChars?_ofChars (cs : List Char) : (ofChars cs).toChars? = some cs := by
  induction cs with
  | nil => rfl
  | cons c rest ih =>
    simp only [ofChars, toChars?] at ih ⊢
    simp [Point.toChar?, ih]

/-- The order of texts: by the numbers of their code points, a shorter text first. -/
def precedes : Text → Text → Bool
  | [], _ => true
  | _ :: _, [] => false
  | p :: s, q :: t =>
    if p.code < q.code then true else if q.code < p.code then false else precedes s t

def sorted (ts : List Text) : List Text := ts.mergeSort precedes

def join (separator : Text) : List Text → Text
  | [] => []
  | [t] => t
  | t :: rest => t ++ separator ++ join separator rest

/-- Whether the text begins with the given one. -/
def startsWith (t start : Text) : Bool := start.isPrefixOf t

def dropTrailing (c : Char) (t : Text) : Text :=
  (t.reverse.dropWhile (· == .char c)).reverse

/-- Splits at the first occurrence of a character, which belongs to neither part. -/
def splitAt? (c : Char) : Text → Option (Text × Text)
  | [] => none
  | p :: rest =>
    if p = .char c then some ([], rest)
    else (splitAt? c rest).map fun (before, after) => (p :: before, after)

/-- Decimal text of a natural number. -/
def ofNat (n : Nat) : Text := ofString (toString n)

/-- Decimal text of an integer, with a minus sign where it is negative. -/
def ofInt (n : Int) : Text := ofString (toString n)

/-- Decimal digits filled with zeros on the left to the given width. -/
def padded (width n : Nat) : Text :=
  let digits := ofNat n
  List.replicate (width - digits.length) (.char '0') ++ digits

end Text
end SessionKeeper
