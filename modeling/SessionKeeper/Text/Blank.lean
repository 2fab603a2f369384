import SessionKeeper.Text.Basic

/-!
# Blank characters

The characters that trimming removes and that separate words. The set is larger
than the ASCII blanks: it holds the four information separators, next line and
every Unicode space, and leaves out the zero-width ones.
-/
namespace SessionKeeper

/-- The numbers of the blank code points outside ASCII. -/
def wideBlanks : List Nat :=
  [0x85, 0xA0, 0x1680, 0x2000, 0x2001, 0x2002, 0x2003, 0x2004, 0x2005, 0x2006, 0x2007,
   0x2008, 0x2009, 0x200A, 0x2028, 0x2029, 0x202F, 0x205F, 0x3000]

/-- Whether the character with this number is blank. -/
def isBlankCode (n : Nat) : Bool :=
  (9 ≤ n && n ≤ 13) || (28 ≤ n && n ≤ 32) || wideBlanks.contains n

def isBlankChar (c : Char) : Bool := isBlankCode c.toNat

namespace Text

/-- Whether the code point is blank; a surrogate never is. -/
def isBlank : Point → Bool
  | .char c => isBlankChar c
  | .surrogate _ => false

def trimLeft (t : Text) : Text := t.dropWhile isBlank

def trimRight (t : Text) : Text := (t.reverse.dropWhile isBlank).reverse

/-- Removes blanks at both ends. -/
def trim (t : Text) : Text := t.trimLeft.trimRight

/-- Collects the words of a text; `current` is the word being read, in reverse. -/
def wordsFrom (current : Text) : Text → List Text
  | [] => if current.isEmpty then [] else [current.reverse]
  | p :: rest =>
    if isBlank p then
      if current.isEmpty then wordsFrom [] rest else current.reverse :: wordsFrom [] rest
    else wordsFrom (p :: current) rest

/-- The maximal runs of characters that are not blank, in order. -/
def words (t : Text) : List Text := wordsFrom [] t

theorem not_isBlank_of_mem_words {t w : Text} (h : w ∈ t.words) : ∀ p ∈ w, isBlank p = false := by
  suffices gen : ∀ (rest current : Text), (∀ p ∈ current, isBlank p = false) →
      ∀ w ∈ wordsFrom current rest, ∀ p ∈ w, isBlank p = false from
    gen t [] (by simp) w h
  intro rest
  induction rest with
  | nil =>
    intro current hc w hw p hp
    simp only [wordsFrom] at hw
    split at hw
    · simp at hw
    · simp only [List.mem_singleton] at hw
      subst hw
      exact hc p (by simpa using hp)
  | cons q rest ih =>
    intro current hc w hw p hp
    simp only [wordsFrom] at hw
    split at hw
    · split at hw
      · exact ih [] (by simp) w hw p hp
      · rcases List.mem_cons.1 hw with rfl | hw
        · exact hc p (by simpa using hp)
        · exact ih [] (by simp) w hw p hp
    · rename_i hq
      refine ih (q :: current) ?_ w hw p hp
      intro x hx
      rcases List.mem_cons.1 hx with rfl | hx
      · simpa using hq
      · exact hc x hx

end Text
end SessionKeeper
