import SessionKeeper.Json.Printer
import SessionKeeper.Json.Reader
import SessionKeeper.Proofs.Text.Utf8

/-!
# Decimal digits of natural numbers

What is read from the digits that a natural number is written with is the number
itself, as long as no further digit follows. Only zero is written with a leading zero,
which matters to a reader that lets a zero stand alone.
-/
namespace SessionKeeper.Numeral

/-- The digits of a natural number spell it. -/
theorem ofDigits_toDigits (n : Nat) : ofDigits (Nat.toDigits 10 n) = n :=
  Nat.ofDigitChars_ten_toDigits

theorem length_toDigits_le (k n : Nat) (hk : 0 < k) (h : n < Nat.pow 10 k) :
    (Nat.toDigits 10 n).length ≤ k :=
  (Nat.length_toDigits_le_iff (by decide) hk).mpr h

theorem isDigit_toDigits (n : Nat) : ∀ c ∈ Nat.toDigits 10 n, c.isDigit = true :=
  fun _ hc => Nat.isDigit_of_mem_toDigits (by decide) (by decide) hc

/-- The first digit of a positive number is not zero. -/
theorem head?_toDigits (n : Nat) (h : 0 < n) : (Nat.toDigits 10 n).head? ≠ some '0' := by
  induction n using Nat.strong_induction_on with
  | _ n ih =>
    rw [Nat.toDigits_eq_if (by decide)]
    split_ifs with hn
    · have small : ∀ m < 10, 0 < m → [Nat.digitChar m].head? ≠ some '0' := by decide
      exact small n hn h
    · have hd := ih (n / 10) (by omega) (by omega)
      rw [List.head?_append_of_ne_nil _ Nat.toDigits_ne_nil]
      exact hd

end SessionKeeper.Numeral

namespace SessionKeeper.Json

/-- Whether a number that ends where the text begins has been read to its end. -/
def EndsNumber : Text → Prop
  | [] => True
  | p :: _ => p = .char ',' ∨ p = .char '\n'

theorem EndsNumber.takeWhile {rest : Text} (h : EndsNumber rest) : rest.takeWhile isDigit = [] := by
  cases rest with
  | nil => rfl
  | cons p rest => rcases h with rfl | rfl <;> rfl

theorem EndsNumber.dropWhile {rest : Text} (h : EndsNumber rest) :
    rest.dropWhile isDigit = rest := by
  cases rest with
  | nil => rfl
  | cons p rest => rcases h with rfl | rfl <;> rfl

/-- The digits in front of anything but a digit are taken as a whole. -/
theorem takeDigits_append (ds : List Char) (hd : ∀ c ∈ ds, c.isDigit = true) (rest : Text)
    (h : EndsNumber rest) : takeDigits (Text.ofChars ds ++ rest) = (ds, rest) := by
  have all : ∀ p ∈ Text.ofChars ds, isDigit p = true := by
    intro p hp
    obtain ⟨c, hc, rfl⟩ := List.mem_map.mp hp
    exact hd c hc
  rw [takeDigits, List.takeWhile_append_of_pos all, List.dropWhile_append_of_pos all, h.takeWhile,
    h.dropWhile, List.append_nil, Utf8.scalars_ofChars]

theorem takeFraction_end {rest : Text} (h : EndsNumber rest) : takeFraction rest = ([], rest) := by
  cases rest with
  | nil => rfl
  | cons p rest => rcases h with rfl | rfl <;> rfl

theorem takeExponent_end {rest : Text} (h : EndsNumber rest) : takeExponent rest = (none, rest) := by
  cases rest with
  | nil => rfl
  | cons p rest => rcases h with rfl | rfl <;> rfl

/-- A natural number of at most 4300 digits is read back after the sign that was read. -/
theorem readUnsigned_toDigits (negative : Bool) (n : Nat) (hn : n < digitLimit) (rest : Text)
    (h : EndsNumber rest) :
    readUnsigned negative (Text.ofChars (Nat.toDigits 10 n) ++ rest) =
      .ok (.int (if negative then -(n : Int) else n), rest) := by
  have hl : ¬ 4300 < (Nat.toDigits 10 n).length :=
    Nat.not_lt.mpr (Numeral.length_toDigits_le 4300 n (by decide) hn)
  have he : (Nat.toDigits 10 n).isEmpty = false := by simp
  rcases Nat.eq_zero_or_pos n with rfl | hp
  · have hs : Text.ofChars (Nat.toDigits 10 0) ++ rest = .char '0' :: rest := rfl
    rw [hs, readUnsigned.eq_def]
    simp [takeFraction_end h, takeExponent_end h, Numeral.ofDigits]
  · have hz := Numeral.head?_toDigits n hp
    rw [readUnsigned]
    · rw [takeDigits_append _ (Numeral.isDigit_toDigits n) rest h]
      simp only [he, takeFraction_end h, takeExponent_end h, hl, Numeral.ofDigits_toDigits]
      rfl
    · intro more hm
      cases hc : Nat.toDigits 10 n with
      | nil => exact absurd hc Nat.toDigits_ne_nil
      | cons c cs =>
        rw [hc, Text.ofChars, List.map_cons, List.cons_append] at hm
        have hc0 : c = '0' := by simpa using (List.cons.inj hm).1
        rw [hc, hc0] at hz
        exact absurd rfl hz

end SessionKeeper.Json
