import SessionKeeper.Proofs.Json.Number
import SessionKeeper.Time.LaxReader

/-!
# Stored moments are read back

The stored text of a moment has fields of fixed width, so each field ends where the
next begins. Only the offset loses something: it is written to the minute. A moment in
universal time or without an offset comes back as it was.
-/
namespace SessionKeeper

/-- Decimal digits filled with zeros on the left to the given width. -/
def paddedChars (width n : Nat) : List Char :=
  List.replicate (width - (Nat.toDigits 10 n).length) '0' ++ Nat.toDigits 10 n

theorem padded_eq (width n : Nat) : Text.padded width n = Text.ofChars (paddedChars width n) := by
  simp [Text.padded, Text.ofNat, Text.ofString, Text.ofChars, paddedChars]

theorem length_paddedChars (width n : Nat) (hw : 0 < width) (hn : n < 10 ^ width) :
    (paddedChars width n).length = width := by
  have hl := Numeral.length_toDigits_le width n hw hn
  rw [paddedChars, List.length_append, List.length_replicate]
  omega

theorem isDigit_paddedChars (width n : Nat) : ∀ c ∈ paddedChars width n, c.isDigit = true := by
  intro c hc
  rcases List.mem_append.mp hc with hc | hc
  · rw [(List.mem_replicate.mp hc).2]
    rfl
  · exact Numeral.isDigit_toDigits n c hc

theorem ofDigits_paddedChars (width n : Nat) : Numeral.ofDigits (paddedChars width n) = n := by
  have h : ∀ k : Nat, Numeral.ofDigits (List.replicate k '0' ++ Nat.toDigits 10 n) = n := by
    intro k
    induction k with
    | zero => exact Numeral.ofDigits_toDigits n
    | succ k ih =>
      rw [List.replicate_succ, List.cons_append, Numeral.ofDigits, List.foldl_cons]
      exact ih
  exact h _

theorem Date.day_le (date : Date) : date.day ≤ 31 := by
  have hd := date.day_bounds
  have hdays : daysInMonth date.year date.month ≤ 31 := by
    rw [daysInMonth]
    split_ifs <;> decide
  omega

namespace LaxReader

/-- A field is read back, whatever follows it. -/
theorem fixed?_paddedChars (width n : Nat) (hw : 0 < width) (hn : n < 10 ^ width)
    (rest : List Char) : fixed? width (paddedChars width n ++ rest) = some (n, rest) := by
  have hl := length_paddedChars width n hw hn
  have ht : (paddedChars width n ++ rest).take width = paddedChars width n := List.take_left' hl
  have hd : (paddedChars width n ++ rest).drop width = rest := List.drop_left' hl
  have ha : (paddedChars width n).all Char.isDigit = true :=
    List.all_eq_true.mpr (isDigit_paddedChars width n)
  rw [fixed?, ht, hd]
  simp [hl, ha, ofDigits_paddedChars]

@[simp] theorem expect?_self (c : Char) (rest : List Char) : expect? c (c :: rest) = some rest := by
  simp [expect?]

end LaxReader

namespace Moment

/-- The characters of an hour and a minute, given in minutes. -/
def hourMinuteChars (minutes : Nat) : List Char :=
  paddedChars 2 (minutes / 60) ++ ':' :: paddedChars 2 (minutes % 60)

/-- The characters of the fraction of a second. -/
def fractionChars (m : Moment) : List Char :=
  if m.micros = 0 then [] else '.' :: paddedChars 6 m.micros

def offsetChars : Option Int → List Char
  | none => []
  | some 0 => ['Z']
  | some offset => (if offset < 0 then '-' else '+') :: hourMinuteChars (offset.natAbs / 60000000)

def storedChars (m : Moment) : List Char :=
  paddedChars 4 m.date.year ++ '-' :: (paddedChars 2 m.date.month ++ '-' ::
    (paddedChars 2 m.date.day ++ 'T' :: (hourMinuteChars (m.hour * 60 + m.minute) ++ ':' ::
      (paddedChars 2 m.second ++ (m.fractionChars ++ offsetChars m.offset)))))

theorem storedText_eq (m : Moment) : m.storedText = Text.ofChars m.storedChars := by
  have hlocal : m.localText = Text.ofChars (paddedChars 4 m.date.year ++ '-' ::
      (paddedChars 2 m.date.month ++ '-' :: (paddedChars 2 m.date.day ++ 'T' ::
        (hourMinuteChars (m.hour * 60 + m.minute) ++ ':' :: (paddedChars 2 m.second ++
          m.fractionChars))))) := by
    simp only [localText, hourMinuteText, padded_eq, fractionChars, hourMinuteChars]
    split <;> simp [Text.ofChars, Text.ofString]
  unfold storedText storedChars
  split
  · rename_i ho
    rw [hlocal, ho]
    simp [offsetChars]
  · rename_i ho
    rw [hlocal, ho]
    simp [offsetChars, Text.ofChars, Text.ofString]
  · rename_i offset hz ho
    rw [hlocal, ho, offsetChars]
    · simp only [hourMinuteText, padded_eq, hourMinuteChars, signText]
      split <;> simp [Text.ofChars, Text.ofString]
    · exact hz

/-- An offset cut to the minute towards zero, as it is stored. -/
def wholeMinutes (offset : Int) : Int :=
  let size : Int := (offset.natAbs / 60000000 : Nat) * 60000000
  if offset < 0 then -size else size

def stored (m : Moment) : Moment := { m with offset := m.offset.map wholeMinutes }

theorem stored_of_universal (m : Moment) (h : m.offset = none ∨ m.offset = some 0) :
    m.stored = m := by
  obtain ⟨date, tick, offset⟩ := m
  rcases h with rfl | rfl <;> rfl

end Moment

namespace LaxReader

theorem offset?_offsetChars (offset : Option Int)
    (h : ∀ o, offset = some o → o.natAbs < Duration.dayMicros) :
    offset? (Moment.offsetChars offset) = some (offset.map Moment.wholeMinutes) := by
  match offset with
  | none => rfl
  | some o =>
    by_cases hz : o = 0
    · subst hz
      rfl
    · have ho := h o rfl
      rw [Duration.dayMicros] at ho
      have hs : Moment.offsetChars (some o) = (if o < 0 then '-' else '+') ::
          Moment.hourMinuteChars (o.natAbs / 60000000) := by
        rw [Moment.offsetChars]
        intro hc
        exact hz hc
      rw [hs, Option.map_some, Moment.wholeMinutes]
      have hsize : o.natAbs / 60000000 < 1440 := by omega
      generalize o.natAbs / 60000000 = size at hsize
      have hh := fixed?_paddedChars 2 (size / 60) (by decide) (by omega)
      have hm := fixed?_paddedChars 2 (size % 60) (by decide) (by omega) []
      rw [List.append_nil] at hm
      have hsum : ((size / 60 : Nat) : Int) * 60 + ((size % 60 : Nat) : Int) = size := by omega
      have hlast : ¬ (59 < size % 60) ∧ ¬ (23 < size / 60) := by omega
      rw [Moment.hourMinuteChars, offset?]
      · by_cases hn : o < 0
        · simp only [hn, if_true, hh, hm, hlast, hsum, bind, Option.bind]
          rfl
        · simp only [hn, if_false, hh, hm, hlast, hsum, bind, Option.bind]
          rfl
      · intro hc
        have hl := congrArg List.length hc
        simp at hl

theorem not_isDigit_offsetChars (offset : Option Int) :
    (Moment.offsetChars offset).takeWhile Char.isDigit = [] ∧
      (Moment.offsetChars offset).dropWhile Char.isDigit = Moment.offsetChars offset := by
  match offset with
  | none => exact ⟨rfl, rfl⟩
  | some o =>
    by_cases hz : o = 0
    · subst hz
      exact ⟨rfl, rfl⟩
    · rw [Moment.offsetChars]
      · split <;> exact ⟨rfl, rfl⟩
      · intro hc
        exact hz hc

theorem fraction?_offsetChars (offset : Option Int) :
    fraction? (Moment.offsetChars offset) = some (0, Moment.offsetChars offset) := by
  match offset with
  | none => rfl
  | some o =>
    by_cases hz : o = 0
    · subst hz
      rfl
    · rw [Moment.offsetChars]
      · split <;> rfl
      · intro hc
        exact hz hc

theorem fraction?_fractionChars (m : Moment) :
    fraction? (m.fractionChars ++ Moment.offsetChars m.offset) =
      some (m.micros, Moment.offsetChars m.offset) := by
  rw [Moment.fractionChars]
  split_ifs with hz
  · rw [List.nil_append, hz]
    exact fraction?_offsetChars m.offset
  · obtain ⟨htake, hdrop⟩ := not_isDigit_offsetChars m.offset
    have hm : m.micros < 10 ^ 6 := by
      rw [Moment.micros]
      omega
    have hl := length_paddedChars 6 m.micros (by decide) hm
    have hne : (paddedChars 6 m.micros).isEmpty = false := by
      rw [List.isEmpty_eq_false_iff, ← List.length_pos_iff, hl]
      decide
    have hall := isDigit_paddedChars 6 m.micros
    have h1 : (paddedChars 6 m.micros ++ Moment.offsetChars m.offset).takeWhile Char.isDigit =
        paddedChars 6 m.micros := by
      rw [List.takeWhile_append_of_pos hall, htake, List.append_nil]
    have h2 : (paddedChars 6 m.micros ++ Moment.offsetChars m.offset).dropWhile Char.isDigit =
        Moment.offsetChars m.offset := by
      rw [List.dropWhile_append_of_pos hall, hdrop]
    have h3 : (paddedChars 6 m.micros).take 6 = paddedChars 6 m.micros := by
      rw [List.take_of_length_le (by omega)]
    rw [List.cons_append, fraction?]
    simp [h1, h2, h3, hl, hne, ofDigits_paddedChars]

theorem tick?_self (m : Moment) : Moment.tick? m.hour m.minute m.second m.micros = some m.tick := by
  have ht := m.tick.isLt
  have hb : m.hour < 24 ∧ m.minute < 60 ∧ m.second < 60 ∧ m.micros < 1000000 := by
    simp only [Moment.hour, Moment.minute, Moment.second, Moment.micros]
    omega
  rw [Moment.tick?, dif_pos hb]
  congr 1
  apply Fin.ext
  simp only [Moment.hour, Moment.minute, Moment.second, Moment.micros]
  omega

theorem timeParts?_stored (m : Moment)
    (h : ∀ o, m.offset = some o → o.natAbs < Duration.dayMicros) :
    timeParts? (Moment.hourMinuteChars (m.hour * 60 + m.minute) ++ ':' ::
      (paddedChars 2 m.second ++ (m.fractionChars ++ Moment.offsetChars m.offset))) =
      some (m.tick, m.offset.map Moment.wholeMinutes) := by
  have ht := m.tick.isLt
  have hb : m.hour < 24 ∧ m.minute < 60 ∧ m.second < 60 := by
    simp only [Moment.hour, Moment.minute, Moment.second]
    omega
  have hhour : (m.hour * 60 + m.minute) / 60 = m.hour := by omega
  have hminute : (m.hour * 60 + m.minute) % 60 = m.minute := by omega
  rw [Moment.hourMinuteChars, hhour, hminute, List.append_assoc, List.cons_append, timeParts?]
  simp only [fixed?_paddedChars 2 m.hour (by decide) (by omega),
    fixed?_paddedChars 2 m.minute (by decide) (by omega),
    fixed?_paddedChars 2 m.second (by decide) (by omega), seconds?, expect?_self,
    Option.bind_eq_bind, Option.bind_some, List.head?_cons, if_true,
    fraction?_fractionChars, offset?_offsetChars m.offset h, tick?_self]
  rfl

theorem read_storedText (m : Moment) (h : ∀ o, m.offset = some o → o.natAbs < Duration.dayMicros) :
    read (.str m.storedText) = .ok m.stored := by
  have hy := m.date.year_bounds
  have hm := m.date.month_bounds
  have hd := m.date.day_bounds
  have hdays := m.date.day_le
  have hparts : dateParts? m.storedChars = some ((m.date.year, m.date.month, m.date.day), 'T' ::
      (Moment.hourMinuteChars (m.hour * 60 + m.minute) ++ ':' ::
        (paddedChars 2 m.second ++ (m.fractionChars ++ Moment.offsetChars m.offset)))) := by
    rw [Moment.storedChars, dateParts?]
    simp only [fixed?_paddedChars 4 m.date.year (by decide) (by omega),
      fixed?_paddedChars 2 m.date.month (by decide) (by omega),
      fixed?_paddedChars 2 m.date.day (by decide) (by omega), expect?_self,
      Option.bind_eq_bind, Option.bind_some]
    rw [if_pos ⟨hm.1, hm.2, hd.1, hd.2⟩]
  rw [read, Moment.storedText_eq, Text.toChars?_ofChars]
  simp only [ofText, hparts]
  rw [if_pos (by decide), timeParts?_stored m h]
  simp only [assemble, Date.of?_self]
  rfl

end LaxReader

end SessionKeeper
